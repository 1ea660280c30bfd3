import ExprScript.Scope
import Mathlib.Data.List.Forall2

/-!
# Variables

What names mean once a variable is bound or a cursor has moved.

* `Frame.lookup_ofList`: the names of a frame mean the values that they are bound to;
* `Scopes.find?_define`: a name means the binding that it was given last;
* `Scopes.find?_setCursor`: a cursor is moved where the name is bound;
* `Binding.Moved`, `Frame.Moved`, `Scopes.Moved`: **what evaluation may do to the variables that are
  there before it**;
* `Scopes.moved_setCursor`: moving a cursor is within that;
* `Scopes.Moved.find?`: what a name means has moved on at most.
-/

namespace ExprScript

/-! ## Variables that are bound -/

theorem Frame.lookup_cons (e : String × Binding) (f : Frame) (name : String) :
    List.lookup name (e :: f) = if name = e.1 then some e.2 else f.lookup name := by
  rw [List.lookup_cons]
  by_cases h : name = e.1
  · rw [if_pos h, h, beq_self_eq_true]
  · rw [if_neg h, beq_false_of_ne h]

theorem Frame.lookup_insert (f : Frame) (name : String) (b : Binding) (name' : String) :
    (Frame.insert name b f).lookup name' = if name' = name then some b else f.lookup name' := by
  induction f with
  | nil => rw [Frame.insert, Frame.lookup_cons]
  | cons e f ih =>
    rw [Frame.insert, Frame.lookup_cons e f]
    by_cases he : e.1 = name
    · rw [if_pos he, Frame.lookup_cons, he]
      split <;> rfl
    · rw [if_neg he, Frame.lookup_cons, ih]
      by_cases h : name' = name
      · have hne : name' ≠ e.1 := fun h' => he (h'.symm.trans h)
        rw [if_neg hne, if_pos h, if_pos h]
      · rw [if_neg h, if_neg h]

/-- Names that are bound leave other names alone. -/
theorem Frame.lookup_foldl_insert {entries : List (String × Value)} {name : String}
    (h : name ∉ entries.map Prod.fst) (f : Frame) :
    (entries.foldl (fun f e => Frame.insert e.1 ⟨e.2, none⟩ f) f).lookup name = f.lookup name := by
  induction entries generalizing f with
  | nil => rfl
  | cons e entries ih =>
    rw [List.map_cons, List.mem_cons, not_or] at h
    rw [List.foldl_cons, ih h.2, Frame.lookup_insert, if_neg h.1]

/-- **Names that are bound one after the other mean their values**, if they are different. -/
theorem Frame.lookup_ofList {names : List String} (hn : names.Nodup) {values : List Value} {i : Nat}
    {name : String} {v : Value} (hname : names[i]? = some name) (hv : values[i]? = some v) :
    (Frame.ofList (names.zip values)).lookup name = some ⟨v, none⟩ := by
  unfold Frame.ofList
  generalize ([] : Frame) = f
  induction names generalizing values i f with
  | nil => cases hname
  | cons first names ih =>
    cases values with
    | nil => cases hv
    | cons w values =>
      obtain ⟨hfirst, hrest⟩ := List.nodup_cons.mp hn
      rw [List.zip_cons_cons, List.foldl_cons]
      cases i with
      | zero =>
        obtain rfl := Option.some.inj hname
        obtain rfl := Option.some.inj hv
        have hmem : first ∉ (names.zip values).map Prod.fst := fun hm => by
          obtain ⟨e, he, rfl⟩ := List.mem_map.mp hm
          exact hfirst (List.of_mem_zip he).1
        rw [Frame.lookup_foldl_insert hmem, Frame.lookup_insert, if_pos rfl]
      | succ i => exact ih hrest hname hv _

theorem Scopes.find?_define (s : Scopes) (name : String) (v : Value) (name' : String) :
    (s.define name v).find? name' = if name' = name then some ⟨v, none⟩ else s.find? name' := by
  cases s with
  | nil =>
    rw [define, find?, List.findSome?_cons, Frame.lookup_insert]
    by_cases h : name' = name <;> simp [h, find?]
  | cons f s =>
    rw [define, find?, find?, List.findSome?_cons, List.findSome?_cons, Frame.lookup_insert]
    by_cases h : name' = name <;> simp [h]

theorem Scopes.find?_cons (frame : Frame) (s : Scopes) (name : String) :
    Scopes.find? (frame :: s) name = (frame.lookup name).or (s.find? name) := by
  rw [find?, List.findSome?_cons]
  cases frame.lookup name <;> rfl

theorem Scopes.find?_setCursor (s : Scopes) (name : String) (position : Nat) (name' : String) :
    (s.setCursor name position).find? name' =
      if name' = name then (s.find? name).map fun b => { b with cursor := some position }
      else s.find? name' := by
  induction s with
  | nil => split <;> rfl
  | cons frame s ih =>
    rw [setCursor]
    cases hl : frame.lookup name with
    | some b =>
      rw [find?_cons, find?_cons, find?_cons, Frame.lookup_insert, hl]
      by_cases hn : name' = name <;> simp [hn]
    | none =>
      rw [find?_cons, find?_cons, find?_cons, ih, hl]
      by_cases hn : name' = name
      · subst hn
        simp [hl]
      · simp [hn]

theorem Scopes.length_setCursor (name : String) (position : Nat) (s : Scopes) :
    (s.setCursor name position).length = s.length := by
  induction s with
  | nil => rfl
  | cons f s ih =>
    rw [setCursor]
    split
    · rfl
    · exact congrArg (· + 1) ih

/-! ## Variables that only move on -/

/-- What may happen to a variable: its value stays, and so does its cursor, unless it is a vector,
whose cursor may move forward, but not past the last element. -/
structure Binding.Moved (b b' : Binding) : Prop where
  value : b'.value = b.value
  forward : ∀ i, b.cursor = some i → ∃ j, b'.cursor = some j ∧ i ≤ j
  within : ∀ elements, b.value = .vector elements → (∀ i, b.cursor = some i → i < elements.length) →
    ∀ j, b'.cursor = some j → j < elements.length
  fixed : (∀ elements, b.value ≠ .vector elements) → b'.cursor = b.cursor

namespace Binding.Moved

theorem refl (b : Binding) : b.Moved b := ⟨rfl, fun i h => ⟨i, h, Nat.le_refl i⟩, fun _ _ h => h,
  fun _ => rfl⟩

theorem trans {b₁ b₂ b₃ : Binding} (h : b₁.Moved b₂) (h' : b₂.Moved b₃) : b₁.Moved b₃ where
  value := h'.value.trans h.value
  forward i hi := by
    obtain ⟨j, hj, hij⟩ := h.forward i hi
    obtain ⟨k, hk, hjk⟩ := h'.forward j hj
    exact ⟨k, hk, Nat.le_trans hij hjk⟩
  within elements he hw := h'.within elements (h.value.trans he) (h.within elements he hw)
  fixed hv := (h'.fixed fun elements => by rw [h.value]; exact hv elements).trans (h.fixed hv)

/-- The cursor of a vector moves on to an element behind it. -/
theorem setCursor {elements : List Value} {cursor : Option Nat} {position : Nat}
    (hp : position < elements.length) (hc : ∀ i, cursor = some i → i ≤ position) :
    Moved ⟨.vector elements, cursor⟩ ⟨.vector elements, some position⟩ where
  value := rfl
  forward i hi := ⟨position, rfl, hc i hi⟩
  within _ he _ j hj := by
    cases he
    cases hj
    exact hp
  fixed hv := absurd rfl (hv elements)

end Binding.Moved

/-- The names of a frame stay, and their variables only move on. -/
def Frame.Moved : Frame → Frame → Prop :=
  List.Forall₂ fun e e' => e'.1 = e.1 ∧ e.2.Moved e'.2

/-- The frames stay, and their variables only move on. -/
def Scopes.Moved : Scopes → Scopes → Prop := List.Forall₂ Frame.Moved

/-- A relation on the elements of lists is transitive if it is on each of them. -/
theorem forall₂_trans {α : Type} {R : α → α → Prop} (hR : ∀ {a b c}, R a b → R b c → R a c)
    {l₁ l₂ l₃ : List α} (h : List.Forall₂ R l₁ l₂) (h' : List.Forall₂ R l₂ l₃) :
    List.Forall₂ R l₁ l₃ := by
  induction h generalizing l₃ with
  | nil => exact h'
  | cons hab _ ih =>
    cases h' with
    | cons hbc h' => exact .cons (hR hab hbc) (ih h')

theorem Frame.Moved.refl (f : Frame) : Frame.Moved f f :=
  List.forall₂_same.mpr fun e _ => ⟨rfl, .refl e.2⟩

theorem Frame.Moved.trans {f₁ f₂ f₃ : Frame} (h : Frame.Moved f₁ f₂) (h' : Frame.Moved f₂ f₃) :
    Frame.Moved f₁ f₃ :=
  forall₂_trans (fun he he' => ⟨he'.1.trans he.1, he.2.trans he'.2⟩) h h'

theorem Scopes.Moved.refl (s : Scopes) : Scopes.Moved s s :=
  List.forall₂_same.mpr fun f _ => .refl f

theorem Scopes.Moved.trans {s₁ s₂ s₃ : Scopes} (h : Scopes.Moved s₁ s₂) (h' : Scopes.Moved s₂ s₃) :
    Scopes.Moved s₁ s₃ :=
  forall₂_trans (R := Frame.Moved) Frame.Moved.trans h h'

theorem Frame.moved_insert {f : Frame} {name : String} {b b' : Binding}
    (h : f.lookup name = some b) (hb : b.Moved b') : Frame.Moved f (Frame.insert name b' f) := by
  induction f with
  | nil => cases h
  | cons e f ih =>
    rw [Frame.lookup_cons] at h
    rw [Frame.insert]
    by_cases hn : e.1 = name
    · rw [if_pos hn.symm] at h
      rw [if_pos hn]
      obtain rfl := Option.some.inj h
      exact .cons ⟨hn.symm, hb⟩ (Frame.Moved.refl f)
    · rw [if_neg (Ne.symm hn)] at h
      rw [if_neg hn]
      exact .cons ⟨rfl, .refl e.2⟩ (ih h)

/-- Moving the cursor of the binding that a name means changes no other binding. -/
theorem Scopes.moved_setCursor {s : Scopes} {name : String} {b : Binding} {position : Nat}
    (h : s.find? name = some b) (hb : b.Moved { b with cursor := some position }) :
    Scopes.Moved s (s.setCursor name position) := by
  induction s with
  | nil => exact .nil
  | cons f s ih =>
    rw [find?, List.findSome?_cons] at h
    rw [setCursor]
    cases hl : f.lookup name with
    | some b' =>
      rw [hl] at h
      obtain rfl := Option.some.inj h
      exact .cons (Frame.moved_insert hl hb) (Scopes.Moved.refl s)
    | none =>
      rw [hl] at h
      exact .cons (Frame.Moved.refl f) (ih h)

/-! ## Names of variables that have moved on -/

/-- What is found by a name stays where variables only move on. -/
theorem Frame.Moved.lookup {f f' : Frame} (h : Frame.Moved f f') (name : String) :
    (f.lookup name = none ∧ f'.lookup name = none) ∨
      ∃ b b', f.lookup name = some b ∧ f'.lookup name = some b' ∧ b.Moved b' := by
  induction h with
  | nil => exact .inl ⟨rfl, rfl⟩
  | cons he _ ih =>
    rw [Frame.lookup_cons, Frame.lookup_cons, he.1]
    split
    · exact .inr ⟨_, _, rfl, rfl, he.2⟩
    · exact ih

theorem Scopes.Moved.find? {s s' : Scopes} (h : Scopes.Moved s s') {name : String} {b : Binding}
    (hb : s.find? name = some b) : ∃ b', s'.find? name = some b' ∧ b.Moved b' := by
  induction h with
  | nil => cases hb
  | cons hf _ ih =>
    rw [Scopes.find?, List.findSome?_cons] at hb ⊢
    obtain ⟨h₁, h₂⟩ | ⟨b₁, b₂, h₁, h₂, hm⟩ := hf.lookup name
    · rw [h₁] at hb
      rw [h₂]
      exact ih hb
    · rw [h₁] at hb
      rw [h₂]
      cases hb
      exact ⟨b₂, rfl, hm⟩

end ExprScript
