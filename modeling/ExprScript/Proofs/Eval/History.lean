import ExprScript.Proofs.Eval.Follow
import ExprScript.Proofs.Eval.Variables
import Mathlib.Data.List.Nodup

/-!
# What cursors have done

A vector's cursor belongs to the binding that `next` finds under the name, so what it does is told by
the history of an evaluation: the bindings that have been made, and what `next` has taken from each of
them. Over such histories as a memory, the evaluator keeps no cursors at all. It finds out where a
cursor stands by counting what has been taken from the binding.

* `History`: a history, **in which elements are taken in order**, whatever else happens;
* `Memory.histories`: the histories as a memory;
* `History.Tells`: a history tells what the frames hold, cursors included;
* `History.ofScopes`: the history in which nothing has been taken yet;
* `History.Grown`: what an evaluation adds to a history;
* **`Expr.endAlike_histories`**: evaluation is that over histories.
-/

namespace ExprScript

/-! ## Histories -/

/-- The elements that a cursor has still to come to. -/
def Binding.ahead (b : Binding) : List Value :=
  match b.value with
  | .vector elements => elements.drop (Binding.following b.cursor)
  | _ => []

/-- What is ahead of the cursors of bindings when they are made. -/
def aheadOf (made : List Binding) (i : Nat) : List Value := (made[i]?.map Binding.ahead).getD []

/-- What has been taken from one binding, the oldest first. -/
def takenOf (taken : List (Nat × Value)) (i : Nat) : List Value :=
  (taken.filter (·.1 = i)).map Prod.snd

/-- **The history of an evaluation**: the bindings that have been made so far, the oldest first, which
of them the names in the open frames stand for, and what has been taken from which of them by `next`,
the oldest first. No binding has two names, and from each the elements ahead are taken in order. -/
structure History where
  made : List Binding
  names : List (List (String × Nat))
  taken : List (Nat × Value)
  known : ∀ e ∈ names.flatten, e.2 < made.length
  apart : (names.flatten.map Prod.snd).Nodup
  inOrder : ∀ i, takenOf taken i <+: aheadOf made i

theorem takenOf_append (taken : List (Nat × Value)) (i : Nat) (x : Value) (j : Nat) :
    takenOf (taken ++ [(i, x)]) j = if j = i then takenOf taken j ++ [x] else takenOf taken j := by
  by_cases h : j = i
  · subst h
    simp [takenOf]
  · simp [takenOf, h, Ne.symm h]

theorem aheadOf_append (made : List Binding) (b : Binding) (i : Nat) :
    aheadOf (made ++ [b]) i = if i = made.length then b.ahead else aheadOf made i := by
  unfold aheadOf
  by_cases hlt : i < made.length
  · rw [List.getElem?_append_left hlt, if_neg (Nat.ne_of_lt hlt)]
  · by_cases he : i = made.length
    · subst he
      simp
    · have hgt : made.length < i := by omega
      rw [if_neg he, List.getElem?_eq_none (by simp; omega), List.getElem?_eq_none (by omega)]

/-- Elements that were taken in order are followed by the next one. -/
theorem append_prefix_of_getElem? {l l' : List Value} (h : l <+: l') {x : Value}
    (hx : l'[l.length]? = some x) : l ++ [x] <+: l' := by
  obtain ⟨rest, rfl⟩ := h
  rw [List.getElem?_append_right (Nat.le_refl _), Nat.sub_self] at hx
  cases rest with
  | nil => cases hx
  | cons y rest =>
    obtain rfl : y = x := Option.some.inj hx
    exact ⟨rest, by simp⟩

namespace History

variable (h : History)

/-- What has been taken from a binding. -/
def takenFrom (i : Nat) : List Value := takenOf h.taken i

/-- The binding that a name stands for. -/
def tag? (name : String) : Option Nat := h.names.findSome? (·.lookup name)

/-- Where a cursor stands when a number of elements has been taken. -/
def cursorAfter (cursor : Option Nat) : Nat → Option Nat
  | 0 => cursor
  | n + 1 => some (Binding.following cursor + n)

/-- What has become of a binding: its cursor stands behind what has been taken. -/
def binding? (i : Nat) : Option Binding :=
  h.made[i]?.map fun b => { b with cursor := cursorAfter b.cursor (h.takenFrom i).length }

/-- Nothing has been taken from a binding that is still to be made. -/
theorem takenFrom_length_made : h.takenFrom h.made.length = [] := by
  have hprefix := h.inOrder h.made.length
  have hnone : aheadOf h.made h.made.length = [] := by simp [aheadOf]
  rw [hnone] at hprefix
  exact List.prefix_nil.mp hprefix

/-- The history of an evaluation that has done nothing. -/
def empty : History := ⟨[], [], [], by simp, by simp, by simp [takenOf]⟩

/-- A frame has been opened. -/
def push : History := { h with names := [] :: h.names }

theorem flatten_tail (names : List (List (String × Nat))) :
    names.tail.flatten.Sublist names.flatten := by
  cases names with
  | nil => exact .refl _
  | cons frame rest => exact List.sublist_append_right frame rest.flatten

/-- The innermost frame has been closed. -/
def pop : History where
  made := h.made
  names := h.names.tail
  taken := h.taken
  known e he := h.known e ((flatten_tail h.names).subset he)
  apart := h.apart.sublist ((flatten_tail h.names).map Prod.snd)
  inOrder := h.inOrder

/-- The names with one more in the innermost frame. -/
def addName (name : String) (i : Nat) : List (List (String × Nat)) → List (List (String × Nat))
  | [] => [[(name, i)]]
  | frame :: rest => ((name, i) :: frame) :: rest

theorem flatten_addName (name : String) (i : Nat) (names : List (List (String × Nat))) :
    (addName name i names).flatten = (name, i) :: names.flatten := by
  cases names <;> rfl

/-- A binding has been made in the innermost frame. -/
def add (name : String) (b : Binding) : History where
  made := h.made ++ [b]
  names := addName name h.made.length h.names
  taken := h.taken
  known e he := by
    rw [flatten_addName, List.mem_cons] at he
    rw [List.length_append, List.length_singleton]
    obtain rfl | he := he
    · exact Nat.lt_succ_self _
    · exact Nat.lt_succ_of_lt (h.known e he)
  apart := by
    rw [flatten_addName, List.map_cons, List.nodup_cons]
    refine ⟨fun hmem => ?_, h.apart⟩
    obtain ⟨e, he, hi⟩ := List.mem_map.mp hmem
    exact Nat.lt_irrefl _ (hi ▸ h.known e he)
  inOrder i := by
    rw [aheadOf_append]
    split
    · next hi =>
      have hnone : takenOf h.taken i = [] := hi ▸ h.takenFrom_length_made
      rw [hnone]
      exact List.nil_prefix
    · exact h.inOrder i

/-- The element that comes next has been taken from a binding. -/
def take (i : Nat) (x : Value) (hx : (aheadOf h.made i)[(h.takenFrom i).length]? = some x) :
    History where
  made := h.made
  names := h.names
  taken := h.taken ++ [(i, x)]
  known := h.known
  apart := h.apart
  inOrder j := by
    rw [takenOf_append]
    split
    · next hj =>
      rw [hj]
      exact append_prefix_of_getElem? (h.inOrder i) hx
    · exact h.inOrder j

/-- The next element of a binding has been taken, if there is one. -/
def advance (i : Nat) : History :=
  match hx : (aheadOf h.made i)[(h.takenFrom i).length]? with
  | some x => h.take i x hx
  | none => h

theorem advance_eq {i : Nat} {x : Value}
    (hx : (aheadOf h.made i)[(h.takenFrom i).length]? = some x) : h.advance i = h.take i x hx := by
  unfold advance
  split
  · next y hy =>
    obtain rfl : y = x := Option.some.inj (hy.symm.trans hx)
    rfl
  · next hnone => rw [hnone] at hx; cases hx

end History

/-- **The histories as a memory.** Binding a name makes a new binding; all that is kept of the move of a
cursor is what has been taken. -/
def Memory.histories : Memory History where
  find? h name := (h.tag? name).bind h.binding?
  setCursor name _ h := (h.tag? name).elim h h.advance
  define name v h := h.add name ⟨v, none⟩
  opened bound h := bound.foldl (fun h e => h.add e.1 ⟨e.2, none⟩) h.push
  closed _ h := h.pop

namespace History

/-! ## Histories and frames side by side -/

/-- The names of a frame have the bindings that they stand for. -/
def Reads (g : Nat → Option Binding) (frame : Frame) (names : List (String × Nat)) : Prop :=
  ∀ name, frame.lookup name = (names.lookup name).bind g

theorem mem_of_lookup {names : List (String × Nat)} {name : String} {i : Nat}
    (h : names.lookup name = some i) : (name, i) ∈ names := by
  induction names with
  | nil => cases h
  | cons e names ih =>
    rw [List.lookup_cons] at h
    by_cases hn : name = e.1
    · rw [hn, beq_self_eq_true] at h
      obtain rfl := Option.some.inj h
      exact hn ▸ List.mem_cons_self
    · rw [beq_false_of_ne hn] at h
      exact List.mem_cons_of_mem e (ih h)

theorem mem_of_findSome? {names : List (List (String × Nat))} {name : String} {i : Nat}
    (h : names.findSome? (·.lookup name) = some i) : (name, i) ∈ names.flatten := by
  obtain ⟨entries, hmem, hl⟩ := List.exists_of_findSome?_eq_some h
  exact List.mem_flatten.mpr ⟨entries, hmem, mem_of_lookup hl⟩

theorem Reads.congr {g g' : Nat → Option Binding} {frame : Frame} {names : List (String × Nat)}
    (h : Reads g frame names) (hg : ∀ e ∈ names, g' e.2 = g e.2) : Reads g' frame names := by
  intro name
  rw [h name]
  cases hl : names.lookup name with
  | none => rfl
  | some i => exact (hg _ (mem_of_lookup hl)).symm

section Frames

variable {g g' : Nat → Option Binding} {s : Scopes} {names : List (List (String × Nat))}

theorem reads_congr (h : List.Forall₂ (Reads g) s names)
    (hg : ∀ e ∈ names.flatten, g' e.2 = g e.2) : List.Forall₂ (Reads g') s names := by
  induction h with
  | nil => exact .nil
  | cons hf _ ih =>
    rw [List.flatten_cons, List.forall_mem_append] at hg
    exact .cons (hf.congr hg.1) (ih hg.2)

/-- The innermost binding of a name is the one that it stands for. -/
theorem find?_of_reads (h : List.Forall₂ (Reads g) s names)
    (hg : ∀ e ∈ names.flatten, (g e.2).isSome) (name : String) :
    (names.findSome? (·.lookup name)).bind g = s.find? name := by
  induction h with
  | nil => rfl
  | @cons frame entries s names hf _ ih =>
    rw [List.flatten_cons, List.forall_mem_append] at hg
    rw [Scopes.find?_cons, hf name, List.findSome?_cons]
    cases hl : entries.lookup name with
    | none => exact ih hg.2
    | some i =>
      obtain ⟨b, hb⟩ := Option.isSome_iff_exists.mp (hg.1 _ (mem_of_lookup hl))
      show g i = (g i).or (Scopes.find? s name)
      rw [hb]
      rfl

/-- **The cursor that is moved is that of the binding that the name stands for**, as every binding has
one name only. -/
theorem reads_setCursor (h : List.Forall₂ (Reads g) s names)
    (hapart : (names.flatten.map Prod.snd).Nodup) {name : String} {i position : Nat} {b : Binding}
    (hi : names.findSome? (·.lookup name) = some i) (hb : g i = some b)
    (hg : ∀ j, g' j = if j = i then some { b with cursor := some position } else g j) :
    List.Forall₂ (Reads g') (s.setCursor name position) names := by
  induction h with
  | nil => cases hi
  | @cons frame entries s names hf h ih =>
    rw [List.flatten_cons, List.map_append] at hapart
    obtain ⟨hentries, hnames, hdisjoint⟩ := List.nodup_append'.mp hapart
    rw [List.findSome?_cons] at hi
    rw [Scopes.setCursor, hf name]
    cases hl : entries.lookup name with
    | some k =>
      rw [hl] at hi
      obtain rfl : k = i := Option.some.inj hi
      have hmem : (name, k) ∈ entries := mem_of_lookup hl
      rw [Option.bind_some, hb]
      refine .cons (fun name' => ?_) (reads_congr h fun e he => ?_)
      · rw [Frame.lookup_insert]
        by_cases hn : name' = name
        · rw [if_pos hn, hn, hl, Option.bind_some, hg, if_pos rfl]
        · rw [if_neg hn, hf name']
          cases hl' : entries.lookup name' with
          | none => rfl
          | some j =>
            have hne : j ≠ k := fun hj => hn
              (congrArg Prod.fst (List.inj_on_of_nodup_map hentries (mem_of_lookup hl') hmem hj))
            rw [Option.bind_some, Option.bind_some, hg, if_neg hne]
      · have hne : e.2 ≠ k := fun he' =>
          hdisjoint (List.mem_map_of_mem hmem) (List.mem_map.mpr ⟨e, he, he'⟩)
        rw [hg, if_neg hne]
    | none =>
      rw [hl] at hi
      refine .cons (hf.congr fun e he => ?_) (ih hnames hi)
      -- the binding has its name further out, so it has none here
      have hne : e.2 ≠ i := fun he' =>
        hdisjoint (List.mem_map.mpr ⟨e, he, he'⟩) (List.mem_map_of_mem (mem_of_findSome? hi))
      rw [hg, if_neg hne]

end Frames

/-- **A history tells what the frames hold**, cursors included. -/
def Tells (h : History) (s : Scopes) : Prop := List.Forall₂ (Reads h.binding?) s h.names

/-! ## What becomes of bindings -/

variable (h : History)

theorem isSome_binding? {i : Nat} (hi : i < h.made.length) : (h.binding? i).isSome := by
  rw [binding?, List.getElem?_eq_getElem hi]
  rfl

theorem binding?_add (name : String) (b : Binding) (i : Nat) :
    (h.add name b).binding? i = if i = h.made.length then some b else h.binding? i := by
  show ((h.made ++ [b])[i]?.map fun b =>
    { b with cursor := cursorAfter b.cursor (h.takenFrom i).length }) = _
  by_cases he : i = h.made.length
  · rw [if_pos he, he, h.takenFrom_length_made]
    simp [cursorAfter]
  · rw [if_neg he, binding?, List.getElem?_append]
    split
    · rfl
    · next hlt =>
      have hgt : h.made.length < i := by omega
      rw [List.getElem?_eq_none (by simp; omega), List.getElem?_eq_none (Nat.le_of_lt hgt)]

theorem takenFrom_take {i : Nat} {x : Value}
    (hx : (aheadOf h.made i)[(h.takenFrom i).length]? = some x) (j : Nat) :
    (h.take i x hx).takenFrom j = if j = i then h.takenFrom j ++ [x] else h.takenFrom j :=
  takenOf_append h.taken i x j

/-- An element that is taken moves the cursor of its own binding, by one. -/
theorem binding?_take {i : Nat} {b : Binding} (hb : h.made[i]? = some b) {x : Value}
    (hx : (aheadOf h.made i)[(h.takenFrom i).length]? = some x) (j : Nat) :
    (h.take i x hx).binding? j =
      if j = i then some { b with cursor := some (Binding.following b.cursor + (h.takenFrom i).length) }
      else h.binding? j := by
  rw [binding?, takenFrom_take]
  show (h.made[j]?.map fun b => _) = _
  by_cases hj : j = i
  · rw [if_pos hj, if_pos hj, hj, hb]
    simp [cursorAfter]
  · rw [if_neg hj, if_neg hj]
    rfl

theorem following_cursorAfter (cursor : Option Nat) (n : Nat) :
    Binding.following (cursorAfter cursor n) = Binding.following cursor + n := by
  cases n <;> rfl

/-- What the cursor of a vector comes to is what is ahead of it. -/
theorem getElem?_ahead {i : Nat} {elements : List Value} {cursor : Option Nat}
    (hb : h.binding? i = some ⟨.vector elements, cursor⟩) :
    ∃ b, h.made[i]? = some b ∧ b.value = .vector elements ∧
      Binding.following cursor = Binding.following b.cursor + (h.takenFrom i).length ∧
      (aheadOf h.made i)[(h.takenFrom i).length]? = elements[Binding.following cursor]? := by
  obtain ⟨b, hmade, hnow⟩ := Option.map_eq_some_iff.mp hb
  obtain ⟨hvalue, hcursor⟩ := Binding.mk.inj hnow
  have hfollowing : Binding.following cursor =
      Binding.following b.cursor + (h.takenFrom i).length := by
    rw [← hcursor, following_cursorAfter]
  refine ⟨b, hmade, hvalue, hfollowing, ?_⟩
  have hahead : aheadOf h.made i = elements.drop (Binding.following b.cursor) := by
    rw [aheadOf, hmade, Option.map_some, Option.getD_some, Binding.ahead, hvalue]
  rw [hahead, List.getElem?_drop, hfollowing]

namespace Tells

variable {h : History} {s : Scopes}

theorem find? (hs : h.Tells s) (name : String) : (h.tag? name).bind h.binding? = s.find? name :=
  find?_of_reads hs (fun e he => h.isSome_binding? (h.known e he)) name

theorem push (hs : h.Tells s) : h.push.Tells ([] :: s) := .cons (fun _ => rfl) hs

theorem pop (hs : h.Tells s) : h.pop.Tells s.tail := by
  show List.Forall₂ (Reads h.binding?) s.tail h.names.tail
  rw [← List.drop_one, ← List.drop_one]
  exact List.forall₂_drop 1 hs

/-- A binding that is made is found under its name. -/
theorem add {frame frame' : Frame} (hs : h.Tells (frame :: s)) {name : String} {b : Binding}
    (hframe : ∀ name', frame'.lookup name' = if name' = name then some b else frame.lookup name') :
    (h.add name b).Tells (frame' :: s) := by
  obtain ⟨entries, names, hentries, hrest, hnames⟩ := List.forall₂_cons_left_iff.mp hs
  have hknown : ∀ e ∈ h.names.flatten, (h.add name b).binding? e.2 = h.binding? e.2 := fun e he => by
    rw [binding?_add, if_neg (Nat.ne_of_lt (h.known e he))]
  rw [hnames, List.flatten_cons, List.forall_mem_append] at hknown
  show List.Forall₂ _ _ (addName name h.made.length h.names)
  rw [hnames]
  refine .cons (fun name' => ?_) (reads_congr hrest hknown.2)
  rw [hframe, List.lookup_cons]
  by_cases hn : name' = name
  · rw [if_pos hn, hn, beq_self_eq_true]
    show some b = (h.add name b).binding? h.made.length
    rw [binding?_add, if_pos rfl]
  · rw [if_neg hn, beq_false_of_ne hn]
    exact hentries.congr hknown.1 name'

theorem foldl_add (bound : List (String × Value)) {frame : Frame} (hs : h.Tells (frame :: s)) :
    (bound.foldl (fun h e => h.add e.1 ⟨e.2, none⟩) h).Tells
      (bound.foldl (fun frame e => Frame.insert e.1 ⟨e.2, none⟩ frame) frame :: s) := by
  induction bound generalizing h frame with
  | nil => exact hs
  | cons e bound ih => exact ih (hs.add (frame.lookup_insert e.1 ⟨e.2, none⟩))

/-- **An element that is taken moves the cursor on.** -/
theorem take (hs : h.Tells s) {name : String} {i : Nat} (hi : h.tag? name = some i)
    {elements : List Value} {cursor : Option Nat}
    (hb : h.binding? i = some ⟨.vector elements, cursor⟩) {x : Value}
    (hx : (aheadOf h.made i)[(h.takenFrom i).length]? = some x) :
    (h.take i x hx).Tells (s.setCursor name (Binding.following cursor)) := by
  obtain ⟨b, hmade, hvalue, hfollowing, -⟩ := h.getElem?_ahead hb
  refine reads_setCursor hs h.apart hi hb fun j => ?_
  rw [binding?_take h hmade hx, ← hfollowing, ← hvalue]

end Tells

/-! ## The history of frames -/

/-- The history in which the bindings of frames have been made and nothing has been taken. -/
def ofScopes : Scopes → History
  | [] => empty
  | frame :: s => frame.foldr (fun e h => h.add e.1 e.2) (ofScopes s).push

theorem tells_ofScopes (s : Scopes) : (ofScopes s).Tells s := by
  induction s with
  | nil => exact .nil
  | cons frame s ih =>
    unfold ofScopes
    induction frame with
    | nil => exact ih.push
    | cons e frame ihf => exact ihf.add (Frame.lookup_cons e frame)

/-- **What an evaluation adds to a history**: bindings whose cursors have not moved, and what has been
taken. -/
structure Grown (h h' : History) : Prop where
  made : ∃ new, h'.made = h.made ++ new ∧ ∀ b ∈ new, b.cursor = none
  taken : h.taken <+: h'.taken

namespace Grown

variable {h h' : History}

theorem refl (h : History) : h.Grown h := ⟨⟨[], by simp, by simp⟩, List.prefix_refl _⟩

theorem add (hg : h.Grown h') (name : String) (v : Value) : h.Grown (h'.add name ⟨v, none⟩) := by
  obtain ⟨⟨new, hnew, hcursors⟩, htaken⟩ := hg
  refine ⟨⟨new ++ [⟨v, none⟩], ?_, ?_⟩, htaken⟩
  · show h'.made ++ [⟨v, none⟩] = _
    rw [hnew, List.append_assoc]
  · intro b hb
    obtain hb | hb := List.mem_append.mp hb
    · exact hcursors b hb
    · rw [List.mem_singleton.mp hb]

theorem foldl_add (bound : List (String × Value)) (hg : h.Grown h') :
    h.Grown (bound.foldl (fun h e => h.add e.1 ⟨e.2, none⟩) h') := by
  induction bound generalizing h' with
  | nil => exact hg
  | cons e bound ih => exact ih (hg.add e.1 e.2)

theorem take (hg : h.Grown h') {i : Nat} {x : Value}
    (hx : (aheadOf h'.made i)[(h'.takenFrom i).length]? = some x) : h.Grown (h'.take i x hx) :=
  ⟨hg.made, hg.taken.trans (List.prefix_append h'.taken [(i, x)])⟩

end Grown

/-- **The invariant.** The frames are told, and at least those are open that evaluation has opened. -/
structure Kept (h₀ : History) (before : List History) (s : Scopes) (h : History) : Prop where
  tells : h.Tells s
  grown : h₀.Grown h
  opened : before.length ≤ s.length

theorem keepsAmong_kept (h₀ : History) :
    Memory.histories.KeepsAmong (fun _ => true) (Kept h₀) where
  find? hf name _ := hf.tells.find? name
  setCursor {before s h} hf name _ elements cursor hb hp := by
    rw [← hf.tells.find? name, Option.bind_eq_some_iff] at hb
    obtain ⟨i, hi, hb⟩ := hb
    obtain ⟨-, -, -, -, hahead⟩ := h.getElem?_ahead hb
    have hx := hahead.trans (List.getElem?_eq_getElem hp)
    show Kept h₀ before _ ((h.tag? name).elim h h.advance)
    rw [hi, Option.elim_some, h.advance_eq hx]
    refine ⟨hf.tells.take hi hb hx, hf.grown.take hx, ?_⟩
    rw [Scopes.length_setCursor]
    exact hf.opened
  define {before h₁ s h} hf name v := by
    obtain ⟨htells, hgrown, hopened⟩ := hf
    cases s with
    | nil => cases hopened
    | cons frame s =>
      exact ⟨htells.add (frame.lookup_insert name ⟨v, none⟩), hgrown.add name v, hopened⟩
  opened {before s h} hf bound := by
    refine ⟨hf.tells.push.foldl_add bound, .foldl_add bound ⟨hf.grown.made, hf.grown.taken⟩, ?_⟩
    exact Nat.succ_le_succ hf.opened
  closed {before h₁ s h} hf := by
    refine ⟨hf.tells.pop, ⟨hf.grown.made, hf.grown.taken⟩, ?_⟩
    rw [List.length_tail]
    exact Nat.le_sub_one_of_lt hf.opened

end History

/-- **Evaluation is that over histories.** From frames that a history tells, both end alike, and what the
history has grown to tells the frames again. -/
theorem Expr.endAlike_histories (setting : Setting) (calls : Nat) (e : Expr) {h : History} {m : Machine}
    (hm : h.Tells m.scopes) :
    EndAlike (fun s h' => h'.Tells s ∧ h.Grown h') (e.evalAt setting calls m)
      (Memory.histories.evalAt setting calls e
        ⟨h, m.callDepth, m.printRequested, m.generator⟩) := by
  have hstart : m.Alike (History.Kept h []) ⟨h, m.callDepth, m.printRequested, m.generator⟩ :=
    ⟨⟨hm, .refl h, Nat.zero_le _⟩, rfl, rfl, rfl⟩
  obtain ⟨m', t, hend, hr⟩ := EndAlike.of_ends (e.follows_evalAt_among (History.keepsAmong_kept h)
    (.refl (fun _ => False) setting) setting.functions.readsOnly_all (.refl _ calls) []
    e.readsOnly_all m _ hstart) fun _ _ _ => id
  obtain ⟨hkept, hcalls, hprint, hgenerator⟩ := hend
  exact ⟨m', t, ⟨⟨hkept.tells, hkept.grown⟩, hcalls, hprint, hgenerator⟩, hr⟩

end ExprScript
