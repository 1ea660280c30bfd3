import ExprScript.Proofs.Eval.Follow
import ExprScript.Proofs.Eval.Variables
import Mathlib.Data.List.Induction
import Mathlib.Data.List.Nodup

/-!
# Frames are a flat table

The variables of all scopes may as well stand in one list, the oldest first. A variable that is
bound goes to its end, a name means the last variable of that name, and the end of a scope cuts the
list back to the length it had at its start. Evaluation cannot tell this table from frames, although
a frame binds a name again in place, and the table behind the old one.

* `VariableTable`, `Memory.flat`: the table as a memory;
* `VariableTable.Represents`: a table of the variables that the frames hold;
* `VariableTable.Parted`: the invariant, which knows where the scopes in the table start;
* **`Expr.eval_flat`**: evaluation on frames and over the table ends alike.
-/

namespace ExprScript

/-! ## The table -/

/-- The variables of all scopes, the oldest first. -/
abbrev VariableTable := List (String × Binding)

namespace VariableTable

/-- The last variable of a name. -/
def find? (t : VariableTable) (name : String) : Option Binding := t.reverse.lookup name

/-- Moves the cursor of the last variable of a name. -/
def setCursor (name : String) (position : Nat) : VariableTable → VariableTable
  | [] => []
  | e :: rest =>
    if e.1 = name ∧ find? rest name = none then (name, { e.2 with cursor := some position }) :: rest
    else e :: setCursor name position rest

/-- Puts a new variable behind the others. -/
def append (t : VariableTable) (name : String) (value : Value) : VariableTable :=
  t ++ [(name, ⟨value, none⟩)]

end VariableTable

/-- **The table as a memory.** The variables of a new scope go to its end, and what has come there
since then is cut off when the scope is closed. -/
def Memory.flat : Memory VariableTable where
  find? := VariableTable.find?
  setCursor := VariableTable.setCursor
  define name value t := t.append name value
  opened bound t := bound.foldl (fun t e => t.append e.1 e.2) t
  closed before after := after.take before.length

namespace VariableTable

/-! ## What names mean -/

theorem find?_append (t u : VariableTable) (name : String) :
    find? (t ++ u) name = (find? u name).or (find? t name) := by
  rw [find?, List.reverse_append, List.lookup_append]
  rfl

theorem find?_singleton (e : String × Binding) (name : String) :
    find? [e] name = if name = e.1 then some e.2 else none := Frame.lookup_cons e [] name

theorem find?_cons (e : String × Binding) (t : VariableTable) (name : String) :
    find? (e :: t) name = (find? t name).or (if name = e.1 then some e.2 else none) := by
  rw [← find?_singleton, ← find?_append]
  rfl

theorem find?_append_variable (t : VariableTable) (name : String) (value : Value) (name' : String) :
    find? (t.append name value) name' =
      if name' = name then some ⟨value, none⟩ else find? t name' := by
  rw [append, find?_append, find?_singleton]
  split <;> rfl

/-- Where a name means nothing, there is no cursor to move. -/
theorem setCursor_of_none {t : VariableTable} {name : String} (h : find? t name = none)
    (position : Nat) : setCursor name position t = t := by
  induction t with
  | nil => rfl
  | cons e t ih =>
    rw [find?_cons, Option.or_eq_none_iff] at h
    have hn : e.1 ≠ name := by
      rintro rfl
      simp at h
    rw [setCursor, if_neg fun he => hn he.1, ih h.1]

/-- **The cursor of a name is moved behind, if it is there,** and in front otherwise. -/
theorem setCursor_append (t u : VariableTable) (name : String) (position : Nat) :
    setCursor name position (t ++ u) =
      if find? u name = none then setCursor name position t ++ u
      else t ++ setCursor name position u := by
  induction t with
  | nil =>
    split
    · next h => exact setCursor_of_none h position
    · rfl
  | cons e t ih =>
    rw [List.cons_append, setCursor, ih]
    by_cases hu : find? u name = none
    · rw [if_pos hu, if_pos hu, setCursor]
      simp only [find?_append, hu, Option.none_or]
      split <;> rfl
    · have ht : find? (t ++ u) name ≠ none := by
        rw [find?_append, Ne, Option.or_eq_none_iff]
        exact fun h => hu h.1
      rw [if_neg hu, if_neg hu, if_neg fun h => ht h.2]
      rfl

theorem length_setCursor (name : String) (position : Nat) (t : VariableTable) :
    (setCursor name position t).length = t.length := by
  induction t with
  | nil => rfl
  | cons e t ih =>
    rw [setCursor]
    split
    · rfl
    · exact congrArg (· + 1) ih

theorem find?_setCursor (name : String) (position : Nat) (t : VariableTable) (name' : String) :
    find? (setCursor name position t) name' =
      if name' = name then (find? t name).map fun b => { b with cursor := some position }
      else find? t name' := by
  induction t with
  | nil => split <;> rfl
  | cons e t ih =>
    rw [setCursor]
    split
    · next h =>
      rw [find?_cons, find?_cons, find?_cons, h.1, h.2]
      by_cases hn : name' = name
      · simp [hn, h.2]
      · simp [hn]
    · next h =>
      rw [find?_cons, find?_cons, find?_cons, ih]
      by_cases hn : name' = name
      · subst hn
        cases ht : find? t name' with
        | some b => simp
        | none =>
          have he : name' ≠ e.1 := fun he => h ⟨he.symm, ht⟩
          simp [he]
      · simp [hn]

/-! ## Variables of a new scope -/

/-- Variables that are put behind others mean what they mean in a frame of their own. -/
theorem find?_foldl_append (bound : List (String × Value)) (t : VariableTable) :
    ∃ u, bound.foldl (fun t e => t.append e.1 e.2) t = t ++ u ∧
      ∀ name, find? u name = (Frame.ofList bound).lookup name := by
  induction bound using List.reverseRecOn with
  | nil => exact ⟨[], (List.append_nil t).symm, fun _ => rfl⟩
  | append_singleton bound e ih =>
    obtain ⟨u, hu, hl⟩ := ih
    refine ⟨u.append e.1 e.2, ?_, fun name => ?_⟩
    · rw [List.foldl_append, hu]
      exact List.append_assoc t u _
    · have hframe : Frame.ofList (bound ++ [e]) =
          Frame.insert e.1 ⟨e.2, none⟩ (Frame.ofList bound) := List.foldl_append
      rw [find?_append_variable, hl, hframe, Frame.lookup_insert]

/-! ## Tables and frames side by side -/

/-- Every name means the same. -/
def Agrees (s : Scopes) (t : VariableTable) : Prop := ∀ name, t.find? name = s.find? name

/-- **The invariant.** A table is cut where the open scopes start: each of them agrees with a frame,
and what stands in front of them with the frames below. -/
def Parted : List VariableTable → Scopes → VariableTable → Prop
  | [], s, t => Agrees s t
  | t₀ :: before, s, t => ∃ frame s' u v, s = frame :: s' ∧ t = u ++ v ∧ u.length = t₀.length ∧
      (∀ name, find? v name = frame.lookup name) ∧ Parted before s' u

theorem Parted.agrees {before : List VariableTable} {s : Scopes} {t : VariableTable}
    (h : Parted before s t) : Agrees s t := by
  induction before generalizing s t with
  | nil => exact h
  | cons t₀ before ih =>
    obtain ⟨frame, s', u, v, rfl, rfl, -, hv, hu⟩ := h
    intro name
    rw [find?_append, Scopes.find?_cons, hv, ih hu]

theorem Parted.setCursor {before : List VariableTable} {s : Scopes} {t : VariableTable}
    (h : Parted before s t) (name : String) (position : Nat) :
    Parted before (s.setCursor name position) (VariableTable.setCursor name position t) := by
  induction before generalizing s t with
  | nil =>
    intro name'
    rw [find?_setCursor, Scopes.find?_setCursor, h name, h name']
  | cons t₀ before ih =>
    obtain ⟨frame, s', u, v, rfl, rfl, hn, hv, hu⟩ := h
    rw [setCursor_append, hv, Scopes.setCursor]
    cases hl : frame.lookup name with
    | some b =>
      refine ⟨_, s', u, _, rfl, rfl, hn, fun name' => ?_, hu⟩
      rw [find?_setCursor, Frame.lookup_insert, hv, hv, hl]
      rfl
    | none =>
      exact ⟨frame, _, _, v, rfl, rfl, (length_setCursor _ _ _).trans hn, hv, ih hu⟩

/-- **The table keeps what the frames hold.** -/
theorem keeps_flat : Memory.flat.Keeps Parted where
  find? h := h.agrees
  setCursor h := h.setCursor
  define h name value := by
    obtain ⟨frame, s', u, v, rfl, rfl, hn, hv, hu⟩ := h
    refine ⟨_, s', u, v.append name value, rfl, List.append_assoc u v _, hn, fun name' => ?_, hu⟩
    rw [find?_append_variable, Frame.lookup_insert, hv]
  opened {before s t} h bound := by
    obtain ⟨u, hu, hl⟩ := find?_foldl_append bound t
    exact ⟨_, s, t, u, rfl, hu, rfl, hl, h⟩
  closed {before t₀ s t} h := by
    obtain ⟨frame, s', u, v, rfl, rfl, hn, -, hu⟩ := h
    have ht : Memory.flat.closed t₀ (u ++ v) = u := List.take_left' hn
    rw [ht]
    exact hu

/-! ## Tables of frames -/

/-- A table of the variables that the frames hold: one frame behind the other, the outermost first,
and each in any order, but without a name that stands in it twice. -/
def Represents (t : VariableTable) (s : Scopes) : Prop :=
  ∃ parts : List VariableTable, t = parts.reverse.flatten ∧
    List.Forall₂ (fun part frame => part.Perm frame ∧ (frame.map Prod.fst).Nodup) parts s

theorem lookup_eq_some_iff_mem {l : List (String × Binding)} (h : (l.map Prod.fst).Nodup)
    (name : String) (b : Binding) : l.lookup name = some b ↔ (name, b) ∈ l := by
  induction l with
  | nil => simp
  | cons e l ih =>
    obtain ⟨he, hl⟩ := List.nodup_cons.mp h
    rw [Frame.lookup_cons, List.mem_cons]
    by_cases hn : name = e.1
    · have hmem : (name, b) ∉ l := fun hm => he (hn ▸ List.mem_map_of_mem hm)
      rw [if_pos hn, Option.some.injEq, or_iff_left hmem, hn, Prod.ext_iff]
      simp [eq_comm]
    · rw [if_neg hn, ih hl, or_iff_right fun h => hn (congrArg Prod.fst h)]

/-- Without a name that stands there twice, the order does not matter. -/
theorem lookup_eq_of_perm {l l' : List (String × Binding)} (hp : l.Perm l')
    (h : (l'.map Prod.fst).Nodup) (name : String) : l.lookup name = l'.lookup name := by
  have hl : (l.map Prod.fst).Nodup := ((hp.map Prod.fst).nodup_iff).mpr h
  ext b
  rw [lookup_eq_some_iff_mem hl, lookup_eq_some_iff_mem h, hp.mem_iff]

theorem Represents.agrees {t : VariableTable} {s : Scopes} (h : t.Represents s) : Agrees s t := by
  obtain ⟨parts, rfl, hparts⟩ := h
  induction hparts with
  | nil => exact fun _ => rfl
  | @cons part frame parts s hp _ ih =>
    intro name
    rw [List.reverse_cons, List.flatten_append, List.flatten_singleton, find?_append,
      Scopes.find?_cons, ih, find?,
      lookup_eq_of_perm ((List.reverse_perm part).trans hp.1) hp.2]

end VariableTable

/-- **Frames are a flat table.** From frames and from a table of their variables, whatever is
evaluated ends alike: with the same value or for the same reason, with the same request to show the
result, and with every name meaning the same variable, cursor included. -/
theorem Expr.eval_flat (setting : Setting) (e : Expr) (m : Machine) (t : VariableTable)
    (h : t.Represents m.scopes) :
    EndAlike VariableTable.Agrees (e.eval setting m)
      (Memory.flat.eval setting e ⟨t, m.callDepth, m.printRequested, m.generator⟩) :=
  .of_ends (e.follows_evalAt VariableTable.keeps_flat (.refl (fun _ => False) setting) (.refl _ _) [] m
    ⟨t, m.callDepth, m.printRequested, m.generator⟩ ⟨h.agrees, rfl, rfl, rfl⟩) fun _ _ _ => id

/-- A name that is bound twice in one scope, to elements of a vector outside. -/
theorem Expr.eval_flat_rebound :
    let v : String × Binding := ("v", ⟨.vector [.number 1, .number 2], none⟩)
    let x : String × Binding := ("x", ⟨.number 5, none⟩)
    let e : Expr := .letIn 1 (.bind 5 "x" (.method 9 "v" .next)
      (.bind 19 "x" (.method 23 "v" .next) (.body (.variable 35 "x"))))
    VariableTable.Represents [x, v] [[v], [x]] ∧
      EndAlike VariableTable.Agrees (e.eval ⟨.empty, {}, 0⟩ ⟨[[v], [x]], 0, false, .ofSeed 0⟩)
        (Memory.flat.eval ⟨.empty, {}, 0⟩ e ⟨[x, v], 0, false, .ofSeed 0⟩) := by
  intro v x e
  have h : VariableTable.Represents [x, v] [[v], [x]] :=
    ⟨[[v], [x]], rfl, .cons ⟨.refl _, by decide⟩ (.cons ⟨.refl _, by decide⟩ .nil)⟩
  exact ⟨h, e.eval_flat ⟨.empty, {}, 0⟩ ⟨[[v], [x]], 0, false, .ofSeed 0⟩ [x, v] h⟩

end ExprScript
