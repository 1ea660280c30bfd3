import ExprScript.Proofs.Program.Cut

/-!
# Tables of functions

A table only grows, and each function is told its types when it is added.

* `FunctionTable.Within`: a part of a table;
* `FunctionTable.Typed`: **each return type was told of the body under a part of the table**;
* `FunctionTable.Reachable`: the tables that arise from reading source texts;
* **`FunctionTable.Reachable.typed`**: all of them are typed;
* `FunctionTable.Later`, **`FunctionTable.Later.within`**: a table is a part of all later ones.
-/

namespace ExprScript

namespace FunctionTable

/-- Every function of a table is in another one. -/
def Within (table table' : FunctionTable) : Prop :=
  ∀ name f, table.find? name = some f → table'.find? name = some f

theorem Within.refl (table : FunctionTable) : table.Within table := fun _ _ h => h

theorem Within.trans {t₁ t₂ t₃ : FunctionTable} (h : t₁.Within t₂) (h' : t₂.Within t₃) :
    t₁.Within t₃ :=
  fun name f hf => h' name f (h name f hf)

/-- What inference is told of the parameters of a function: nothing. -/
def parameterScope (params : List String) : Ty.Scope := (params.map fun p => (p, Ty.any)).reverse

/-- **The return type of every function was told of its body** under a part of the table, and the
body can produce a value. -/
def Typed (table : FunctionTable) : Prop :=
  ∀ name f, table.find? name = some f → f.returnType ≠ .never ∧
    ∃ smaller : FunctionTable, smaller.Within table ∧
      Ty.infer smaller (parameterScope f.params) f.body = f.returnType

theorem find?_declare {table : FunctionTable} {f g : FunctionDef} {name : String}
    (h : (table.declare f).find? name = some g) : table.find? name = some g ∨ g = f := by
  unfold declare at h
  split at h
  · exact .inl h
  · rw [find?, List.find?_append, Option.or_eq_some_iff] at h
    obtain h | ⟨-, h⟩ := h
    · exact .inl h
    · exact .inr (List.mem_singleton.mp (List.mem_of_find?_eq_some h))

/-- What stands at the front of a table is found in it. -/
theorem within_of_append {table table' : FunctionTable} {added : List FunctionDef}
    (h : table'.entries = table.entries ++ added) : table.Within table' := by
  intro name f hf
  rw [find?, h, List.find?_append, Option.or_eq_some_iff]
  exact .inl hf

theorem within_declare (table : FunctionTable) (f : FunctionDef) :
    table.Within (table.declare f) := by
  unfold declare
  split
  · exact .refl table
  · exact within_of_append rfl

theorem typed_empty : Typed .empty := fun _ _ h => by cases h

/-- A declaration is told of its body under the table that it is added to. -/
theorem Typed.declare {table : FunctionTable} (h : table.Typed) {d : Declaration} {f : FunctionDef}
    (hd : d.define? table = some f) : (table.declare f).Typed := by
  intro name g hg
  obtain hg | rfl := find?_declare hg
  · obtain ⟨hn, smaller, hw, ht⟩ := h name g hg
    exact ⟨hn, smaller, hw.trans (within_declare table f), ht⟩
  · unfold Declaration.define? at hd
    dsimp only at hd
    split at hd
    · cases hd
    · next hn =>
      cases hd
      exact ⟨hn, table, within_declare table _, rfl⟩

/-- Tables that arise from reading one source text after the other. -/
inductive Reachable : FunctionTable → Prop
  | empty : Reachable .empty
  | read {table : FunctionTable} (limit : Nat) (source : String) :
    Reachable table → Reachable (Program.read limit table source).2

/-- The tables that a table becomes by reading one source text after the other. -/
inductive Later (table : FunctionTable) : FunctionTable → Prop
  | refl : Later table table
  | read {table' : FunctionTable} (limit : Nat) (source : String) :
    Later table table' → Later table (Program.read limit table' source).2

theorem Later.reachable {table table' : FunctionTable} (h : table.Later table')
    (hr : table.Reachable) : table'.Reachable := by
  induction h with
  | refl => exact hr
  | read limit source _ ih => exact .read limit source ih

end FunctionTable

theorem Statement.typed_read {table : FunctionTable} (h : table.Typed) (limit : Nat)
    (lexical : List LexicalError) (s : Statement) : (s.read limit table lexical).2.Typed := by
  unfold read
  split
  · unfold readDeclaration
    split
    · split
      · split
        · next hd => exact h.declare hd
        · exact h
      · exact h
    · exact h
  · exact h

theorem Program.typed_readAll {limit : Nat} {table : FunctionTable} (h : table.Typed)
    {errors : List LexicalError} {ss : List Statement} :
    (readAll limit table errors ss).2.Typed := by
  induction ss generalizing table errors with
  | nil => cases errors <;> exact h
  | cons s rest ih =>
    rw [readAll_cons]
    exact ih (s.typed_read h limit _)

theorem FunctionTable.Reachable.typed {table : FunctionTable} (h : table.Reachable) :
    table.Typed := by
  induction h with
  | empty => exact typed_empty
  | read limit source _ ih => exact Program.typed_readAll ih

theorem Statement.within_read (limit : Nat) (table : FunctionTable) (lexical : List LexicalError)
    (s : Statement) : table.Within (s.read limit table lexical).2 := by
  unfold read
  split
  · unfold readDeclaration
    split
    · split
      · split
        · exact FunctionTable.within_declare table _
        · exact .refl table
      · exact .refl table
    · exact .refl table
  · exact .refl table

theorem Program.within_readAll {limit : Nat} (table : FunctionTable) {errors : List LexicalError}
    {ss : List Statement} : table.Within (readAll limit table errors ss).2 := by
  induction ss generalizing table errors with
  | nil => cases errors <;> exact .refl table
  | cons s rest ih =>
    rw [readAll_cons]
    exact (s.within_read limit table _).trans (ih _)

/-- **A table is a part of all later ones.** -/
theorem FunctionTable.Later.within {table table' : FunctionTable} (h : table.Later table') :
    table.Within table' := by
  induction h with
  | refl => exact .refl table
  | read limit source _ ih => exact ih.trans (Program.within_readAll _)

end ExprScript
