import ExprScript.Grammar.Statement
import ExprScript.Proofs.Tree.Relocate
import ExprScript.Proofs.Ty.Reshape

/-!
# Types do not depend on columns

What is told of an expression depends neither on its columns nor on anything in the table of
functions but their types.

* `Ty.infer_relocate`, `Ty.usage_relocate`: what is told of an expression at other columns;
* `FunctionTable.relocateFrom`: a table whose later entries are at other columns;
* **`Declaration.define?_relocate`**: a declaration at other columns makes the function at these.
-/

namespace ExprScript

namespace Ty

variable (f : Nat → Nat)

theorem inferBindings_move (table : FunctionTable) (scope : Scope) (b : Bindings) :
    inferBindings table scope (b.move f) = inferBindings table scope b := by
  induction b using Bindings.chain generalizing scope with
  | bind column name value rest ih =>
    rw [Bindings.move, inferBindings, inferBindings]
    simp only [ih]
  | body e => rfl

theorem firstUseBindings?_move (table : FunctionTable) (param : String) (b : Bindings) :
    firstUseBindings? table param (b.move f) = firstUseBindings? table param b := by
  induction b using Bindings.chain with
  | bind column name value rest ih =>
    rw [Bindings.move, firstUseBindings?, firstUseBindings?, ih]
  | body e => rfl

/-- What is told of an expression alone does not depend on its column. -/
theorem unchanged_move (table : FunctionTable) : Unchanged table (Expr.move f) where
  infer scope e := by
    cases e with
    | letIn column bindings => exact inferBindings_move f table scope bindings
    | method column name m => cases m <;> rfl
    | _ => rfl
  names param e := by cases e <;> rfl
  firstUse? param e := by
    cases e with
    | letIn column bindings => exact firstUseBindings?_move f table param bindings
    | _ => rfl

variable {table table' : FunctionTable} (h : table.SameTypes table')

include h

/-- What is told of an expression does not depend on columns. -/
theorem infer_relocate (scope : Scope) (e : Expr) :
    infer table' scope (e.relocate f) = infer table scope e := by
  rw [e.relocate_eq_reshape, infer_reshape h (unchanged_move f table')]

/-- What is asked of a parameter does not depend on columns. -/
theorem usage_relocate (param : String) (body : Expr) :
    usage table' param (body.relocate f) = usage table param body := by
  rw [body.relocate_eq_reshape, usage_reshape h (unchanged_move f table')]

end Ty

/-! ## Tables and declarations -/

/-- A function at another place. -/
def FunctionDef.relocate (f : Nat → Nat) (g : FunctionDef) : FunctionDef :=
  { g with body := g.body.relocate f, column := f g.column }

/-- A declaration at another place. -/
def Declaration.relocate (f : Nat → Nat) (d : Declaration) : Declaration :=
  { d with body := d.body.relocate f, column := f d.column }

/-- A table whose entries behind the first `k` are at other places. -/
def FunctionTable.relocateFrom (k : Nat) (f : Nat → Nat) (table : FunctionTable) : FunctionTable :=
  ⟨table.entries.take k ++ (table.entries.drop k).map (FunctionDef.relocate f)⟩

namespace FunctionTable

variable (k : Nat) (f : Nat → Nat) (table : FunctionTable)

theorem sameTypes_relocateFrom : table.SameTypes (table.relocateFrom k f) := by
  intro name
  have hsame : ((fun g => decide (g.name = name)) ∘ FunctionDef.relocate f : FunctionDef → Bool) =
      fun g => decide (g.name = name) := rfl
  have hsplit : table.find? name = ((table.entries.take k).find? fun g => g.name = name).or
      ((table.entries.drop k).find? fun g => g.name = name) := by
    rw [← List.find?_append, List.take_append_drop, find?]
  rw [hsplit, relocateFrom, find?, List.find?_append, List.find?_map, hsame]
  cases (table.entries.take k).find? fun g => decide (g.name = name) with
  | some g => rfl
  | none => cases (table.entries.drop k).find? fun g => decide (g.name = name) <;> rfl

theorem SameTypes.contains {table table' : FunctionTable} (h : table.SameTypes table')
    (name : String) : table'.contains name = table.contains name := by
  have hn := congrArg Option.isSome (h name)
  rwa [Option.isSome_map, Option.isSome_map] at hn

theorem relocateFrom_declare {k : Nat} {table : FunctionTable} (hk : k ≤ table.entries.length)
    (g : FunctionDef) :
    (table.declare g).relocateFrom k f = (table.relocateFrom k f).declare (g.relocate f) := by
  have hc : (table.relocateFrom k f).contains (g.relocate f).name = table.contains g.name :=
    (table.sameTypes_relocateFrom k f).contains g.name
  unfold declare
  rw [hc]
  split
  · rfl
  · simp [relocateFrom, List.take_append_of_le_length hk, List.drop_append_of_le_length hk]

theorem length_le_declare (g : FunctionDef) : table.entries.length ≤ (table.declare g).entries.length := by
  unfold declare
  split
  · exact Nat.le_refl _
  · simp

end FunctionTable

/-- **A declaration at another place makes the function there.** -/
theorem Declaration.define?_relocate {table table' : FunctionTable} (h : table.SameTypes table')
    (f : Nat → Nat) (d : Declaration) :
    (d.relocate f).define? table' = (d.define? table).map (FunctionDef.relocate f) := by
  unfold define?
  dsimp only [relocate]
  rw [Ty.infer_relocate f h]
  simp only [Ty.usage_relocate f h]
  split <;> rfl

end ExprScript
