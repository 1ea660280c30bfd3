import ExprScript.Proofs.Tree.Reshape
import ExprScript.Ty.Infer
import ExprScript.Ty.Usage

/-!
# Types of reshaped trees

What is told of an expression depends on nothing in the table of functions but their types, and on
its parts only through what is told of them. So a change that has no effect on what is told of any
expression alone may be applied to all expressions of a tree, and to the bodies of functions.

* `FunctionTable.SameTypes`: tables whose functions have the same types;
* `Ty.Unchanged`: a change that has no effect on what is told of any expression alone;
* **`Ty.infer_reshape`**, **`Ty.usage_reshape`**: what is told of a tree to all expressions of which it
  is applied;
* `Ty.infer_eq_of_reshape_eq`, `Ty.usage_eq_of_reshape_eq`: trees with the same reshaped form.
-/

namespace ExprScript

variable {table table' : FunctionTable}

/-- The types that are told of a function. -/
def FunctionDef.types (g : FunctionDef) : List Ty × Ty := (g.paramTypes, g.returnType)

/-- Tables in which the same names have functions, and of the same types. -/
def FunctionTable.SameTypes (table table' : FunctionTable) : Prop :=
  ∀ name, (table'.find? name).map FunctionDef.types = (table.find? name).map FunctionDef.types

namespace FunctionTable

theorem SameTypes.find? (h : table.SameTypes table') (name : String) :
    (table.find? name = none ∧ table'.find? name = none) ∨
      ∃ g g', table.find? name = some g ∧ table'.find? name = some g' ∧
        g'.paramTypes = g.paramTypes ∧ g'.returnType = g.returnType := by
  have hn := h name
  cases hg : table.find? name with
  | none =>
    rw [hg, Option.map_none, Option.map_eq_none_iff] at hn
    exact .inl ⟨rfl, hn⟩
  | some g =>
    rw [hg, Option.map_some, Option.map_eq_some_iff] at hn
    obtain ⟨g', hg', ht⟩ := hn
    obtain ⟨hp, hr⟩ := Prod.mk.inj ht
    exact .inr ⟨g, g', rfl, hg', hp, hr⟩

theorem sameTypes_reshape (f : Expr → Expr) (table : FunctionTable) :
    table.SameTypes (table.reshape f) := by
  intro name
  rw [find?_reshape, Option.map_map]
  rfl

end FunctionTable

namespace Ty

/-- **A change that has no effect on what is told of any expression alone**: on its type, on whether it
is a parameter itself, and on the first use of a parameter in it. -/
structure Unchanged (table : FunctionTable) (f : Expr → Expr) : Prop where
  infer (scope : Scope) (e : Expr) : infer table scope (f e) = infer table scope e
  names (param : String) (e : Expr) : (f e).names param = e.names param
  firstUse? (param : String) (e : Expr) : firstUse? table param (f e) = firstUse? table param e

variable {f : Expr → Expr}

/-- An expression is a parameter itself if its reshaped form is. -/
theorem names_reshape (hf : Unchanged table f) (param : String) : (e : Expr) →
    (e.reshape f).names param = e.names param
  | .paren _ inner => by
    rw [Expr.reshape, hf.names, Expr.names, names_reshape hf param inner, Expr.names]
  | .number .. | .string .. | .bool .. | .constant .. | .variable .. | .rand .. | .method ..
  | .error .. | .unary .. | .print .. | .math .. | .index .. | .forEach .. | .binary .. | .log ..
  | .while .. | .range .. | .forRange .. | .ifThen .. | .letIn .. | .call .. | .vector .. =>
    hf.names param _

section Reshaped

variable (h : table.SameTypes table') (hf : Unchanged table' f)

include h hf

section Infer

set_option linter.unusedSectionVars false

mutual

/-- What is told of a tree is told of its reshaped form. -/
theorem infer_reshape (scope : Scope) : (e : Expr) →
    infer table' scope (e.reshape f) = infer table scope e
  | .number .. | .string .. | .bool .. | .constant .. | .variable .. | .rand .. | .error .. => by
    rw [Expr.reshape, hf.infer]
    rfl
  | .method _ _ m => by
    rw [Expr.reshape, hf.infer]
    cases m <;> rfl
  | .unary _ _ e | .paren _ e | .print _ e | .math _ _ e | .index _ _ e | .forEach _ _ _ _ e => by
    simp only [Expr.reshape, hf.infer, infer, infer_reshape _ e]
  | .binary _ e₁ _ e₂ | .log _ e₁ e₂ | .while _ e₁ e₂ | .range _ e₁ e₂ => by
    simp only [Expr.reshape, hf.infer, infer, infer_reshape _ e₁, infer_reshape _ e₂]
  | .forRange _ _ e₁ e₂ e₃ => by
    simp only [Expr.reshape, hf.infer, infer, infer_reshape _ e₁, infer_reshape _ e₂,
      infer_reshape _ e₃]
  | .ifThen _ condition body rest => by
    simp only [Expr.reshape, hf.infer, infer, infer_reshape _ condition, infer_reshape _ body,
      inferBranches_reshape _ rest]
  | .letIn _ bindings => by
    simp only [Expr.reshape, hf.infer, infer, inferBindings_reshape _ bindings]
  | .vector _ es => by simp only [Expr.reshape, hf.infer, infer, inferable_reshape _ es]
  | .call _ name es => by
    simp only [Expr.reshape, hf.infer, infer, inferable_reshape _ es]
    obtain ⟨hn, hn'⟩ | ⟨g, g', hg, hg', -, hr⟩ := h.find? name
    · rw [hn, hn']
    · rw [hg, hg']
      dsimp only
      rw [hr]

theorem inferable_reshape (scope : Scope) : (es : List Expr) →
    inferable table' scope (reshapeAll f es) = inferable table scope es
  | [] => rfl
  | e :: rest => by
    simp only [reshapeAll, inferable, infer_reshape _ e, inferable_reshape _ rest]

theorem inferBranches_reshape (scope : Scope) : (b : Branches) →
    inferBranches table' scope (b.reshape f) = inferBranches table scope b
  | .elif condition body rest => by
    simp only [Branches.reshape, inferBranches, infer_reshape _ condition, infer_reshape _ body,
      inferBranches_reshape _ rest]
  | .otherwise body => by simp only [Branches.reshape, inferBranches, infer_reshape _ body]

theorem inferBindings_reshape (scope : Scope) : (b : Bindings) →
    inferBindings table' scope (b.reshape f) = inferBindings table scope b
  | .bind _ _ value rest => by
    simp only [Bindings.reshape, inferBindings, infer_reshape _ value, inferBindings_reshape _ rest]
  | .body body => by simp only [Bindings.reshape, inferBindings, infer_reshape _ body]

end

end Infer

section Usage

set_option linter.unusedSectionVars false

variable (param : String)

mutual

/-- What is asked of a parameter in a tree is asked in its reshaped form. -/
theorem firstUse?_reshape : (e : Expr) →
    firstUse? table' param (e.reshape f) = firstUse? table param e
  | .number .. | .string .. | .bool .. | .constant .. | .variable .. | .rand .. | .method ..
  | .error .. => by
    rw [Expr.reshape, hf.firstUse?]
    rfl
  | .unary _ _ e | .paren _ e | .print _ e | .math _ _ e | .index _ _ e | .forEach _ _ _ _ e => by
    simp only [Expr.reshape, hf.firstUse?, firstUse?, orUse, names_reshape hf param e,
      firstUse?_reshape e]
  | .binary _ e₁ _ e₂ | .log _ e₁ e₂ | .while _ e₁ e₂ | .range _ e₁ e₂ => by
    simp only [Expr.reshape, hf.firstUse?, firstUse?, orUse, names_reshape hf param e₁,
      names_reshape hf param e₂, firstUse?_reshape e₁, firstUse?_reshape e₂]
  | .forRange _ _ e₁ e₂ e₃ => by
    simp only [Expr.reshape, hf.firstUse?, firstUse?, orUse, names_reshape hf param e₁,
      names_reshape hf param e₂, firstUse?_reshape e₁, firstUse?_reshape e₂, firstUse?_reshape e₃]
  | .ifThen _ condition body rest => by
    simp only [Expr.reshape, hf.firstUse?, firstUse?, orUse, names_reshape hf param condition,
      firstUse?_reshape condition, firstUse?_reshape body, firstUseBranches?_reshape rest]
  | .letIn _ bindings => by
    simp only [Expr.reshape, hf.firstUse?, firstUse?, firstUseBindings?_reshape bindings]
  | .vector _ es => by
    simp only [Expr.reshape, hf.firstUse?, firstUse?, firstUseArguments?_reshape _ es]
  | .call _ name es => by
    simp only [Expr.reshape, hf.firstUse?, firstUse?]
    obtain ⟨hn, hn'⟩ | ⟨g, g', hg, hg', hp, -⟩ := h.find? name
    · rw [hn, hn']
      exact firstUseArguments?_reshape _ es
    · rw [hg, hg']
      dsimp only
      rw [hp]
      exact firstUseArguments?_reshape _ es

theorem firstUseArguments?_reshape (asked : List Ty) : (es : List Expr) →
    firstUseArguments? table' param asked (reshapeAll f es) =
      firstUseArguments? table param asked es
  | [] => rfl
  | e :: rest => by
    simp only [reshapeAll, firstUseArguments?, orUse, names_reshape hf param e,
      firstUse?_reshape e, firstUseArguments?_reshape _ rest]

theorem firstUseBranches?_reshape : (b : Branches) →
    firstUseBranches? table' param (b.reshape f) = firstUseBranches? table param b
  | .elif condition body rest => by
    simp only [Branches.reshape, firstUseBranches?, orUse, names_reshape hf param condition,
      firstUse?_reshape condition, firstUse?_reshape body, firstUseBranches?_reshape rest]
  | .otherwise body => by simp only [Branches.reshape, firstUseBranches?, firstUse?_reshape body]

theorem firstUseBindings?_reshape : (b : Bindings) →
    firstUseBindings? table' param (b.reshape f) = firstUseBindings? table param b
  | .bind _ _ value rest => by
    simp only [Bindings.reshape, firstUseBindings?, firstUse?_reshape value,
      firstUseBindings?_reshape rest]
  | .body body => by simp only [Bindings.reshape, firstUseBindings?, firstUse?_reshape body]

end

/-- **What a reshaped body asks of a parameter** is what the body asks of it. -/
theorem usage_reshape (body : Expr) :
    usage table' param (body.reshape f) = usage table param body := by
  rw [usage, firstUse?_reshape h hf param, usage]

end Usage

end Reshaped

/-! ## Trees that are reshaped alike -/

section Alike

variable {e e' : Expr} (hchange : ∀ table, Unchanged table f)
  (hf : table'.reshape f = table.reshape f) (he : e'.reshape f = e.reshape f)

include hchange hf he

/-- **Of trees with the same reshaped form the same is told.** -/
theorem infer_eq_of_reshape_eq (scope : Scope) : infer table' scope e' = infer table scope e := by
  have hinfer (table : FunctionTable) (e : Expr) :
      infer (table.reshape f) scope (e.reshape f) = infer table scope e :=
    infer_reshape (table.sameTypes_reshape f) (hchange _) scope e
  rw [← hinfer, hf, he, hinfer]

/-- **The same is asked of a parameter in bodies with the same reshaped form.** -/
theorem usage_eq_of_reshape_eq (param : String) : usage table' param e' = usage table param e := by
  have husage (table : FunctionTable) (e : Expr) :
      usage (table.reshape f) param (e.reshape f) = usage table param e :=
    usage_reshape (table.sameTypes_reshape f) (hchange _) param e
  rw [← husage, hf, he, husage]

end Alike

end Ty

end ExprScript
