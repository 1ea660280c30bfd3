import ExprScript.Proofs.Ty.Reshape

/-!
# Chains that are joined

A `let` whose body is a `let` binds the same names as one that has the bindings of both, and an `if`
behind the last `else` of another one is an `elif`. A tree in which all such chains are joined has
one `let` and one `if` for each of them.

* `Bindings.join`, `Branches.join`, `Expr.join`: a chain that goes on in its last part;
* `Expr.merged`, `FunctionTable.merged`: **trees and functions with all chains joined**;
* `Expr.merged_letIn`, `Expr.merged_ifThen`: the two ways to write a chain have one merged form;
* `Ty.unchanged_join`: nothing that is told of an expression depends on how its chain is written;
* **`Ty.infer_ifThen`**: the type of a choice, with its branches taken up from the left.
-/

namespace ExprScript

/-! ## Trees -/

/-- Bindings, with those of a `let` that is their body behind them. -/
def Bindings.join : Bindings → Bindings
  | .bind column name value rest => .bind column name value rest.join
  | .body (.letIn _ bindings) => bindings
  | .body e => .body e

/-- Branches, with those of an `if` that is the last of them behind them. -/
def Branches.join : Branches → Branches
  | .elif condition e rest => .elif condition e rest.join
  | .otherwise (.ifThen _ condition e rest) => .elif condition e rest
  | .otherwise e => .otherwise e

/-- An expression whose chain, if it is one, goes on into its last part. -/
def Expr.join : Expr → Expr
  | .letIn column bindings => .letIn column bindings.join
  | .ifThen column condition e rest => .ifThen column condition e rest.join
  | e => e

/-- **An expression with all chains in it joined.** Every node that is left has its own column. -/
def Expr.merged (e : Expr) : Expr := e.reshape Expr.join

/-- Functions with all chains in their bodies joined. -/
def FunctionTable.merged (table : FunctionTable) : FunctionTable := table.reshape Expr.join

theorem Expr.column_join (e : Expr) : e.join.column = e.column := by cases e <;> rfl

theorem Expr.column_merged (e : Expr) : e.merged.column = e.column :=
  Expr.column_reshape column_join e

/-- **Bindings may be put into a `let` of their own**, behind the first one. -/
theorem Expr.merged_letIn (column bound column' : Nat) (name : String) (value : Expr)
    (rest : Bindings) :
    (Expr.letIn column (.bind bound name value (.body (.letIn column' rest)))).merged =
      (Expr.letIn column (.bind bound name value rest)).merged :=
  rfl

/-- **Branches may be put into an `if` of their own**, behind the first one. -/
theorem Expr.merged_ifThen (column column' : Nat) (condition e condition' e' : Expr)
    (rest : Branches) :
    (Expr.ifThen column condition e (.otherwise (.ifThen column' condition' e' rest))).merged =
      (Expr.ifThen column condition e (.elif condition' e' rest)).merged :=
  rfl

/-! ## Types -/

namespace Ty

variable (table : FunctionTable)

theorem inferBindings_join (scope : Scope) (bindings : Bindings) :
    inferBindings table scope bindings.join = inferBindings table scope bindings := by
  induction bindings using Bindings.chain generalizing scope with
  | bind column name value rest ih => simp only [Bindings.join, inferBindings, ih]
  | body e => cases e <;> rfl

theorem inferBranches_join (scope : Scope) (branches : Branches) :
    inferBranches table scope branches.join = inferBranches table scope branches := by
  induction branches using Branches.chain with
  | elif condition e rest ih => simp only [Branches.join, inferBranches, ih]
  | otherwise e => cases e <;> rfl

theorem firstUseBindings?_join (param : String) (bindings : Bindings) :
    firstUseBindings? table param bindings.join = firstUseBindings? table param bindings := by
  induction bindings using Bindings.chain with
  | bind column name value rest ih => simp only [Bindings.join, firstUseBindings?, ih]
  | body e => cases e <;> rfl

theorem firstUseBranches?_join (param : String) (branches : Branches) :
    firstUseBranches? table param branches.join = firstUseBranches? table param branches := by
  induction branches using Branches.chain with
  | elif condition e rest ih => simp only [Branches.join, firstUseBranches?, ih]
  | otherwise e => cases e <;> rfl

/-- Nothing that is told of an expression depends on whether its chain is joined. -/
theorem unchanged_join : Unchanged table Expr.join where
  infer scope e := by
    cases e with
    | letIn _ bindings => exact inferBindings_join table scope bindings
    | ifThen _ _ _ rest => simp only [Expr.join, infer, inferBranches_join]
    | _ => rfl
  names _ e := by cases e <;> rfl
  firstUse? param e := by
    cases e with
    | letIn _ bindings => exact firstUseBindings?_join table param bindings
    | ifThen _ _ _ rest => simp only [Expr.join, firstUse?, firstUseBranches?_join]
    | _ => rfl

/-! ## Branches from the left -/

@[simp] theorem unify_never (a : Ty) : a.unify .never = .never := by simp [unify]

/-- **It does not matter in which order the types of branches are unified.** -/
theorem unify_assoc (a b c : Ty) : (a.unify b).unify c = a.unify (b.unify c) := by
  by_cases ha : a = .never
  · simp [unify, ha]
  by_cases hb : b = .never
  · simp [unify, hb]
  by_cases hc : c = .never
  · simp [unify, hc]
  by_cases hab : a = b
  · subst hab
    by_cases hbc : a = c <;> grind [unify]
  · by_cases hbc : b = c <;> grind [unify]

/-- The type of branches behind others whose types have been unified. Conditions are tested in order,
and each branch is unified with all that stand in front of it. -/
def inferAfter (scope : Scope) (found : Ty) : Branches → Ty
  | .elif condition e rest =>
    ifBool (infer table scope condition) (inferAfter scope (found.unify (infer table scope e)) rest)
  | .otherwise e => found.unify (infer table scope e)

theorem inferAfter_eq (scope : Scope) (found : Ty) (branches : Branches) :
    inferAfter table scope found branches = found.unify (inferBranches table scope branches) := by
  induction branches using Branches.chain generalizing found with
  | elif condition e rest ih =>
    rw [inferAfter, ih, unify_assoc, inferBranches]
    -- a condition that is no boolean leaves no value on either side
    unfold ifBool
    split
    · rw [unify_never]
    · rfl
  | otherwise e => rfl

/-- **The type of a choice is that of its branches, unified from the left.** -/
theorem infer_ifThen (scope : Scope) (column : Nat) (condition e : Expr) (rest : Branches) :
    infer table scope (.ifThen column condition e rest) =
      ifBool (infer table scope condition)
        (inferAfter table scope (infer table scope e) rest) := by
  rw [infer, inferAfter_eq]

end Ty

end ExprScript
