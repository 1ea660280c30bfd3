import ExprScript.Function

/-!
# Trees with their parts reshaped

A change of trees that looks at one expression at a time is applied to all expressions of a tree,
from the inside out: an expression is changed when its parts have been.

* `Expr.reshape`: **a tree to all expressions of which a change is applied**, with one companion for
  each part of a tree;
* `FunctionTable.reshape`: the functions with these bodies;
* `Expr.reshape_id`: the change that changes nothing;
* `Bindings.chain`, `Branches.chain`: induction on the links of a chain.
-/

namespace ExprScript

/-! ## Chains -/

/-- Induction on the bindings of a `let`, one behind the other. -/
@[elab_as_elim]
theorem Bindings.chain {motive : Bindings → Prop}
    (bind : ∀ column name value rest, motive rest → motive (.bind column name value rest))
    (body : ∀ e, motive (.body e)) (bindings : Bindings) : motive bindings := by
  cases bindings with
  | bind column name value rest => exact bind column name value rest (chain bind body rest)
  | body e => exact body e

/-- Induction on the branches behind a failed condition, one behind the other. -/
@[elab_as_elim]
theorem Branches.chain {motive : Branches → Prop}
    (elif : ∀ condition e rest, motive rest → motive (.elif condition e rest))
    (otherwise : ∀ e, motive (.otherwise e)) (branches : Branches) : motive branches := by
  cases branches with
  | elif condition e rest => exact elif condition e rest (chain elif otherwise rest)
  | otherwise e => exact otherwise e

/-! ## Reshaping -/

section Trees

variable (f : Expr → Expr)

mutual

/-- An expression to all parts of which `f` is applied, and then to itself. -/
def Expr.reshape : Expr → Expr
  | .number column x => f (.number column x)
  | .string column s => f (.string column s)
  | .bool column b => f (.bool column b)
  | .constant column c => f (.constant column c)
  | .variable column name => f (.variable column name)
  | .unary column op operand => f (.unary column op operand.reshape)
  | .binary column left op right => f (.binary column left.reshape op right.reshape)
  | .paren column inner => f (.paren column inner.reshape)
  | .print column argument => f (.print column argument.reshape)
  | .math column function argument => f (.math column function argument.reshape)
  | .log column base argument => f (.log column base.reshape argument.reshape)
  | .rand column => f (.rand column)
  | .ifThen column condition body rest =>
    f (.ifThen column condition.reshape body.reshape rest.reshape)
  | .letIn column bindings => f (.letIn column bindings.reshape)
  | .call column name arguments => f (.call column name (reshapeAll arguments))
  | .forRange column var lower upper body =>
    f (.forRange column var lower.reshape upper.reshape body.reshape)
  | .forEach column var vector vectorColumn body =>
    f (.forEach column var vector vectorColumn body.reshape)
  | .while column condition body => f (.while column condition.reshape body.reshape)
  | .vector column elements => f (.vector column (reshapeAll elements))
  | .range column lower upper => f (.range column lower.reshape upper.reshape)
  | .index column name index => f (.index column name index.reshape)
  | .method column name m => f (.method column name m)
  | .error column => f (.error column)

/-- Expressions to all parts of which `f` is applied. -/
def reshapeAll : List Expr → List Expr
  | [] => []
  | e :: rest => e.reshape :: reshapeAll rest

/-- Branches to all parts of which `f` is applied. -/
def Branches.reshape : Branches → Branches
  | .elif condition body rest => .elif condition.reshape body.reshape rest.reshape
  | .otherwise body => .otherwise body.reshape

/-- Bindings to all parts of which `f` is applied. -/
def Bindings.reshape : Bindings → Bindings
  | .bind column name value rest => .bind column name value.reshape rest.reshape
  | .body body => .body body.reshape

end

end Trees

section Identity

mutual

@[simp] theorem Expr.reshape_id : (e : Expr) → e.reshape id = e
  | .number .. | .string .. | .bool .. | .constant .. | .variable .. | .rand .. | .method ..
  | .error .. => rfl
  | .unary _ _ e | .paren _ e | .print _ e | .math _ _ e | .index _ _ e | .forEach _ _ _ _ e => by
    simp only [Expr.reshape, e.reshape_id, id_eq]
  | .binary _ e₁ _ e₂ | .log _ e₁ e₂ | .while _ e₁ e₂ | .range _ e₁ e₂ => by
    simp only [Expr.reshape, e₁.reshape_id, e₂.reshape_id, id_eq]
  | .forRange _ _ e₁ e₂ e₃ => by
    simp only [Expr.reshape, e₁.reshape_id, e₂.reshape_id, e₃.reshape_id, id_eq]
  | .ifThen _ condition body rest => by
    simp only [Expr.reshape, condition.reshape_id, body.reshape_id, rest.reshape_id, id_eq]
  | .letIn _ bindings => by simp only [Expr.reshape, bindings.reshape_id, id_eq]
  | .call _ _ es | .vector _ es => by simp only [Expr.reshape, reshapeAll_id es, id_eq]

@[simp] theorem reshapeAll_id : (es : List Expr) → reshapeAll id es = es
  | [] => rfl
  | e :: rest => by rw [reshapeAll, e.reshape_id, reshapeAll_id rest]

@[simp] theorem Branches.reshape_id : (b : Branches) → b.reshape id = b
  | .elif condition body rest => by
    rw [Branches.reshape, condition.reshape_id, body.reshape_id, rest.reshape_id]
  | .otherwise body => by rw [Branches.reshape, body.reshape_id]

@[simp] theorem Bindings.reshape_id : (b : Bindings) → b.reshape id = b
  | .bind _ _ value rest => by rw [Bindings.reshape, value.reshape_id, rest.reshape_id]
  | .body body => by rw [Bindings.reshape, body.reshape_id]

end

end Identity

section Details

variable {f : Expr → Expr}

/-- A change that keeps the column of every expression keeps that of a tree. -/
theorem Expr.column_reshape (hf : ∀ e, (f e).column = e.column) (e : Expr) :
    (e.reshape f).column = e.column := by
  cases e <;> rw [Expr.reshape, hf] <;> rfl

@[simp] theorem length_reshapeAll (es : List Expr) : (reshapeAll f es).length = es.length := by
  induction es with
  | nil => rfl
  | cons e es ih => rw [reshapeAll, List.length_cons, List.length_cons, ih]

end Details

/-! ## Functions -/

/-- A function with a body to all parts of which `f` is applied. -/
def FunctionDef.reshape (f : Expr → Expr) (g : FunctionDef) : FunctionDef :=
  { g with body := g.body.reshape f }

/-- Functions with bodies to all parts of which `f` is applied. -/
def FunctionTable.reshape (f : Expr → Expr) (table : FunctionTable) : FunctionTable :=
  ⟨table.entries.map (FunctionDef.reshape f)⟩

namespace FunctionTable

@[simp] theorem reshape_id (table : FunctionTable) : table.reshape id = table := by
  have hid : FunctionDef.reshape id = id := by
    funext g
    simp [FunctionDef.reshape]
  rw [reshape, hid, List.map_id]

theorem find?_reshape (f : Expr → Expr) (table : FunctionTable) (name : String) :
    (table.reshape f).find? name = (table.find? name).map (FunctionDef.reshape f) := by
  rw [find?, reshape, List.find?_map]
  rfl

end FunctionTable

end ExprScript
