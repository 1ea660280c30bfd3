import ExprScript.Proofs.Tree.Reshape

/-!
# Trees at other columns

* `Expr.relocate`: **a tree with its columns changed by a function**, with one companion for each
  part of a tree;
* `Expr.relocate_id`: the columns may stay as they are;
* `Expr.move`, `Expr.relocate_eq_reshape`: to relocate a tree is to move all expressions in it, one
  by one.
-/

namespace ExprScript

variable (f : Nat → Nat)

mutual

/-- An expression at other columns. -/
def Expr.relocate : Expr → Expr
  | .number column x => .number (f column) x
  | .string column s => .string (f column) s
  | .bool column b => .bool (f column) b
  | .constant column c => .constant (f column) c
  | .variable column name => .variable (f column) name
  | .unary column op operand => .unary (f column) op operand.relocate
  | .binary column left op right => .binary (f column) left.relocate op right.relocate
  | .paren column inner => .paren (f column) inner.relocate
  | .print column argument => .print (f column) argument.relocate
  | .math column function argument => .math (f column) function argument.relocate
  | .log column base argument => .log (f column) base.relocate argument.relocate
  | .rand column => .rand (f column)
  | .ifThen column condition body rest =>
    .ifThen (f column) condition.relocate body.relocate rest.relocate
  | .letIn column bindings => .letIn (f column) bindings.relocate
  | .call column name arguments => .call (f column) name (relocateAll arguments)
  | .forRange column var lower upper body =>
    .forRange (f column) var lower.relocate upper.relocate body.relocate
  | .forEach column var vector vectorColumn body =>
    .forEach (f column) var vector (f vectorColumn) body.relocate
  | .while column condition body => .while (f column) condition.relocate body.relocate
  | .vector column elements => .vector (f column) (relocateAll elements)
  | .range column lower upper => .range (f column) lower.relocate upper.relocate
  | .index column name index => .index (f column) name index.relocate
  | .method column name m => .method (f column) name m
  | .error column => .error (f column)

/-- Expressions at other columns. -/
def relocateAll : List Expr → List Expr
  | [] => []
  | e :: rest => e.relocate :: relocateAll rest

/-- Branches at other columns. -/
def Branches.relocate : Branches → Branches
  | .elif condition body rest => .elif condition.relocate body.relocate rest.relocate
  | .otherwise body => .otherwise body.relocate

/-- Bindings at other columns. -/
def Bindings.relocate : Bindings → Bindings
  | .bind column name value rest => .bind (f column) name value.relocate rest.relocate
  | .body body => .body body.relocate

end

mutual

/-- The columns may stay as they are. -/
@[simp] theorem Expr.relocate_id : (e : Expr) → e.relocate id = e
  | .number .. | .string .. | .bool .. | .constant .. | .variable .. | .rand .. | .method ..
  | .error .. => rfl
  | .unary _ _ e | .paren _ e | .print _ e | .math _ _ e | .index _ _ e | .forEach _ _ _ _ e => by
    rw [Expr.relocate, e.relocate_id]
    rfl
  | .binary _ e₁ _ e₂ | .log _ e₁ e₂ | .while _ e₁ e₂ | .range _ e₁ e₂ => by
    rw [Expr.relocate, e₁.relocate_id, e₂.relocate_id]
    rfl
  | .forRange _ _ e₁ e₂ e₃ => by
    rw [Expr.relocate, e₁.relocate_id, e₂.relocate_id, e₃.relocate_id]
    rfl
  | .ifThen _ condition body rest => by
    rw [Expr.relocate, condition.relocate_id, body.relocate_id, rest.relocate_id]
    rfl
  | .letIn _ bindings => by
    rw [Expr.relocate, bindings.relocate_id]
    rfl
  | .call _ _ es | .vector _ es => by
    rw [Expr.relocate, relocateAll_id es]
    rfl

@[simp] theorem relocateAll_id : (es : List Expr) → relocateAll id es = es
  | [] => rfl
  | e :: rest => by rw [relocateAll, e.relocate_id, relocateAll_id rest]

@[simp] theorem Branches.relocate_id : (b : Branches) → b.relocate id = b
  | .elif condition body rest => by
    rw [Branches.relocate, condition.relocate_id, body.relocate_id, rest.relocate_id]
  | .otherwise body => by rw [Branches.relocate, body.relocate_id]

@[simp] theorem Bindings.relocate_id : (b : Bindings) → b.relocate id = b
  | .bind _ _ value rest => by
    rw [Bindings.relocate, value.relocate_id, rest.relocate_id]
    rfl
  | .body body => by rw [Bindings.relocate, body.relocate_id]

end

/-! ## Expressions that are moved one by one -/

/-- Bindings with their names at other columns. -/
def Bindings.move : Bindings → Bindings
  | .bind column name value rest => .bind (f column) name value rest.move
  | .body e => .body e

/-- An expression at another column, with its parts where they were. -/
def Expr.move : Expr → Expr
  | .number column x => .number (f column) x
  | .string column s => .string (f column) s
  | .bool column b => .bool (f column) b
  | .constant column c => .constant (f column) c
  | .variable column name => .variable (f column) name
  | .unary column op operand => .unary (f column) op operand
  | .binary column left op right => .binary (f column) left op right
  | .paren column inner => .paren (f column) inner
  | .print column argument => .print (f column) argument
  | .math column function argument => .math (f column) function argument
  | .log column base argument => .log (f column) base argument
  | .rand column => .rand (f column)
  | .ifThen column condition body rest => .ifThen (f column) condition body rest
  | .letIn column bindings => .letIn (f column) (bindings.move f)
  | .call column name arguments => .call (f column) name arguments
  | .forRange column var lower upper body => .forRange (f column) var lower upper body
  | .forEach column var source sourceColumn body =>
    .forEach (f column) var source (f sourceColumn) body
  | .while column condition body => .while (f column) condition body
  | .vector column elements => .vector (f column) elements
  | .range column lower upper => .range (f column) lower upper
  | .index column name place => .index (f column) name place
  | .method column name m => .method (f column) name m
  | .error column => .error (f column)

mutual

/-- **To relocate a tree is to move all expressions in it.** -/
theorem Expr.relocate_eq_reshape : (e : Expr) → e.relocate f = e.reshape (Expr.move f)
  | .number .. | .string .. | .bool .. | .constant .. | .variable .. | .rand .. | .method ..
  | .error .. => rfl
  | .unary _ _ e | .paren _ e | .print _ e | .math _ _ e | .index _ _ e | .forEach _ _ _ _ e => by
    simp only [Expr.relocate, Expr.reshape, Expr.move, e.relocate_eq_reshape]
  | .binary _ e₁ _ e₂ | .log _ e₁ e₂ | .while _ e₁ e₂ | .range _ e₁ e₂ => by
    simp only [Expr.relocate, Expr.reshape, Expr.move, e₁.relocate_eq_reshape,
      e₂.relocate_eq_reshape]
  | .forRange _ _ e₁ e₂ e₃ => by
    simp only [Expr.relocate, Expr.reshape, Expr.move, e₁.relocate_eq_reshape,
      e₂.relocate_eq_reshape, e₃.relocate_eq_reshape]
  | .ifThen _ condition body rest => by
    simp only [Expr.relocate, Expr.reshape, Expr.move, condition.relocate_eq_reshape,
      body.relocate_eq_reshape, rest.relocate_eq_reshape]
  | .letIn _ bindings => by
    simp only [Expr.relocate, Expr.reshape, Expr.move, bindings.relocate_eq_reshape]
  | .call _ _ es | .vector _ es => by
    simp only [Expr.relocate, Expr.reshape, Expr.move, relocateAll_eq_reshape es]

theorem relocateAll_eq_reshape : (es : List Expr) →
    relocateAll f es = reshapeAll (Expr.move f) es
  | [] => rfl
  | e :: rest => by
    rw [relocateAll, reshapeAll, e.relocate_eq_reshape, relocateAll_eq_reshape rest]

theorem Branches.relocate_eq_reshape : (b : Branches) → b.relocate f = b.reshape (Expr.move f)
  | .elif condition body rest => by
    rw [Branches.relocate, Branches.reshape, condition.relocate_eq_reshape,
      body.relocate_eq_reshape, rest.relocate_eq_reshape]
  | .otherwise body => by rw [Branches.relocate, Branches.reshape, body.relocate_eq_reshape]

/-- The columns of names are those of the `let` that binds them. -/
theorem Bindings.relocate_eq_reshape : (b : Bindings) →
    b.relocate f = (b.reshape (Expr.move f)).move f
  | .bind _ _ value rest => by
    rw [Bindings.relocate, Bindings.reshape, Bindings.move, value.relocate_eq_reshape,
      rest.relocate_eq_reshape]
  | .body body => by
    rw [Bindings.relocate, Bindings.reshape, Bindings.move, body.relocate_eq_reshape]

end

end ExprScript
