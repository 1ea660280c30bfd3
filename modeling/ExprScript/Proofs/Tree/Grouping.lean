import ExprScript.Expr

/-!
# The grouping of a tree

The binding powers of operators decide which trees can be written without parentheses: a bare
operand must bind tightly enough for its place, and nothing on the left of an operator may end in a
part that would have gone on over that operator.

* `Expr.everywhere`: a test that holds of an expression and of all expressions in it;
* `Expr.absorbs`, `Expr.bindsFrom`: what may stand on either side of an operator;
* `Expr.groupedHere`, `Expr.grouped`: **the grouping that the binding powers dictate**;
* `Expr.complete`: no part of the tree is missing;
* `Expr.need`: **the number of levels that reading the tree takes**.
-/

namespace ExprScript

/-! ## Tests on all expressions of a tree -/

section Everywhere

variable (p : Expr → Bool)

mutual

/-- Whether a test holds of an expression and of all expressions in it. -/
def Expr.everywhere : Expr → Bool
  | .unary column op operand => p (.unary column op operand) && operand.everywhere
  | .binary column left op right =>
    p (.binary column left op right) && (left.everywhere && right.everywhere)
  | .paren column inner => p (.paren column inner) && inner.everywhere
  | .print column argument => p (.print column argument) && argument.everywhere
  | .math column f argument => p (.math column f argument) && argument.everywhere
  | .log column base argument =>
    p (.log column base argument) && (base.everywhere && argument.everywhere)
  | .ifThen column condition body rest =>
    p (.ifThen column condition body rest) &&
      (condition.everywhere && (body.everywhere && rest.everywhere))
  | .letIn column bindings => p (.letIn column bindings) && bindings.everywhere
  | .call column name arguments => p (.call column name arguments) && everywhereAll arguments
  | .forRange column var lower upper body =>
    p (.forRange column var lower upper body) &&
      (lower.everywhere && (upper.everywhere && body.everywhere))
  | .forEach column var vector vectorColumn body =>
    p (.forEach column var vector vectorColumn body) && body.everywhere
  | .while column condition body =>
    p (.while column condition body) && (condition.everywhere && body.everywhere)
  | .vector column elements => p (.vector column elements) && everywhereAll elements
  | .range column lower upper =>
    p (.range column lower upper) && (lower.everywhere && upper.everywhere)
  | .index column name index => p (.index column name index) && index.everywhere
  | .number column x => p (.number column x)
  | .string column s => p (.string column s)
  | .bool column b => p (.bool column b)
  | .constant column c => p (.constant column c)
  | .variable column name => p (.variable column name)
  | .rand column => p (.rand column)
  | .method column name m => p (.method column name m)
  | .error column => p (.error column)

/-- Whether a test holds of several expressions and of all expressions in them. -/
def everywhereAll : List Expr → Bool
  | [] => true
  | e :: rest => e.everywhere && everywhereAll rest

/-- Whether a test holds of all expressions in branches. -/
def Branches.everywhere : Branches → Bool
  | .elif condition body rest => condition.everywhere && (body.everywhere && rest.everywhere)
  | .otherwise body => body.everywhere

/-- Whether a test holds of all expressions in bindings. -/
def Bindings.everywhere : Bindings → Bool
  | .bind _ _ value rest => value.everywhere && rest.everywhere
  | .body body => body.everywhere

end

variable {p}

mutual

/-- A test that holds of every expression holds everywhere. -/
theorem Expr.everywhere_of_forall (hp : ∀ e, p e = true) : (e : Expr) → e.everywhere p = true
  | .number .. | .string .. | .bool .. | .constant .. | .variable .. | .rand .. | .method ..
  | .error .. => hp _
  | .unary _ _ e | .paren _ e | .print _ e | .math _ _ e | .forEach _ _ _ _ e | .index _ _ e => by
    simp only [Expr.everywhere, hp, e.everywhere_of_forall hp, Bool.and_self]
  | .binary _ e₁ _ e₂ | .log _ e₁ e₂ | .while _ e₁ e₂ | .range _ e₁ e₂ => by
    simp only [Expr.everywhere, hp, e₁.everywhere_of_forall hp, e₂.everywhere_of_forall hp,
      Bool.and_self]
  | .forRange _ _ e₁ e₂ e₃ => by
    simp only [Expr.everywhere, hp, e₁.everywhere_of_forall hp, e₂.everywhere_of_forall hp,
      e₃.everywhere_of_forall hp, Bool.and_self]
  | .ifThen _ e₁ e₂ rest => by
    simp only [Expr.everywhere, hp, e₁.everywhere_of_forall hp, e₂.everywhere_of_forall hp,
      rest.everywhere_of_forall hp, Bool.and_self]
  | .letIn _ bindings => by
    simp only [Expr.everywhere, hp, bindings.everywhere_of_forall hp, Bool.and_self]
  | .call _ _ es | .vector _ es => by
    simp only [Expr.everywhere, hp, everywhereAll_of_forall hp es, Bool.and_self]

theorem everywhereAll_of_forall (hp : ∀ e, p e = true) : (es : List Expr) →
    everywhereAll p es = true
  | [] => rfl
  | e :: rest => by
    simp only [everywhereAll, e.everywhere_of_forall hp, everywhereAll_of_forall hp rest,
      Bool.and_self]

theorem Branches.everywhere_of_forall (hp : ∀ e, p e = true) : (b : Branches) →
    b.everywhere p = true
  | .elif e₁ e₂ rest => by
    simp only [Branches.everywhere, e₁.everywhere_of_forall hp, e₂.everywhere_of_forall hp,
      rest.everywhere_of_forall hp, Bool.and_self]
  | .otherwise e => e.everywhere_of_forall hp

theorem Bindings.everywhere_of_forall (hp : ∀ e, p e = true) : (b : Bindings) →
    b.everywhere p = true
  | .bind _ _ e rest => by
    simp only [Bindings.everywhere, e.everywhere_of_forall hp, rest.everywhere_of_forall hp,
      Bool.and_self]
  | .body e => e.everywhere_of_forall hp

end

end Everywhere

/-! ## Grouping -/

namespace Expr

/-- Whether an expression ends in a part that would have gone on over an operator of a precedence
behind it: the operand of a unary operator and a right operand take what binds tightly enough, and
the body of a `let`, an `if` or a loop takes every operator. -/
def absorbs (precedence : Nat) : Expr → Bool
  | .unary _ op operand => op.precedence + 1 ≤ precedence || operand.absorbs precedence
  | .binary _ _ op right => op.rightLevel ≤ precedence || right.absorbs precedence
  | .letIn .. => 1 ≤ precedence
  | .ifThen .. => 1 ≤ precedence
  | .forRange .. => 1 ≤ precedence
  | .forEach .. => 1 ≤ precedence
  | .while .. => 1 ≤ precedence
  | _ => false

/-- Whether an expression may stand bare where operators must bind at least as tightly as
`level`. -/
def bindsFrom (level : Nat) : Expr → Bool
  | .binary _ _ op _ => level ≤ op.precedence
  | _ => true

/-- Whether the operands of an expression that is an operation are grouped as the binding powers
dictate. -/
def groupedHere : Expr → Bool
  | .unary _ op operand => operand.bindsFrom (op.precedence + 1)
  | .binary _ left op right => !left.absorbs op.precedence && right.bindsFrom op.rightLevel
  | _ => true

/-- **The grouping that the binding powers dictate**, in the whole tree. -/
abbrev grouped (e : Expr) : Bool := e.everywhere groupedHere

/-- Whether an expression is no missing one, and no `let` without a binding. -/
def completeHere : Expr → Bool
  | .error _ => false
  | .letIn _ (.body _) => false
  | _ => true

/-- No part of the tree is missing. -/
abbrev complete (e : Expr) : Bool := e.everywhere completeHere

/-- Whether an expression is an operation on two operands. -/
def isBinary : Expr → Bool
  | .binary .. => true
  | _ => false

theorem bindsFrom_of_not_isBinary {e : Expr} (h : e.isBinary = false) (level : Nat) :
    e.bindsFrom level = true := by
  cases e <;> first | rfl | cases h

end Expr

theorem BinaryOp.precedence_pos (op : BinaryOp) : 1 ≤ op.precedence := by
  unfold BinaryOp.precedence
  split <;> decide

theorem BinaryOp.rightLevel_le (op : BinaryOp) : op.rightLevel ≤ op.precedence + 1 := by
  unfold BinaryOp.rightLevel
  split <;> omega

/-- An operator that is not absorbed on its left binds no tighter than what stands there, so whatever
may stand in its place, its left operand may. -/
theorem Expr.bindsFrom_of_absorbs_eq_false {e : Expr} {level precedence : Nat}
    (h : e.absorbs precedence = false) (hl : level ≤ precedence) : e.bindsFrom level = true := by
  cases e with
  | binary column left op right =>
    have hr := op.rightLevel_le
    simp only [Expr.absorbs, Bool.or_eq_false_iff, decide_eq_false_iff_not] at h
    simp only [Expr.bindsFrom, decide_eq_true_eq]
    omega
  | _ => rfl

/-! ## Levels -/

mutual

/-- **The number of levels that reading an expression takes**: one for itself, and one more around
each right operand, each operand of a unary operator and each expression inside another form. What
stands on the left of an operator is read on the level of the whole. -/
def Expr.need : Expr → Nat
  | .unary _ _ operand => operand.need + 1
  | .binary _ left _ right => max left.need (right.need + 1)
  | .paren _ inner => inner.need + 1
  | .print _ argument => argument.need + 1
  | .math _ _ argument => argument.need + 1
  | .log _ base argument => max (base.need + 1) (argument.need + 1)
  | .ifThen _ condition body rest => max (max (condition.need + 1) (body.need + 1)) rest.need
  | .letIn _ bindings => bindings.need
  | .call _ _ arguments => needAll arguments
  | .forRange _ _ lower upper body =>
    max (max (lower.need + 1) (upper.need + 1)) (body.need + 1)
  | .forEach _ _ _ _ body => body.need + 1
  | .while _ condition body => max (condition.need + 1) (body.need + 1)
  | .vector _ elements => needAll elements
  | .range _ lower upper => max (lower.need + 1) (upper.need + 1)
  | .index _ _ index => index.need + 1
  | .number .. => 1
  | .string .. => 1
  | .bool .. => 1
  | .constant .. => 1
  | .variable .. => 1
  | .rand _ => 1
  | .method .. => 1
  | .error _ => 1

/-- The number of levels that reading a form with several expressions inside takes. -/
def needAll : List Expr → Nat
  | [] => 1
  | e :: rest => max (e.need + 1) (needAll rest)

/-- The number of levels that reading a form with branches takes. -/
def Branches.need : Branches → Nat
  | .elif condition body rest => max (max (condition.need + 1) (body.need + 1)) rest.need
  | .otherwise body => body.need + 1

/-- The number of levels that reading a form with bindings takes. -/
def Bindings.need : Bindings → Nat
  | .bind _ _ value rest => max (value.need + 1) rest.need
  | .body body => body.need + 1

end

theorem needAll_pos (es : List Expr) : 1 ≤ needAll es := by
  cases es with
  | nil => exact Nat.le_refl 1
  | cons e rest => rw [needAll]; omega

theorem Branches.need_pos (b : Branches) : 1 ≤ b.need := by
  cases b <;> rw [Branches.need] <;> omega

theorem Bindings.need_pos (b : Bindings) : 1 ≤ b.need := by
  cases b <;> rw [Bindings.need] <;> omega

/-- Reading an expression takes a level. -/
theorem Expr.need_pos (e : Expr) : 1 ≤ e.need := by
  cases e <;> simp only [Expr.need]
  case letIn bindings => exact bindings.need_pos
  case call arguments => exact needAll_pos arguments
  case vector elements => exact needAll_pos elements
  all_goals omega

end ExprScript
