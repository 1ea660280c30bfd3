import ExprScript.Operator

/-!
# Expressions

The trees that statements are read into. Every node carries the column of its first character, a
binary operation that of its operator. The parts of `if` and `let` behind the first condition and
the keyword are chains of their own: what is left of a chain is again a chain, so every walk over
trees treats its links one at a time.

* `Expr`, `Branches`, `Bindings`: the trees;
* `Expr.column`: the column that messages about a tree point at.
-/

namespace ExprScript

mutual

/-- An expression. `error` stands where the reader found none. -/
inductive Expr where
  | number (column : Nat) (value : Float)
  | string (column : Nat) (value : String)
  | bool (column : Nat) (value : Bool)
  | constant (column : Nat) (value : Constant)
  | variable (column : Nat) (name : String)
  | unary (column : Nat) (op : UnaryOp) (operand : Expr)
  | binary (column : Nat) (left : Expr) (op : BinaryOp) (right : Expr)
  | paren (column : Nat) (inner : Expr)
  | print (column : Nat) (argument : Expr)
  | math (column : Nat) (function : MathFunction) (argument : Expr)
  | log (column : Nat) (base argument : Expr)
  | rand (column : Nat)
  | ifThen (column : Nat) (condition body : Expr) (rest : Branches)
  | letIn (column : Nat) (bindings : Bindings)
  | call (column : Nat) (name : String) (arguments : List Expr)
  | forRange (column : Nat) (var : String) (lower upper body : Expr)
  | forEach (column : Nat) (var vector : String) (vectorColumn : Nat) (body : Expr)
  | while (column : Nat) (condition body : Expr)
  | vector (column : Nat) (elements : List Expr)
  | range (column : Nat) (lower upper : Expr)
  | index (column : Nat) (name : String) (index : Expr)
  | method (column : Nat) (name : String) (method : Method)
  | error (column : Nat)

/-- What an `if` does when its condition fails: the next condition, or the last branch. -/
inductive Branches where
  | elif (condition body : Expr) (rest : Branches)
  | otherwise (body : Expr)

/-- The bindings of a `let`, each with the column of its name, and the body behind them. -/
inductive Bindings where
  | bind (column : Nat) (name : String) (value : Expr) (rest : Bindings)
  | body (body : Expr)

end

instance : Inhabited Expr := ⟨.error 0⟩

/-- The column that messages about an expression point at. -/
def Expr.column : Expr → Nat
  | .number column .. => column
  | .string column .. => column
  | .bool column .. => column
  | .constant column .. => column
  | .variable column .. => column
  | .unary column .. => column
  | .binary column .. => column
  | .paren column .. => column
  | .print column .. => column
  | .math column .. => column
  | .log column .. => column
  | .rand column => column
  | .ifThen column .. => column
  | .letIn column .. => column
  | .call column .. => column
  | .forRange column .. => column
  | .forEach column .. => column
  | .while column .. => column
  | .vector column .. => column
  | .range column .. => column
  | .index column .. => column
  | .method column .. => column
  | .error column => column

end ExprScript
