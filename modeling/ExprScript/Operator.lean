import ExprScript.Ty

/-!
# Operators and built-in names

The binary operators fall into five groups by what they ask of their operands. Precedence and
associativity are the single source of the grouping that the reader of expressions uses.

* `BinaryOp`, `BinaryOp.symbol`, `BinaryOp.precedence`, `BinaryOp.rightLevel`;
* `UnaryOp`, with `symbol` and `precedence`;
* `MathFunction`, `Constant`, `Method`: the built-in functions of one argument, the named numbers,
  and what can be asked of a vector.
-/

namespace ExprScript

/-- Operations on two numbers that produce a number. -/
inductive Arithmetic where
  | add
  | sub
  | mul
  | div
  | mod
  | pow
  deriving Repr, DecidableEq

/-- Order tests on two numbers. -/
inductive Comparison where
  | less
  | greater
  | lessEqual
  | greaterEqual
  deriving Repr, DecidableEq

/-- Tests on two values of one kind. -/
inductive Equality where
  | equal
  | notEqual
  deriving Repr, DecidableEq

/-- Operations on two booleans. -/
inductive Connective where
  | and
  | or
  deriving Repr, DecidableEq

/-- The binary operators. -/
inductive BinaryOp where
  | arithmetic (op : Arithmetic)
  | comparison (op : Comparison)
  | equality (op : Equality)
  | connective (op : Connective)
  | concat
  deriving Repr, DecidableEq

namespace BinaryOp

/-- The source spelling of an operator. -/
def symbol : BinaryOp → String
  | .arithmetic .add => "+"
  | .arithmetic .sub => "-"
  | .arithmetic .mul => "*"
  | .arithmetic .div => "/"
  | .arithmetic .mod => "%"
  | .arithmetic .pow => "^"
  | .comparison .less => "<"
  | .comparison .greater => ">"
  | .comparison .lessEqual => "<="
  | .comparison .greaterEqual => ">="
  | .equality .equal => "=="
  | .equality .notEqual => "!="
  | .connective .and => "&"
  | .connective .or => "|"
  | .concat => "@"

/-- How tightly an operator binds; the remainder binds like the comparisons. -/
def precedence : BinaryOp → Nat
  | .arithmetic .pow => 6
  | .arithmetic .mul => 4
  | .arithmetic .div => 4
  | .arithmetic .add => 3
  | .arithmetic .sub => 3
  | .concat => 3
  | .arithmetic .mod => 2
  | .comparison _ => 2
  | .equality _ => 2
  | .connective _ => 1

/-- Only the power groups to the right. -/
def rightAssociative (op : BinaryOp) : Bool := op = .arithmetic .pow

/-- The loosest precedence that the right operand of an operator may contain bare. -/
def rightLevel (op : BinaryOp) : Nat :=
  if op.rightAssociative then op.precedence else op.precedence + 1

/-- The kind that an operator asks of both operands, if it is one. -/
def operand? : BinaryOp → Option Kind
  | .arithmetic _ => some .number
  | .comparison _ => some .number
  | .connective _ => some .bool
  | .equality _ => none
  | .concat => none

end BinaryOp

/-- The unary operators. -/
inductive UnaryOp where
  | plus
  | negate
  | not
  deriving Repr, DecidableEq

namespace UnaryOp

/-- The source spelling of an operator. -/
def symbol : UnaryOp → String
  | .plus => "+"
  | .negate => "-"
  | .not => "!"

/-- How tightly an operator binds: signs tighter than products, the negation looser than
comparisons. -/
def precedence : UnaryOp → Nat
  | .plus => 5
  | .negate => 5
  | .not => 1

/-- The kind that an operator asks of its operand and produces. -/
def operand : UnaryOp → Kind
  | .plus => .number
  | .negate => .number
  | .not => .bool

end UnaryOp

/-- The built-in functions of one number. -/
inductive MathFunction where
  | sin
  | cos
  | sqrt
  | exp
  deriving Repr, DecidableEq

namespace MathFunction

/-- The source spelling of a function. -/
def name : MathFunction → String
  | .sin => "sin"
  | .cos => "cos"
  | .sqrt => "sqrt"
  | .exp => "exp"

/-- The value of a function. -/
def apply : MathFunction → Float → Float
  | .sin => Float.sin
  | .cos => Float.cos
  | .sqrt => Float.sqrt
  | .exp => Float.exp

end MathFunction

/-- The named numbers. -/
inductive Constant where
  | pi
  | e
  deriving Repr, DecidableEq

namespace Constant

/-- The source spelling of a constant. -/
def name : Constant → String
  | .pi => "PI"
  | .e => "E"

/-- The double nearest to a constant. -/
def value : Constant → Float
  | .pi => 3.141592653589793
  | .e => 2.718281828459045

end Constant

/-- What can be asked of a vector variable. -/
inductive Method where
  | next
  | current
  | size
  deriving Repr, DecidableEq

/-- The source spelling of a method. -/
def Method.name : Method → String
  | .next => "next"
  | .current => "current"
  | .size => "size"

end ExprScript
