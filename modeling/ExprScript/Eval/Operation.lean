import ExprScript.Eval.Error
import ExprScript.Number.Remainder
import ExprScript.Number.Whole

/-!
# Operations on values

What operators and built-in functions do to values, without regard to where the values come from.
A failure is a cause; the column is added where the operation was asked for.

* `UnaryOp.apply`, `BinaryOp.apply`: operators;
* `MathFunction.call`, `logarithm`: functions of numbers;
* `rangeLength`, `rangeElements`: the whole numbers from one bound up to but not including another;
* `indexOf`: the position that an index stands for.
-/

namespace ExprScript

/-- The result of an operation on values. -/
abbrev Computed := Except EvalCause

/-! ## Operators -/

/-- Applies a unary operator. -/
def UnaryOp.apply : UnaryOp → Value → Computed Value
  | .plus, .number x => .ok (.number x)
  | .negate, .number x => .ok (.number (-x))
  | .not, .bool b => .ok (.bool !b)
  | op, v => .error (.unaryOperatorType op v.kind)

/-- The result of an operation on two numbers. -/
def Arithmetic.apply : Arithmetic → Float → Float → Float
  | .add, x, y => x + y
  | .sub, x, y => x - y
  | .mul, x, y => x * y
  | .div, x, y => x / y
  | .mod, x, y => Number.remainder x y
  | .pow, x, y => Float.pow x y

/-- Whether two numbers are in an order. -/
def Comparison.apply : Comparison → Float → Float → Bool
  | .less, x, y => x < y
  | .greater, x, y => x > y
  | .lessEqual, x, y => x ≤ y
  | .greaterEqual, x, y => x ≥ y

/-- The result of a test on the equality of two values. -/
def Equality.apply (op : Equality) (equal : Bool) : Bool :=
  match op with
  | .equal => equal
  | .notEqual => !equal

/-- The result of an operation on two booleans. -/
def Connective.apply : Connective → Bool → Bool → Bool
  | .and, a, b => a && b
  | .or, a, b => a || b

/-- Applies a binary operator. Vectors have no operators but the concatenation with a string. -/
def BinaryOp.apply (op : BinaryOp) (left right : Value) : Computed Value :=
  let mismatch := .error (.operatorType op left.kind right.kind)
  match op with
  | .arithmetic f =>
    match left, right with
    | .number x, .number y => .ok (.number (f.apply x y))
    | _, _ => mismatch
  | .comparison f =>
    match left, right with
    | .number x, .number y => .ok (.bool (f.apply x y))
    | _, _ => mismatch
  | .equality f =>
    match left, right with
    | .number x, .number y => .ok (.bool (f.apply (x == y)))
    | .bool a, .bool b => .ok (.bool (f.apply (a == b)))
    | .string s, .string t => .ok (.bool (f.apply (s == t)))
    | _, _ => mismatch
  | .connective f =>
    match left, right with
    | .bool a, .bool b => .ok (.bool (f.apply a b))
    | _, _ => mismatch
  | .concat =>
    if left.kind = .string || right.kind = .string then .ok (.string (left.text ++ right.text))
    else .error .concatenationType

/-! ## Functions of numbers -/

/-- The number inside an argument of a built-in function. -/
def numberArgument (function : String) : Value → Computed Float
  | .number x => .ok x
  | v => .error (.mathArgument function v.kind)

/-- Calls a built-in function of one number. -/
def MathFunction.call (f : MathFunction) (argument : Value) : Computed Value := do
  let x ← numberArgument f.name argument
  return .number (f.apply x)

/-- What is wrong with a base and an argument of a logarithm. -/
def logFault? (base argument : Float) : Option LogFault :=
  if base ≤ 0.0 then some .baseNotPositive
  else if base == 1.0 then some .baseOne
  else if argument ≤ 0.0 then some .argumentNotPositive
  else none

/-- The logarithm of an argument to a base, as a quotient of natural logarithms. -/
def logarithm (base argument : Value) : Computed Value := do
  let b ← numberArgument "log" base
  let x ← numberArgument "log" argument
  match logFault? b x with
  | some fault => .error (.logDomain fault)
  | none => return .number (x.log / b.log)

/-! ## Ranges and indices -/

/-- The integer that a bound of a range stands for. -/
def rangeBound (bound : Value) : Computed Int :=
  match bound.asNumber?.bind Number.toWhole? with
  | some i => .ok i
  | none => .error (.invalidRangeBound bound)

/-- How many integers there are from `first` up to but not including `last`, counted in signed
integers of 64 bits. -/
def rangeLength (first last : Int) : Nat := (Number.saturate (last - first)).toNat

/-- The element of a range that stands for an integer. -/
def rangeElement (i : Int) : Computed Value :=
  match Number.ofWhole? i with
  | some x => .ok (.number x)
  | none => .error (.invalidRangeBound (.string (toString i)))

/-- The numbers from `lower` up to but not including `upper`, at most `limit` of them. -/
def rangeElements (limit : Nat) (lower upper : Value) : Computed (List Value) := do
  let first ← rangeBound lower
  let last ← rangeBound upper
  let length := rangeLength first last
  if limit < length then .error (.rangeTooLong length limit)
  else (List.range (last - first).toNat).mapM fun (k : Nat) => rangeElement (first + k)

/-- The position that an index stands for. -/
def indexOf (index : Value) : Computed Nat :=
  match index.asNumber?.bind Number.toIndex? with
  | some i => .ok i
  | none => .error (.invalidIndex index)

end ExprScript
