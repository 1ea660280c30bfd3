import ExprScript.Number.Text
import ExprScript.Ty

/-!
# Values

* `Value`, `Value.kind`: what expressions evaluate to;
* `Value.text`: how a value is shown, concatenated and joined by loops;
* `Value.same`: structural equality, with numbers compared as numbers.
-/

namespace ExprScript

/-- What an expression evaluates to. -/
inductive Value where
  | number (x : Float)
  | bool (b : Bool)
  | string (s : String)
  | vector (elements : List Value)
  deriving Inhabited

namespace Value

/-- The kind of a value. -/
def kind : Value → Kind
  | .number _ => .number
  | .bool _ => .bool
  | .string _ => .string
  | .vector _ => .vector

/-- The number inside a value. -/
def asNumber? : Value → Option Float
  | .number x => some x
  | _ => none

/-- The boolean inside a value. -/
def asBool? : Value → Option Bool
  | .bool b => some b
  | _ => none

/-- The string inside a value. -/
def asString? : Value → Option String
  | .string s => some s
  | _ => none

/-- The elements inside a value. -/
def asVector? : Value → Option (List Value)
  | .vector elements => some elements
  | _ => none

mutual

/-- The text of a value: strings stand for themselves, and vectors list their elements in
brackets. -/
def text : Value → String
  | .number x => Number.text x
  | .bool b => if b then "true" else "false"
  | .string s => s
  | .vector elements => "[" ++ ", ".intercalate (texts elements) ++ "]"

/-- The texts of a list of values. -/
def texts : List Value → List String
  | [] => []
  | v :: rest => v.text :: texts rest

end

mutual

/-- Whether two values are equal; a number that is no number equals nothing. -/
def same : Value → Value → Bool
  | .number x, .number y => x == y
  | .bool a, .bool b => a == b
  | .string s, .string t => s == t
  | .vector xs, .vector ys => sameAll xs ys
  | _, _ => false

/-- Whether two lists of values are equal, element by element. -/
def sameAll : List Value → List Value → Bool
  | [], [] => true
  | x :: xs, y :: ys => x.same y && sameAll xs ys
  | _, _ => false

end

/-- The type of a value. -/
def ty (v : Value) : Ty := .of v.kind

end Value

end ExprScript
