import ExprScript.Operator
import ExprScript.Value

/-!
# Errors of evaluation

* `EvalCause`: what can go wrong when an expression runs;
* `EvalError` and its `message`: a cause with the column it is reported at.
-/

namespace ExprScript

/-- Why a logarithm has no value. -/
inductive LogFault where
  | baseNotPositive
  | baseOne
  | argumentNotPositive
  deriving Repr, DecidableEq

/-- The name of a fault in messages. -/
def LogFault.text : LogFault → String
  | .baseNotPositive => "base must be positive"
  | .baseOne => "base cannot be 1"
  | .argumentNotPositive => "argument must be positive"

/-- What can go wrong when an expression runs. -/
inductive EvalCause where
  | undefinedVariable (name : String)
  | undefinedFunction (name : String)
  | arityMismatch (name : String) (expected found : Nat)
  | argumentType (function parameter : String) (expected : Ty) (found : Kind)
  | stackOverflow (limit : Nat)
  | operatorType (op : BinaryOp) (left right : Kind)
  | unaryOperatorType (op : UnaryOp) (operand : Kind)
  | concatenationType
  | conditionNotBool (found : Kind)
  | mathArgument (function : String) (found : Kind)
  | logDomain (fault : LogFault)
  | notAVector (name : String)
  | invalidIndex (index : Value)
  | indexOutOfBounds (name : String) (index size : Nat)
  | cursorExhausted (name : String)
  | cursorNotStarted (name : String)
  | invalidRangeBound (bound : Value)
  | rangeTooLong (length limit : Nat)
  | invalidExpression

/-- What went wrong, in words. -/
def EvalCause.text : EvalCause → String
  | .undefinedVariable name => "Variable \"" ++ name ++ "\" is not defined"
  | .undefinedFunction name => "Function \"" ++ name ++ "\" is not defined"
  | .arityMismatch name expected found =>
    "Function \"" ++ name ++ "\" does not take " ++ toString found ++ " arguments, it takes " ++
      toString expected
  | .argumentType function parameter expected found =>
    "Argument \"" ++ parameter ++ "\" of function \"" ++ function ++ "\" must be " ++
      expected.name ++ ", found " ++ (Ty.of found).name
  | .stackOverflow limit =>
    "Stack overflow: more than " ++ toString limit ++ " nested function calls"
  | .operatorType op left right =>
    "Operator '" ++ op.symbol ++ "' cannot be used between '" ++ left.name ++ "' and '" ++
      right.name ++ "'"
  | .unaryOperatorType op operand =>
    "Operator '" ++ op.symbol ++ "' cannot be applied to '" ++ operand.name ++ "'"
  | .concatenationType => "At least one of the elements to concatenate must be a string"
  | .conditionNotBool found =>
    "Can't convert the given condition of type '" ++ found.name ++ "' to bool"
  | .mathArgument function found =>
    "Function '" ++ function ++ "' expects a number, found '" ++ found.name ++ "'"
  | .logDomain fault => "Invalid logarithm: " ++ fault.text
  | .notAVector name => "Variable \"" ++ name ++ "\" is not a vector"
  | .invalidIndex index => "Index must be a non-negative integer, found '" ++ index.text ++ "'"
  | .indexOutOfBounds name index size =>
    "Index " ++ toString index ++ " is out of bounds for vector \"" ++ name ++ "\" of size " ++
      toString size
  | .cursorExhausted name => "Vector \"" ++ name ++ "\" has no more elements"
  | .cursorNotStarted name =>
    "Vector \"" ++ name ++ "\" has no current element, call next() first"
  | .invalidRangeBound bound => "Range bounds must be integers, found '" ++ bound.text ++ "'"
  | .rangeTooLong length limit =>
    "Range of " ++ toString length ++ " elements exceeds the limit of " ++ toString limit
  | .invalidExpression => "Invalid expression"

/-- An error of evaluation. -/
structure EvalError where
  cause : EvalCause
  column : Nat

/-- What went wrong, for the reader of the program. -/
def EvalError.message (e : EvalError) : String :=
  "! SEMANTIC ERROR: " ++ e.cause.text ++ " (column " ++ toString e.column ++ ")"

end ExprScript
