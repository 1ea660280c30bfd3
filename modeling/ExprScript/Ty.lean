/-!
# Kinds and types

A value has one of four *kinds*. A *type* is what is known of an expression before it runs: the
kind of its value, nothing at all, or that it has no value.

* `Kind`, `Kind.name`: the kinds, and how messages about values name them;
* `Ty`, `Ty.name`: the types, and how messages about declarations name them;
* `Ty.accepts`, `Ty.unify`, `Ty.require`: the three operations of type inference.
-/

namespace ExprScript

/-- The kinds of values. -/
inductive Kind where
  | number
  | bool
  | string
  | vector
  deriving Repr, DecidableEq

/-- The name of a kind in messages about values. -/
def Kind.name : Kind → String
  | .number => "number"
  | .bool => "boolean"
  | .string => "string"
  | .vector => "vector"

/-- What is known of an expression before it runs: it can only produce values of one kind (`of`),
nothing is known (`any`), or it cannot produce a value (`never`). -/
inductive Ty where
  | of (kind : Kind)
  | any
  | never
  deriving Repr, DecidableEq

namespace Ty

/-- The name of a type in messages about declarations and calls. -/
def name : Ty → String
  | .of .number => "Number"
  | .of .bool => "Bool"
  | .of .string => "String"
  | .of .vector => "Object"
  | .any => "Any"
  | .never => "None"

/-- Whether a value of type `found` may stand where `required` is asked for. -/
def accepts (required found : Ty) : Bool :=
  required = .any || found = .any || required = found

/-- The type of a choice between two expressions: both branches must be able to produce a value,
and the kind is known only if they agree. -/
def unify (a b : Ty) : Ty :=
  if a = .never || b = .never then .never
  else if a = b then a
  else .any

/-- The type `result` of an operation on an operand of type `found`, where `required` is asked
for. -/
def require (found required result : Ty) : Ty :=
  if found ≠ .never && required.accepts found then result else .never

end Ty

end ExprScript
