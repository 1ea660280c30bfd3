import ExprScript.Function

/-!
# Type inference

What can be told of an expression without running it, given the types of some variables and the
types of the declared functions. Variables bound inside the expression have the type of their
binding; all others, whatever they will hold, have type `any`.

* `Ty.ofBinary`, `Ty.ofUnary`: operators;
* `Ty.infer`: **the type of an expression**, with one companion for each part of a tree.
-/

namespace ExprScript.Ty

/-- The types of variables, innermost first. -/
abbrev Scope := List (String × Ty)

/-- The type of the innermost variable of a name. -/
def ofName (scope : Scope) (name : String) : Ty := (scope.lookup name).getD .any

/-- The type of a unary operation. -/
def ofUnary (op : UnaryOp) (operand : Ty) : Ty :=
  operand.require (.of op.operand) (.of op.operand)

/-- The type of a concatenation: one side must be able to be a string. -/
def ofConcat (left right : Ty) : Ty :=
  if left = .never || right = .never then .never
  else if left.accepts (.of .string) || right.accepts (.of .string) then .of .string
  else .never

/-- The type of a binary operation. -/
def ofBinary (op : BinaryOp) (left right : Ty) : Ty :=
  match op with
  | .arithmetic _ => left.require (.of .number) (right.require (.of .number) (.of .number))
  | .comparison _ => left.require (.of .number) (right.require (.of .number) (.of .bool))
  | .connective _ => left.require (.of .bool) (right.require (.of .bool) (.of .bool))
  | .equality _ => left.require .any (right.require .any (.of .bool))
  | .concat => ofConcat left right

/-- The type `result` of something that needs two numbers. -/
def ofNumbers (first second result : Ty) : Ty :=
  second.require (.of .number) (first.require (.of .number) result)

/-- The type of what stands behind a condition. -/
def ifBool (condition result : Ty) : Ty :=
  if condition.require (.of .bool) .any = .never then .never else result

variable (functions : FunctionTable)

mutual

/-- The type of an expression. -/
def infer (scope : Scope) : Expr → Ty
  | .number .. => .of .number
  | .string .. => .of .string
  | .bool .. => .of .bool
  | .constant .. => .of .number
  | .variable _ name => ofName scope name
  | .unary _ op operand => ofUnary op (infer scope operand)
  | .binary _ left op right => ofBinary op (infer scope left) (infer scope right)
  | .paren _ inner => infer scope inner
  | .print _ argument => infer scope argument
  | .math _ _ argument => (infer scope argument).require (.of .number) (.of .number)
  | .log _ base argument => ofNumbers (infer scope base) (infer scope argument) (.of .number)
  | .rand _ => .of .number
  | .ifThen _ condition body rest =>
    ifBool (infer scope condition) ((infer scope body).unify (inferBranches scope rest))
  | .letIn _ bindings => inferBindings scope bindings
  | .call _ name arguments =>
    if inferable scope arguments then
      match functions.find? name with
      | some f => f.returnType
      | none => .any
    else .never
  | .forRange _ var lower upper body =>
    let element := ofNumbers (infer scope lower) (infer scope upper) (.of .number)
    if element = .never then .never
    else (infer ((var, element) :: scope) body).require .any (.of .string)
  | .forEach _ var _ _ body => (infer ((var, .any) :: scope) body).require .any (.of .string)
  | .while _ condition body =>
    (infer scope body).require .any ((infer scope condition).require (.of .bool) (.of .string))
  | .vector _ elements => if inferable scope elements then .of .vector else .never
  | .range _ lower upper => ofNumbers (infer scope lower) (infer scope upper) (.of .vector)
  | .index _ _ index => (infer scope index).require (.of .number) .any
  | .method _ _ .size => .of .number
  | .method _ _ .next => .any
  | .method _ _ .current => .any
  | .error _ => .never

/-- Whether each of several expressions can produce a value. -/
def inferable (scope : Scope) : List Expr → Bool
  | [] => true
  | e :: rest => infer scope e ≠ .never && inferable scope rest

/-- The type of the branches behind a failed condition. -/
def inferBranches (scope : Scope) : Branches → Ty
  | .elif condition body rest =>
    ifBool (infer scope condition) ((infer scope body).unify (inferBranches scope rest))
  | .otherwise body => infer scope body

/-- The type of a body under bindings, each of which must be able to produce a value. -/
def inferBindings (scope : Scope) : Bindings → Ty
  | .bind _ name value rest =>
    let ty := infer scope value
    if ty = .never then .never else inferBindings ((name, ty) :: scope) rest
  | .body body => infer scope body

end

end ExprScript.Ty
