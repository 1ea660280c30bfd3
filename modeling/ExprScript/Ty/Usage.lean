import ExprScript.Function

/-!
# The use of a parameter

A parameter is asked to be of the type that its first constraining use asks for, in the order of
evaluation: a use constrains it when the parameter itself, perhaps in parentheses, is the operand of
something that works on one kind of values only. A binding of the same name hides the uses behind
it.

* `Expr.names`: an expression that is the parameter itself;
* `Ty.firstUse?`: the type asked for by the first constraining use, if there is one;
* `Ty.usage`: **the type a function asks of a parameter**.
-/

namespace ExprScript

/-- Whether an expression is the variable `param`, possibly in parentheses. -/
def Expr.names (param : String) : Expr → Bool
  | .variable _ name => name = param
  | .paren _ inner => inner.names param
  | _ => false

namespace Ty

/-- The first use in an operand of which `ty` is asked, where `inside` is the first use inside it. -/
def orUse (param : String) (ty : Ty) (operand : Expr) (inside : Option Ty) : Option Ty :=
  if operand.names param then some ty else inside

variable (functions : FunctionTable) (param : String)

mutual

/-- The type that the first constraining use of a parameter asks for. -/
def firstUse? : Expr → Option Ty
  | .number .. => none
  | .string .. => none
  | .bool .. => none
  | .constant .. => none
  | .variable .. => none
  | .rand .. => none
  | .error .. => none
  | .paren _ inner => firstUse? inner
  | .print _ argument => firstUse? argument
  | .unary _ op operand => orUse param (.of op.operand) operand (firstUse? operand)
  | .binary _ left op right =>
    match op.operand? with
    | some kind =>
      (orUse param (.of kind) left (firstUse? left)).or
        (orUse param (.of kind) right (firstUse? right))
    | none => (firstUse? left).or (firstUse? right)
  | .math _ _ argument => orUse param (.of .number) argument (firstUse? argument)
  | .log _ base argument =>
    (orUse param (.of .number) base (firstUse? base)).or
      (orUse param (.of .number) argument (firstUse? argument))
  | .ifThen _ condition body rest =>
    (orUse param (.of .bool) condition (firstUse? condition)).or
      ((firstUse? body).or (firstUseBranches? rest))
  | .letIn _ bindings => firstUseBindings? bindings
  | .call _ name arguments =>
    match functions.find? name with
    | some f => firstUseArguments? f.paramTypes arguments
    | none => firstUseArguments? [] arguments
  | .forRange _ var lower upper body =>
    ((orUse param (.of .number) lower (firstUse? lower)).or
      (orUse param (.of .number) upper (firstUse? upper))).or
      (if var = param then none else firstUse? body)
  | .forEach _ var vector _ body =>
    if vector = param then some (.of .vector)
    else if var = param then none
    else firstUse? body
  | .while _ condition body =>
    (orUse param (.of .bool) condition (firstUse? condition)).or (firstUse? body)
  | .vector _ elements => firstUseArguments? [] elements
  | .range _ lower upper =>
    (orUse param (.of .number) lower (firstUse? lower)).or
      (orUse param (.of .number) upper (firstUse? upper))
  | .index _ name index =>
    if name = param then some (.of .vector)
    else orUse param (.of .number) index (firstUse? index)
  | .method _ name _ => if name = param then some (.of .vector) else none

/-- The first use in a list of expressions, of which the given types are asked; `any` and a missing
type ask nothing. -/
def firstUseArguments? (asked : List Ty) : List Expr → Option Ty
  | [] => none
  | argument :: rest =>
    let here := match asked.head?.filter (· ≠ .any) with
      | some ty => orUse param ty argument (firstUse? argument)
      | none => firstUse? argument
    here.or (firstUseArguments? asked.tail rest)

/-- The first use in the branches behind a failed condition. -/
def firstUseBranches? : Branches → Option Ty
  | .elif condition body rest =>
    (orUse param (.of .bool) condition (firstUse? condition)).or
      ((firstUse? body).or (firstUseBranches? rest))
  | .otherwise body => firstUse? body

/-- The first use in bindings and the body behind them; a binding of the same name ends the
search. -/
def firstUseBindings? : Bindings → Option Ty
  | .bind _ name value rest =>
    (firstUse? value).or (if name = param then none else firstUseBindings? rest)
  | .body body => firstUse? body

end

/-- The type that a function body asks of a parameter, `any` if no use constrains it. -/
def usage (body : Expr) : Ty := (firstUse? functions param body).getD .any

end Ty

end ExprScript
