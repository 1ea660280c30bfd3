import ExprScript.Eval.Machine
import ExprScript.Eval.Operation

/-!
# Evaluation of expressions

Evaluation follows the tree, left to right. Only a call leaves the tree; what it does is a parameter
`enter`, which is given the column of the call, the frame of the arguments and the body of the
function. The machine counts the open calls, which may nest up to a limit, so the evaluator is that
of trees, iterated over the calls that may still be opened.

* `Eval.method`, `Eval.checkArguments`, `Eval.loop`: the rules for methods, arguments and loops;
* `Expr.evalWith`: the evaluator of trees, with one companion for each part of a tree;
* `Expr.eval`: **the evaluator**, on a number of calls that may still be opened.
-/

namespace ExprScript

namespace Eval

/-- Calls a method of a vector variable. `next` moves its cursor to the next element and produces
it, and leaves the cursor alone behind the last one. -/
def method (column : Nat) (name : String) (m : Method) : Eval Value := do
  let (elements, cursor) ← vectorBinding name column
  match m with
  | .size => return .number (Number.ofCount elements.length)
  | .next =>
    let position := match cursor with
      | some i => i + 1
      | none => 0
    match elements[position]? with
    | some element =>
      modify fun s => { s with scopes := s.scopes.setCursor name position }
      return element
    | none => fail (.cursorExhausted name) column
  | .current =>
    match cursor.bind (elements[·]?) with
    | some element => return element
    | none => fail (.cursorNotStarted name) column

/-- The element of a vector variable at an index. -/
def element (column : Nat) (name : String) (elements : List Value) (index : Value) :
    Eval Value := do
  let position ← located column (indexOf index)
  match elements[position]? with
  | some v => return v
  | none => fail (.indexOutOfBounds name position elements.length) column

/-- The first argument whose type is not what its parameter is asked to be. -/
def mismatch? : List String → List Ty → List Value → Option (String × Ty × Kind)
  | param :: params, ty :: types, v :: values =>
    if ty.accepts v.ty then mismatch? params types values else some (param, ty, v.kind)
  | _, _, _ => none

/-- Checks the arguments of a call against the types of the parameters. -/
def checkArguments (column : Nat) (f : FunctionDef) (values : List Value) : Eval Unit :=
  match mismatch? f.params f.paramTypes values with
  | some (param, expected, found) => fail (.argumentType f.name param expected found) column
  | none => return ()

/-- Runs a body for each element, bound to a variable in a frame of its own; the texts of the
results are the lines of the result. -/
def loop (var : String) (elements : List Value) (body : Eval Value) : Eval Value := do
  requestPrint
  let lines ← elements.mapM fun element =>
    inFrame (Frame.ofList [(var, element)]) do return (← body).text
  return .string ("\n".intercalate lines)

end Eval

/-- What happens to the body of a function that is called at a column with arguments in a frame. -/
abbrev Enter := Nat → Frame → Expr → Eval Value

variable (setting : Setting) (enter : Enter)

mutual

/-- Evaluates an expression. -/
def Expr.evalWith : Expr → Eval Value
  | .number _ x => return .number x
  | .string _ s => return .string s
  | .bool _ b => return .bool b
  | .constant _ c => return .number c.value
  | .variable column name => return (← Eval.binding name column).value
  | .unary column op operand => do
    let v ← operand.evalWith
    Eval.located column (op.apply v)
  | .binary column left op right => do
    let a ← left.evalWith
    let b ← right.evalWith
    Eval.located column (op.apply a b)
  | .paren _ inner => inner.evalWith
  | .print _ argument => do
    let v ← argument.evalWith
    Eval.requestPrint
    return v
  | .math column f argument => do
    let v ← argument.evalWith
    Eval.located column (f.call v)
  | .log column base argument => do
    let b ← base.evalWith
    let x ← argument.evalWith
    Eval.located column (logarithm b x)
  | .rand _ => return .number (← Eval.draw)
  | .ifThen _ condition body rest => do
    let c ← condition.evalWith
    if ← Eval.condition condition.column c then body.evalWith else rest.evalWith
  | .letIn _ bindings => Eval.inFrame [] bindings.evalWith
  | .call column name arguments => do
    match setting.functions.find? name with
    | none => Eval.fail (.undefinedFunction name) column
    | some f =>
      if arguments.length ≠ f.params.length then
        Eval.fail (.arityMismatch name f.params.length arguments.length) column
      let values ← evalAll arguments
      Eval.checkArguments column f values
      enter column (Frame.ofList (f.params.zip values)) f.body
  | .forRange column var lower upper body => do
    let first ← lower.evalWith
    let last ← upper.evalWith
    let elements ← Eval.located column (rangeElements setting.limits.rangeLength first last)
    Eval.loop var elements body.evalWith
  | .forEach _ var vector vectorColumn body => do
    let (elements, _) ← Eval.vectorBinding vector vectorColumn
    Eval.loop var elements body.evalWith
  | .while _ condition body => do
    Eval.requestPrint
    let test : Eval Bool := do Eval.condition condition.column (← condition.evalWith)
    let line : Eval String := do return (← body.evalWith).text
    let lines ← Eval.repeatWhile test line setting.rounds []
    return .string ("\n".intercalate lines)
  | .vector _ elements => return .vector (← evalAll elements)
  | .range column lower upper => do
    let first ← lower.evalWith
    let last ← upper.evalWith
    return .vector
      (← Eval.located column (rangeElements setting.limits.rangeLength first last))
  | .index column name index => do
    let (elements, _) ← Eval.vectorBinding name column
    let i ← index.evalWith
    Eval.element column name elements i
  | .method column name m => Eval.method column name m
  | .error column => Eval.fail .invalidExpression column

/-- Evaluates expressions in order. -/
def evalAll : List Expr → Eval (List Value)
  | [] => return []
  | e :: rest => do
    let v ← e.evalWith
    return v :: (← evalAll rest)

/-- Evaluates the branch behind a failed condition that is chosen. -/
def Branches.evalWith : Branches → Eval Value
  | .elif condition body rest => do
    let c ← condition.evalWith
    if ← Eval.condition condition.column c then body.evalWith else rest.evalWith
  | .otherwise body => body.evalWith

/-- Binds names in the innermost frame, in order, and evaluates the body. -/
def Bindings.evalWith : Bindings → Eval Value
  | .bind _ name value rest => do
    let v ← value.evalWith
    Eval.define name v
    rest.evalWith
  | .body body => body.evalWith

end

/-- What happens to the body of a called function when the tree of a body may be entered so many more
times. The count of open calls decides; as it grows with every entry, the bound is never met
first. -/
def enterCall : Nat → Enter
  | 0 => fun column _ _ => Eval.fail (.stackOverflow setting.limits.callDepth) column
  | calls + 1 => fun column frame body => do
    Eval.checkCalls setting.limits.callDepth column
    Eval.inCall frame (body.evalWith setting (enterCall calls))

/-- **The evaluator**, on a number of calls that may still be opened. -/
def Expr.evalAt (calls : Nat) (e : Expr) : Eval Value := e.evalWith setting (enterCall setting calls)

/-- Evaluates an expression. No more calls can be opened than may be open at once. -/
def Expr.eval (e : Expr) : Eval Value := e.evalAt setting setting.limits.callDepth

end ExprScript
