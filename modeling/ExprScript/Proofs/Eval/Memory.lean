import ExprScript.Eval.Expr

/-!
# Evaluation over other memories

The evaluator uses the frames in five ways only: it looks names up, moves cursors, binds names,
opens scopes and closes them. Here it is written down again over any memory that can do these, rule
by rule as for frames.

* `Memory`: what a memory of variables can do;
* `Store`, `EvalOver`: what evaluation over a memory changes, and its steps;
* `Memory.evalWith`, `Memory.enterCall`: the evaluator of trees, and what calls do;
* `Memory.evalAt`, `Memory.eval`: **the evaluator over a memory**.
-/

namespace ExprScript

/-- What a memory of variables can do. A scope is opened with variables in it, and closing it is
told what the memory was when it was opened. -/
structure Memory (μ : Type) where
  find? : μ → String → Option Binding
  setCursor : String → Nat → μ → μ
  define : String → Value → μ → μ
  opened : List (String × Value) → μ → μ
  closed : μ → μ → μ

/-- What evaluation over a memory changes. -/
structure Store (μ : Type) where
  memory : μ
  callDepth : Nat
  printRequested : Bool
  generator : Generator

/-- Steps of evaluation over a memory. -/
abbrev EvalOver (μ : Type) := EStateM Halt (Store μ)

namespace EvalOver

variable {μ α : Type}

/-! ## Steps without variables -/

/-- Stops with an error. -/
def fail (cause : EvalCause) (column : Nat) : EvalOver μ α := throw (.error ⟨cause, column⟩)

/-- The result of an operation that was asked for at a column. -/
def located (column : Nat) (result : Except EvalCause α) : EvalOver μ α :=
  match result with
  | .ok a => return a
  | .error cause => fail cause column

/-- Asks for the result to be shown. -/
def requestPrint : EvalOver μ Unit := modify fun m => { m with printRequested := true }

/-- Draws a random number. -/
def draw : EvalOver μ Float := do
  let (x, generator) := (← get).generator.draw
  modify fun m => { m with generator := generator }
  return x

/-- The boolean that a condition produced. -/
def condition (column : Nat) (value : Value) : EvalOver μ Bool :=
  match value with
  | .bool b => return b
  | v => fail (.conditionNotBool v.kind) column

/-- The element of a vector variable at an index. -/
def element (column : Nat) (name : String) (elements : List Value) (index : Value) :
    EvalOver μ Value := do
  let position ← located column (indexOf index)
  match elements[position]? with
  | some v => return v
  | none => fail (.indexOutOfBounds name position elements.length) column

/-- Checks the arguments of a call against the types of the parameters. -/
def checkArguments (column : Nat) (f : FunctionDef) (values : List Value) : EvalOver μ Unit :=
  match Eval.mismatch? f.params f.paramTypes values with
  | some (param, expected, found) => fail (.argumentType f.name param expected found) column
  | none => return ()

/-- Fails when as many calls are open as there may be. -/
def checkCalls (limit column : Nat) : EvalOver μ Unit := do
  if limit ≤ (← get).callDepth then fail (.stackOverflow limit) column

/-- The lines of a loop behind those already there, newest first. The condition is tested at most so
many times. -/
def repeatWhile (condition : EvalOver μ Bool) (body : EvalOver μ String) : Nat → List String →
    EvalOver μ (List String)
  | 0, _ => throw .outOfRounds
  | rounds + 1, lines => do
    if ← condition then repeatWhile condition body rounds ((← body) :: lines)
    else return lines.reverse

end EvalOver

namespace Memory

open EvalOver

variable {μ α : Type} (M : Memory μ)

/-! ## Steps that use variables -/

/-- Binds a name in the innermost scope. -/
def bindName (name : String) (value : Value) : EvalOver μ Unit :=
  modify fun m => { m with memory := M.define name value m.memory }

/-- The binding of a name. -/
def binding (name : String) (column : Nat) : EvalOver μ Binding := do
  match M.find? (← get).memory name with
  | some b => return b
  | none => fail (.undefinedVariable name) column

/-- The binding of a name, which must be a vector, and its elements. -/
def vectorBinding (name : String) (column : Nat) : EvalOver μ (List Value × Option Nat) := do
  let b ← M.binding name column
  match b.value with
  | .vector elements => return (elements, b.cursor)
  | _ => fail (.notAVector name) column

/-- A scope is open while a step runs and is closed when the step ends, whether it succeeds or
fails. -/
def inScope (bound : List (String × Value)) (step : EvalOver μ α) : EvalOver μ α := fun m =>
  match step { m with memory := M.opened bound m.memory } with
  | .ok a m' => .ok a { m' with memory := M.closed m.memory m'.memory }
  | .error h m' => .error h { m' with memory := M.closed m.memory m'.memory }

/-- Counts a call as open while a step runs in a scope of its own, whether the step succeeds or
fails. -/
def inCall (bound : List (String × Value)) (step : EvalOver μ α) : EvalOver μ α := fun m =>
  match M.inScope bound step { m with callDepth := m.callDepth + 1 } with
  | .ok a m => .ok a { m with callDepth := m.callDepth - 1 }
  | .error h m => .error h { m with callDepth := m.callDepth - 1 }

/-- Calls a method of a vector variable. -/
def method (column : Nat) (name : String) (m : Method) : EvalOver μ Value := do
  let (elements, cursor) ← M.vectorBinding name column
  match m with
  | .size => return .number (Number.ofCount elements.length)
  | .next =>
    let position := match cursor with
      | some i => i + 1
      | none => 0
    match elements[position]? with
    | some element =>
      modify fun s => { s with memory := M.setCursor name position s.memory }
      return element
    | none => fail (.cursorExhausted name) column
  | .current =>
    match cursor.bind (elements[·]?) with
    | some element => return element
    | none => fail (.cursorNotStarted name) column

/-- Runs a body for each element, bound to a variable in a scope of its own. -/
def loop (var : String) (elements : List Value) (body : EvalOver μ Value) : EvalOver μ Value := do
  requestPrint
  let lines ← elements.mapM fun element =>
    M.inScope [(var, element)] do return (← body).text
  return .string ("\n".intercalate lines)

/-! ## Trees -/

/-- What happens to the body of a function that is called at a column with arguments by name. -/
abbrev Enter (μ : Type) := Nat → List (String × Value) → Expr → EvalOver μ Value

variable (setting : Setting) (enter : Enter μ)

mutual

/-- Evaluates an expression. -/
def evalWith : Expr → EvalOver μ Value
  | .number _ x => return .number x
  | .string _ s => return .string s
  | .bool _ b => return .bool b
  | .constant _ c => return .number c.value
  | .variable column name => return (← M.binding name column).value
  | .unary column op operand => do
    let v ← evalWith operand
    located column (op.apply v)
  | .binary column left op right => do
    let a ← evalWith left
    let b ← evalWith right
    located column (op.apply a b)
  | .paren _ inner => evalWith inner
  | .print _ argument => do
    let v ← evalWith argument
    requestPrint
    return v
  | .math column f argument => do
    let v ← evalWith argument
    located column (f.call v)
  | .log column base argument => do
    let b ← evalWith base
    let x ← evalWith argument
    located column (logarithm b x)
  | .rand _ => return .number (← draw)
  | .ifThen _ test body rest => do
    let c ← evalWith test
    if ← condition test.column c then evalWith body else evalBranches rest
  | .letIn _ bindings => M.inScope [] (evalBindings bindings)
  | .call column name arguments => do
    match setting.functions.find? name with
    | none => fail (.undefinedFunction name) column
    | some f =>
      if arguments.length ≠ f.params.length then
        fail (.arityMismatch name f.params.length arguments.length) column
      let values ← evalAll arguments
      checkArguments column f values
      enter column (f.params.zip values) f.body
  | .forRange column var lower upper body => do
    let first ← evalWith lower
    let last ← evalWith upper
    let elements ← located column (rangeElements setting.limits.rangeLength first last)
    M.loop var elements (evalWith body)
  | .forEach _ var vector vectorColumn body => do
    let (elements, _) ← M.vectorBinding vector vectorColumn
    M.loop var elements (evalWith body)
  | .while _ test body => do
    requestPrint
    let again : EvalOver μ Bool := do condition test.column (← evalWith test)
    let line : EvalOver μ String := do return (← evalWith body).text
    let lines ← repeatWhile again line setting.rounds []
    return .string ("\n".intercalate lines)
  | .vector _ elements => return .vector (← evalAll elements)
  | .range column lower upper => do
    let first ← evalWith lower
    let last ← evalWith upper
    return .vector
      (← located column (rangeElements setting.limits.rangeLength first last))
  | .index column name index => do
    let (elements, _) ← M.vectorBinding name column
    let i ← evalWith index
    element column name elements i
  | .method column name m => M.method column name m
  | .error column => fail .invalidExpression column

/-- Evaluates expressions in order. -/
def evalAll : List Expr → EvalOver μ (List Value)
  | [] => return []
  | e :: rest => do
    let v ← evalWith e
    return v :: (← evalAll rest)

/-- Evaluates the branch behind a failed condition that is chosen. -/
def evalBranches : Branches → EvalOver μ Value
  | .elif test body rest => do
    let c ← evalWith test
    if ← condition test.column c then evalWith body else evalBranches rest
  | .otherwise body => evalWith body

/-- Binds names in the innermost scope, in order, and evaluates the body. -/
def evalBindings : Bindings → EvalOver μ Value
  | .bind _ name value rest => do
    let v ← evalWith value
    M.bindName name v
    evalBindings rest
  | .body body => evalWith body

end

/-- What happens to the body of a called function when so many more calls may be opened. -/
def enterCall : Nat → Enter μ
  | 0 => fun column _ _ => fail (.stackOverflow setting.limits.callDepth) column
  | calls + 1 => fun column bound body => do
    checkCalls setting.limits.callDepth column
    M.inCall bound (M.evalWith setting (enterCall calls) body)

/-- The evaluator over a memory, on a number of calls that may still be opened. -/
def evalAt (calls : Nat) (e : Expr) : EvalOver μ Value :=
  M.evalWith setting (M.enterCall setting calls) e

/-- **Evaluates an expression over a memory.** -/
def eval (e : Expr) : EvalOver μ Value := M.evalAt setting setting.limits.callDepth e

end Memory

end ExprScript
