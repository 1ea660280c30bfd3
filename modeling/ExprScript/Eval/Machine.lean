import ExprScript.Eval.Error
import ExprScript.Function
import ExprScript.Generator
import ExprScript.Scope

/-!
# The machine

Evaluation changes four things: the open frames, the number of open calls, the request to show the
result, and the generator of random numbers. Functions and limits are fixed while it runs.

* `Limits`: how deep expressions and calls may nest, and how long ranges may be;
* `Machine`, `Setting`: what evaluation changes, and what it only reads;
* `Halt`, `Eval`: why evaluation stops early, and the steps it is made of;
* `Eval.inFrame`: **a frame is open while a step runs**, whether the step succeeds or fails;
* `Eval.inCall`: the same for a frame that belongs to a call;
* `Eval.repeatWhile`: a loop that is given up after a number of rounds.
-/

namespace ExprScript

/-- The limits of a session. -/
structure Limits where
  parseDepth : Nat := 1000
  callDepth : Nat := 1000
  rangeLength : Nat := 1000000
  deriving Repr, DecidableEq

/-- What evaluation changes. -/
structure Machine where
  scopes : Scopes
  callDepth : Nat
  printRequested : Bool
  generator : Generator

/-- What evaluation only reads: the declared functions, the limits, and the number of rounds after
which a `while` loop is given up. -/
structure Setting where
  functions : FunctionTable
  limits : Limits
  rounds : Nat

/-- Why evaluation stops early: an error of the program, or a loop that was given up. -/
inductive Halt where
  | error (e : EvalError)
  | outOfRounds

/-- Steps of evaluation. -/
abbrev Eval := EStateM Halt Machine

namespace Eval

/-- Stops with an error. -/
def fail {α : Type} (cause : EvalCause) (column : Nat) : Eval α := throw (.error ⟨cause, column⟩)

/-- The result of an operation that was asked for at a column. -/
def located {α : Type} (column : Nat) (result : Except EvalCause α) : Eval α :=
  match result with
  | .ok a => return a
  | .error cause => fail cause column

/-- Asks for the result to be shown. -/
def requestPrint : Eval Unit := modify fun m => { m with printRequested := true }

/-- Draws a random number. -/
def draw : Eval Float := do
  let (x, generator) := (← get).generator.draw
  modify fun m => { m with generator := generator }
  return x

/-- Binds a name in the innermost frame. -/
def define (name : String) (value : Value) : Eval Unit :=
  modify fun m => { m with scopes := m.scopes.define name value }

/-- The innermost binding of a name. -/
def binding (name : String) (column : Nat) : Eval Binding := do
  match (← get).scopes.find? name with
  | some b => return b
  | none => fail (.undefinedVariable name) column

/-- The innermost binding of a name, which must be a vector, and its elements. -/
def vectorBinding (name : String) (column : Nat) : Eval (List Value × Option Nat) := do
  let b ← binding name column
  match b.value with
  | .vector elements => return (elements, b.cursor)
  | _ => fail (.notAVector name) column

/-- The boolean that a condition produced. -/
def condition (column : Nat) (value : Value) : Eval Bool :=
  match value with
  | .bool b => return b
  | v => fail (.conditionNotBool v.kind) column

/-- **A frame is open while a step runs** and is closed when the step ends, whether it succeeds or
fails. -/
def inFrame {α : Type} (frame : Frame) (step : Eval α) : Eval α := fun m =>
  match step { m with scopes := frame :: m.scopes } with
  | .ok a m => .ok a { m with scopes := m.scopes.tail }
  | .error h m => .error h { m with scopes := m.scopes.tail }

/-- Fails when as many calls are open as there may be. -/
def checkCalls (limit column : Nat) : Eval Unit := do
  if limit ≤ (← get).callDepth then fail (.stackOverflow limit) column

/-- Counts a call as open while a step runs in a frame of its own, whether the step succeeds or
fails. -/
def inCall {α : Type} (frame : Frame) (step : Eval α) : Eval α := fun m =>
  match inFrame frame step { m with callDepth := m.callDepth + 1 } with
  | .ok a m => .ok a { m with callDepth := m.callDepth - 1 }
  | .error h m => .error h { m with callDepth := m.callDepth - 1 }

/-- The lines of a loop behind those already there, newest first. The condition is tested at most so
many times. -/
def repeatWhile (condition : Eval Bool) (body : Eval String) : Nat → List String →
    Eval (List String)
  | 0, _ => throw .outOfRounds
  | rounds + 1, lines => do
    if ← condition then repeatWhile condition body rounds ((← body) :: lines)
    else return lines.reverse

end Eval

end ExprScript
