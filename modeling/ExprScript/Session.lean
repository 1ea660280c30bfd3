import ExprScript.Eval.Expr
import ExprScript.Grammar.Program

/-!
# Sessions

A session holds the functions declared so far, the limits, and the machine. A source text is first
read as a whole, which declares its functions; then its expressions are evaluated one after the
other, each in empty scopes, up to the first statement that fails.

* `Session.parse`: reading a source text;
* `Session.eval`, `Session.evaluate`: evaluating an expression in the scopes as they are, and in
  empty ones;
* `Session.getResult`, `Session.runLine`: **the two runners**, for the last value and for all of
  them.
-/

namespace ExprScript

/-- Everything that outlives a source text. -/
structure Session where
  functions : FunctionTable
  limits : Limits
  machine : Machine

/-- The outcome of an expression on its own. -/
structure Evaluation where
  outcome : Except Halt Value
  printRequested : Bool

/-- The value of an expression, if it has one. -/
def Evaluation.value? (e : Evaluation) : Option Value := e.outcome.toOption

/-- The errors of an expression, at most one. -/
def Evaluation.diagnostics (e : Evaluation) : Diagnostics :=
  match e.outcome with
  | .error (.error err) => [.runtime err]
  | _ => []

/-- Why there is no result: errors, or a loop that was given up. -/
inductive Failure where
  | diagnosed (ds : Diagnostics)
  | outOfRounds

/-- Why a line ended early: an error, or a loop that was given up. -/
inductive LineError where
  | diagnosed (d : Diagnostic)
  | outOfRounds

/-- The values of a line up to the first failing statement, and its error. -/
structure LineOutput where
  values : List Value
  error : Option LineError

namespace Session

/-- A session without functions. -/
def new (limits : Limits) (seed : UInt64) : Session :=
  ⟨.empty, limits, ⟨[], 0, false, .ofSeed seed⟩⟩

/-- Reads a source text and keeps the functions it declares. -/
def parse (s : Session) (source : String) : List Tree × Session :=
  let (trees, functions) := Program.read s.limits.parseDepth s.functions source
  (trees, { s with functions := functions })

/-- Evaluates an expression in the scopes as they are. -/
def eval (s : Session) (rounds : Nat) (e : Expr) : Except Halt Value × Session :=
  match (e.eval ⟨s.functions, s.limits, rounds⟩).run s.machine with
  | .ok v machine => (.ok v, { s with machine := machine })
  | .error h machine => (.error h, { s with machine := machine })

/-- Closes all frames and calls and takes back the request to show a result. -/
def reset (s : Session) : Session :=
  { s with machine := { s.machine with scopes := [], callDepth := 0, printRequested := false } }

/-- Evaluates an expression in empty scopes. -/
def evaluate (s : Session) (rounds : Nat) (e : Expr) : Evaluation × Session :=
  let (outcome, s) := s.reset.eval rounds e
  (⟨outcome, s.machine.printRequested⟩, s)

/-- The last value of the expressions in trees, or that before them. A tree with errors and an
expression that fails end the run. -/
def lastValue (rounds : Nat) (last : Option Value) (s : Session) :
    List Tree → Except Failure (Option Value) × Session
  | [] => (.ok last, s)
  | tree :: rest =>
    if tree.valid then
      match tree.root with
      | none => lastValue rounds last s rest
      | some root =>
        let (evaluation, s) := s.evaluate rounds root
        match evaluation.outcome with
        | .ok v => lastValue rounds (some v) s rest
        | .error .outOfRounds => (.error .outOfRounds, s)
        | .error (.error _) => (.error (.diagnosed evaluation.diagnostics), s)
    else (.error (.diagnosed tree.diagnostics), s)

/-- **The last value of a source text**, or all errors of its first failing statement. -/
def getResult (s : Session) (rounds : Nat) (source : String) :
    Except Failure (Option Value) × Session :=
  let (trees, s) := s.parse source
  lastValue rounds none s trees

/-- The values of the expressions in trees up to the first error. -/
def allValues (rounds : Nat) (s : Session) : List Tree → LineOutput × Session
  | [] => (⟨[], none⟩, s)
  | tree :: rest =>
    match tree.diagnostics.takeFirst.1, tree.root with
    | some d, _ => (⟨[], some (.diagnosed d)⟩, s)
    | none, none => allValues rounds s rest
    | none, some root =>
      let (evaluation, s) := s.evaluate rounds root
      match evaluation.outcome with
      | .ok v =>
        let (output, s) := allValues rounds s rest
        (⟨v :: output.values, output.error⟩, s)
      | .error (.error e) => (⟨[], some (.diagnosed (.runtime e))⟩, s)
      | .error .outOfRounds => (⟨[], some .outOfRounds⟩, s)

/-- **The values of a line** up to its first failing statement, and the first error of that. -/
def runLine (s : Session) (rounds : Nat) (source : String) : LineOutput × Session :=
  let (trees, s) := s.parse source
  allValues rounds s trees

/-- Changes the machine. -/
def withMachine (s : Session) (f : Machine → Machine) : Session := { s with machine := f s.machine }

/-- Opens a frame. -/
def pushFrame (s : Session) : Session :=
  s.withMachine fun m => { m with scopes := [] :: m.scopes }

/-- Closes the innermost frame. -/
def popFrame (s : Session) : Session :=
  s.withMachine fun m => { m with scopes := m.scopes.tail }

/-- Closes all frames. -/
def clearFrames (s : Session) : Session := s.withMachine fun m => { m with scopes := [] }

/-- Binds a name in the innermost frame. -/
def define (s : Session) (name : String) (value : Value) : Session :=
  s.withMachine fun m => { m with scopes := m.scopes.define name value }

/-- The innermost binding of a name. -/
def lookup? (s : Session) (name : String) : Option Binding := s.machine.scopes.find? name

end Session

end ExprScript
