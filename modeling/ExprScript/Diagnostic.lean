import ExprScript.Eval.Error
import ExprScript.Grammar.Cursor

/-!
# Diagnostics

* `Diagnostic`: an error of any phase, with its `column` and `message`;
* `Diagnostics`: the errors of one statement in the order of their report; `takeFirst` and `pop`
  take from its two ends.
-/

namespace ExprScript

/-- An error that was found while a text was cut into lexemes, while a statement was read, or while
an expression was evaluated. -/
inductive Diagnostic where
  | lexical (e : LexicalError)
  | grammatical (e : SyntaxError)
  | runtime (e : EvalError)

namespace Diagnostic

/-- The column a diagnostic points at. -/
def column : Diagnostic → Nat
  | .lexical e => e.column
  | .grammatical e => e.column
  | .runtime e => e.column

/-- What is wrong, for the reader of the program. -/
def message : Diagnostic → String
  | .lexical e => e.message
  | .grammatical e => e.message
  | .runtime e => e.message

end Diagnostic

/-- Diagnostics in the order of their report. -/
abbrev Diagnostics := List Diagnostic

namespace Diagnostics

/-- Adds a diagnostic behind the others. -/
def push (ds : Diagnostics) (d : Diagnostic) : Diagnostics := ds ++ [d]

/-- The newest diagnostic and the others. -/
def pop (ds : Diagnostics) : Option Diagnostic × Diagnostics := (ds.getLast?, ds.dropLast)

/-- The oldest diagnostic; the others are given up. -/
def takeFirst (ds : Diagnostics) : Option Diagnostic × Diagnostics := (ds.head?, [])

end Diagnostics

end ExprScript
