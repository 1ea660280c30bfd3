import ExprScript.Lexeme

/-!
# Reading a statement

A statement is a list of lexemes with what ends it, a semicolon or the end of the text. While it is
read, a cursor holds what is left of it and the errors found so far. Reading never passes the end of
the statement: a token that does not fit is reported and skipped, but the ending stays.

* `SyntaxError` and its `message`;
* `Ending`, `Cursor`: what is left of a statement;
* `Reading`: steps on a cursor that can be broken off when expressions nest too deeply;
* `look?`, `skip`, `eat`, `expect`, `identifier?`, `report`, `unexpected`: the steps that all others
  are made of.
-/

namespace ExprScript

/-! ## Errors -/

/-- What the reader was looking for. -/
inductive Expected where
  | token (t : Token)
  | identifier
  | expression
  | loopSource
  deriving DecidableEq

/-- The name of what was looked for in messages. -/
def Expected.text : Expected → String
  | .token t => t.describe
  | .identifier => "identifier"
  | .expression => "expression"
  | .loopSource => "'range' or a vector name"

/-- What is wrong with a statement. -/
inductive SyntaxCause where
  | unexpectedToken (found : Token) (expected : Expected)
  | unexpectedEnd (expected : Expected)
  | tooDeep (limit : Nat)
  | functionDefined (name : String)
  | repeatedParameter (name : String)
  | uninferableBody (name : String)
  deriving DecidableEq

/-- An error in a statement. -/
structure SyntaxError where
  cause : SyntaxCause
  column : Nat
  deriving DecidableEq

/-- What is wrong with a statement, for the reader of the program. -/
def SyntaxError.message (e : SyntaxError) : String :=
  let problem := match e.cause with
    | .unexpectedToken found expected =>
      "! SYNTAX ERROR: Unexpected " ++ found.describe ++ ", expected " ++ expected.text
    | .unexpectedEnd expected =>
      "! SYNTAX ERROR: Unexpected end of input, expected " ++ expected.text
    | .tooDeep limit =>
      "! SYNTAX ERROR: Expression nested deeper than " ++ toString limit ++ " levels"
    | .functionDefined name =>
      "! SEMANTIC ERROR: Function \"" ++ name ++ "\" is already defined"
    | .repeatedParameter name =>
      "! SEMANTIC ERROR: Parameter \"" ++ name ++ "\" is declared more than once"
    | .uninferableBody name =>
      "! SEMANTIC ERROR: The body of function \"" ++ name ++ "\" does not have a valid type"
  problem ++ " (column " ++ toString e.column ++ ")"

/-! ## Cursors -/

/-- What ends a statement, with its column. The text ends one column behind its last character. -/
inductive Ending where
  | semicolon (column : Nat)
  | endOfText (column : Nat)
  deriving DecidableEq

/-- The column of an ending. -/
def Ending.column : Ending → Nat
  | .semicolon column => column
  | .endOfText column => column

/-- What is left of a statement, and the errors found before, newest first. -/
structure Cursor where
  rest : List Lexeme
  ending : Ending
  errors : List SyntaxError
  deriving DecidableEq

namespace Cursor

/-- The next token. -/
def token? (c : Cursor) : Option Token := c.rest.head?.map Lexeme.token

/-- The column of the next token, or of the ending. -/
def column (c : Cursor) : Nat :=
  match c.rest with
  | lexeme :: _ => lexeme.column
  | [] => c.ending.column

/-- The cursor behind the next token. -/
def next (c : Cursor) : Cursor := { c with rest := c.rest.tail }

/-- Adds an error. -/
def report (c : Cursor) (cause : SyntaxCause) (column : Nat) : Cursor :=
  { c with errors := ⟨cause, column⟩ :: c.errors }

/-- Reports that something else was expected here, and skips the token that is here instead. -/
def unexpected (c : Cursor) (expected : Expected) : Cursor :=
  match c.rest, c.ending with
  | lexeme :: _, _ => (c.report (.unexpectedToken lexeme.token expected) lexeme.column).next
  | [], .semicolon column => c.report (.unexpectedToken (.symbol .semicolon) expected) column
  | [], .endOfText column => c.report (.unexpectedEnd expected) column

end Cursor

/-! ## Steps -/

/-- The column of the token where the nesting became too deep. -/
structure TooDeep where
  column : Nat
  deriving DecidableEq

/-- Steps that read from a cursor. -/
abbrev Reading := EStateM TooDeep Cursor

namespace Reading

/-- The next token. -/
def look? : Reading (Option Token) := return (← get).token?

/-- The column of the next token. -/
def column : Reading Nat := return (← get).column

/-- The number of tokens left, which bounds every loop below: each round but the first takes a
token. -/
def left : Reading Nat := return (← get).rest.length

/-- Takes the next token. -/
def skip : Reading Unit := modify Cursor.next

/-- Adds an error. -/
def report (cause : SyntaxCause) (column : Nat) : Reading Unit :=
  modify (·.report cause column)

/-- Reports that something else was expected here. -/
def unexpected (expected : Expected) : Reading Unit := modify (·.unexpected expected)

/-- Takes the next token if it is `t`. -/
def eat (t : Token) : Reading Bool := do
  if (← look?) = some t then
    skip
    return true
  else return false

/-- Takes the next token if it is `t`, and reports that it is missing otherwise. Reading goes on as
if it had been there. -/
def expect (t : Token) : Reading Bool := do
  if ← eat t then return true
  unexpected (.token t)
  return false

/-- Takes a name, with its column, and reports that it is missing otherwise. -/
def identifier? : Reading (Option (String × Nat)) := do
  let column ← column
  match ← look? with
  | some (.identifier name) =>
    skip
    return some (name, column)
  | _ =>
    unexpected .identifier
    return none

/-- Takes a name, or reports that it is missing and goes on with an empty one. -/
def nameOrEmpty : Reading String := do
  match ← identifier? with
  | some found => return found.1
  | none => return ""

/-- Takes a symbol or reports that it is missing. -/
def symbol (s : Symbol) : Reading Unit := discard (expect (.symbol s))

/-- Takes a reserved word or reports that it is missing. -/
def keyword (k : Keyword) : Reading Unit := discard (expect (.keyword k))

end Reading

end ExprScript
