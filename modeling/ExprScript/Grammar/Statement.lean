import ExprScript.Diagnostic
import ExprScript.Grammar.Expression
import ExprScript.Ty.Infer
import ExprScript.Ty.Usage

/-!
# Statements

A statement is an expression or a function declaration, and a semicolon. A declaration takes effect
only if the statement has no error at all, lexical ones included, and if its body can produce a
value.

* `Declaration`, `Declaration.define?`: what a declaration says, and the function it makes;
* `Reading.declaration`: the reader of declarations;
* `Statement`, `Tree`: the lexemes of a statement, and what they were read into;
* `Statement.read`: **the reader of statements**.
-/

namespace ExprScript

/-! ## Declarations -/

/-- What a function declaration says. -/
structure Declaration where
  column : Nat
  name : String
  params : List String
  body : Expr

/-- The function that a declaration makes, with the types that can be told from its body. A body
that cannot produce a value makes none. -/
def Declaration.define? (table : FunctionTable) (d : Declaration) : Option FunctionDef :=
  let returnType := Ty.infer table ((d.params.map fun p => (p, Ty.any)).reverse) d.body
  if returnType = .never then none
  else some ⟨d.name, d.params, d.params.map fun p => Ty.usage table p d.body, returnType, d.body,
    d.column⟩

namespace Reading

/-- The parameters of a declaration behind those already `seen`, in at most so many rounds. -/
def parameterNames (seen : List String) : Nat → Reading (List String)
  | 0 => return []
  | rounds + 1 => do
    match ← identifier? with
    | none => return []
    | some (name, column) =>
      if name ∈ seen then report (.repeatedParameter name) column
      if ← eat (.symbol .comma) then return name :: (← parameterNames (name :: seen) rounds)
      else return [name]

/-- The parameters of a declaration. -/
def parameters : Reading (List String) := do
  if !(← expect (.symbol .leftParen)) then return []
  if ← eat (.symbol .rightParen) then return []
  let names ← parameterNames [] ((← left) + 1)
  symbol .rightParen
  return names

/-- A function declaration, from its keyword to its body. -/
def declaration (table : FunctionTable) (deeper : Nat → Reading Expr) : Reading Declaration := do
  skip
  let column ← column
  let name ← nameOrEmpty
  if name ≠ "" && table.contains name then report (.functionDefined name) column
  let params ← parameters
  symbol .arrow
  return ⟨column, name, params, ← expression deeper⟩

end Reading

/-! ## Statements -/

/-- The lexemes of a statement and what ends it. -/
structure Statement where
  lexemes : List Lexeme
  ending : Ending

/-- What a statement was read into: an expression if it is one and was read to its end, and the
errors found in it. -/
structure Tree where
  root : Option Expr
  diagnostics : Diagnostics

/-- A tree without errors. -/
def Tree.valid (t : Tree) : Bool := t.diagnostics.isEmpty

/-- Whether nothing is left of a statement but its semicolon. -/
def Cursor.complete (c : Cursor) : Bool :=
  match c.rest, c.ending with
  | [], .semicolon _ => true
  | _, _ => false

namespace Statement

/-- The cursor at the start of a statement. -/
def start (s : Statement) : Cursor := ⟨s.lexemes, s.ending, []⟩

/-- The tree of a statement in which nothing but errors was found. -/
def failed (lexical : List LexicalError) (c : Cursor) : Tree :=
  ⟨none, lexical.map .lexical ++ c.errors.reverse.map .grammatical⟩

/-- The tree of a statement that was broken off because it nests too deeply. -/
def brokenOff (limit : Nat) (lexical : List LexicalError) (e : TooDeep) (c : Cursor) : Tree :=
  failed lexical (c.report (.tooDeep limit) e.column)

/-- The tree of a statement that was read up to a cursor. -/
def finish (lexical : List LexicalError) (root : Option Expr) (c : Cursor) : Tree :=
  if c.complete then { failed lexical c with root := root }
  else failed lexical (c.unexpected (.token (.symbol .semicolon)))

/-- Reads a statement that is an expression. -/
def readExpression (limit : Nat) (lexical : List LexicalError) (s : Statement) : Tree :=
  match (Reading.expressionAt limit 1).run s.start with
  | .ok root c => finish lexical (some root) c
  | .error e c => brokenOff limit lexical e c

/-- Reads a statement that is a declaration. -/
def readDeclaration (limit : Nat) (table : FunctionTable) (lexical : List LexicalError)
    (s : Statement) : Tree × FunctionTable :=
  match (Reading.declaration table (Reading.expressionAt limit)).run s.start with
  | .ok d c =>
    if lexical.isEmpty && c.errors.isEmpty && c.complete then
      match d.define? table with
      | some f => (⟨none, []⟩, table.declare f)
      | none => (failed lexical (c.report (.uninferableBody d.name) d.column), table)
    else (finish lexical none c, table)
  | .error e c => (brokenOff limit lexical e c, table)

/-- **The reader of statements**: the tree of a statement with its lexical errors, and the functions
declared from then on. -/
def read (limit : Nat) (table : FunctionTable) (lexical : List LexicalError) (s : Statement) :
    Tree × FunctionTable :=
  match s.lexemes.head?.map Lexeme.token with
  | some (.keyword .functionK) => readDeclaration limit table lexical s
  | _ => (readExpression limit lexical s, table)

end Statement

end ExprScript
