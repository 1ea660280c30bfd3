import ExprScript.Grammar.Statement

/-!
# Programs

A source text is cut at its semicolons into statements. Each statement takes the lexical errors up
to its end along; those behind the last statement make up a tree of their own.

* `Program.statements`: the statements of a list of lexemes;
* `Program.readLexing`: the reader of a text that is cut into words already;
* `Program.read`: **the reader of source texts**, which also declares functions.
-/

namespace ExprScript.Program

/-- Puts a lexeme before the statements behind it: a semicolon is a statement's end, and any other
lexeme belongs to the statement that comes next. -/
def place (endColumn : Nat) (lexeme : Lexeme) (behind : List Statement) : List Statement :=
  if lexeme.token = .symbol .semicolon then ⟨[], .semicolon lexeme.column⟩ :: behind
  else match behind with
    | first :: others => { first with lexemes := lexeme :: first.lexemes } :: others
    | [] => [⟨[lexeme], .endOfText endColumn⟩]

/-- The statements of a list of lexemes. The last one may lack its semicolon. -/
def statements (endColumn : Nat) (lexemes : List Lexeme) : List Statement :=
  lexemes.foldr (place endColumn) []

/-- Whether an error belongs to a statement with a given ending. -/
def belongs (ending : Ending) (e : LexicalError) : Bool :=
  match ending with
  | .semicolon column => e.column ≤ column
  | .endOfText _ => true

/-- Reads statements in order, each knowing the functions declared before it. -/
def readAll (limit : Nat) : FunctionTable → List LexicalError → List Statement →
    List Tree × FunctionTable
  | table, [], [] => ([], table)
  | table, errors, [] => ([⟨none, errors.map .lexical⟩], table)
  | table, errors, s :: rest =>
    let own := errors.takeWhile (belongs s.ending)
    let later := errors.dropWhile (belongs s.ending)
    let (tree, table) := s.read limit table own
    let (trees, table) := readAll limit table later rest
    (tree :: trees, table)

/-- Reads the words of a text whose end is at a column. -/
def readLexing (limit : Nat) (table : FunctionTable) (endColumn : Nat) (lexing : Lexing) :
    List Tree × FunctionTable :=
  readAll limit table lexing.errors (statements endColumn lexing.lexemes)

/-- **The reader of source texts**: a tree for each statement, and the functions declared in the
end. -/
def read (limit : Nat) (table : FunctionTable) (source : String) : List Tree × FunctionTable :=
  readLexing limit table (source.length + 1) (tokenize source)

end ExprScript.Program
