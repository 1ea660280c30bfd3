import ExprScript.Expr
import ExprScript.Grammar.Cursor

/-!
# Reading expressions

Operators are grouped by precedence: an operand is followed by the operators that bind at least as
tightly as its place asks for, each with a right operand of its own. Every reader below is given
`deeper`, which reads an expression whose bare operators have at least a given precedence, one level
further down. Only so many levels may be open at once; `expressionAt` counts them.

* `primary`, `unary`, `chain`: the grammar of one level;
* `expressionAt`: **the reader of expressions** on a number of levels.
-/

namespace ExprScript.Reading

variable (deeper : Nat → Reading Expr)

/-- An expression, whatever its operators. -/
def expression : Reading Expr := deeper 1

/-- An expression in parentheses. -/
def argument : Reading Expr := do
  symbol .leftParen
  let e ← expression deeper
  symbol .rightParen
  return e

/-- Two expressions in parentheses. -/
def argumentPair : Reading (Expr × Expr) := do
  symbol .leftParen
  let first ← expression deeper
  symbol .comma
  let second ← expression deeper
  symbol .rightParen
  return (first, second)

/-- Expressions with commas between them, at least one. -/
def expressions : Nat → Reading (List Expr)
  | 0 => return [← expression deeper]
  | rounds + 1 => do
    let e ← expression deeper
    if ← eat (.symbol .comma) then return e :: (← expressions rounds)
    else return [e]

/-- Expressions with commas between them up to a closing symbol, maybe none. -/
def expressionsUpTo (close : Symbol) : Reading (List Expr) := do
  if ← eat (.symbol close) then return []
  let es ← expressions deeper (← left)
  symbol close
  return es

/-- What follows a name: a call, an index, a method, or nothing. -/
def afterName (name : String) (column : Nat) : Reading Expr := do
  match ← look? with
  | some (.symbol .leftParen) =>
    skip
    return .call column name (← expressionsUpTo deeper .rightParen)
  | some (.symbol .leftBracket) =>
    skip
    let index ← expression deeper
    symbol .rightBracket
    return .index column name index
  | some (.method m) =>
    skip
    symbol .leftParen
    symbol .rightParen
    return .method column name m
  | _ => return .variable column name

/-- The name of a binding, with its column. A missing name is empty and stands where reading goes
on. -/
def bindingName : Reading (String × Nat) := do
  match ← identifier? with
  | some found => return found
  | none => return ("", ← column)

/-- One binding of a `let`, given what is read behind it. -/
def binding : Reading (Bindings → Bindings) := do
  let name ← bindingName
  symbol .equals
  return .bind name.2 name.1 (← expression deeper)

/-- The body of a `let`. -/
def letBody : Reading Bindings := do
  keyword .inK
  return .body (← expression deeper)

/-- The bindings of a `let`, in at most so many rounds, and its body. -/
def bindings : Nat → Reading Bindings
  | 0 => letBody deeper
  | rounds + 1 => do
    let bind ← binding deeper
    if ← eat (.symbol .comma) then return bind (← bindings rounds)
    else return bind (← letBody deeper)

/-- The last branch of an `if`, which must be there. -/
def lastBranch : Reading Branches := do
  let column ← column
  if ← expect (.keyword .elseK) then return .otherwise (← expression deeper)
  else return .otherwise (.error column)

/-- The branches behind the first one of an `if`. -/
def branches : Nat → Reading Branches
  | 0 => lastBranch deeper
  | rounds + 1 => do
    if ← eat (.keyword .elifK) then
      let condition ← argument deeper
      let body ← expression deeper
      return .elif condition body (← branches rounds)
    else lastBranch deeper

/-- What a `for` loop with a variable runs over, given its body. -/
def loopSource (column : Nat) (var : String) : Reading (Expr → Expr) := do
  let sourceColumn ← Reading.column
  match ← look? with
  | some (.keyword .rangeK) =>
    skip
    let bounds ← argumentPair deeper
    return .forRange column var bounds.1 bounds.2
  | some (.identifier vector) =>
    skip
    return .forEach column var vector sourceColumn
  | _ =>
    unexpected .loopSource
    return .forEach column var "" sourceColumn

/-- The part of a `for` behind its keyword. -/
def forLoop (column : Nat) : Reading Expr := do
  symbol .leftParen
  let var ← nameOrEmpty
  keyword .inK
  let loop ← loopSource deeper column var
  symbol .rightParen
  return loop (← expression deeper)

/-- An expression without bare operators. A token that starts none is reported and skipped, and
`error` stands for it. -/
def primary : Reading Expr := do
  let column ← column
  match ← look? with
  | some (.number x) =>
    skip
    return .number column x
  | some (.string s) =>
    skip
    return .string column s
  | some (.bool b) =>
    skip
    return .bool column b
  | some (.constant c) =>
    skip
    return .constant column c
  | some (.symbol .leftParen) =>
    skip
    let e ← expression deeper
    symbol .rightParen
    return .paren column e
  | some (.symbol .leftBracket) =>
    skip
    return .vector column (← expressionsUpTo deeper .rightBracket)
  | some (.keyword .printK) =>
    skip
    return .print column (← argument deeper)
  | some (.math f) =>
    skip
    return .math column f (← argument deeper)
  | some (.keyword .logK) =>
    skip
    let arguments ← argumentPair deeper
    return .log column arguments.1 arguments.2
  | some (.keyword .rangeK) =>
    skip
    let bounds ← argumentPair deeper
    return .range column bounds.1 bounds.2
  | some (.keyword .randK) =>
    skip
    symbol .leftParen
    symbol .rightParen
    return .rand column
  | some (.keyword .letK) =>
    skip
    return .letIn column (← bindings deeper ((← left) + 1))
  | some (.keyword .ifK) =>
    skip
    let condition ← argument deeper
    let body ← expression deeper
    return .ifThen column condition body (← branches deeper (← left))
  | some (.keyword .forK) =>
    skip
    forLoop deeper column
  | some (.keyword .whileK) =>
    skip
    let condition ← argument deeper
    return .while column condition (← expression deeper)
  | some (.identifier name) =>
    skip
    afterName deeper name column
  | _ =>
    unexpected .expression
    return .error column

/-- A unary operation, whose operand takes the operators that bind tighter, or a primary. -/
def unary : Reading Expr := do
  match (← look?).bind Token.unary? with
  | some op =>
    let column ← column
    skip
    return .unary column op (← deeper (op.precedence + 1))
  | none => primary deeper

/-- The binary operator that comes next, if it binds at least as tightly as asked. -/
def operator? (level : Nat) : Reading (Option BinaryOp) := do
  return ((← look?).bind Token.binary?).filter (level ≤ ·.precedence)

/-- The operators behind an operand, as long as they bind at least as tightly as asked, each with
its right operand. -/
def chain (level : Nat) : Nat → Expr → Reading Expr
  | 0, operand => return operand
  | rounds + 1, operand => do
    match ← operator? level with
    | some op =>
      let column ← column
      skip
      let right ← deeper op.rightLevel
      chain level rounds (.binary column operand op right)
    | none => return operand

/-- An operand and the operators behind it. -/
def binary (level : Nat) : Reading Expr := do
  let operand ← unary deeper
  chain deeper level (← left) operand

/-- **The reader of expressions**: an expression whose bare operators bind at least as tightly as
`level`, read on at most `levels` levels. -/
def expressionAt : (levels level : Nat) → Reading Expr
  | 0, _ => do throw ⟨← column⟩
  | levels + 1, level => binary (expressionAt levels) level

end ExprScript.Reading
