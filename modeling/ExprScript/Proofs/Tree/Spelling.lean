import ExprScript.Expr
import ExprScript.Lexeme

/-!
# The spelling of a tree

A tree determines the tokens that it is written with, in the order of the text, and for some of them
the column: every node records that of its leading token, a binary operation that of its operator, a
binding and the source of a loop that of the name.

* `Mark`: a token with the column that a tree records for it, if it records one;
* `Expr.marks`: **the spelling of an expression**, with one companion for each part of a tree;
* `Expr.tokens`: the same without columns;
* `Expr.plain`: a tree with its columns forgotten.
-/

namespace ExprScript

/-! ## Tokens of operators -/

/-- The token of a binary operator. -/
def BinaryOp.token : BinaryOp → Token
  | .arithmetic .add => .symbol .plus
  | .arithmetic .sub => .symbol .minus
  | .arithmetic .mul => .symbol .star
  | .arithmetic .div => .symbol .slash
  | .arithmetic .mod => .symbol .percent
  | .arithmetic .pow => .symbol .caret
  | .comparison .less => .symbol .less
  | .comparison .greater => .symbol .greater
  | .comparison .lessEqual => .symbol .lessEqual
  | .comparison .greaterEqual => .symbol .greaterEqual
  | .equality .equal => .symbol .equalEqual
  | .equality .notEqual => .symbol .bangEqual
  | .connective .and => .symbol .ampersand
  | .connective .or => .symbol .pipe
  | .concat => .symbol .atSign

/-- The token of a unary operator. -/
def UnaryOp.token : UnaryOp → Token
  | .plus => .symbol .plus
  | .negate => .symbol .minus
  | .not => .symbol .bang

theorem Token.binary?_eq_some {t : Token} {op : BinaryOp} : t.binary? = some op ↔ t = op.token := by
  constructor
  · intro h
    cases t with
    | symbol s => cases s <;> cases h <;> rfl
    | _ => cases h
  · rintro rfl
    rcases op with op | op | op | op | _ <;> first | rfl | (cases op <;> rfl)

theorem Token.unary?_eq_some {t : Token} {op : UnaryOp} : t.unary? = some op ↔ t = op.token := by
  constructor
  · intro h
    cases t with
    | symbol s => cases s <;> cases h <;> rfl
    | _ => cases h
  · rintro rfl
    cases op <;> rfl

@[simp] theorem UnaryOp.unary?_token (op : UnaryOp) : op.token.unary? = some op :=
  Token.unary?_eq_some.mpr rfl

/-! ## Marks -/

/-- A token of a tree, with the column that the tree records for it, if it records one. -/
structure Mark where
  token : Token
  column : Option Nat
  deriving DecidableEq

namespace Mark

/-- A token whose column is recorded. -/
def placed (column : Nat) (t : Token) : Mark := ⟨t, some column⟩

/-- A token whose column is not recorded. -/
def bare (t : Token) : Mark := ⟨t, none⟩

/-- A symbol whose column is not recorded. -/
def symbol (s : Symbol) : Mark := bare (.symbol s)

/-- A reserved word whose column is not recorded. -/
def keyword (k : Keyword) : Mark := bare (.keyword k)

/-- Whether a lexeme is the token, at the column that is recorded. -/
def Fits (m : Mark) (l : Lexeme) : Prop := l.token = m.token ∧ ∀ c ∈ m.column, l.column = c

end Mark

/-- What stands in parentheses. -/
def parens (inner : List Mark) : List Mark :=
  Mark.symbol .leftParen :: (inner ++ [Mark.symbol .rightParen])

/-- Two parts in parentheses. -/
def pairParens (first second : List Mark) : List Mark :=
  parens (first ++ Mark.symbol .comma :: second)

/-- The comma before the rest of a list of expressions. -/
def separator : List Expr → List Mark
  | [] => []
  | _ :: _ => [Mark.symbol .comma]

/-- The comma before the rest of the bindings of a `let`, if more of them follow. -/
def Bindings.separator : Bindings → List Mark
  | .bind .. => [Mark.symbol .comma]
  | .body _ => []

mutual

/-- **The spelling of an expression.** A missing expression has none. -/
def Expr.marks : Expr → List Mark
  | .number column x => [.placed column (.number x)]
  | .string column s => [.placed column (.string s)]
  | .bool column b => [.placed column (.bool b)]
  | .constant column c => [.placed column (.constant c)]
  | .variable column name => [.placed column (.identifier name)]
  | .unary column op operand => .placed column op.token :: operand.marks
  | .binary column left op right => left.marks ++ .placed column op.token :: right.marks
  | .paren column inner =>
    .placed column (.symbol .leftParen) :: (inner.marks ++ [.symbol .rightParen])
  | .print column argument => .placed column (.keyword .printK) :: parens argument.marks
  | .math column f argument => .placed column (.math f) :: parens argument.marks
  | .log column base argument =>
    .placed column (.keyword .logK) :: pairParens base.marks argument.marks
  | .rand column => .placed column (.keyword .randK) :: parens []
  | .ifThen column condition body rest =>
    .placed column (.keyword .ifK) :: (parens condition.marks ++ body.marks ++ rest.marks)
  | .letIn column bindings => .placed column (.keyword .letK) :: bindings.marks
  | .call column name arguments =>
    .placed column (.identifier name) :: parens (marksAll arguments)
  | .forRange column var lower upper body =>
    .placed column (.keyword .forK) ::
      (parens (.bare (.identifier var) :: .keyword .inK :: .keyword .rangeK ::
        pairParens lower.marks upper.marks) ++ body.marks)
  | .forEach column var vector vectorColumn body =>
    .placed column (.keyword .forK) ::
      (parens [.bare (.identifier var), .keyword .inK, .placed vectorColumn (.identifier vector)] ++
        body.marks)
  | .while column condition body =>
    .placed column (.keyword .whileK) :: (parens condition.marks ++ body.marks)
  | .vector column elements =>
    .placed column (.symbol .leftBracket) :: (marksAll elements ++ [.symbol .rightBracket])
  | .range column lower upper =>
    .placed column (.keyword .rangeK) :: pairParens lower.marks upper.marks
  | .index column name index =>
    .placed column (.identifier name) :: .symbol .leftBracket ::
      (index.marks ++ [.symbol .rightBracket])
  | .method column name m =>
    .placed column (.identifier name) :: .bare (.method m) :: parens []
  | .error _ => []

/-- The spelling of expressions with commas between them. -/
def marksAll : List Expr → List Mark
  | [] => []
  | e :: rest => e.marks ++ separator rest ++ marksAll rest

/-- The spelling of the branches behind the first one of an `if`. -/
def Branches.marks : Branches → List Mark
  | .elif condition body rest =>
    .keyword .elifK :: (parens condition.marks ++ body.marks ++ rest.marks)
  | .otherwise body => .keyword .elseK :: body.marks

/-- The spelling of bindings and the body behind them. -/
def Bindings.marks : Bindings → List Mark
  | .bind column name value rest =>
    .placed column (.identifier name) :: .symbol .equals ::
      (value.marks ++ rest.separator ++ rest.marks)
  | .body body => .keyword .inK :: body.marks

end

/-- The tokens of an expression. -/
def Expr.tokens (e : Expr) : List Token := e.marks.map Mark.token

/-! ## Trees without columns -/

mutual

/-- An expression with its columns forgotten. -/
@[simp] def Expr.plain : Expr → Expr
  | .number _ x => .number 0 x
  | .string _ s => .string 0 s
  | .bool _ b => .bool 0 b
  | .constant _ c => .constant 0 c
  | .variable _ name => .variable 0 name
  | .unary _ op operand => .unary 0 op operand.plain
  | .binary _ left op right => .binary 0 left.plain op right.plain
  | .paren _ inner => .paren 0 inner.plain
  | .print _ argument => .print 0 argument.plain
  | .math _ f argument => .math 0 f argument.plain
  | .log _ base argument => .log 0 base.plain argument.plain
  | .rand _ => .rand 0
  | .ifThen _ condition body rest => .ifThen 0 condition.plain body.plain rest.plain
  | .letIn _ bindings => .letIn 0 bindings.plain
  | .call _ name arguments => .call 0 name (plainAll arguments)
  | .forRange _ var lower upper body => .forRange 0 var lower.plain upper.plain body.plain
  | .forEach _ var vector _ body => .forEach 0 var vector 0 body.plain
  | .while _ condition body => .while 0 condition.plain body.plain
  | .vector _ elements => .vector 0 (plainAll elements)
  | .range _ lower upper => .range 0 lower.plain upper.plain
  | .index _ name index => .index 0 name index.plain
  | .method _ name m => .method 0 name m
  | .error _ => .error 0

/-- Expressions with their columns forgotten. -/
@[simp] def plainAll : List Expr → List Expr
  | [] => []
  | e :: rest => e.plain :: plainAll rest

/-- Branches with their columns forgotten. -/
@[simp] def Branches.plain : Branches → Branches
  | .elif condition body rest => .elif condition.plain body.plain rest.plain
  | .otherwise body => .otherwise body.plain

/-- Bindings with their columns forgotten. -/
@[simp] def Bindings.plain : Bindings → Bindings
  | .bind _ name value rest => .bind 0 name value.plain rest.plain
  | .body body => .body body.plain

end

end ExprScript
