import ExprScript.Number.Text
import ExprScript.Operator

/-!
# Tokens

* `Keyword`, `Symbol`: the tokens with a fixed spelling and no content;
* `Token`: all tokens;
* `Token.describe`: how messages name a token;
* `Symbol.binary?`, `Symbol.unary?`: the operators that a symbol stands for.
-/

namespace ExprScript

/-- The reserved words other than booleans, constants and functions of one number. -/
inductive Keyword where
  | letK
  | inK
  | ifK
  | elifK
  | elseK
  | forK
  | whileK
  | functionK
  | printK
  | logK
  | randK
  | rangeK
  deriving Repr, DecidableEq

/-- The source spelling of a reserved word. -/
def Keyword.spelling : Keyword → String
  | .letK => "let"
  | .inK => "in"
  | .ifK => "if"
  | .elifK => "elif"
  | .elseK => "else"
  | .forK => "for"
  | .whileK => "while"
  | .functionK => "function"
  | .printK => "print"
  | .logK => "log"
  | .randK => "rand"
  | .rangeK => "range"

/-- Operators and delimiters. -/
inductive Symbol where
  | arrow
  | plus
  | minus
  | star
  | slash
  | percent
  | caret
  | atSign
  | bang
  | ampersand
  | pipe
  | equalEqual
  | bangEqual
  | less
  | greater
  | lessEqual
  | greaterEqual
  | equals
  | leftParen
  | rightParen
  | leftBracket
  | rightBracket
  | comma
  | semicolon
  deriving Repr, DecidableEq

namespace Symbol

/-- The source spelling of a symbol. -/
def spelling : Symbol → String
  | .arrow => "=>"
  | .plus => "+"
  | .minus => "-"
  | .star => "*"
  | .slash => "/"
  | .percent => "%"
  | .caret => "^"
  | .atSign => "@"
  | .bang => "!"
  | .ampersand => "&"
  | .pipe => "|"
  | .equalEqual => "=="
  | .bangEqual => "!="
  | .less => "<"
  | .greater => ">"
  | .lessEqual => "<="
  | .greaterEqual => ">="
  | .equals => "="
  | .leftParen => "("
  | .rightParen => ")"
  | .leftBracket => "["
  | .rightBracket => "]"
  | .comma => ","
  | .semicolon => ";"

/-- The binary operator that a symbol stands for. -/
def binary? : Symbol → Option BinaryOp
  | .plus => some (.arithmetic .add)
  | .minus => some (.arithmetic .sub)
  | .star => some (.arithmetic .mul)
  | .slash => some (.arithmetic .div)
  | .percent => some (.arithmetic .mod)
  | .caret => some (.arithmetic .pow)
  | .atSign => some .concat
  | .less => some (.comparison .less)
  | .greater => some (.comparison .greater)
  | .lessEqual => some (.comparison .lessEqual)
  | .greaterEqual => some (.comparison .greaterEqual)
  | .equalEqual => some (.equality .equal)
  | .bangEqual => some (.equality .notEqual)
  | .ampersand => some (.connective .and)
  | .pipe => some (.connective .or)
  | _ => none

/-- The unary operator that a symbol stands for. -/
def unary? : Symbol → Option UnaryOp
  | .plus => some .plus
  | .minus => some .negate
  | .bang => some .not
  | _ => none

end Symbol

/-- A token of the language. -/
inductive Token where
  | number (x : Float)
  | string (s : String)
  | bool (b : Bool)
  | constant (c : Constant)
  | math (f : MathFunction)
  | identifier (name : String)
  | method (m : Method)
  | keyword (k : Keyword)
  | symbol (s : Symbol)
  deriving DecidableEq

namespace Token

/-- The name of a token in messages. -/
def describe : Token → String
  | .number x => "number '" ++ Number.text x ++ "'"
  | .string s => "string \"" ++ s ++ "\""
  | .bool b => "boolean '" ++ (if b then "true" else "false") ++ "'"
  | .constant c => "'" ++ c.name ++ "'"
  | .math f => "'" ++ f.name ++ "'"
  | .identifier name => "identifier '" ++ name ++ "'"
  | .method m => "'." ++ m.name ++ "'"
  | .keyword k => "'" ++ k.spelling ++ "'"
  | .symbol s => "'" ++ s.spelling ++ "'"

/-- The binary operator that a token stands for. -/
def binary? : Token → Option BinaryOp
  | .symbol s => s.binary?
  | _ => none

/-- The unary operator that a token stands for. -/
def unary? : Token → Option UnaryOp
  | .symbol s => s.unary?
  | _ => none

end Token

end ExprScript
