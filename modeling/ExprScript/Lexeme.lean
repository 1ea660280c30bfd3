import ExprScript.Token

/-!
# Lexemes

A text is cut into blanks and words, each word being the longest one that starts there. A word is
a token, or a lexical error that covers it; either way the next word starts right behind it.

* `Lexeme`, `LexicalCause`, `LexicalError`: a token or an error with its column, the number of the
  character where its word starts, counted from one;
* `Scan`, `scan`: the word at the head of a text;
* `tokenize`: all words of a text.
-/

namespace ExprScript

/-- A token with the column of its first character. -/
structure Lexeme where
  token : Token
  column : Nat
  deriving DecidableEq

/-- Why a word is no token. -/
inductive LexicalCause where
  | invalidToken
  | malformedNumber
  | unknownMethod
  | unterminatedString
  | invalidEscape (c : Char)
  deriving Repr, DecidableEq

/-- A word that is no token. -/
structure LexicalError where
  cause : LexicalCause
  text : String
  column : Nat
  deriving Repr, DecidableEq

/-- What is wrong with a word, for the reader of the program. -/
def LexicalError.message (e : LexicalError) : String :=
  let problem := match e.cause with
    | .invalidToken => "'" ++ e.text ++ "' isn't a valid token"
    | .malformedNumber => "'" ++ e.text ++ "' isn't a valid token"
    | .unknownMethod => "'" ++ e.text ++ "' isn't a valid vector method"
    | .unterminatedString => "Unterminated string " ++ e.text
    | .invalidEscape c => "Invalid escape sequence '\\" ++ c.toString ++ "' in " ++ e.text
  "! LEXICAL ERROR: " ++ problem ++ " (column " ++ toString e.column ++ ")"

/-! ## Characters -/

/-- The characters between words. -/
def isBlank (c : Char) : Bool :=
  c = ' ' || c = '\t' || c = '\n' || c = '\r' || c = '\x0c'

/-- The first characters of names: ASCII letters and the underscore. -/
def isNameStart (c : Char) : Bool := c.isAlpha || c = '_'

/-- The characters of names. -/
def isNamePart (c : Char) : Bool := isNameStart c || c.isDigit

/-! ## The word at the head of a text -/

/-- The word at the head of a text, the token it is, and the text behind it. -/
structure Scan where
  word : List Char
  token : Except LexicalCause Token
  rest : List Char

/-- The token of a name. -/
def nameToken : String → Token
  | "true" => .bool true
  | "false" => .bool false
  | "let" => .keyword .letK
  | "in" => .keyword .inK
  | "if" => .keyword .ifK
  | "elif" => .keyword .elifK
  | "else" => .keyword .elseK
  | "for" => .keyword .forK
  | "while" => .keyword .whileK
  | "function" => .keyword .functionK
  | "print" => .keyword .printK
  | "sin" => .math .sin
  | "cos" => .math .cos
  | "sqrt" => .math .sqrt
  | "exp" => .math .exp
  | "log" => .keyword .logK
  | "rand" => .keyword .randK
  | "range" => .keyword .rangeK
  | "PI" => .constant .pi
  | "E" => .constant .e
  | name => .identifier name

/-- The word of a name: all characters that names may have. -/
def scanName (text : List Char) : Scan :=
  let word := text.takeWhile isNamePart
  ⟨word, .ok (nameToken (String.ofList word)), text.dropWhile isNamePart⟩

/-- The fraction at the head of a text: a point and the digits behind it, if there are any. -/
def fraction : List Char → List Char
  | '.' :: rest =>
    match rest.takeWhile Char.isDigit with
    | [] => []
    | places => '.' :: places
  | _ => []

/-- The name at the head of a text, if there is one. -/
def nameHead : List Char → List Char
  | c :: rest => if isNameStart c then (c :: rest).takeWhile isNamePart else []
  | [] => []

/-- The word of a number: digits, perhaps a point and more digits. A name glued to it belongs to the
word and spoils it. -/
def scanNumber (text : List Char) : Scan :=
  let whole := text.takeWhile Char.isDigit
  let behindWhole := text.dropWhile Char.isDigit
  let places := fraction behindWhole
  let behindNumeral := behindWhole.drop places.length
  let glued := nameHead behindNumeral
  let token : Except LexicalCause Token :=
    if glued.isEmpty then .ok (.number (Number.ofNumeral whole places.tail))
    else .error .malformedNumber
  ⟨whole ++ places ++ glued, token, behindNumeral.drop glued.length⟩

/-- The content of a string up to its closing quote or the end of what can be in it, with the text
behind: a quote closes it, a backslash takes the next character along, and neither a line break nor
a backslash before one or at the end belongs to it. -/
def stringBody : List Char → List Char × List Char
  | [] => ([], [])
  | '"' :: rest => ([], '"' :: rest)
  | '\n' :: rest => ([], '\n' :: rest)
  | ['\\'] => ([], ['\\'])
  | '\\' :: c :: rest =>
    if c = '\n' then ([], '\\' :: c :: rest)
    else
      let (body, rest) := stringBody rest
      ('\\' :: c :: body, rest)
  | c :: rest =>
    let (body, rest) := stringBody rest
    (c :: body, rest)

/-- The character that an escaped one stands for. -/
def unescape? : Char → Option Char
  | 'n' => some '\n'
  | 't' => some '\t'
  | '"' => some '"'
  | '\\' => some '\\'
  | _ => none

/-- The content of a string with its escapes resolved; the first that stands for nothing is
reported. -/
def unescape : List Char → Except LexicalCause (List Char)
  | '\\' :: c :: rest =>
    match unescape? c with
    | some d => (unescape rest).map (d :: ·)
    | none => .error (.invalidEscape c)
  | c :: rest => (unescape rest).map (c :: ·)
  | [] => .ok []

/-- The word of a string whose opening quote stands before `text`. -/
def scanString (text : List Char) : Scan :=
  match stringBody text with
  | (body, '"' :: rest) =>
    ⟨'"' :: (body ++ ['"']), (unescape body).map fun cs => .string (String.ofList cs), rest⟩
  | (body, rest) => ⟨'"' :: body, .error .unterminatedString, rest⟩

/-- The method of a name. -/
def method? : String → Option Method
  | "next" => some .next
  | "current" => some .current
  | "size" => some .size
  | _ => none

/-- The word of a method whose point stands before `text`. A point alone is no token. -/
def scanMethod (text : List Char) : Scan :=
  let name := nameHead text
  let token : Except LexicalCause Token :=
    if name.isEmpty then .error .invalidToken
    else match method? (String.ofList name) with
      | some m => .ok (.method m)
      | none => .error .unknownMethod
  ⟨'.' :: name, token, text.drop name.length⟩

/-- The symbol of two characters. -/
def Symbol.ofPair? : Char → Char → Option Symbol
  | '=', '>' => some .arrow
  | '=', '=' => some .equalEqual
  | '!', '=' => some .bangEqual
  | '<', '=' => some .lessEqual
  | '>', '=' => some .greaterEqual
  | _, _ => none

/-- The symbol of one character. -/
def Symbol.ofChar? : Char → Option Symbol
  | '+' => some .plus
  | '-' => some .minus
  | '*' => some .star
  | '/' => some .slash
  | '%' => some .percent
  | '^' => some .caret
  | '@' => some .atSign
  | '!' => some .bang
  | '&' => some .ampersand
  | '|' => some .pipe
  | '<' => some .less
  | '>' => some .greater
  | '=' => some .equals
  | '(' => some .leftParen
  | ')' => some .rightParen
  | '[' => some .leftBracket
  | ']' => some .rightBracket
  | ',' => some .comma
  | ';' => some .semicolon
  | _ => none

/-- The word of a symbol: two characters if they form one, else one. Any other character is a word
of its own and no token. -/
def scanSymbol (c : Char) (text : List Char) : Scan :=
  let single : Scan :=
    match Symbol.ofChar? c with
    | some s => ⟨[c], .ok (.symbol s), text⟩
    | none => ⟨[c], .error .invalidToken, text⟩
  match text with
  | d :: rest =>
    match Symbol.ofPair? c d with
    | some s => ⟨[c, d], .ok (.symbol s), rest⟩
    | none => single
  | [] => single

/-- The word that starts with the character `c` before `text`. -/
def scan (c : Char) (text : List Char) : Scan :=
  if c.isDigit then scanNumber (c :: text)
  else if isNameStart c then scanName (c :: text)
  else if c = '"' then scanString text
  else if c = '.' then scanMethod text
  else scanSymbol c text

/-! ## Nothing is lost

The word and the text behind it make up the text, and the word is not empty. -/

theorem append_drop_length_takeWhile (p : Char → Bool) (text : List Char) :
    text.takeWhile p ++ text.drop (text.takeWhile p).length = text := by
  induction text with
  | nil => rfl
  | cons c text ih => by_cases h : p c <;> simp [h, ih]

theorem append_drop_fraction (text : List Char) :
    fraction text ++ text.drop (fraction text).length = text := by
  unfold fraction
  split
  · next rest =>
    split
    · rfl
    · simpa using append_drop_length_takeWhile Char.isDigit rest
  · rfl

theorem append_drop_nameHead (text : List Char) :
    nameHead text ++ text.drop (nameHead text).length = text := by
  unfold nameHead
  split
  · split
    · exact append_drop_length_takeWhile _ _
    · rfl
  · rfl

theorem scanName_split (text : List Char) :
    (scanName text).word ++ (scanName text).rest = text := by
  simp [scanName]

theorem scanNumber_split (text : List Char) :
    (scanNumber text).word ++ (scanNumber text).rest = text := by
  simp only [scanNumber, List.append_assoc]
  rw [append_drop_nameHead, append_drop_fraction, List.takeWhile_append_dropWhile]

theorem stringBody_split (text : List Char) : (stringBody text).1 ++ (stringBody text).2 = text := by
  fun_induction stringBody text <;> simp_all

theorem scanString_split (text : List Char) :
    (scanString text).word ++ (scanString text).rest = '"' :: text := by
  have h := stringBody_split text
  unfold scanString
  split
  · next body rest e => rw [e] at h; simp [← h]
  · next body rest e => rw [e] at h; simp [← h]

theorem scanMethod_split (text : List Char) :
    (scanMethod text).word ++ (scanMethod text).rest = '.' :: text := by
  simp only [scanMethod, List.cons_append, append_drop_nameHead]

theorem scanSymbol_split (c : Char) (text : List Char) :
    (scanSymbol c text).word ++ (scanSymbol c text).rest = c :: text := by
  unfold scanSymbol
  dsimp only
  repeat' split
  all_goals simp

/-- **Nothing is lost**: the word at the head of a text and the text behind it make up the text. -/
theorem scan_split (c : Char) (text : List Char) :
    (scan c text).word ++ (scan c text).rest = c :: text := by
  unfold scan
  split
  · exact scanNumber_split _
  split
  · exact scanName_split _
  split
  · next h => exact h ▸ scanString_split text
  split
  · next h => exact h ▸ scanMethod_split text
  · exact scanSymbol_split c text

/-- A word is never empty. -/
theorem scan_word_ne_nil (c : Char) (text : List Char) : (scan c text).word ≠ [] := by
  unfold scan
  split
  · next h => simp [scanNumber, h]
  split
  · next h => simp [scanName, isNamePart, h]
  split
  · unfold scanString; split <;> simp
  split
  · simp [scanMethod]
  · unfold scanSymbol
    dsimp only
    repeat' split
    all_goals simp

theorem length_scan_rest_le (c : Char) (text : List Char) :
    (scan c text).rest.length ≤ text.length := by
  have h := congrArg List.length (scan_split c text)
  have h' := List.length_pos_iff.mpr (scan_word_ne_nil c text)
  simp only [List.length_append, List.length_cons] at h
  omega

/-! ## All words of a text -/

/-- The tokens of a text and its lexical errors, each list in the order of the text. -/
structure Lexing where
  lexemes : List Lexeme
  errors : List LexicalError
  deriving DecidableEq

/-- Puts the word at a column before the words behind it. -/
def Lexing.cons (column : Nat) (s : Scan) (behind : Lexing) : Lexing :=
  match s.token with
  | .ok token => { behind with lexemes := ⟨token, column⟩ :: behind.lexemes }
  | .error cause =>
    { behind with errors := ⟨cause, String.ofList s.word, column⟩ :: behind.errors }

/-- The words of a text whose first character stands at a column. -/
def tokenizeFrom (column : Nat) : List Char → Lexing
  | [] => ⟨[], []⟩
  | c :: text =>
    if isBlank c then tokenizeFrom (column + 1) text
    else
      let s := scan c text
      (tokenizeFrom (column + s.word.length) s.rest).cons column s
termination_by text => text.length
decreasing_by
  · simp
  · exact Nat.lt_succ_of_le (length_scan_rest_le c text)

/-- The words of a source text. -/
def tokenize (source : String) : Lexing := tokenizeFrom 1 source.toList

end ExprScript
