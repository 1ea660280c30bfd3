import ExprScript.Proofs.Lexing.Columns
import ExprScript.Proofs.Lexing.Longest

/-!
# Spelling and lexing

A token can be written down, and tokens with a space between any two of them are read back as they
were, however much of a neighbour a scanner would like to take along.

* `Reserved`, `Identifier`, `Numeral`: what names and numbers are written as;
* `escape`, **`unescape_flatMap_escape`**: strings with any content, between quotes;
* `Written`, `Written.token`, `Written.spelling`: tokens as they are written;
* `Scans`, `scans_spelling`: a word that is a token in front of any blank;
* `spell`, `offset`, **`tokenize_spell`**: lexing undoes spelling.
-/

namespace ExprScript

/-! ## Names and numbers -/

/-- The source spelling of a boolean. -/
def boolSpelling : Bool → String
  | true => "true"
  | false => "false"

/-- The spelling of a token that looks like a name and is none. -/
def Token.reserved? : Token → Option String
  | .bool b => some (boolSpelling b)
  | .keyword k => some k.spelling
  | .math f => some f.name
  | .constant c => some c.name
  | _ => none

/-- **A name that stands for a token of its own.** -/
def Reserved (text : String) : Prop := ∃ t : Token, t.reserved? = some text

/-- A name that is not reserved. -/
structure Identifier where
  text : String
  isName : text.toList ∈ names
  free : ¬ Reserved text

/-- Digits, perhaps with a point and digits behind them. -/
structure Numeral where
  whole : List Char
  fraction : List Char
  whole_mem : whole ∈ digits
  fraction_mem : fraction ∈ fractions

/-- The number that a numeral stands for. -/
def Numeral.value (n : Numeral) : Float := Number.ofNumeral n.whole n.fraction.tail

theorem boolSpelling_mem_names (b : Bool) : (boolSpelling b).toList ∈ names := by
  rw [mem_names]
  cases b <;> exact ⟨_, _, rfl, rfl, List.all_eq_true.mp rfl⟩

theorem mem_names_of_reserved {t : Token} {text : String} (h : t.reserved? = some text) :
    text.toList ∈ names := by
  cases t with
  | bool b => exact Option.some.inj h ▸ boolSpelling_mem_names b
  | keyword k => exact Option.some.inj h ▸ k.spelling_mem_names
  | math f => exact Option.some.inj h ▸ f.name_mem_names
  | constant c => exact Option.some.inj h ▸ c.name_mem_names
  | _ => cases h

/-- A reserved name is the token that it stands for. -/
theorem nameToken_of_reserved {t : Token} {text : String} (h : t.reserved? = some text) :
    nameToken text = t := by
  cases t with
  | bool b | keyword b | math b | constant b =>
    obtain rfl := Option.some.inj h
    cases b <;> rfl
  | _ => cases h

/-- A name that is not reserved is an identifier. -/
theorem nameToken_of_free {text : String} (h : ¬ Reserved text) :
    nameToken text = .identifier text := by
  have hcases : nameToken text = .identifier text ∨ (nameToken text).reserved? = some text := by
    unfold nameToken
    split
    case h_21 => exact .inl rfl
    all_goals exact .inr rfl
  exact hcases.resolve_right fun hr => h ⟨_, hr⟩

/-! ## Strings -/

/-- How a character is written in a string. -/
def escape : Char → List Char
  | '\\' => ['\\', '\\']
  | '"' => ['\\', '"']
  | '\n' => ['\\', 'n']
  | '\t' => ['\\', 't']
  | c => [c]

/-- A string between quotes. -/
def quoted (content : String) : String :=
  String.ofList ('"' :: (content.toList.flatMap escape ++ ['"']))

/-- A character is written as an escape that stands for it, or as itself. -/
theorem escape_cases (c : Char) :
    (∃ d, escape c = ['\\', d] ∧ d ≠ '\n' ∧ unescape? d = some c) ∨
      (escape c = [c] ∧ isPlain c = true) := by
  unfold escape
  split
  case h_5 c hbackslash hquote hnewline _ =>
    exact .inr ⟨rfl, by simpa [isPlain] using ⟨⟨hquote, hbackslash⟩, hnewline⟩⟩
  all_goals exact .inl ⟨_, rfl, by decide, rfl⟩

/-- Escaped characters can stand in a string. -/
theorem content_flatMap_escape (cs : List Char) : Content (cs.flatMap escape) := by
  induction cs with
  | nil => exact .nil
  | cons c cs ih =>
    rw [List.flatMap_cons]
    obtain ⟨d, he, hd, -⟩ | ⟨he, hc⟩ := escape_cases c
    · rw [he]
      exact .escape hd ih
    · rw [he]
      exact .plain hc ih

theorem unescape_cons_plain {c : Char} (h : isPlain c = true) (cs : List Char) :
    unescape (c :: cs) = (unescape cs).map (c :: ·) := by
  rw [unescape]
  rintro d rest rfl
  cases h

/-- **Resolving escapes undoes escaping.** -/
theorem unescape_flatMap_escape (cs : List Char) : unescape (cs.flatMap escape) = .ok cs := by
  induction cs with
  | nil => rfl
  | cons c cs ih =>
    rw [List.flatMap_cons]
    obtain ⟨d, he, -, hd⟩ | ⟨he, hc⟩ := escape_cases c
    · rw [he, List.cons_append, List.cons_append, List.nil_append, unescape, hd, ih]
      rfl
    · rw [he, List.singleton_append, unescape_cons_plain hc, ih]
      rfl

/-! ## Tokens as they are written -/

/-- A token as it is written. -/
inductive Written where
  | number (n : Numeral)
  | string (content : String)
  | bool (b : Bool)
  | constant (c : Constant)
  | math (f : MathFunction)
  | identifier (name : Identifier)
  | method (m : Method)
  | keyword (k : Keyword)
  | symbol (s : Symbol)

namespace Written

/-- The token that is written. -/
def token : Written → Token
  | number n => .number n.value
  | string content => .string content
  | bool b => .bool b
  | constant c => .constant c
  | math f => .math f
  | identifier name => .identifier name.text
  | method m => .method m
  | keyword k => .keyword k
  | symbol s => .symbol s

/-- **The source spelling of a token.** -/
def spelling : Written → String
  | number n => String.ofList (n.whole ++ n.fraction)
  | string content => quoted content
  | bool b => boolSpelling b
  | constant c => c.name
  | math f => f.name
  | identifier name => name.text
  | method m => "." ++ m.name
  | keyword k => k.spelling
  | symbol s => s.spelling

end Written

/-! ## Tokens in front of blanks -/

theorem isBlank_cases {c : Char} (h : isBlank c = true) :
    c = ' ' ∨ c = '\t' ∨ c = '\n' ∨ c = '\r' ∨ c = '\x0c' := by
  simpa [isBlank, or_assoc] using h

/-- No blank belongs to a number or a name. -/
theorem not_part_of_isBlank {c : Char} (h : isBlank c = true) :
    c.isDigit = false ∧ isNamePart c = false ∧ c ≠ '.' := by
  obtain rfl | rfl | rfl | rfl | rfl := isBlank_cases h <;> decide

/-- No symbol starts with a blank. -/
theorem ofChar?_of_isBlank {c : Char} (h : isBlank c = true) : Symbol.ofChar? c = none := by
  obtain rfl | rfl | rfl | rfl | rfl := isBlank_cases h <;> rfl

theorem ofPair?_of_isBlank {c d : Char} (h : isBlank c = true ∨ isBlank d = true) :
    Symbol.ofPair? c d = none := by
  unfold Symbol.ofPair?
  split
  case h_6 => rfl
  all_goals obtain h | h := h <;> cases h

/-- **A word that is a token in front of any blank**, and does not start with one. -/
def Scans (word : List Char) (t : Token) : Prop :=
  ∃ c cs, word = c :: cs ∧ ¬ isBlank c ∧
    ∀ rest : List Char, (∀ d ∈ rest.head?, isBlank d) → scan c (cs ++ rest) = ⟨word, .ok t, rest⟩

theorem scans_name {name : List Char} (h : name ∈ names) :
    Scans name (nameToken (String.ofList name)) := by
  obtain ⟨c, cs, rfl, hc, -⟩ := mem_names.mp h
  have hblank : ¬ isBlank c := fun hb => by
    have hpart := (not_part_of_isBlank hb).2.1
    simp [isNamePart, hc] at hpart
  refine ⟨c, cs, rfl, hblank, fun rest hr => ?_⟩
  obtain ⟨htake, hdrop⟩ := takeWhile_append_stop (isNamePart_of_mem_names h) fun d hd =>
    (not_part_of_isBlank (hr d hd)).2.1
  rw [List.cons_append] at htake hdrop
  rw [scan, isDigit_eq_false_of_isNameStart hc, if_neg Bool.false_ne_true, if_pos hc, scanName, htake,
    hdrop]

theorem scans_number (n : Numeral) : Scans (n.whole ++ n.fraction) (.number n.value) := by
  obtain ⟨whole, places, hwhole, hplaces⟩ := n
  obtain ⟨hne, hall⟩ := mem_digits.mp hwhole
  obtain ⟨c, cs, rfl⟩ := List.exists_cons_of_ne_nil hne
  have hc : c.isDigit = true := hall c List.mem_cons_self
  have hblank : ¬ isBlank c := fun hb => by
    have hdigit := (not_part_of_isBlank hb).1
    rw [hc] at hdigit
    cases hdigit
  refine ⟨c, cs ++ places, rfl, hblank, fun rest hr => ?_⟩
  have hparts := scanNumber_parts rest hwhole hplaces fun d hd =>
    ⟨(not_part_of_isBlank (hr d hd)).1, (not_part_of_isBlank (hr d hd)).2.2⟩
  have hglued : nameHead rest = [] := by
    cases rest with
    | nil => rfl
    | cons d rest =>
      have hpart := (not_part_of_isBlank (hr d rfl)).2.1
      rw [isNamePart, Bool.or_eq_false_iff] at hpart
      rw [nameHead, hpart.1, if_neg Bool.false_ne_true]
  rw [hglued, List.cons_append, ← List.append_assoc] at hparts
  rw [scan, if_pos hc, hparts]
  simp [Numeral.value]

theorem scans_string (content : String) : Scans (quoted content).toList (.string content) := by
  rw [quoted, String.toList_ofList]
  refine ⟨'"', _, rfl, by decide, fun rest _ => ?_⟩
  have hclosed := scanString_closed (content_flatMap_escape content.toList) rest
  rw [unescape_flatMap_escape, Except.map, String.ofList_toList] at hclosed
  rw [List.append_assoc, List.singleton_append]
  exact hclosed

theorem scans_method (m : Method) : Scans ("." ++ m.name).toList (.method m) := by
  have hm : method? m.name = some m := by cases m <;> rfl
  have hname : m.name.toList ∈ names := by
    rw [mem_names]
    cases m <;> exact ⟨_, _, rfl, rfl, List.all_eq_true.mp rfl⟩
  obtain ⟨c, cs, hcs, hc, -⟩ := mem_names.mp hname
  rw [String.toList_append]
  refine ⟨'.', m.name.toList, rfl, by decide, fun rest hr => ?_⟩
  have hhead : nameHead (m.name.toList ++ rest) = m.name.toList := by
    have htake := (takeWhile_append_stop (isNamePart_of_mem_names hname) fun d hd =>
      (not_part_of_isBlank (hr d hd)).2.1).1
    rw [hcs, List.cons_append] at htake ⊢
    rw [nameHead, if_pos hc, htake]
  have hne : m.name.toList.isEmpty = false := by rw [hcs]; rfl
  change scanMethod (m.name.toList ++ rest) = _
  rw [scanMethod, hhead, hne, String.ofList_toList, hm, List.drop_left]
  rfl

/-- A character that only starts symbols. -/
theorem scan_eq_scanSymbol {c : Char} (h : Family.ofHead c = .symbol) (text : List Char) :
    scan c text = scanSymbol c text := by
  unfold Family.ofHead at h
  split_ifs at h with hdigit hname hquote hpoint
  rw [scan, if_neg hdigit, if_neg hname, if_neg hquote, if_neg hpoint]

theorem scans_symbol (s : Symbol) : Scans s.spelling.toList (.symbol s) := by
  obtain ⟨c', cs', hhead, hfamily⟩ := s.ofHead_spelling
  obtain ⟨c, hs, ho⟩ | ⟨c, d, hs, ho⟩ := s.spelling_cases
  · obtain ⟨rfl, -⟩ := List.cons.inj (hhead.symm.trans hs)
    have hblank : ¬ isBlank c' := fun hb => by
      rw [ofChar?_of_isBlank hb] at ho
      cases ho
    refine ⟨c', [], hs, hblank, fun rest hr => ?_⟩
    rw [scan_eq_scanSymbol hfamily, hs, List.nil_append]
    obtain ⟨d, rest, s', rfl, hp, -⟩ | ⟨-, hscan⟩ := scanSymbol_cases c' rest
    · rw [ofPair?_of_isBlank (.inr (hr d rfl))] at hp
      cases hp
    · rw [hscan, ho]
  · obtain ⟨rfl, -⟩ := List.cons.inj (hhead.symm.trans hs)
    have hblank : ¬ isBlank c' := fun hb => by
      rw [ofPair?_of_isBlank (.inl hb)] at ho
      cases ho
    refine ⟨c', [d], hs, hblank, fun rest _ => ?_⟩
    rw [scan_eq_scanSymbol hfamily, hs, List.singleton_append, scanSymbol, ho]

theorem scans_reserved {t : Token} {text : String} (h : t.reserved? = some text) :
    Scans text.toList t := by
  have hname := scans_name (mem_names_of_reserved h)
  rwa [String.ofList_toList, nameToken_of_reserved h] at hname

theorem scans_identifier (name : Identifier) : Scans name.text.toList (.identifier name.text) := by
  have hname := scans_name name.isName
  rwa [String.ofList_toList, nameToken_of_free name.free] at hname

theorem Written.scans_spelling (w : Written) : Scans w.spelling.toList w.token := by
  cases w with
  | number n =>
    rw [spelling, String.toList_ofList]
    exact scans_number n
  | string content => exact scans_string content
  | identifier name => exact scans_identifier name
  | method m => exact scans_method m
  | symbol s => exact scans_symbol s
  | bool _ | constant _ | math _ | keyword _ => exact scans_reserved rfl

/-! ## Texts -/

/-- **Tokens in their source spelling**, with a space between any two of them. -/
def spell (ws : List Written) : String := " ".intercalate (ws.map Written.spelling)

/-- The number of characters in front of a token: the tokens before it, each with a space. -/
def offset (ws : List Written) (i : Nat) : Nat :=
  ((ws.take i).map fun w => w.spelling.length + 1).sum

theorem offset_cons_succ (w : Written) (ws : List Written) (i : Nat) :
    offset (w :: ws) (i + 1) = w.spelling.length + 1 + offset ws i := by
  simp [offset]

/-- A text of at least two tokens. -/
theorem toList_spell_cons_cons (w w' : Written) (ws : List Written) :
    (spell (w :: w' :: ws)).toList = w.spelling.toList ++ ' ' :: (spell (w' :: ws)).toList := by
  simp [spell, String.toList_intercalate]

/-- Behind the first token, the other ones are read after one more column. -/
theorem exists_toList_spell_cons (w : Written) (ws : List Written) :
    ∃ rest : List Char, (spell (w :: ws)).toList = w.spelling.toList ++ rest ∧
      (∀ d ∈ rest.head?, isBlank d) ∧
      ∀ column, tokenizeFrom column rest = tokenizeFrom (column + 1) (spell ws).toList := by
  cases ws with
  | nil =>
    refine ⟨[], by simp [spell], nofun, fun column => ?_⟩
    rw [tokenizeFrom_nil]
    exact (tokenizeFrom_nil _).symm
  | cons w' ws =>
    refine ⟨_, toList_spell_cons_cons w w' ws, ?_, fun column => tokenizeFrom_blank rfl _ _⟩
    rintro d ⟨⟩
    rfl

/-- Tokens in their source spelling are read back from any column on. -/
theorem tokenizeFrom_spell (ws : List Written) (column : Nat) :
    tokenizeFrom column (spell ws).toList =
      ⟨ws.mapIdx fun i w => ⟨w.token, column + offset ws i⟩, []⟩ := by
  induction ws generalizing column with
  | nil => exact tokenizeFrom_nil column
  | cons w ws ih =>
    obtain ⟨rest, htext, hblank, hrest⟩ := exists_toList_spell_cons w ws
    obtain ⟨c, cs, hword, hc, hscan⟩ := w.scans_spelling
    have hlength : (c :: cs).length = w.spelling.length := by rw [← hword, String.length_toList]
    have hcolumns : ∀ i, column + w.spelling.length + 1 + offset ws i =
        column + offset (w :: ws) (i + 1) := fun i => by
      rw [offset_cons_succ]
      omega
    have hcons : tokenizeFrom column (w.spelling.toList ++ rest) =
        (tokenizeFrom (column + w.spelling.length) rest).cons column
          ⟨w.spelling.toList, .ok w.token, rest⟩ := by
      rw [hword, List.cons_append, tokenizeFrom_word hc, hscan rest hblank, hword, hlength]
    rw [htext, hcons, hrest, ih, List.mapIdx_cons]
    simp only [hcolumns]
    rfl

/-- A token stands behind as many characters as its offset says. -/
theorem spelling_prefix_drop {ws : List Written} {i : Nat} {w : Written} (h : ws[i]? = some w) :
    w.spelling.toList <+: (spell ws).toList.drop (offset ws i) := by
  induction ws generalizing i with
  | nil => cases h
  | cons w' ws ih =>
    cases i with
    | zero =>
      obtain rfl := Option.some.inj h
      obtain ⟨rest, htext, -⟩ := exists_toList_spell_cons w' ws
      exact ⟨rest, htext.symm⟩
    | succ i =>
      obtain ⟨w'', ws, rfl⟩ : ∃ w'' rest, ws = w'' :: rest := by
        cases ws with
        | nil => cases h
        | cons w'' ws => exact ⟨w'', ws, rfl⟩
      have hdrop : (spell (w' :: w'' :: ws)).toList.drop (offset (w' :: w'' :: ws) (i + 1)) =
          (spell (w'' :: ws)).toList.drop (offset (w'' :: ws) i) := by
        rw [toList_spell_cons_cons, offset_cons_succ, ← String.length_toList, Nat.add_assoc,
          ← List.drop_drop, List.drop_left, Nat.add_comm, List.drop_succ_cons]
      rw [hdrop]
      exact ih h

/-- **Lexing undoes spelling.** Tokens in their source spelling, with single spaces between them, are
read back as exactly these tokens, without an error, each at the column behind the characters that
stand before it; and there its spelling stands. -/
theorem tokenize_spell (ws : List Written) :
    (tokenize (spell ws)).lexemes = ws.mapIdx (fun i w => ⟨w.token, offset ws i + 1⟩) ∧
      (tokenize (spell ws)).errors = [] ∧
      ∀ i w, ws[i]? = some w → w.spelling.toList <+: (spell ws).toList.drop (offset ws i) := by
  refine ⟨?_, ?_, fun i w => spelling_prefix_drop⟩
  · rw [tokenize, tokenizeFrom_spell]
    simp only [Nat.add_comm 1]
  · rw [tokenize, tokenizeFrom_spell]

/-- A string that ends in a backslash, in front of one that is a quote. -/
theorem tokenize_spell_quote :
    let ws : List Written := [.string "\\", .symbol .atSign, .string "\""]
    (tokenize (spell ws)).lexemes =
        [⟨.string "\\", 1⟩, ⟨.symbol .atSign, 6⟩, ⟨.string "\"", 8⟩] ∧
      (tokenize (spell ws)).errors = [] ∧
      (Written.string "\"").spelling.toList <+: (spell ws).toList.drop 7 := by
  intro ws
  obtain ⟨hlexemes, herrors, hprefix⟩ := tokenize_spell ws
  exact ⟨hlexemes, herrors, hprefix 2 _ rfl⟩

end ExprScript
