import ExprScript.Proofs.Lexing.Columns
import ExprScript.Proofs.Lexing.Longest

/-!
# Every character is accounted for

A text is made of words with blanks between them. Each word is a token or an error, at the column of
its first character, and is as long as can be.

* `Word`: a word with its column and what it is;
* `Word.ReadAt`: what a word is, where it stands;
* `Covers`: **a text is made of words and blanks**, one of which `Covers.cons_blank` and
  `Covers.cons_scan` put in front;
* **`tokenize_covers`**: the tokens and errors of a text are the words that it is made of.
-/

namespace ExprScript

/-- A word of a text, with the column of its first character and what it is. -/
structure Word where
  column : Nat
  text : List Char
  reading : Except LexicalCause Token

namespace Word

/-- The token that a word is, if it is one. -/
def lexeme? (w : Word) : Option Lexeme :=
  match w.reading with
  | .ok t => some ⟨t, w.column⟩
  | .error _ => none

/-- The error that a word is, if it is one; its text is the word. -/
def error? (w : Word) : Option LexicalError :=
  match w.reading with
  | .ok _ => none
  | .error cause => some ⟨cause, String.ofList w.text, w.column⟩

/-- **What a word is, in front of the rest of a text**: a token that it is on its own, too; the longest
word of all patterns, whether it is a token or an error; or an error where no pattern matches. -/
structure ReadAt (w : Word) (text : List Char) : Prop where
  alone : ∀ t, w.reading = .ok t → tokenize (String.ofList w.text) = ⟨[⟨t, 1⟩], []⟩
  longest : w.reading ≠ .error .invalidToken → Longest patterns w.text text
  unmatched : w.reading = .error .invalidToken → Unmatched patterns text

end Word

/-- **A text whose first character stands at a column is made of words and of blanks between them.** A
word is not empty and starts with no blank; its column counts the characters in front of it. -/
inductive Covers : Nat → List Char → List Word → Prop
  | blank {column : Nat} {gap : List Char} : (∀ c ∈ gap, isBlank c) → Covers column gap []
  | word {column : Nat} {gap rest : List Char} {w : Word} {ws : List Word} :
    (∀ c ∈ gap, isBlank c) → w.text ≠ [] → (∀ c ∈ w.text.head?, ¬ isBlank c) →
    w.column = column + gap.length → Covers (w.column + w.text.length) rest ws →
    Covers column (gap ++ w.text ++ rest) (w :: ws)

namespace Covers

variable {column : Nat} {text : List Char} {ws : List Word}

/-- One more blank in front of a text. -/
theorem cons_blank {c : Char} (hc : isBlank c) (h : Covers (column + 1) text ws) :
    Covers column (c :: text) ws := by
  generalize hcolumn : column + 1 = k at h
  cases h with
  | blank hgap => exact .blank (List.forall_mem_cons.mpr ⟨hc, hgap⟩)
  | @word _ gap rest w ws hgap hne hhead hw hrest =>
    have hcolumn' : w.column = column + (c :: gap).length := by
      rw [List.length_cons]
      omega
    exact .word (List.forall_mem_cons.mpr ⟨hc, hgap⟩) hne hhead hcolumn' hrest

/-- Words stand behind the start of a text. -/
theorem le_column (h : Covers column text ws) : ∀ w ∈ ws, column ≤ w.column := by
  induction h with
  | blank => exact fun w hw => nomatch hw
  | word _ _ _ hw _ ih =>
    refine List.forall_mem_cons.mpr ⟨by omega, fun w' hw' => ?_⟩
    have := ih w' hw'
    omega

/-- **The columns of words increase.** -/
theorem pairwise (h : Covers column text ws) : ws.Pairwise (·.column < ·.column) := by
  induction h with
  | blank => exact .nil
  | word _ hne _ _ hrest ih =>
    refine List.pairwise_cons.mpr ⟨fun w' hw' => ?_, ih⟩
    have hpos := List.length_pos_iff.mpr hne
    have := hrest.le_column w' hw'
    omega

end Covers

/-- What the word at the head of a text is. -/
theorem readAt_scan {c : Char} (hc : ¬ isBlank c) (column : Nat) (text : List Char) :
    Word.ReadAt ⟨column, (scan c text).word, (scan c text).token⟩ (c :: text) where
  alone t ht := by
    obtain ⟨cs, hword, halone⟩ := scan_alone ht
    dsimp only
    rw [hword, tokenize, String.toList_ofList, tokenizeFrom_word hc, halone, tokenizeFrom_nil]
    rfl
  longest := longest_scan
  unmatched := unmatched_scan

/-- What stands at a column behind the first characters of a text. -/
theorem drop_append_of_le {start column : Nat} {front rest : List Char}
    (h : start + front.length ≤ column) :
    (front ++ rest).drop (column - start) = rest.drop (column - (start + front.length)) := by
  have hfront : front.length ≤ column - start := by omega
  rw [List.drop_append, List.drop_of_length_le hfront, List.nil_append, Nat.sub_sub]

/-- The tokens of words, with one more word in front. -/
theorem lexemes_cons {words : List Word} {l : Lexing} (h : l.lexemes = words.filterMap Word.lexeme?)
    (column : Nat) (s : Scan) :
    (l.cons column s).lexemes = (⟨column, s.word, s.token⟩ :: words).filterMap Word.lexeme? := by
  unfold Lexing.cons
  split
  · next t ht => simp [Word.lexeme?, ht, h]
  · next cause ht => simp [List.filterMap_cons, Word.lexeme?, ht, h]

/-- The errors of words, with one more word in front. -/
theorem errors_cons {words : List Word} {l : Lexing} (h : l.errors = words.filterMap Word.error?)
    (column : Nat) (s : Scan) :
    (l.cons column s).errors = (⟨column, s.word, s.token⟩ :: words).filterMap Word.error? := by
  unfold Lexing.cons
  split
  · next t ht => simp [List.filterMap_cons, Word.error?, ht, h]
  · next cause ht => simp [Word.error?, ht, h]

/-- A text that starts with a word is made of it and of what the text behind it is made of. -/
theorem Covers.cons_scan {column : Nat} {c : Char} {text : List Char} {ws : List Word}
    (hc : ¬ isBlank c)
    (h : Covers (column + (scan c text).word.length) (scan c text).rest ws) :
    Covers column (c :: text) (⟨column, (scan c text).word, (scan c text).token⟩ :: ws) := by
  obtain ⟨cs, hword⟩ := exists_scan_word c text
  have hsplit := scan_split c text
  have hne := scan_word_ne_nil c text
  have hhead : ∀ d ∈ (scan c text).word.head?, ¬ isBlank d := by
    rw [hword]
    rintro d ⟨⟩
    exact hc
  let w : Word := ⟨column, (scan c text).word, (scan c text).token⟩
  have hcovers : Covers column ([] ++ w.text ++ (scan c text).rest) (w :: ws) :=
    .word nofun hne hhead rfl h
  rwa [List.nil_append, hsplit] at hcovers

/-- **A text is made of the words that are found in it**, from any column on. -/
theorem exists_covers (column : Nat) (text : List Char) :
    ∃ words, Covers column text words ∧
      (tokenizeFrom column text).lexemes = words.filterMap Word.lexeme? ∧
      (tokenizeFrom column text).errors = words.filterMap Word.error? ∧
      ∀ w ∈ words, w.ReadAt (text.drop (w.column - column)) := by
  fun_induction tokenizeFrom column text with
  | case1 => exact ⟨[], .blank (List.forall_mem_nil _), rfl, rfl, List.forall_mem_nil _⟩
  | case2 column c text hb ih =>
    obtain ⟨words, hcovers, hlexemes, herrors, hread⟩ := ih
    refine ⟨words, hcovers.cons_blank hb, hlexemes, herrors, fun w hw => ?_⟩
    have hdrop : ([c] ++ text).drop (w.column - column) = text.drop (w.column - (column + 1)) :=
      drop_append_of_le (hcovers.le_column w hw)
    exact hdrop ▸ hread w hw
  | case3 column c text hb s ih =>
    obtain ⟨words, hcovers, hlexemes, herrors, hread⟩ := ih
    refine ⟨⟨column, s.word, s.token⟩ :: words, hcovers.cons_scan hb,
      lexemes_cons hlexemes column s, errors_cons herrors column s, ?_⟩
    refine List.forall_mem_cons.mpr ⟨?_, fun w hw => ?_⟩
    · rw [Nat.sub_self, List.drop_zero]
      exact readAt_scan hb column text
    · have hsplit : s.word ++ s.rest = c :: text := scan_split c text
      rw [← hsplit, drop_append_of_le (hcovers.le_column w hw)]
      exact hread w hw

/-- **Every character of a text is accounted for.** A text is made of words, with blanks in front of,
between and behind them. Its tokens and errors are these words, in the order of their columns, which
increase; each is as long as can be. -/
theorem tokenize_covers (source : String) :
    ∃ words, Covers 1 source.toList words ∧
      (tokenize source).lexemes = words.filterMap Word.lexeme? ∧
      (tokenize source).errors = words.filterMap Word.error? ∧
      words.Pairwise (·.column < ·.column) ∧
      ∀ w ∈ words, w.ReadAt (source.toList.drop (w.column - 1)) := by
  obtain ⟨words, hcovers, hlexemes, herrors, hread⟩ := exists_covers 1 source.toList
  exact ⟨words, hcovers, hlexemes, herrors, hcovers.pairwise, hread⟩

/-- A letter of two bytes, which no pattern matches, a reserved word, and a number that a name is glued
to: the columns count characters. -/
theorem tokenize_covers_glued :
    let source := "é if\t1x"
    ∃ words, Covers 1 source.toList words ∧
      words.filterMap Word.lexeme? = [⟨.keyword .ifK, 3⟩] ∧
      words.filterMap Word.error? = [⟨.invalidToken, "é", 1⟩, ⟨.malformedNumber, "1x", 6⟩] ∧
      ∀ w ∈ words, w.ReadAt (source.toList.drop (w.column - 1)) := by
  intro source
  have hwords : tokenize source =
      ⟨[⟨.keyword .ifK, 3⟩], [⟨.invalidToken, "é", 1⟩, ⟨.malformedNumber, "1x", 6⟩]⟩ := by
    dsimp only [source]
    cbv
  obtain ⟨words, hcovers, hlexemes, herrors, -, hread⟩ := tokenize_covers source
  rw [hwords] at hlexemes herrors
  exact ⟨words, hcovers, hlexemes.symm, herrors.symm, hread⟩

end ExprScript
