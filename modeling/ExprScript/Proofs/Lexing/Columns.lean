import ExprScript.Lexeme
import Mathlib.Data.List.Basic

/-!
# Columns of words

The columns of the words of a text increase, and lie between those of its first character and its
end. Where the text starts does not matter otherwise.

* `Lexeme.relocate`, `Lexing.relocate`: words with their columns changed by a function;
* **`tokenizeFrom_add`**: a text that starts `n` columns further on has its words there;
* `Lexing.HasWordAt`, `column_bounds`: where words lie;
* `pairwise_lexemes`, `pairwise_errors`: the columns of words increase.
-/

namespace ExprScript

/-! ## Words at other columns -/

/-- A token at another column. -/
def Lexeme.relocate (f : Nat → Nat) (l : Lexeme) : Lexeme := { l with column := f l.column }

/-- A lexical error at another column. -/
def LexicalError.relocate (f : Nat → Nat) (e : LexicalError) : LexicalError :=
  { e with column := f e.column }

namespace Lexing

/-- Words at other columns. -/
def relocate (f : Nat → Nat) (l : Lexing) : Lexing :=
  ⟨l.lexemes.map (Lexeme.relocate f), l.errors.map (LexicalError.relocate f)⟩

/-- Whether a word starts at a column. -/
def HasWordAt (l : Lexing) (column : Nat) : Prop :=
  column ∈ l.lexemes.map Lexeme.column ∨ column ∈ l.errors.map LexicalError.column

theorem HasWordAt.lexeme {l : Lexing} {x : Lexeme} (h : x ∈ l.lexemes) : l.HasWordAt x.column :=
  .inl (List.mem_map_of_mem h)

theorem HasWordAt.error {l : Lexing} {e : LexicalError} (h : e ∈ l.errors) :
    l.HasWordAt e.column :=
  .inr (List.mem_map_of_mem h)

theorem relocate_cons (f : Nat → Nat) (column : Nat) (s : Scan) (behind : Lexing) :
    (behind.cons column s).relocate f = (behind.relocate f).cons (f column) s := by
  unfold cons
  split <;> rfl

theorem hasWordAt_cons {column : Nat} {s : Scan} {behind : Lexing} {k : Nat}
    (h : (behind.cons column s).HasWordAt k) : k = column ∨ behind.HasWordAt k := by
  unfold cons at h
  split at h
  · obtain h | h := h
    · exact (List.mem_cons.mp h).imp_right .inl
    · exact .inr (.inr h)
  · obtain h | h := h
    · exact .inr (.inl h)
    · exact (List.mem_cons.mp h).imp_right .inr

end Lexing

theorem tokenizeFrom_nil (column : Nat) : tokenizeFrom column [] = ⟨[], []⟩ := by
  rw [tokenizeFrom]

theorem tokenizeFrom_blank {c : Char} (h : isBlank c) (column : Nat) (text : List Char) :
    tokenizeFrom column (c :: text) = tokenizeFrom (column + 1) text := by
  rw [tokenizeFrom, if_pos h]

theorem tokenizeFrom_word {c : Char} (h : ¬ isBlank c) (column : Nat) (text : List Char) :
    tokenizeFrom column (c :: text) =
      (tokenizeFrom (column + (scan c text).word.length) (scan c text).rest).cons column
        (scan c text) := by
  rw [tokenizeFrom, if_neg h]

/-- **A text that starts further on has its words there.** -/
theorem tokenizeFrom_add (n column : Nat) (text : List Char) :
    tokenizeFrom (column + n) text = (tokenizeFrom column text).relocate (· + n) := by
  fun_induction tokenizeFrom column text with
  | case1 column => exact tokenizeFrom_nil _
  | case2 column c text hb ih => rw [tokenizeFrom_blank hb, ← ih, Nat.add_right_comm]
  | case3 column c text hb s ih =>
    rw [tokenizeFrom_word hb, Lexing.relocate_cons, ← ih, Nat.add_right_comm]

/-! ## Where words lie -/

/-- The word and the text behind it are as long as the text. -/
theorem length_word_add_rest (c : Char) (text : List Char) :
    (scan c text).word.length + (scan c text).rest.length = text.length + 1 := by
  simpa using congrArg List.length (scan_split c text)

theorem length_word_pos (c : Char) (text : List Char) : 0 < (scan c text).word.length :=
  List.length_pos_iff.mpr (scan_word_ne_nil c text)

/-- **Words lie between the first character of a text and its end.** -/
theorem column_bounds {column k : Nat} {text : List Char}
    (h : (tokenizeFrom column text).HasWordAt k) : column ≤ k ∧ k < column + text.length := by
  fun_induction tokenizeFrom column text with
  | case1 => rcases h with h | h <;> cases h
  | case2 column c text hb ih =>
    obtain ⟨h₁, h₂⟩ := ih h
    rw [List.length_cons]
    omega
  | case3 column c text hb s ih =>
    have hs : s.word.length + s.rest.length = text.length + 1 := length_word_add_rest c text
    have hp : 0 < s.word.length := length_word_pos c text
    rw [List.length_cons]
    obtain rfl | h := Lexing.hasWordAt_cons h
    · omega
    · obtain ⟨h₁, h₂⟩ := ih h
      omega

/-- The words behind the first one lie further on. -/
theorem lt_column_of_behind {column k : Nat} {c : Char} {text : List Char}
    (h : (tokenizeFrom (column + (scan c text).word.length) (scan c text).rest).HasWordAt k) :
    column < k := by
  have hk := (column_bounds h).1
  have hp := length_word_pos c text
  omega

/-- The columns of tokens increase. -/
theorem pairwise_lexemes (column : Nat) (text : List Char) :
    (tokenizeFrom column text).lexemes.Pairwise (·.column < ·.column) := by
  fun_induction tokenizeFrom column text with
  | case1 => exact .nil
  | case2 column c text hb ih => exact ih
  | case3 column c text hb s ih =>
    unfold Lexing.cons
    split
    · exact List.pairwise_cons.mpr ⟨fun l hl => lt_column_of_behind (.lexeme hl), ih⟩
    · exact ih

/-- The columns of errors increase. -/
theorem pairwise_errors (column : Nat) (text : List Char) :
    (tokenizeFrom column text).errors.Pairwise (·.column < ·.column) := by
  fun_induction tokenizeFrom column text with
  | case1 => exact .nil
  | case2 column c text hb ih => exact ih
  | case3 column c text hb s ih =>
    unfold Lexing.cons
    split
    · exact ih
    · exact List.pairwise_cons.mpr ⟨fun e he => lt_column_of_behind (.error he), ih⟩

end ExprScript
