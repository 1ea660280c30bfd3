import ExprScript.Proofs.Lexing.Append

/-!
# Lines

A line break ends every word, and none starts with one. So a text is cut into words line by line:
what is left open at the end of a line, such as a string, a number or a method, has nothing to do
with the next one.

* `tokenizeFrom_newline`: the words of a text that goes on in a new line;
* **`tokenize_newline`**: the words of two texts with a line break between them.
-/

namespace ExprScript

/-- The words of a text that goes on in a new line are its own and those of that line. -/
theorem tokenizeFrom_newline (column : Nat) (text more : List Char) :
    tokenizeFrom column (text ++ '\n' :: more) =
      (tokenizeFrom column text).append (tokenizeFrom (column + (text.length + 1)) more) := by
  fun_induction tokenizeFrom column text with
  | case1 column => exact tokenizeFrom_blank (by decide) column more
  | case2 column c text hb ih =>
    rw [List.cons_append, tokenizeFrom_blank hb, ih, List.length_cons]
    congr 2
    omega
  | case3 column c text hb s ih =>
    have hs : s.word.length + s.rest.length = text.length + 1 := length_word_add_rest c text
    have hcolumn : column + ((c :: text).length + 1) =
        column + s.word.length + (s.rest.length + 1) := by
      rw [List.length_cons]
      omega
    rw [List.cons_append, tokenizeFrom_word hb, scan_append (.inr rfl), Lexing.append_cons, hcolumn,
      ← ih]
    rfl

/-- **A line break is a boundary for words.** The tokens of two texts with a line break between them
are those of the first text and then those of the second, and so are the errors. Those of the second
text have the columns where they stand now; nothing else changes, neither the tokens nor the texts
of errors. -/
theorem tokenize_newline (a b : String) :
    tokenize (a ++ "\n" ++ b) =
      (tokenize a).append ((tokenize b).relocate fun column => column + (a.length + 1)) := by
  have htext : (a ++ "\n" ++ b).toList = a.toList ++ '\n' :: b.toList := by simp
  unfold tokenize
  rw [htext, tokenizeFrom_newline, tokenizeFrom_add, String.length_toList]

/-- A string without its closing quote, which a backslash would take along, in front of a quote. -/
example : tokenize ("\"a\\" ++ "\n" ++ "\"") =
    ⟨[], [⟨.unterminatedString, "\"a", 1⟩, ⟨.invalidToken, "\\", 3⟩, ⟨.unterminatedString, "\"", 5⟩]⟩ := by
  cbv

end ExprScript
