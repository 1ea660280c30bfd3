import ExprScript.Lexeme
import Mathlib.Tactic.SplitIfs

/-!
# Names are not empty

* `Token.named`: the names among tokens, which are not empty;
* `named_of_scan`: a word of a text is no empty name;
* **`named_of_mem_tokenize`**: no token of a text is an empty name.
-/

namespace ExprScript

/-- Whether a token is no empty name. -/
def Token.named (t : Token) : Prop := t ≠ .identifier ""

theorem named_nameToken {name : String} (h : name ≠ "") : (nameToken name).named := by
  unfold nameToken
  split <;> simp_all [Token.named]

theorem named_of_scan {c : Char} {text : List Char} {t : Token} (h : (scan c text).token = .ok t) :
    t.named := by
  unfold scan at h
  split_ifs at h with hdigit hname
  · simp only [scanNumber] at h
    split at h <;> cases h
    exact Token.noConfusion
  · obtain rfl := Except.ok.inj h
    refine named_nameToken fun he => ?_
    have hl := congrArg String.toList he
    simp [isNamePart, hname] at hl
  · unfold scanString at h
    split at h
    · next body rest he =>
      cases hu : unescape body with
      | error cause => simp [hu, Except.map] at h
      | ok cs =>
        simp only [hu, Except.map, Except.ok.injEq] at h
        obtain rfl := h
        exact Token.noConfusion
    · cases h
  · simp only [scanMethod] at h
    split at h
    · cases h
    · split at h <;> cases h
      exact Token.noConfusion
  · unfold scanSymbol at h
    dsimp only at h
    repeat' split at h
    all_goals
      cases h
      try exact Token.noConfusion

theorem named_of_mem_tokenizeFrom {column : Nat} {text : List Char} {l : Lexeme}
    (h : l ∈ (tokenizeFrom column text).lexemes) : l.token.named := by
  fun_induction tokenizeFrom column text with
  | case1 => cases h
  | case2 column c text hb ih => exact ih h
  | case3 column c text hb s ih =>
    unfold Lexing.cons at h
    split at h
    · next t ht =>
      obtain rfl | h := List.mem_cons.mp h
      · exact named_of_scan ht
      · exact ih h
    · exact ih h

/-- **No token of a text is an empty name.** -/
theorem named_of_mem_tokenize {source : String} {l : Lexeme} (h : l ∈ (tokenize source).lexemes) :
    l.token.named :=
  named_of_mem_tokenizeFrom h

end ExprScript
