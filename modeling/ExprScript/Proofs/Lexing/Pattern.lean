import ExprScript.Lexeme
import Mathlib

/-!
# Patterns of words

The words of a text are those of a few regular languages, one for each kind of token and one for
strings that are not closed. Several of them may have words at the head of a text.

* `one`, `fixed`: the languages of one character and of one text;
* `numbers`, `names`, `methods`, `openStrings`, `closedStrings`, `symbols`: the languages of words, with
  what their words look like;
* `Pattern`, `patterns`: **the patterns of words**, each on its own and all of them;
* `Longest`, `Unmatched`: the longest word of a language at the head of a text, and texts without any;
* `Family`, **`mem_patterns_iff`**: at the head of a text, the first character tells which words to look
  for.
-/

open scoped Computability

namespace ExprScript

/-! ## Languages -/

/-- The words of one character of a class. -/
def one (p : Char → Bool) : Language Char := {w | ∃ c, p c = true ∧ w = [c]}

/-- A fixed word. -/
def fixed (s : String) : Language Char := {s.toList}

theorem mem_one {p : Char → Bool} {w : List Char} : w ∈ one p ↔ ∃ c, p c = true ∧ w = [c] := Iff.rfl

theorem mem_fixed {s : String} {w : List Char} : w ∈ fixed s ↔ w = s.toList := Iff.rfl

/-- The characters of a class, any number of them. -/
theorem mem_kstar_one {p : Char → Bool} {w : List Char} : w ∈ (one p)∗ ↔ ∀ c ∈ w, p c = true := by
  rw [Language.mem_kstar]
  constructor
  · rintro ⟨parts, rfl, hparts⟩ c hc
    obtain ⟨part, hpart, hc⟩ := List.mem_flatten.mp hc
    obtain ⟨d, hd, rfl⟩ := hparts part hpart
    exact List.mem_singleton.mp hc ▸ hd
  · intro h
    refine ⟨w.map fun c => [c], ?_, fun part hpart => ?_⟩
    · rw [← List.flatMap_def, List.flatMap_singleton']
    · obtain ⟨c, hc, rfl⟩ := List.mem_map.mp hpart
      exact ⟨c, h c hc, rfl⟩

/-- A character of one class and then characters of another one. -/
theorem mem_one_mul_kstar_one {p q : Char → Bool} {w : List Char} :
    w ∈ one p * (one q)∗ ↔ ∃ c cs, w = c :: cs ∧ p c = true ∧ ∀ d ∈ cs, q d = true := by
  simp only [Language.mem_mul, mem_one, mem_kstar_one]
  constructor
  · rintro ⟨_, ⟨c, hc, rfl⟩, cs, hcs, rfl⟩
    exact ⟨c, cs, rfl, hc, hcs⟩
  · rintro ⟨c, cs, rfl, hc, hcs⟩
    exact ⟨[c], ⟨c, hc, rfl⟩, cs, hcs, rfl⟩

/-- Digits, at least one: `[0-9]+`. -/
def digits : Language Char := one Char.isDigit * (one Char.isDigit)∗

theorem mem_digits {w : List Char} : w ∈ digits ↔ w ≠ [] ∧ ∀ c ∈ w, c.isDigit = true := by
  rw [digits, mem_one_mul_kstar_one]
  constructor
  · rintro ⟨c, cs, rfl, hc, hcs⟩
    exact ⟨List.cons_ne_nil _ _, List.forall_mem_cons.mpr ⟨hc, hcs⟩⟩
  · rintro ⟨hne, hall⟩
    obtain ⟨c, cs, rfl⟩ := List.exists_cons_of_ne_nil hne
    exact ⟨c, cs, rfl, List.forall_mem_cons.mp hall⟩

/-- Names: `[A-Za-z_][A-Za-z0-9_]*`. -/
def names : Language Char := one isNameStart * (one isNamePart)∗

theorem mem_names {w : List Char} :
    w ∈ names ↔ ∃ c cs, w = c :: cs ∧ isNameStart c = true ∧ ∀ d ∈ cs, isNamePart d = true :=
  mem_one_mul_kstar_one

/-- A point and digits behind it, or nothing: `(\.[0-9]+)?`. -/
def fractions : Language Char := 1 + fixed "." * digits

theorem mem_fractions {w : List Char} : w ∈ fractions ↔ w = [] ∨ ∃ ds ∈ digits, w = '.' :: ds := by
  simp only [fractions, Language.mem_add, Language.mem_one, Language.mem_mul, mem_fixed]
  constructor
  · rintro (h | ⟨_, rfl, ds, hds, rfl⟩)
    · exact .inl h
    · exact .inr ⟨ds, hds, rfl⟩
  · rintro (h | ⟨ds, hds, rfl⟩)
    · exact .inl h
    · exact .inr ⟨['.'], rfl, ds, hds, rfl⟩

/-- Numbers, perhaps with a name glued to them: `[0-9]+(\.[0-9]+)?([A-Za-z_][A-Za-z0-9_]*)?`. -/
def numbers : Language Char := digits * fractions * (1 + names)

theorem mem_numbers {w : List Char} :
    w ∈ numbers ↔ ∃ whole ∈ digits, ∃ places ∈ fractions, ∃ glued,
      (glued = [] ∨ glued ∈ names) ∧ w = whole ++ places ++ glued := by
  simp only [numbers, Language.mem_mul, Language.mem_add, Language.mem_one]
  constructor
  · rintro ⟨_, ⟨whole, hw, places, hp, rfl⟩, glued, hg, rfl⟩
    exact ⟨whole, hw, places, hp, glued, hg, rfl⟩
  · rintro ⟨whole, hw, places, hp, glued, hg, rfl⟩
    exact ⟨_, ⟨whole, hw, places, hp, rfl⟩, glued, hg, rfl⟩

/-- Methods: `\.[A-Za-z_][A-Za-z0-9_]*`. -/
def methods : Language Char := fixed "." * names

theorem mem_methods {w : List Char} : w ∈ methods ↔ ∃ name ∈ names, w = '.' :: name := by
  simp only [methods, Language.mem_mul, mem_fixed]
  constructor
  · rintro ⟨_, rfl, name, hn, rfl⟩
    exact ⟨name, hn, rfl⟩
  · rintro ⟨name, hn, rfl⟩
    exact ⟨['.'], rfl, name, hn, rfl⟩

/-- Whether a character may stand in a string without a backslash in front of it. -/
def isPlain (c : Char) : Bool := c ≠ '"' && c ≠ '\\' && c ≠ '\n'

/-- What stands in strings: `([^"\\\n]|\\[^\n])*`. -/
def contents : Language Char := (one isPlain + fixed "\\" * one (· ≠ '\n'))∗

/-- What stands in strings, from its head on. -/
inductive Content : List Char → Prop
  | nil : Content []
  | plain {c : Char} {cs : List Char} : isPlain c = true → Content cs → Content (c :: cs)
  | escape {c : Char} {cs : List Char} : c ≠ '\n' → Content cs → Content ('\\' :: c :: cs)

theorem mem_contents {w : List Char} : w ∈ contents ↔ Content w := by
  constructor
  · rintro ⟨parts, rfl, hparts⟩
    induction parts with
    | nil => exact .nil
    | cons part parts ih =>
      obtain ⟨hpart, hrest⟩ := List.forall_mem_cons.mp hparts
      obtain ⟨c, hc, rfl⟩ | ⟨_, rfl, _, ⟨c, hc, rfl⟩, rfl⟩ := hpart
      · exact .plain hc (ih hrest)
      · exact .escape (of_decide_eq_true hc) (ih hrest)
  · intro h
    induction h with
    | nil => exact Language.nil_mem_kstar _
    | @plain c cs hc _ ih =>
      obtain ⟨parts, rfl, hparts⟩ := ih
      have hpart : [c] ∈ one isPlain + fixed "\\" * one (· ≠ '\n') := .inl ⟨c, hc, rfl⟩
      exact ⟨[c] :: parts, rfl, List.forall_mem_cons.mpr ⟨hpart, hparts⟩⟩
    | @escape c cs hc _ ih =>
      obtain ⟨parts, rfl, hparts⟩ := ih
      have hpart : ['\\', c] ∈ one isPlain + fixed "\\" * one (· ≠ '\n') :=
        .inr ⟨['\\'], rfl, [c], ⟨c, decide_eq_true hc, rfl⟩, rfl⟩
      exact ⟨['\\', c] :: parts, rfl, List.forall_mem_cons.mpr ⟨hpart, hparts⟩⟩

/-- Strings without their closing quote: `"([^"\\\n]|\\[^\n])*`. -/
def openStrings : Language Char := fixed "\"" * contents

/-- Strings: `"([^"\\\n]|\\[^\n])*"`. -/
def closedStrings : Language Char := openStrings * fixed "\""

theorem mem_openStrings {w : List Char} : w ∈ openStrings ↔ ∃ body, Content body ∧ w = '"' :: body := by
  simp only [openStrings, Language.mem_mul, mem_fixed, mem_contents]
  constructor
  · rintro ⟨_, rfl, body, hb, rfl⟩
    exact ⟨body, hb, rfl⟩
  · rintro ⟨body, hb, rfl⟩
    exact ⟨['"'], rfl, body, hb, rfl⟩

theorem mem_closedStrings {w : List Char} :
    w ∈ closedStrings ↔ ∃ body, Content body ∧ w = '"' :: (body ++ ['"']) := by
  simp only [closedStrings, Language.mem_mul, mem_openStrings, mem_fixed]
  constructor
  · rintro ⟨_, ⟨body, hb, rfl⟩, _, rfl, rfl⟩
    exact ⟨body, hb, rfl⟩
  · rintro ⟨body, hb, rfl⟩
    exact ⟨'"' :: body, ⟨body, hb, rfl⟩, ['"'], rfl, rfl⟩

/-- The fixed words of symbols. -/
def symbols : Language Char := {w | ∃ s : Symbol, w = s.spelling.toList}

theorem mem_symbols {w : List Char} : w ∈ symbols ↔ ∃ s : Symbol, w = s.spelling.toList := Iff.rfl

/-! ## Patterns -/

/-- The kinds of words. -/
inductive Pattern where
  | number
  | closedString
  | openString
  | bool (b : Bool)
  | keyword (k : Keyword)
  | math (f : MathFunction)
  | constant (c : Constant)
  | name
  | method
  | symbol (s : Symbol)

/-- **The words of a kind.** -/
def Pattern.language : Pattern → Language Char
  | .number => numbers
  | .closedString => closedStrings
  | .openString => openStrings
  | .bool true => fixed "true"
  | .bool false => fixed "false"
  | .keyword k => fixed k.spelling
  | .math f => fixed f.name
  | .constant c => fixed c.name
  | .name => names
  | .method => methods
  | .symbol s => fixed s.spelling

/-- The words of all kinds. -/
def patterns : Language Char := ⨆ p : Pattern, p.language

theorem mem_patterns {w : List Char} : w ∈ patterns ↔ ∃ p : Pattern, w ∈ p.language :=
  Language.mem_iSup

/-- **A word is the longest one of a language at the head of a text.** -/
structure Longest (l : Language Char) (word text : List Char) : Prop where
  mem : word ∈ l
  front : word <+: text
  longest : ∀ w ∈ l, w <+: text → w.length ≤ word.length

/-- **No word of a language stands at the head of a text.** -/
def Unmatched (l : Language Char) (text : List Char) : Prop := ∀ w ∈ l, ¬ w <+: text

/-! ## Families

The first character of a word tells which of five families it belongs to. -/

/-- Patterns whose words start alike. -/
inductive Family where
  | number
  | name
  | string
  | method
  | symbol

namespace Family

/-- The family of the words that start with a character. -/
def ofHead (c : Char) : Family :=
  if c.isDigit then .number
  else if isNameStart c then .name
  else if c = '"' then .string
  else if c = '.' then .method
  else .symbol

/-- The words of a family. -/
def language : Family → Language Char
  | .number => numbers
  | .name => names
  | .string => openStrings + closedStrings
  | .method => methods
  | .symbol => symbols

end Family

theorem isDigit_eq_false_of_isNameStart {c : Char} (h : isNameStart c = true) : c.isDigit = false := by
  unfold isNameStart Char.isAlpha Char.isUpper Char.isLower at h
  unfold Char.isDigit
  simp only [Bool.or_eq_true, Bool.and_eq_true, decide_eq_true_eq, ge_iff_le, UInt32.le_iff_toNat_le] at h
  simp only [Bool.and_eq_false_iff, decide_eq_false_iff_not, ge_iff_le, UInt32.le_iff_toNat_le]
  obtain (h | h) | rfl := h
  · exact .inr (by simp at h ⊢; omega)
  · exact .inr (by simp at h ⊢; omega)
  · exact .inr (by decide)

theorem Family.ofHead_nameStart {c : Char} (h : isNameStart c = true) : ofHead c = .name := by
  rw [ofHead, isDigit_eq_false_of_isNameStart h, if_neg Bool.false_ne_true, if_pos h]

theorem Symbol.ofHead_spelling (s : Symbol) :
    ∃ c cs, s.spelling.toList = c :: cs ∧ Family.ofHead c = .symbol := by
  cases s <;> exact ⟨_, _, rfl, rfl⟩

/-- The words of a family start alike. -/
theorem Family.exists_head {f : Family} {w : List Char} (h : w ∈ f.language) :
    ∃ c cs, w = c :: cs ∧ ofHead c = f := by
  cases f with
  | number =>
    obtain ⟨whole, hw, places, -, glued, -, rfl⟩ := mem_numbers.mp h
    obtain ⟨hne, hall⟩ := mem_digits.mp hw
    obtain ⟨c, cs, rfl⟩ := List.exists_cons_of_ne_nil hne
    refine ⟨c, cs ++ places ++ glued, rfl, ?_⟩
    rw [ofHead, if_pos (hall c List.mem_cons_self)]
  | name =>
    obtain ⟨c, cs, rfl, hc, -⟩ := mem_names.mp h
    exact ⟨c, cs, rfl, ofHead_nameStart hc⟩
  | string =>
    obtain h | h := h
    · obtain ⟨body, -, rfl⟩ := mem_openStrings.mp h
      exact ⟨'"', body, rfl, rfl⟩
    · obtain ⟨body, -, rfl⟩ := mem_closedStrings.mp h
      exact ⟨'"', body ++ ['"'], rfl, rfl⟩
  | method =>
    obtain ⟨name, -, rfl⟩ := mem_methods.mp h
    exact ⟨'.', name, rfl, rfl⟩
  | symbol =>
    obtain ⟨s, rfl⟩ := mem_symbols.mp h
    exact s.ofHead_spelling

theorem Keyword.spelling_mem_names (k : Keyword) : k.spelling.toList ∈ names := by
  rw [mem_names]
  cases k <;> exact ⟨_, _, rfl, rfl, List.all_eq_true.mp rfl⟩

theorem MathFunction.name_mem_names (f : MathFunction) : f.name.toList ∈ names := by
  rw [mem_names]
  cases f <;> exact ⟨_, _, rfl, rfl, List.all_eq_true.mp rfl⟩

theorem Constant.name_mem_names (c : Constant) : c.name.toList ∈ names := by
  rw [mem_names]
  cases c <;> exact ⟨_, _, rfl, rfl, List.all_eq_true.mp rfl⟩

/-- Each pattern belongs to a family; reserved words look like names. -/
theorem Pattern.exists_family (p : Pattern) : ∃ f : Family, ∀ w ∈ p.language, w ∈ f.language := by
  cases p with
  | number => exact ⟨.number, fun w h => h⟩
  | closedString => exact ⟨.string, fun w h => .inr h⟩
  | openString => exact ⟨.string, fun w h => .inl h⟩
  | bool b =>
    refine ⟨.name, fun w h => mem_names.mpr ?_⟩
    cases b with
    | true => exact ⟨'t', _, h, rfl, List.all_eq_true.mp rfl⟩
    | false => exact ⟨'f', _, h, rfl, List.all_eq_true.mp rfl⟩
  | keyword k => exact ⟨.name, fun w h => mem_fixed.mp h ▸ k.spelling_mem_names⟩
  | math f => exact ⟨.name, fun w h => mem_fixed.mp h ▸ f.name_mem_names⟩
  | constant c => exact ⟨.name, fun w h => mem_fixed.mp h ▸ c.name_mem_names⟩
  | name => exact ⟨.name, fun w h => h⟩
  | method => exact ⟨.method, fun w h => h⟩
  | symbol s => exact ⟨.symbol, fun w h => ⟨s, h⟩⟩

theorem Family.mem_patterns {f : Family} {w : List Char} (h : w ∈ f.language) : w ∈ patterns := by
  rw [ExprScript.mem_patterns]
  cases f with
  | number => exact ⟨.number, h⟩
  | name => exact ⟨.name, h⟩
  | string => exact h.elim (fun h => ⟨.openString, h⟩) fun h => ⟨.closedString, h⟩
  | method => exact ⟨.method, h⟩
  | symbol => exact h.elim fun s hs => ⟨.symbol s, hs⟩

/-- **At the head of a text, only one family has to be looked for**: that of the first character. -/
theorem mem_patterns_iff {c : Char} {text w : List Char} (hw : w <+: c :: text) :
    w ∈ patterns ↔ w ∈ (Family.ofHead c).language := by
  refine ⟨fun h => ?_, Family.mem_patterns⟩
  obtain ⟨p, hp⟩ := mem_patterns.mp h
  obtain ⟨f, hf⟩ := p.exists_family
  obtain ⟨d, ds, rfl, rfl⟩ := f.exists_head (hf w hp)
  obtain ⟨rest, hrest⟩ := hw
  obtain rfl := (List.cons.inj hrest).1
  exact hf _ hp

theorem longest_patterns_iff {c : Char} {text word : List Char} :
    Longest patterns word (c :: text) ↔ Longest (Family.ofHead c).language word (c :: text) := by
  constructor
  · intro h
    exact ⟨(mem_patterns_iff h.front).mp h.mem, h.front, fun w hw hf =>
      h.longest w ((mem_patterns_iff hf).mpr hw) hf⟩
  · intro h
    exact ⟨(mem_patterns_iff h.front).mpr h.mem, h.front, fun w hw hf =>
      h.longest w ((mem_patterns_iff hf).mp hw) hf⟩

theorem unmatched_patterns_iff {c : Char} {text : List Char} :
    Unmatched patterns (c :: text) ↔ Unmatched (Family.ofHead c).language (c :: text) := by
  constructor
  · exact fun h w hw hf => h w ((mem_patterns_iff hf).mpr hw) hf
  · exact fun h w hw hf => h w ((mem_patterns_iff hf).mp hw) hf

end ExprScript
