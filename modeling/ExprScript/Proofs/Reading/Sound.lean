import ExprScript.Proofs.Reading.Advance
import ExprScript.Proofs.Tree.Grouping
import ExprScript.Proofs.Tree.Spelling

/-!
# Reading is sound

A run without new errors is made of steps without new errors, so it has taken exactly the tokens
that the tree is spelled with. The grouping comes from where the readers stop: an operand is never
left while the next operator would still go into it.

* `Cursor.Reads`: the spelling that stands between two cursors;
* `Reading.Clean`, `Reading.clean_bind`: runs without new errors;
* `Cursor.ReadsTree`, `Cursor.ReadsFrom`: what such a run has read;
* **`readsFrom_of_clean`**: the reader of expressions is sound on every number of levels.
-/

namespace ExprScript

/-! ## Spellings between cursors -/

namespace Cursor

/-- Whether the next token is that of a mark, at the column that is recorded. -/
def Shows (c : Cursor) (m : Mark) : Prop :=
  c.token? = some m.token ∧ ∀ column ∈ m.column, c.column = column

/-- Whether a spelling stands between two cursors. -/
def Reads : Cursor → List Mark → Cursor → Prop
  | c, [], c' => c' = c
  | c, m :: ms, c' => c.Shows m ∧ c.next.Reads ms c'

variable {c c' : Cursor}

@[simp] theorem shows_placed {column : Nat} {t : Token} :
    c.Shows (.placed column t) ↔ c.token? = some t ∧ c.column = column := by
  simp [Shows, Mark.placed]

@[simp] theorem shows_bare {t : Token} : c.Shows (.bare t) ↔ c.token? = some t := by
  simp [Shows, Mark.bare]

@[simp] theorem shows_symbol {s : Symbol} : c.Shows (.symbol s) ↔ c.token? = some (.symbol s) :=
  shows_bare

@[simp] theorem shows_keyword {k : Keyword} : c.Shows (.keyword k) ↔ c.token? = some (.keyword k) :=
  shows_bare

@[simp] theorem reads_nil : c.Reads [] c' ↔ c' = c := Iff.rfl

@[simp] theorem reads_cons {m : Mark} {ms : List Mark} :
    c.Reads (m :: ms) c' ↔ c.Shows m ∧ c.next.Reads ms c' := Iff.rfl

@[simp] theorem reads_append {ms ns : List Mark} :
    c.Reads (ms ++ ns) c' ↔ ∃ c₁, c.Reads ms c₁ ∧ c₁.Reads ns c' := by
  induction ms generalizing c with
  | nil => simp
  | cons m ms ih => simp [ih, and_assoc]

@[simp] theorem reads_parens {ms : List Mark} :
    c.Reads (parens ms) c' ↔ c.token? = some (.symbol .leftParen) ∧
      ∃ c₁, c.next.Reads ms c₁ ∧ c₁.token? = some (.symbol .rightParen) ∧ c' = c₁.next := by
  simp [parens]

/-- The binary operator that comes next. -/
def operator? (c : Cursor) : Option BinaryOp := c.token?.bind Token.binary?

theorem operator?_eq_some {op : BinaryOp} : c.operator? = some op ↔ c.token? = some op.token := by
  simp only [operator?, Option.bind_eq_some_iff, Token.binary?_eq_some, exists_eq_right]

end Cursor

namespace Reading

/-! ## Runs without new errors -/

/-- A run that succeeds without new errors. -/
def Clean {α : Type} (p : Reading α) (c : Cursor) (a : α) (c' : Cursor) : Prop :=
  p c = .ok a c' ∧ c'.errors = c.errors

section Clean

variable {α β : Type} {c c' : Cursor}

theorem Clean.ahead {p : Reading α} [Advances p] {a : α} (h : Clean p c a c') : c.Ahead c' :=
  Advances.ok h.1

/-- A step whose outcome is known, without a new error. -/
theorem clean_iff {p : Reading α} {a b : α} {c₁ : Cursor} (h : p c = .ok a c₁)
    (he : c₁.errors = c.errors) : Clean p c b c' ↔ b = a ∧ c' = c₁ := by
  rw [Clean, h]
  constructor
  · rintro ⟨h', -⟩
    cases h'
    exact ⟨rfl, rfl⟩
  · rintro ⟨rfl, rfl⟩
    exact ⟨rfl, he⟩

@[simp] theorem clean_pure {a b : α} : Clean (pure a) c b c' ↔ b = a ∧ c' = c := clean_iff rfl rfl

/-- **The steps of a run without new errors are without new errors.** -/
theorem clean_bind_of {p : Reading α} {f : α → Reading β} [Advances p] (hf : ∀ a, Advances (f a))
    {b : β} : Clean (p >>= f) c b c' ↔ ∃ a c₁, Clean p c a c₁ ∧ Clean (f a) c₁ b c' := by
  constructor
  · rintro ⟨h, he⟩
    rw [bind_apply] at h
    cases hp : p c with
    | error e c₁ => rw [hp] at h; cases h
    | ok a c₁ =>
      rw [hp] at h
      have h₁ := (Advances.ok hp).errors
      have h₂ := ((hf a).ok h).errors
      rw [he] at h₂
      have hc : c₁.errors = c.errors := h₂.eq_of_length_le h₁.length_le
      exact ⟨a, c₁, ⟨hp, hc⟩, h, he.trans hc.symm⟩
  · rintro ⟨a, c₁, ⟨h₁, he₁⟩, h₂, he₂⟩
    refine ⟨?_, he₂.trans he₁⟩
    rw [bind_apply, h₁]
    exact h₂

@[simp] theorem clean_bind {p : Reading α} {f : α → Reading β} [Advances p] [hf : ∀ a, Advances (f a)]
    {b : β} : Clean (p >>= f) c b c' ↔ ∃ a c₁, Clean p c a c₁ ∧ Clean (f a) c₁ b c' :=
  clean_bind_of hf

@[simp] theorem clean_left {n : Nat} : Clean left c n c' ↔ n = c.rest.length ∧ c' = c :=
  clean_iff rfl rfl

@[simp] theorem clean_column {n : Nat} : Clean column c n c' ↔ n = c.column ∧ c' = c :=
  clean_iff rfl rfl

@[simp] theorem clean_skip {u : Unit} : Clean skip c u c' ↔ c' = c.next :=
  (clean_iff rfl rfl).trans (and_iff_right rfl)

@[simp] theorem clean_eat {t : Token} {b : Bool} :
    Clean (eat t) c b c' ↔
      b = true ∧ c.token? = some t ∧ c' = c.next ∨ b = false ∧ c.token? ≠ some t ∧ c' = c := by
  by_cases h : c.token? = some t
  · have he : eat t c = .ok true c.next := by rw [eat_apply, if_pos h]
    simp [clean_iff he rfl, h]
  · have he : eat t c = .ok false c := by rw [eat_apply, if_neg h]
    simp [clean_iff he rfl, h]

/-! A choice that is made on what is only looked at needs no condition on the choices. -/

@[simp] theorem clean_look_bind {f : Option Token → Reading β} {b : β} :
    Clean (look? >>= f) c b c' ↔ Clean (f c.token?) c b c' := Iff.rfl

@[simp] theorem clean_column_bind {f : Nat → Reading β} {b : β} :
    Clean (column >>= f) c b c' ↔ Clean (f c.column) c b c' := Iff.rfl

theorem clean_operator_bind {level : Nat} {f : Option BinaryOp → Reading β} {b : β} :
    Clean (operator? level >>= f) c b c' ↔
      Clean (f (c.operator?.filter (level ≤ ·.precedence))) c b c' := Iff.rfl

@[simp] theorem clean_map {f : α → β} {p : Reading α} {b : β} :
    Clean (f <$> p) c b c' ↔ ∃ a, Clean p c a c' ∧ b = f a := by
  have h : (f <$> p) c = (p >>= fun a => pure (f a)) c := by rw [map_eq_pure_bind]
  rw [Clean, h, bind_apply]
  constructor
  · rintro ⟨h, he⟩
    cases hp : p c with
    | error e c₁ => rw [hp] at h; cases h
    | ok a c₁ =>
      rw [hp] at h
      cases h
      exact ⟨a, ⟨hp, he⟩, rfl⟩
  · rintro ⟨a, ⟨hp, he⟩, rfl⟩
    rw [hp]
    exact ⟨rfl, he⟩

@[simp] theorem not_clean_unexpected {expected : Expected} {u : Unit} :
    ¬ Clean (unexpected expected) c u c' := by
  rintro ⟨h, he⟩
  cases h
  change (c.unexpected expected).errors = c.errors at he
  unfold Cursor.unexpected at he
  split at he <;> exact List.cons_ne_self _ _ he

@[simp] theorem clean_expect {t : Token} {b : Bool} :
    Clean (expect t) c b c' ↔ b = true ∧ c.token? = some t ∧ c' = c.next := by
  unfold expect
  rw [clean_bind]
  constructor
  · rintro ⟨a, c₁, h, h'⟩
    rcases clean_eat.mp h with ⟨rfl, ht, rfl⟩ | ⟨rfl, ht, rfl⟩ <;> simp_all
  · rintro ⟨rfl, ht, rfl⟩
    exact ⟨true, c.next, clean_eat.mpr (.inl ⟨rfl, ht, rfl⟩), by simp⟩

theorem clean_discard {p : Reading α} {u : Unit} :
    Clean (discard p) c u c' ↔ ∃ a, Clean p c a c' :=
  (clean_map (f := fun _ => ())).trans (by simp)

@[simp] theorem clean_symbol {s : Symbol} {u : Unit} :
    Clean (symbol s) c u c' ↔ c.token? = some (.symbol s) ∧ c' = c.next := by
  rw [symbol, clean_discard]
  simp

@[simp] theorem clean_keyword {k : Keyword} {u : Unit} :
    Clean (keyword k) c u c' ↔ c.token? = some (.keyword k) ∧ c' = c.next := by
  rw [keyword, clean_discard]
  simp

@[simp] theorem clean_identifier {name : Option (String × Nat)} :
    Clean identifier? c name c' ↔
      ∃ n, c.token? = some (.identifier n) ∧ name = some (n, c.column) ∧ c' = c.next := by
  unfold identifier?
  rw [clean_column_bind, clean_look_bind]
  split
  · next n h => simp [h, and_comm]
  · next h => simp_all

@[simp] theorem clean_bindingName {name : String × Nat} :
    Clean bindingName c name c' ↔
      c.token? = some (.identifier name.1) ∧ name.2 = c.column ∧ c' = c.next := by
  unfold bindingName
  rw [clean_bind_of fun found => by split <;> infer_instance]
  constructor
  · rintro ⟨_, c₁, h, h'⟩
    obtain ⟨n, ht, rfl, rfl⟩ := clean_identifier.mp h
    obtain ⟨rfl, rfl⟩ := clean_pure.mp h'
    exact ⟨ht, rfl, rfl⟩
  · rintro ⟨ht, hc, rfl⟩
    refine ⟨some name, c.next, clean_identifier.mpr ⟨name.1, ht, ?_, rfl⟩, ?_⟩
    · rw [← hc]
    · simp

@[simp] theorem clean_nameOrEmpty {name : String} :
    Clean nameOrEmpty c name c' ↔ c.token? = some (.identifier name) ∧ c' = c.next := by
  unfold nameOrEmpty
  rw [clean_bind_of fun found => by split <;> infer_instance]
  constructor
  · rintro ⟨_, c₁, h, h'⟩
    obtain ⟨n, ht, rfl, rfl⟩ := clean_identifier.mp h
    obtain ⟨rfl, rfl⟩ := clean_pure.mp h'
    exact ⟨ht, rfl⟩
  · rintro ⟨ht, rfl⟩
    exact ⟨some (name, c.column), c.next, clean_identifier.mpr ⟨name, ht, rfl, rfl⟩, by simp⟩

end Clean

end Reading

/-! ## What a run without new errors has read -/

namespace Cursor

/-- An expression stands between two cursors: its spelling does, no part of it is missing, it is
grouped as the binding powers dictate, and it would not go on over the operator behind it. -/
structure ReadsTree (c : Cursor) (e : Expr) (c' : Cursor) : Prop where
  marks : c.Reads e.marks c'
  complete : e.complete
  grouped : e.grouped
  settled : ∀ op, c'.operator? = some op → e.absorbs op.precedence = false

/-- An expression stands between two cursors that may stand bare where operators must bind at least
as tightly as `level`, and no such operator comes next. -/
structure ReadsFrom (level : Nat) (c : Cursor) (e : Expr) (c' : Cursor) : Prop
    extends c.ReadsTree e c' where
  bindsFrom : e.bindsFrom level
  loose : ∀ op, c'.operator? = some op → op.precedence < level

/-- Expressions with commas between them stand between two cursors. -/
structure ReadsAll (c : Cursor) (es : List Expr) (c' : Cursor) : Prop where
  marks : c.Reads (marksAll es) c'
  complete : everywhereAll Expr.completeHere es
  grouped : everywhereAll Expr.groupedHere es

/-- Branches stand between two cursors, and no operator comes next. -/
structure ReadsBranches (c : Cursor) (b : Branches) (c' : Cursor) : Prop where
  marks : c.Reads b.marks c'
  complete : b.everywhere Expr.completeHere
  grouped : b.everywhere Expr.groupedHere
  settled : c'.operator? = none

/-- Bindings and a body stand between two cursors, and no operator comes next. -/
structure ReadsBindings (c : Cursor) (b : Bindings) (c' : Cursor) : Prop where
  marks : c.Reads b.marks c'
  complete : b.everywhere Expr.completeHere
  grouped : b.everywhere Expr.groupedHere
  settled : c'.operator? = none

variable {c c' : Cursor} {e : Expr}

/-- No operator stands behind an expression that takes all of them. -/
theorem ReadsFrom.operator?_eq_none (h : c.ReadsFrom 1 e c') : c'.operator? = none := by
  cases hop : c'.operator? with
  | none => rfl
  | some op =>
    have := h.loose op hop
    have := op.precedence_pos
    omega

theorem ReadsTree.single (h : c.ReadsTree e c') : c.ReadsAll [e] c' where
  marks := by simpa [marksAll, separator] using h.marks
  complete := by simpa [everywhereAll] using h.complete
  grouped := by simpa [everywhereAll] using h.grouped

theorem ReadsTree.cons {c₁ : Cursor} {rest : List Expr} (h : c.ReadsTree e c₁)
    (ht : c₁.token? = some (.symbol .comma)) (hr : c₁.next.ReadsAll rest c') (hne : rest ≠ []) :
    c.ReadsAll (e :: rest) c' where
  marks := by
    have hs : separator rest = [Mark.symbol .comma] := by
      cases rest with
      | nil => exact absurd rfl hne
      | cons _ _ => rfl
    rw [marksAll, hs]
    exact reads_append.mpr ⟨_, reads_append.mpr ⟨_, h.marks, by simp [ht]⟩, hr.marks⟩
  complete := by simpa [everywhereAll] using ⟨h.complete, hr.complete⟩
  grouped := by simpa [everywhereAll] using ⟨h.grouped, hr.grouped⟩

theorem ReadsTree.bind {c₁ c₂ : Cursor} {name : String} {rest : Bindings}
    (hn : c.token? = some (.identifier name)) (ht : c.next.token? = some (.symbol .equals))
    (h : c.next.next.ReadsTree e c₁) (hs : c₁.Reads rest.separator c₂)
    (hr : c₂.ReadsBindings rest c') : c.ReadsBindings (.bind c.column name e rest) c' where
  marks := by
    simp only [Bindings.marks, reads_cons, shows_placed, shows_symbol]
    exact ⟨⟨hn, trivial⟩, ht, reads_append.mpr ⟨_, reads_append.mpr ⟨_, h.marks, hs⟩, hr.marks⟩⟩
  complete := by simpa [Bindings.everywhere] using ⟨h.complete, hr.complete⟩
  grouped := by simpa [Bindings.everywhere] using ⟨h.grouped, hr.grouped⟩
  settled := hr.settled

end Cursor

namespace Reading

/-- An expression of one word. -/
theorem readsTree_of_clean_word {c c' : Cursor} {t : Token} {word e : Expr}
    (ht : c.token? = some t) (hm : word.marks = [.placed c.column t]) (hw : word.complete)
    (hg : word.grouped) (ha : ∀ p, word.absorbs p = false) (hb : word.isBinary = false)
    (h : Clean (do skip; return word) c e c') : c.ReadsTree e c' ∧ e.isBinary = false := by
  simp only [clean_bind, clean_skip, clean_pure] at h
  obtain ⟨_, _, rfl, rfl, rfl⟩ := h
  exact ⟨⟨by simp [hm, ht], hw, hg, fun op _ => ha _⟩, hb⟩

/-- **A token, a part behind it, and an expression made of both** that takes no operators. -/
theorem readsTree_of_clean_part {α : Type} {c c' : Cursor} {t : Token} {p : Reading α} [Advances p]
    {node : α → Expr} {e : Expr} {marks : α → List Mark} (ht : c.token? = some t)
    (hm : ∀ a, (node a).marks = .placed c.column t :: marks a)
    (hp : ∀ {a}, Clean p c.next a c' →
      c.next.Reads (marks a) c' ∧ (node a).complete ∧ (node a).grouped)
    (ha : ∀ a p, (node a).absorbs p = false) (hb : ∀ a, (node a).isBinary = false)
    (h : Clean (do skip; return node (← p)) c e c') : c.ReadsTree e c' ∧ e.isBinary = false := by
  simp only [clean_bind, clean_skip, clean_pure] at h
  obtain ⟨_, _, rfl, a, c₁, h, rfl, rfl⟩ := h
  obtain ⟨hmarks, hw, hg⟩ := hp h
  refine ⟨⟨?_, hw, hg, fun op _ => ha a _⟩, hb a⟩
  rw [hm, Cursor.reads_cons, Cursor.shows_placed]
  exact ⟨⟨ht, rfl⟩, hmarks⟩

section Readers

variable (deeper : Nat → Reading Expr) [∀ level, Advances (deeper level)]
  (sound : ∀ {level c e c'}, Clean (deeper level) c e c' → c.ReadsFrom level e c')
  {c c' : Cursor}

include sound

theorem reads_of_clean_argument {e : Expr} (h : Clean (argument deeper) c e c') :
    c.Reads (parens e.marks) c' ∧ e.complete ∧ e.grouped := by
  simp only [argument, clean_bind, clean_symbol, clean_pure] at h
  obtain ⟨_, _, ⟨ht, rfl⟩, e₁, c₁, he, _, _, ⟨ht', rfl⟩, rfl, rfl⟩ := h
  have he := sound he
  exact ⟨Cursor.reads_parens.mpr ⟨ht, c₁, he.marks, ht', rfl⟩, he.complete, he.grouped⟩

theorem reads_of_clean_argumentPair {p : Expr × Expr} (h : Clean (argumentPair deeper) c p c') :
    c.Reads (pairParens p.1.marks p.2.marks) c' ∧ (p.1.complete ∧ p.2.complete) ∧
      (p.1.grouped ∧ p.2.grouped) := by
  simp only [argumentPair, clean_bind, clean_symbol, clean_pure] at h
  obtain ⟨_, _, ⟨ht, rfl⟩, e₁, c₁, he₁, _, _, ⟨ht', rfl⟩, e₂, c₂, he₂, _, _, ⟨ht'', rfl⟩, rfl, rfl⟩ := h
  have he₁ := sound he₁
  have he₂ := sound he₂
  refine ⟨?_, ⟨he₁.complete, he₂.complete⟩, he₁.grouped, he₂.grouped⟩
  simp only [pairParens, Cursor.reads_parens, Cursor.reads_append, Cursor.reads_cons,
    Cursor.shows_symbol]
  exact ⟨ht, c₂, ⟨c₁, he₁.marks, ht', he₂.marks⟩, ht'', rfl⟩

theorem readsAll_of_clean_expressions {rounds : Nat} {es : List Expr}
    (h : Clean (expressions deeper rounds) c es c') : c.ReadsAll es c' ∧ es ≠ [] := by
  induction rounds generalizing c es with
  | zero =>
    simp only [expressions, clean_bind, clean_pure] at h
    obtain ⟨e, c₁, he, rfl, rfl⟩ := h
    exact ⟨(sound he).single, List.cons_ne_nil _ _⟩
  | succ rounds ih =>
    simp only [expressions, clean_bind, clean_eat] at h
    obtain ⟨e, c₁, he, b, c₂, ⟨rfl, ht, rfl⟩ | ⟨rfl, ht, rfl⟩, h⟩ := h
    · simp only [if_true, clean_bind, clean_pure] at h
      obtain ⟨rest, c₃, hr, rfl, rfl⟩ := h
      obtain ⟨hr, hne⟩ := ih hr
      exact ⟨(sound he).cons ht hr hne, List.cons_ne_nil _ _⟩
    · simp only [Bool.false_eq_true, if_false, clean_pure] at h
      obtain ⟨rfl, rfl⟩ := h
      exact ⟨(sound he).single, List.cons_ne_nil _ _⟩

theorem reads_of_clean_expressionsUpTo {close : Symbol} {es : List Expr}
    (h : Clean (expressionsUpTo deeper close) c es c') :
    c.Reads (marksAll es ++ [.symbol close]) c' ∧ everywhereAll Expr.completeHere es ∧
      everywhereAll Expr.groupedHere es := by
  simp only [expressionsUpTo, clean_bind, clean_eat] at h
  obtain ⟨b, c₁, ⟨rfl, ht, rfl⟩ | ⟨rfl, ht, rfl⟩, h⟩ := h
  · simp only [if_true, clean_pure] at h
    obtain ⟨rfl, rfl⟩ := h
    exact ⟨by simp [marksAll, ht], rfl, rfl⟩
  · simp only [Bool.false_eq_true, if_false, clean_bind, clean_left, clean_symbol, clean_pure] at h
    obtain ⟨_, _, ⟨rfl, rfl⟩, es, c₁, he, _, _, ⟨ht', rfl⟩, rfl, rfl⟩ := h
    obtain ⟨he, -⟩ := readsAll_of_clean_expressions deeper sound he
    exact ⟨Cursor.reads_append.mpr ⟨c₁, he.marks, by simp [ht']⟩, he.complete, he.grouped⟩

theorem readsTree_of_clean_afterName {name : String} {e : Expr} {c₀ : Cursor}
    (hn : c₀.token? = some (.identifier name)) (hc : c₀.next = c)
    (h : Clean (afterName deeper name c₀.column) c e c') :
    c₀.ReadsTree e c' ∧ e.isBinary = false := by
  rw [afterName, clean_look_bind] at h
  split at h
  · next ht =>
    simp only [clean_bind, clean_skip, clean_pure] at h
    obtain ⟨_, _, rfl, es, c₁, he, rfl, rfl⟩ := h
    obtain ⟨hm, hw, hg⟩ := reads_of_clean_expressionsUpTo deeper sound he
    refine ⟨⟨?_, ?_, ?_, fun op _ => rfl⟩, rfl⟩
    · simp_all [Expr.marks, parens]
    · simpa [Expr.everywhere, Expr.completeHere] using hw
    · simpa [Expr.everywhere, Expr.groupedHere] using hg
  · next ht =>
    simp only [clean_bind, clean_skip, clean_symbol, clean_pure] at h
    obtain ⟨_, _, rfl, index, c₁, he, _, _, ⟨ht', rfl⟩, rfl, rfl⟩ := h
    have he := sound he
    refine ⟨⟨?_, ?_, ?_, fun op _ => rfl⟩, rfl⟩
    · simp only [Expr.marks, Cursor.reads_cons, Cursor.reads_append, Cursor.shows_placed,
        Cursor.shows_symbol]
      exact ⟨⟨hn, trivial⟩, hc ▸ ht, c₁, hc ▸ he.marks, by simp [ht']⟩
    · simpa [Expr.everywhere, Expr.completeHere] using he.complete
    · simpa [Expr.everywhere, Expr.groupedHere] using he.grouped
  · next m ht =>
    simp only [clean_bind, clean_skip, clean_symbol, clean_pure] at h
    obtain ⟨_, _, rfl, _, _, ⟨ht₁, rfl⟩, _, _, ⟨ht₂, rfl⟩, rfl, rfl⟩ := h
    refine ⟨⟨?_, rfl, rfl, fun op _ => rfl⟩, rfl⟩
    simp_all [Expr.marks]
  · obtain ⟨rfl, rfl⟩ := clean_pure.mp h
    exact ⟨⟨by simp [Expr.marks, hn, hc], rfl, rfl, fun op _ => rfl⟩, rfl⟩

theorem readsBindings_of_clean_letBody {b : Bindings} (h : Clean (letBody deeper) c b c') :
    c.ReadsBindings b c' ∧ b.separator = [] := by
  simp only [letBody, clean_bind, clean_keyword, clean_pure] at h
  obtain ⟨_, _, ⟨ht, rfl⟩, body, c₁, he, rfl, rfl⟩ := h
  have he := sound he
  refine ⟨⟨?_, he.complete, he.grouped, he.operator?_eq_none⟩, rfl⟩
  simp [Bindings.marks, ht, he.marks]

/-- Each binding takes a token, so the rounds do not run out before the bindings do. -/
theorem readsBindings_of_clean_bindings {rounds : Nat} {b : Bindings} (hr : c.rest.length < rounds)
    (h : Clean (bindings deeper rounds) c b c') :
    c.ReadsBindings b c' ∧ ∃ column name value rest, b = .bind column name value rest := by
  induction rounds generalizing c b with
  | zero => omega
  | succ rounds ih =>
    simp only [bindings, binding, clean_bind, clean_bindingName, clean_symbol, clean_eat,
      clean_pure] at h
    obtain ⟨_, c₂, ⟨⟨name, column⟩, _, ⟨hn, hcol, rfl⟩, _, _, ⟨ht, rfl⟩, value, c₁, he, rfl, rfl⟩, b',
      c₃, ⟨rfl, hc, rfl⟩ | ⟨rfl, hc, rfl⟩, h⟩ := h
    all_goals obtain rfl : column = c.column := hcol
    · simp only [if_true, clean_bind, clean_pure] at h
      obtain ⟨rest, c₄, hb, rfl, rfl⟩ := h
      have h₁ := Cursor.length_next_lt hn
      have h₂ := (Cursor.Ahead.next c.next).length_le
      have h₃ := he.ahead.length_le
      have h₄ := Cursor.length_next_lt hc
      obtain ⟨hb, _, _, _, _, rfl⟩ := ih (by omega) hb
      exact ⟨(sound he).bind hn ht (by simp [Bindings.separator, hc]) hb, _, _, _, _, rfl⟩
    · simp only [Bool.false_eq_true, if_false, clean_bind, clean_pure] at h
      obtain ⟨rest, c₄, hb, rfl, rfl⟩ := h
      obtain ⟨hb, hs⟩ := readsBindings_of_clean_letBody deeper sound hb
      exact ⟨(sound he).bind hn ht (by simp [hs]) hb, _, _, _, _, rfl⟩

theorem readsBranches_of_clean_lastBranch {b : Branches} (h : Clean (lastBranch deeper) c b c') :
    c.ReadsBranches b c' := by
  simp only [lastBranch, clean_bind, clean_column, clean_expect] at h
  obtain ⟨_, _, ⟨rfl, rfl⟩, b, _, ⟨rfl, ht, rfl⟩, h⟩ := h
  simp only [if_true, clean_bind, clean_pure] at h
  obtain ⟨body, c₁, he, rfl, rfl⟩ := h
  have he := sound he
  refine ⟨?_, he.complete, he.grouped, he.operator?_eq_none⟩
  simp [Branches.marks, ht, he.marks]

theorem readsBranches_of_clean_branches {rounds : Nat} {b : Branches}
    (h : Clean (branches deeper rounds) c b c') : c.ReadsBranches b c' := by
  induction rounds generalizing c b with
  | zero => exact readsBranches_of_clean_lastBranch deeper sound h
  | succ rounds ih =>
    simp only [branches, clean_bind, clean_eat] at h
    obtain ⟨b', c₁, ⟨rfl, ht, rfl⟩ | ⟨rfl, ht, rfl⟩, h⟩ := h
    · simp only [if_true, clean_bind, clean_pure] at h
      obtain ⟨condition, c₂, hc, body, c₃, he, rest, c₄, hb, rfl, rfl⟩ := h
      obtain ⟨hc, hcw, hcg⟩ := reads_of_clean_argument deeper sound hc
      have he := sound he
      have hb := ih hb
      refine ⟨?_, ?_, ?_, hb.settled⟩
      · simp only [Branches.marks, Cursor.reads_cons, Cursor.reads_append, Cursor.shows_keyword]
        exact ⟨ht, c₃, ⟨c₂, hc, he.marks⟩, hb.marks⟩
      · simpa [Branches.everywhere] using ⟨hcw, he.complete, hb.complete⟩
      · simpa [Branches.everywhere] using ⟨hcg, he.grouped, hb.grouped⟩
    · exact readsBranches_of_clean_lastBranch deeper sound h

theorem reads_of_clean_loopSource {column : Nat} {var : String} {loop : Expr → Expr}
    (h : Clean (loopSource deeper column var) c loop c') :
    ∃ source, c.Reads source c' ∧ ∀ body,
      (loop body).marks = .placed column (.keyword .forK) ::
        (parens (.bare (.identifier var) :: .keyword .inK :: source) ++ body.marks) ∧
      (loop body).complete = body.complete ∧ (loop body).grouped = body.grouped ∧
      (loop body).isBinary = false := by
  rw [loopSource, clean_column_bind, clean_look_bind] at h
  split at h
  · next ht =>
    simp only [clean_bind, clean_skip, clean_pure] at h
    obtain ⟨_, _, rfl, bounds, c₁, hb, rfl, rfl⟩ := h
    obtain ⟨hm, ⟨hw₁, hw₂⟩, hg₁, hg₂⟩ := reads_of_clean_argumentPair deeper sound hb
    refine ⟨.keyword .rangeK :: pairParens bounds.1.marks bounds.2.marks, ?_, fun body => ?_⟩
    · simp [ht, hm]
    · simp_all [Expr.marks, Expr.everywhere, Expr.completeHere, Expr.groupedHere, Expr.isBinary]
  · next vector ht =>
    simp only [clean_bind, clean_skip, clean_pure] at h
    obtain ⟨_, _, rfl, rfl, rfl⟩ := h
    refine ⟨[.placed c.column (.identifier vector)], by simp [ht], fun body => ?_⟩
    simp [Expr.marks, Expr.everywhere, Expr.completeHere, Expr.groupedHere, Expr.isBinary]
  · simp at h

set_option synthInstance.maxSize 256 in
theorem readsTree_of_clean_forLoop {e : Expr} {c₀ : Cursor}
    (hf : c₀.token? = some (.keyword .forK)) (hc : c₀.next = c)
    (h : Clean (forLoop deeper c₀.column) c e c') : c₀.ReadsTree e c' ∧ e.isBinary = false := by
  simp only [forLoop, clean_bind, clean_symbol, clean_nameOrEmpty, clean_keyword, clean_pure] at h
  obtain ⟨_, _, ⟨ht₁, rfl⟩, var, _, ⟨ht₂, rfl⟩, _, _, ⟨ht₃, rfl⟩, loop, c₁, hl, _, _, ⟨ht₄, rfl⟩,
    body, c₂, he, rfl, rfl⟩ := h
  obtain ⟨source, hs, hloop⟩ := reads_of_clean_loopSource deeper sound hl
  obtain ⟨hm, hw, hg, hb⟩ := hloop body
  have he := sound he
  refine ⟨⟨?_, hw.trans he.complete, hg.trans he.grouped, ?_⟩, hb⟩
  · subst hc
    simp only [hm, Cursor.reads_cons, Cursor.reads_append, Cursor.reads_parens,
      Cursor.shows_placed, Cursor.shows_bare, Cursor.shows_keyword]
    exact ⟨⟨hf, trivial⟩, _, ⟨ht₁, _, ⟨ht₂, ht₃, hs⟩, ht₄, rfl⟩, he.marks⟩
  · simp [he.operator?_eq_none]

theorem readsTree_of_clean_primary {e : Expr} (h : Clean (primary deeper) c e c') :
    c.ReadsTree e c' ∧ e.isBinary = false := by
  rw [primary, clean_column_bind, clean_look_bind] at h
  split at h
  · next x ht => exact readsTree_of_clean_word ht rfl rfl rfl (fun _ => rfl) rfl h
  · next s ht => exact readsTree_of_clean_word ht rfl rfl rfl (fun _ => rfl) rfl h
  · next b ht => exact readsTree_of_clean_word ht rfl rfl rfl (fun _ => rfl) rfl h
  · next k ht => exact readsTree_of_clean_word ht rfl rfl rfl (fun _ => rfl) rfl h
  · next ht =>
    simp only [clean_bind, clean_skip, clean_symbol, clean_pure] at h
    obtain ⟨_, _, rfl, inner, c₁, he, _, _, ⟨ht', rfl⟩, rfl, rfl⟩ := h
    have he := sound he
    refine ⟨⟨?_, ?_, ?_, fun op _ => rfl⟩, rfl⟩
    · simp only [Expr.marks, Cursor.reads_cons, Cursor.reads_append, Cursor.shows_placed]
      exact ⟨⟨ht, trivial⟩, c₁, he.marks, by simp [ht']⟩
    · simpa [Expr.everywhere, Expr.completeHere] using he.complete
    · simpa [Expr.everywhere, Expr.groupedHere] using he.grouped
  · next ht =>
    refine readsTree_of_clean_part ht (fun _ => rfl) ?_ (fun _ _ => rfl) (fun _ => rfl) h
    exact reads_of_clean_expressionsUpTo deeper sound
  · next ht =>
    refine readsTree_of_clean_part ht (fun _ => rfl) ?_ (fun _ _ => rfl) (fun _ => rfl) h
    exact reads_of_clean_argument deeper sound
  · next f ht =>
    refine readsTree_of_clean_part ht (fun _ => rfl) ?_ (fun _ _ => rfl) (fun _ => rfl) h
    exact reads_of_clean_argument deeper sound
  · next ht =>
    refine readsTree_of_clean_part ht (fun _ => rfl) (fun hp => ?_) (fun _ _ => rfl) (fun _ => rfl) h
    simpa [Expr.everywhere, Expr.completeHere, Expr.groupedHere] using
      reads_of_clean_argumentPair deeper sound hp
  · next ht =>
    refine readsTree_of_clean_part ht (fun _ => rfl) (fun hp => ?_) (fun _ _ => rfl) (fun _ => rfl) h
    simpa [Expr.everywhere, Expr.completeHere, Expr.groupedHere] using
      reads_of_clean_argumentPair deeper sound hp
  · next ht =>
    simp only [clean_bind, clean_skip, clean_symbol, clean_pure] at h
    obtain ⟨_, _, rfl, _, _, ⟨ht₁, rfl⟩, _, _, ⟨ht₂, rfl⟩, rfl, rfl⟩ := h
    exact ⟨⟨by simp_all [Expr.marks], rfl, rfl, fun op _ => rfl⟩, rfl⟩
  · next ht =>
    simp only [clean_bind, clean_skip, clean_left, clean_pure] at h
    obtain ⟨_, _, rfl, _, _, ⟨rfl, rfl⟩, b, c₁, hb, rfl, rfl⟩ := h
    obtain ⟨hb, _, _, _, _, rfl⟩ :=
      readsBindings_of_clean_bindings deeper sound (Nat.lt_succ_self _) hb
    refine ⟨⟨?_, ?_, ?_, by simp [hb.settled]⟩, rfl⟩
    · simpa [Expr.marks, ht] using hb.marks
    · simpa [Expr.everywhere, Expr.completeHere] using hb.complete
    · simpa [Expr.everywhere, Expr.groupedHere] using hb.grouped
  · next ht =>
    simp only [clean_bind, clean_skip, clean_left, clean_pure] at h
    obtain ⟨_, _, rfl, condition, c₁, hc, body, c₂, he, _, _, ⟨rfl, rfl⟩, b, c₃, hb, rfl, rfl⟩ := h
    obtain ⟨hm, hw, hg⟩ := reads_of_clean_argument deeper sound hc
    have he := sound he
    have hb := readsBranches_of_clean_branches deeper sound hb
    refine ⟨⟨?_, ?_, ?_, by simp [hb.settled]⟩, rfl⟩
    · simp only [Expr.marks, Cursor.reads_cons, Cursor.reads_append, Cursor.shows_placed]
      exact ⟨⟨ht, trivial⟩, _, ⟨_, hm, he.marks⟩, hb.marks⟩
    · simpa [Expr.everywhere, Expr.completeHere] using ⟨hw, he.complete, hb.complete⟩
    · simpa [Expr.everywhere, Expr.groupedHere] using ⟨hg, he.grouped, hb.grouped⟩
  · next ht =>
    simp only [clean_bind, clean_skip] at h
    obtain ⟨_, _, rfl, h⟩ := h
    exact readsTree_of_clean_forLoop deeper sound ht rfl h
  · next ht =>
    simp only [clean_bind, clean_skip, clean_pure] at h
    obtain ⟨_, _, rfl, condition, c₁, hc, body, c₂, he, rfl, rfl⟩ := h
    obtain ⟨hm, hw, hg⟩ := reads_of_clean_argument deeper sound hc
    have he := sound he
    refine ⟨⟨?_, ?_, ?_, by simp [he.operator?_eq_none]⟩, rfl⟩
    · simp only [Expr.marks, Cursor.reads_cons, Cursor.reads_append, Cursor.shows_placed]
      exact ⟨⟨ht, trivial⟩, _, hm, he.marks⟩
    · simpa [Expr.everywhere, Expr.completeHere] using ⟨hw, he.complete⟩
    · simpa [Expr.everywhere, Expr.groupedHere] using ⟨hg, he.grouped⟩
  · next name ht =>
    simp only [clean_bind, clean_skip] at h
    obtain ⟨_, _, rfl, h⟩ := h
    exact readsTree_of_clean_afterName deeper sound ht rfl h
  · simp at h

theorem readsTree_of_clean_unary {e : Expr} (h : Clean (unary deeper) c e c') :
    c.ReadsTree e c' ∧ e.isBinary = false := by
  rw [unary, clean_look_bind] at h
  split at h
  · next op hop =>
    rw [Option.bind_eq_some_iff] at hop
    obtain ⟨t, ht, hop⟩ := hop
    obtain rfl := Token.unary?_eq_some.mp hop
    simp only [clean_bind, clean_column, clean_skip, clean_pure] at h
    obtain ⟨_, _, ⟨rfl, rfl⟩, _, _, rfl, operand, c₁, he, rfl, rfl⟩ := h
    have he := sound he
    refine ⟨⟨?_, ?_, ?_, fun op' hop' => ?_⟩, rfl⟩
    · simpa [Expr.marks, ht] using he.marks
    · simpa [Expr.everywhere, Expr.completeHere] using he.complete
    · simpa [Expr.everywhere, Expr.groupedHere] using ⟨he.bindsFrom, he.grouped⟩
    · have := he.loose op' hop'
      simp only [Expr.absorbs, he.settled op' hop', Bool.or_false, decide_eq_false_iff_not]
      omega
  · exact readsTree_of_clean_primary deeper sound h

/-- What an operand is followed by, as long as operators bind tightly enough, goes on the right of
it. Each operator takes a token, so the rounds do not run out before the operators do. -/
theorem reads_of_clean_chain {level rounds : Nat} {c₀ : Cursor} {operand e : Expr}
    (hr : c.rest.length ≤ rounds) (ho : c₀.ReadsTree operand c) (hb : operand.bindsFrom level)
    (h : Clean (chain deeper level rounds operand) c e c') : c₀.ReadsFrom level e c' := by
  induction rounds generalizing c operand with
  | zero =>
    obtain ⟨rfl, rfl⟩ := clean_pure.mp h
    refine ⟨ho, hb, fun op hop => ?_⟩
    have := Cursor.length_next_lt (Cursor.operator?_eq_some.mp hop)
    omega
  | succ rounds ih =>
    rw [chain, clean_operator_bind] at h
    split at h
    · next op hop =>
      rw [Option.filter_eq_some_iff, decide_eq_true_eq] at hop
      obtain ⟨hop, hl⟩ := hop
      have ht := Cursor.operator?_eq_some.mp hop
      simp only [clean_bind, clean_column, clean_skip] at h
      obtain ⟨_, _, ⟨rfl, rfl⟩, _, _, rfl, right, c₁, he, h⟩ := h
      have h₁ := Cursor.length_next_lt ht
      have h₂ := he.ahead.length_le
      have he := sound he
      refine ih (by omega) ⟨?_, ?_, ?_, fun op' hop' => ?_⟩ (by simpa [Expr.bindsFrom] using hl) h
      · simp only [Expr.marks, Cursor.reads_append, Cursor.reads_cons, Cursor.shows_placed]
        exact ⟨_, ho.marks, ⟨ht, rfl⟩, he.marks⟩
      · simpa [Expr.everywhere, Expr.completeHere] using ⟨ho.complete, he.complete⟩
      · simpa [Expr.everywhere, Expr.groupedHere] using
          ⟨⟨ho.settled op hop, he.bindsFrom⟩, ho.grouped, he.grouped⟩
      · have := he.loose op' hop'
        simp only [Expr.absorbs, he.settled op' hop', Bool.or_false, decide_eq_false_iff_not]
        omega
    · next hop =>
      obtain ⟨rfl, rfl⟩ := clean_pure.mp h
      refine ⟨ho, hb, fun op hop' => ?_⟩
      rw [hop', Option.filter_some] at hop
      simpa using hop

theorem readsFrom_of_clean_binary {level : Nat} {e : Expr}
    (h : Clean (binary deeper level) c e c') : c.ReadsFrom level e c' := by
  simp only [binary, clean_bind, clean_left] at h
  obtain ⟨operand, c₁, ho, _, _, ⟨rfl, rfl⟩, h⟩ := h
  obtain ⟨ho, hb⟩ := readsTree_of_clean_unary deeper sound ho
  exact reads_of_clean_chain deeper sound (Nat.le_refl _) ho (Expr.bindsFrom_of_not_isBinary hb level) h

end Readers

/-- **The reader of expressions is sound**: what it has read without a new error stands between the
two cursors. -/
theorem readsFrom_of_clean {levels level : Nat} {c c' : Cursor} {e : Expr}
    (h : Clean (expressionAt levels level) c e c') : c.ReadsFrom level e c' := by
  induction levels generalizing level c c' e with
  | zero => cases h.1
  | succ levels ih => exact readsFrom_of_clean_binary (expressionAt levels) ih h

end Reading

end ExprScript
