import ExprScript.Proofs.Reading.Sound

/-!
# Reading is complete

An expression that is written out and grouped as the binding powers dictate is read again, up to
columns, if the levels suffice for it. If they do not, reading it is broken off, and no other error
has been found until then.

* `Cursor.Holds`: the tokens of a spelling stand between two cursors, at any columns;
* `Cursor.HoldsTree`, `Cursor.HoldsFrom`: an expression does, and what comes next does not belong
  to it;
* `Reading.Completes`, `Reading.Rereads`: what becomes of a part that is written out correctly;
* **`rereads_of_holdsFrom`**: the reader of expressions is complete, with an exact bound on the
  levels.
-/

namespace ExprScript

/-! ## Tokens behind an expression -/

/-- Whether a token makes more than a variable of the name before it. -/
def Token.extendsName : Token → Bool
  | .symbol .leftParen => true
  | .symbol .leftBracket => true
  | .method _ => true
  | _ => false

/-- Whether a token is no part of the expression before it, whatever that is. -/
def Token.closes (t : Token) : Bool := t.binary?.isNone && !t.extendsName

/-- Whether an expression can start with a token. -/
def Token.startsExpression : Token → Bool
  | .method _ => false
  | .keyword .inK => false
  | .keyword .elifK => false
  | .keyword .elseK => false
  | .keyword .functionK => false
  | .symbol .plus => true
  | .symbol .minus => true
  | .symbol .bang => true
  | .symbol .leftParen => true
  | .symbol .leftBracket => true
  | .symbol _ => false
  | _ => true

theorem UnaryOp.startsExpression_token (op : UnaryOp) : op.token.startsExpression = true := by
  cases op <;> rfl

/-- An expression without missing parts starts with a token. -/
theorem Expr.exists_marks_eq_cons : (e : Expr) → e.complete →
    ∃ m ms, e.marks = m :: ms ∧ m.token.startsExpression = true
  | .binary column left op right, h => by
    simp only [complete, everywhere, Bool.and_eq_true] at h
    obtain ⟨m, ms, hm, hs⟩ := exists_marks_eq_cons left h.2.1
    exact ⟨m, _, by rw [marks, hm, List.cons_append], hs⟩
  | .unary column op operand, _ => ⟨_, _, by rw [marks], op.startsExpression_token⟩
  | .error _, h => by cases h
  | .number .., _ | .string .., _ | .bool .., _ | .constant .., _ | .variable .., _ | .paren .., _
  | .print .., _ | .math .., _ | .log .., _ | .rand .., _ | .ifThen .., _ | .letIn .., _
  | .call .., _ | .forRange .., _ | .forEach .., _ | .while .., _ | .vector .., _ | .range .., _
  | .index .., _ | .method .., _ => ⟨_, _, by rw [marks], rfl⟩

theorem BinaryOp.extendsName_token (op : BinaryOp) : op.token.extendsName = false := by
  rcases op with op | op | op | op | _ <;> first | rfl | (cases op <;> rfl)

namespace Mark

@[simp] theorem token_placed (column : Nat) (t : Token) : (placed column t).token = t := rfl

@[simp] theorem token_bare (t : Token) : (bare t).token = t := rfl

@[simp] theorem token_symbol (s : Symbol) : (symbol s).token = .symbol s := rfl

@[simp] theorem token_keyword (k : Keyword) : (keyword k).token = .keyword k := rfl

end Mark

namespace Cursor

/-- Whether the tokens of a spelling stand between two cursors. -/
def Holds : Cursor → List Mark → Cursor → Prop
  | c, [], c' => c' = c
  | c, m :: ms, c' => c.token? = some m.token ∧ c.next.Holds ms c'

variable {c c' : Cursor} {e : Expr}

@[simp] theorem holds_nil : c.Holds [] c' ↔ c' = c := Iff.rfl

@[simp] theorem holds_cons {m : Mark} {ms : List Mark} :
    c.Holds (m :: ms) c' ↔ c.token? = some m.token ∧ c.next.Holds ms c' := Iff.rfl

@[simp] theorem holds_append {ms ns : List Mark} :
    c.Holds (ms ++ ns) c' ↔ ∃ c₁, c.Holds ms c₁ ∧ c₁.Holds ns c' := by
  induction ms generalizing c with
  | nil => simp
  | cons m ms ih => simp [ih, and_assoc]

@[simp] theorem holds_parens {ms : List Mark} :
    c.Holds (parens ms) c' ↔ c.token? = some (.symbol .leftParen) ∧
      ∃ c₁, c.next.Holds ms c₁ ∧ c₁.token? = some (.symbol .rightParen) ∧ c' = c₁.next := by
  simp [parens]

theorem Holds.length {ms : List Mark} (h : c.Holds ms c') :
    c.rest.length = ms.length + c'.rest.length := by
  induction ms generalizing c with
  | nil => simp [holds_nil.mp h]
  | cons m ms ih =>
    have hl := ih h.2
    have hn := length_next_lt h.1
    rw [next, List.length_tail] at hl hn
    rw [List.length_cons]
    omega

/-- The tokens of a spelling stand where lexemes with these tokens do. -/
theorem holds_of_map_token {ms : List Mark} {taken rest : List Lexeme} {ending : Ending}
    {errors : List SyntaxError} (h : taken.map Lexeme.token = ms.map Mark.token) :
    Holds ⟨taken ++ rest, ending, errors⟩ ms ⟨rest, ending, errors⟩ := by
  induction ms generalizing taken with
  | nil => simp_all
  | cons m ms ih =>
    cases taken with
    | nil => cases h
    | cons l taken =>
      rw [List.map_cons, List.map_cons, List.cons.injEq] at h
      exact ⟨by simp [token?, h.1], ih h.2⟩

/-- What comes next is no part of the expression before it, whatever that is. -/
structure Closed (c : Cursor) : Prop where
  operator?_eq_none : c.operator? = none
  apart : ∀ t, c.token? = some t → t.extendsName = false

theorem closed_of_token? {t : Token} (h : c.token? = some t) (ht : t.closes = true) : c.Closed := by
  rw [Token.closes, Bool.and_eq_true, Option.isNone_iff_eq_none, Bool.not_eq_true'] at ht
  refine ⟨by rw [operator?, h]; exact ht.1, fun t' h' => ?_⟩
  obtain rfl := Option.some.inj (h.symm.trans h')
  exact ht.2

/-- An expression stands between two cursors, whole and grouped as the binding powers dictate, and
what comes next does not go into it. -/
structure HoldsTree (c : Cursor) (e : Expr) (c' : Cursor) : Prop where
  marks : c.Holds e.marks c'
  complete : e.complete
  grouped : e.grouped
  settled : ∀ op, c'.operator? = some op → e.absorbs op.precedence = false
  apart : ∀ t, c'.token? = some t → t.extendsName = false

/-- An expression stands between two cursors that may stand bare where operators must bind at least
as tightly as `level`, and no such operator comes next. -/
structure HoldsFrom (level : Nat) (c : Cursor) (e : Expr) (c' : Cursor) : Prop
    extends c.HoldsTree e c' where
  bindsFrom : e.bindsFrom level
  loose : ∀ op, c'.operator? = some op → op.precedence < level

/-- Where what comes next belongs to no expression, nothing has to be said about it. -/
theorem holdsFrom_of_closed (hm : c.Holds e.marks c') (hw : e.complete) (hg : e.grouped)
    (hc : c'.Closed) : c.HoldsFrom 1 e c' where
  marks := hm
  complete := hw
  grouped := hg
  settled op hop := by simp [hc.operator?_eq_none] at hop
  apart := hc.apart
  bindsFrom := by
    cases e with
    | binary column left op right => exact decide_eq_true op.precedence_pos
    | _ => rfl
  loose op hop := by simp [hc.operator?_eq_none] at hop

/-- What comes behind an expression that takes every operator belongs to no expression. -/
theorem HoldsTree.closed (h : c.HoldsTree e c') (ho : ∀ p, 1 ≤ p → e.absorbs p = true) :
    c'.Closed := by
  refine ⟨?_, h.apart⟩
  cases hop : c'.operator? with
  | none => rfl
  | some op =>
    have := ho op.precedence op.precedence_pos
    rw [h.settled op hop] at this
    cases this

theorem closed_of_branches {b : Branches} (h : c.Holds b.marks c') : c.Closed := by
  cases b <;> exact closed_of_token? h.1 rfl

end Cursor

namespace Reading

/-! ## What becomes of a part that is written out correctly -/

/-- A part that is written out correctly is read without a new error if it fits the levels, and
reading it is broken off without one if it does not. -/
structure Completes {α : Type} (p : Reading α) (c c' : Cursor) (fits : Prop) (P : α → Prop) :
    Prop where
  reads : fits → ∃ a, Clean p c a c' ∧ P a
  fails : ¬ fits → ∃ e c'', p c = .error e c'' ∧ c''.errors = c.errors

/-- An expression is read again, up to columns, if it fits the levels. -/
abbrev Rereads (levels : Nat) (p : Reading Expr) (c : Cursor) (e : Expr) (c' : Cursor) : Prop :=
  Completes p c c' (e.need ≤ levels) fun a => a.plain = e.plain

section Completes

variable {α β : Type} {c c₁ c' : Cursor} {A B : Prop} {P : α → Prop} {Q : β → Prop}

theorem Completes.congr {p : Reading α} (h : Completes p c c' A P) (hA : A ↔ B) :
    Completes p c c' B P :=
  ⟨fun hB => h.reads (hA.mpr hB), fun hB => h.fails fun hA' => hB (hA.mp hA')⟩

/-- A part that always fits. -/
theorem Completes.fitting {p : Reading α} (h : Completes p c c' True P) (hA : A) :
    Completes p c c' A P :=
  h.congr (iff_of_true trivial hA)

/-- A step whose outcome is known comes first. -/
theorem Completes.step {p : Reading α} {f : α → Reading β} {a : α} (h : Clean p c a c₁)
    (hf : Completes (f a) c₁ c' A Q) : Completes (p >>= f) c c' A Q := by
  have hb : (p >>= f) c = f a c₁ := by rw [bind_apply, h.1]
  constructor
  · intro hA
    obtain ⟨b, hb', hQ⟩ := hf.reads hA
    exact ⟨b, ⟨hb.trans hb'.1, hb'.2.trans h.2⟩, hQ⟩
  · intro hA
    obtain ⟨e, c'', he, hc⟩ := hf.fails hA
    exact ⟨e, c'', hb.trans he, hc.trans h.2⟩

/-- One part comes behind another. -/
theorem Completes.bind {p : Reading α} {f : α → Reading β} (h : Completes p c c₁ A P)
    (hf : ∀ a, P a → Completes (f a) c₁ c' B Q) : Completes (p >>= f) c c' (A ∧ B) Q := by
  constructor
  · rintro ⟨hA, hB⟩
    obtain ⟨a, ha, hP⟩ := h.reads hA
    exact (Completes.step ha (hf a hP)).reads hB
  · intro hAB
    by_cases hA : A
    · obtain ⟨a, ha, hP⟩ := h.reads hA
      exact (Completes.step ha (hf a hP)).fails fun hB => hAB ⟨hA, hB⟩
    · obtain ⟨e, c'', he, hc⟩ := h.fails hA
      exact ⟨e, c'', by rw [bind_apply, he], hc⟩

/-- What comes behind a part cannot be broken off. -/
theorem Completes.andThen {p : Reading α} {f : α → Reading β} (h : Completes p c c₁ A P)
    (hf : ∀ a, P a → Completes (f a) c₁ c' True Q) : Completes (p >>= f) c c' A Q :=
  (h.bind hf).congr (and_iff_left trivial)

theorem completes_pure {a : α} (h : P a) : Completes (pure a) c c True P :=
  ⟨fun _ => ⟨a, clean_pure.mpr ⟨rfl, rfl⟩, h⟩, fun h => absurd trivial h⟩

theorem completes_look_bind {f : Option Token → Reading α} :
    Completes (look? >>= f) c c' A P ↔ Completes (f c.token?) c c' A P :=
  ⟨fun h => ⟨h.reads, h.fails⟩, fun h => ⟨h.reads, h.fails⟩⟩

theorem completes_column_bind {f : Nat → Reading α} :
    Completes (column >>= f) c c' A P ↔ Completes (f c.column) c c' A P :=
  ⟨fun h => ⟨h.reads, h.fails⟩, fun h => ⟨h.reads, h.fails⟩⟩

theorem completes_operator_bind {level : Nat} {f : Option BinaryOp → Reading α} :
    Completes (operator? level >>= f) c c' A P ↔
      Completes (f (c.operator?.filter (level ≤ ·.precedence))) c c' A P :=
  ⟨fun h => ⟨h.reads, h.fails⟩, fun h => ⟨h.reads, h.fails⟩⟩

theorem completes_left_bind {f : Nat → Reading α} :
    Completes (left >>= f) c c' A P ↔ Completes (f c.rest.length) c c' A P :=
  ⟨fun h => ⟨h.reads, h.fails⟩, fun h => ⟨h.reads, h.fails⟩⟩

theorem completes_skip_bind {f : Unit → Reading α} :
    Completes (skip >>= f) c c' A P ↔ Completes (f ()) c.next c' A P :=
  ⟨fun h => ⟨h.reads, h.fails⟩, fun h => ⟨h.reads, h.fails⟩⟩

theorem Completes.symbol {s : Symbol} {f : Unit → Reading α}
    (ht : c.token? = some (.symbol s)) (hf : Completes (f ()) c.next c' A P) :
    Completes (symbol s >>= f) c c' A P :=
  .step (clean_symbol.mpr ⟨ht, rfl⟩) hf

theorem Completes.keyword {k : Keyword} {f : Unit → Reading α}
    (ht : c.token? = some (.keyword k)) (hf : Completes (f ()) c.next c' A P) :
    Completes (keyword k >>= f) c c' A P :=
  .step (clean_keyword.mpr ⟨ht, rfl⟩) hf

theorem Completes.eaten {t : Token} {f : Bool → Reading α} (ht : c.token? = some t)
    (hf : Completes (f true) c.next c' A P) : Completes (eat t >>= f) c c' A P :=
  .step (clean_eat.mpr (.inl ⟨rfl, ht, rfl⟩)) hf

theorem Completes.uneaten {t : Token} {f : Bool → Reading α} (ht : c.token? ≠ some t)
    (hf : Completes (f false) c c' A P) : Completes (eat t >>= f) c c' A P :=
  .step (clean_eat.mpr (.inr ⟨rfl, ht, rfl⟩)) hf

end Completes

/-! ## Readers -/

section Readers

variable (deeper : Nat → Reading Expr) {levels : Nat} {c c' : Cursor}

/-- What starts with a token that is no operator is read as a primary, by what is read behind a look
at the token. -/
theorem completes_unary_iff {t : Token} (ht : c.token? = some t) (hu : t.unary? = none)
    {rest : Nat → Option Token → Reading Expr}
    (hr : primary deeper = do rest (← column) (← look?)) {A : Prop} {P : Expr → Prop} :
    Completes (unary deeper) c c' A P ↔ Completes (rest c.column (some t)) c c' A P := by
  rw [unary, completes_look_bind, ht, Option.bind_some, hu]
  dsimp only
  rw [hr, completes_column_bind, completes_look_bind, ht]

/-- An expression of one word fits every number of levels. -/
theorem rereads_word {word e : Expr} (hp : word.plain = e.plain) (hn : e.need = 1) :
    Rereads (levels + 1) (do skip; return word) c e c.next :=
  Completes.fitting (completes_skip_bind.mpr (completes_pure hp)) (by omega)

/-- Where no operator comes next that binds tightly enough, the operand in hand is all. -/
theorem completes_chain_of_loose {level rounds : Nat} {operand : Expr}
    (hl : ∀ op, c.operator? = some op → op.precedence < level) {P : Expr → Prop} (hP : P operand) :
    Completes (chain deeper level rounds operand) c c True P := by
  cases rounds with
  | zero => exact completes_pure hP
  | succ rounds =>
    have hn : c.operator?.filter (level ≤ ·.precedence) = none := by
      rw [Option.filter_eq_none_iff]
      intro op hop
      have := hl op hop
      simpa using this
    rw [chain, completes_operator_bind, hn]
    exact completes_pure hP

variable (reads : ∀ {level e c c'}, Cursor.HoldsFrom level c e c' →
  Rereads levels (deeper level) c e c')

include reads

theorem rereads_argument {e : Expr} (hm : c.Holds (parens e.marks) c') (hw : e.complete)
    (hg : e.grouped) :
    Rereads levels (argument deeper) c e c' := by
  obtain ⟨ht, c₁, he, ht', rfl⟩ := Cursor.holds_parens.mp hm
  have he := reads (Cursor.holdsFrom_of_closed he hw hg (Cursor.closed_of_token? ht' rfl))
  exact .symbol ht (he.andThen fun a ha => .symbol ht' (completes_pure ha))

theorem completes_argumentPair {e₁ e₂ : Expr} (hm : c.Holds (pairParens e₁.marks e₂.marks) c')
    (hw : e₁.complete ∧ e₂.complete) (hg : e₁.grouped ∧ e₂.grouped) :
    Completes (argumentPair deeper) c c' (e₁.need ≤ levels ∧ e₂.need ≤ levels) fun p =>
      p.1.plain = e₁.plain ∧ p.2.plain = e₂.plain := by
  simp only [pairParens, Cursor.holds_parens, Cursor.holds_append, Cursor.holds_cons,
    Mark.token_symbol] at hm
  obtain ⟨ht, c₂, ⟨c₁, hm₁, ht', hm₂⟩, ht'', rfl⟩ := hm
  have h₁ := reads (Cursor.holdsFrom_of_closed hm₁ hw.1 hg.1 (Cursor.closed_of_token? ht' rfl))
  have h₂ := reads (Cursor.holdsFrom_of_closed hm₂ hw.2 hg.2 (Cursor.closed_of_token? ht'' rfl))
  refine .symbol ht (h₁.bind fun a₁ ha₁ => .symbol ht' (h₂.andThen fun a₂ ha₂ => ?_))
  exact .symbol ht'' (completes_pure ⟨ha₁, ha₂⟩)

/-- Each expression but the first takes a token before it, so the rounds do not run out before the
expressions do. -/
theorem completes_expressions {rounds : Nat} {e : Expr} {rest : List Expr}
    (hr : c.rest.length ≤ rounds) (hm : c.Holds (marksAll (e :: rest)) c')
    (hw : everywhereAll Expr.completeHere (e :: rest))
    (hg : everywhereAll Expr.groupedHere (e :: rest)) (hc : c'.Closed)
    (hn : c'.token? ≠ some (.symbol .comma)) :
    Completes (expressions deeper rounds) c c' (needAll (e :: rest) ≤ levels + 1) fun es =>
      plainAll es = plainAll (e :: rest) := by
  induction rest generalizing rounds c e with
  | nil =>
    simp only [marksAll, separator, List.append_nil, everywhereAll, Bool.and_true] at hm hw hg
    have he := reads (Cursor.holdsFrom_of_closed hm hw hg hc)
    have hneed : e.need ≤ levels ↔ needAll [e] ≤ levels + 1 := by
      simp only [needAll]
      omega
    have hlast (a : Expr) (ha : a.plain = e.plain) :
        Completes (pure [a]) c' c' True fun es => plainAll es = plainAll [e] :=
      completes_pure (by simp only [plainAll, ha])
    cases rounds with
    | zero => exact (he.andThen hlast).congr hneed
    | succ rounds => exact (he.andThen fun a ha => .uneaten hn (hlast a ha)).congr hneed
  | cons e' rest ih =>
    rw [marksAll, separator] at hm
    simp only [Cursor.holds_append, Cursor.holds_cons, Cursor.holds_nil] at hm
    obtain ⟨_, ⟨c₁, hm, ht, rfl⟩, hm'⟩ := hm
    rw [Mark.token_symbol] at ht
    rw [everywhereAll, Bool.and_eq_true] at hw hg
    have he := reads (Cursor.holdsFrom_of_closed hm hw.1 hg.1 (Cursor.closed_of_token? ht rfl))
    have hl := hm.length
    have hl' := Cursor.length_next_lt ht
    cases rounds with
    | zero => omega
    | succ rounds =>
      have hrest := ih (show _ ≤ rounds by omega) hm' hw.2 hg.2
      refine (he.bind fun a ha => .eaten ht (hrest.andThen fun es hes => ?_)).congr ?_
      · exact completes_pure (by rw [plainAll, ha, hes, plainAll.eq_2 e])
      · simp only [needAll]
        omega

theorem completes_expressionsUpTo {close : Symbol} {es : List Expr}
    (hc : (Token.symbol close).closes = true) (hn : close ≠ .comma)
    (hs : (Token.symbol close).startsExpression = false)
    (hm : c.Holds (marksAll es ++ [.symbol close]) c') (hw : everywhereAll Expr.completeHere es)
    (hg : everywhereAll Expr.groupedHere es) :
    Completes (expressionsUpTo deeper close) c c' (needAll es ≤ levels + 1) fun es' =>
      plainAll es' = plainAll es := by
  simp only [Cursor.holds_append, Cursor.holds_cons, Cursor.holds_nil, Mark.token_symbol] at hm
  obtain ⟨c₁, hm, ht, rfl⟩ := hm
  cases es with
  | nil =>
    obtain rfl := hm
    have h : Completes (expressionsUpTo deeper close) c₁ c₁.next True fun es' =>
        plainAll es' = [] :=
      .eaten ht (completes_pure rfl)
    exact h.congr (by simp [needAll])
  | cons e rest =>
    have hne : c.token? ≠ some (.symbol close) := by
      rw [everywhereAll, Bool.and_eq_true] at hw
      obtain ⟨m, ms, hms, hstart⟩ := e.exists_marks_eq_cons hw.1
      rw [marksAll, hms] at hm
      rw [hm.1]
      rintro hmc
      rw [Option.some.inj hmc, hs] at hstart
      cases hstart
    have he := completes_expressions deeper reads (Nat.le_refl _) hm hw hg
      (Cursor.closed_of_token? ht hc) (by simpa [ht] using hn)
    refine .uneaten hne (completes_left_bind.mpr (he.andThen fun es hes => ?_))
    exact .symbol ht (completes_pure hes)

theorem completes_letBody {body : Expr} (hm : c.Holds (Bindings.body body).marks c')
    (hw : body.complete) (hg : body.grouped) (hc : c'.Closed) :
    Completes (letBody deeper) c c' (body.need ≤ levels) fun b =>
      b.plain = .body body.plain := by
  rw [Bindings.marks, Cursor.holds_cons, Mark.token_keyword] at hm
  have he := reads (Cursor.holdsFrom_of_closed hm.2 hw hg hc)
  refine .keyword hm.1 (he.andThen fun a ha => completes_pure ?_)
  rw [Bindings.plain, ha]

theorem completes_binding {name : String} {value : Expr} (hn : c.token? = some (.identifier name))
    (ht : c.next.token? = some (.symbol .equals)) (hm : c.next.next.Holds value.marks c')
    (hw : value.complete) (hg : value.grouped) (hc : c'.Closed) :
    Completes (binding deeper) c c' (value.need ≤ levels) fun bind =>
      ∀ rest, (bind rest).plain = .bind 0 name value.plain rest.plain := by
  have hname : Clean bindingName c (name, c.column) c.next := clean_bindingName.mpr ⟨hn, rfl, rfl⟩
  have he := reads (Cursor.holdsFrom_of_closed hm hw hg hc)
  refine .step hname (.symbol ht (he.andThen fun a ha => completes_pure fun rest => ?_))
  rw [Bindings.plain, ha]

/-- Each binding takes a token, so the rounds do not run out before the bindings do. -/
theorem completes_bindings {rounds column : Nat} {name : String} {value : Expr} {rest : Bindings}
    (hr : c.rest.length ≤ rounds) (hm : c.Holds (Bindings.bind column name value rest).marks c')
    (hw : (Bindings.bind column name value rest).everywhere Expr.completeHere)
    (hg : (Bindings.bind column name value rest).everywhere Expr.groupedHere) (hc : c'.Closed) :
    Completes (bindings deeper rounds) c c'
      ((Bindings.bind column name value rest).need ≤ levels + 1) fun b =>
        b.plain = (Bindings.bind column name value rest).plain := by
  induction rounds generalizing c column name value rest with
  | zero =>
    have := Cursor.length_next_lt hm.1
    omega
  | succ rounds ih =>
    rw [Bindings.marks] at hm
    simp only [Cursor.holds_cons, Cursor.holds_append, Mark.token_placed, Mark.token_symbol] at hm
    obtain ⟨hn, ht, c₂, ⟨c₁, hv, hs⟩, hm⟩ := hm
    rw [Bindings.everywhere, Bool.and_eq_true] at hw hg
    cases rest with
    | body body =>
      obtain rfl : c₂ = c₁ := hs
      have ht' : c₂.token? = some (.keyword .inK) := hm.1
      have hbind :=
        completes_binding deeper reads hn ht hv hw.1 hg.1 (Cursor.closed_of_token? ht' rfl)
      have hbody := completes_letBody deeper reads hm hw.2 hg.2 hc
      refine (hbind.bind fun bind hb => .uneaten (by simp [ht']) (hbody.andThen fun b hb' =>
        completes_pure ?_)).congr ?_
      · rw [hb, hb', Bindings.plain, Bindings.plain]
      · simp only [Bindings.need]
        omega
    | bind column' name' value' rest =>
      obtain ⟨ht', rfl⟩ : c₁.token? = some (.symbol .comma) ∧ c₂ = c₁.next := hs
      have h₁ := Cursor.length_next_lt hn
      have h₂ := Cursor.length_next_lt ht
      have h₃ := hv.length
      have h₄ := Cursor.length_next_lt ht'
      have hbind :=
        completes_binding deeper reads hn ht hv hw.1 hg.1 (Cursor.closed_of_token? ht' rfl)
      have hrest := ih (by omega) hm hw.2 hg.2
      refine (hbind.bind fun bind hb => .eaten ht' (hrest.andThen fun b hb' =>
        completes_pure ?_)).congr ?_
      · rw [hb, hb', ← Bindings.plain]
      · simp only [Bindings.need]
        omega

theorem completes_lastBranch {body : Expr} (hm : c.Holds (Branches.otherwise body).marks c')
    (hw : body.complete) (hg : body.grouped) (hc : c'.Closed) :
    Completes (lastBranch deeper) c c' ((Branches.otherwise body).need ≤ levels + 1) fun b =>
      b.plain = (Branches.otherwise body).plain := by
  rw [Branches.marks, Cursor.holds_cons, Mark.token_keyword] at hm
  rw [Branches.need, Nat.add_le_add_iff_right, Branches.plain]
  have he := reads (Cursor.holdsFrom_of_closed hm.2 hw hg hc)
  refine completes_column_bind.mpr (.step (clean_expect.mpr ⟨rfl, hm.1, rfl⟩)
    (he.andThen fun a ha => completes_pure ?_))
  rw [Branches.plain, ha]

/-- Each branch takes a token, so the rounds do not run out before the branches do. -/
theorem completes_branches {rounds : Nat} {b : Branches} (hr : c.rest.length ≤ rounds)
    (hm : c.Holds b.marks c') (hw : b.everywhere Expr.completeHere)
    (hg : b.everywhere Expr.groupedHere) (hc : c'.Closed) :
    Completes (branches deeper rounds) c c' (b.need ≤ levels + 1) fun b' => b'.plain = b.plain := by
  induction rounds generalizing c b with
  | zero =>
    cases b with
    | elif condition body rest =>
      have := Cursor.length_next_lt hm.1
      omega
    | otherwise body => exact completes_lastBranch deeper reads hm hw hg hc
  | succ rounds ih =>
    cases b with
    | elif condition body rest =>
      rw [Branches.marks] at hm
      simp only [Cursor.holds_cons, Cursor.holds_append, Mark.token_keyword] at hm
      obtain ⟨ht, c₂, ⟨c₁, hm₁, hm₂⟩, hm₃⟩ := hm
      simp only [Branches.everywhere, Bool.and_eq_true] at hw hg
      have h₁ := Cursor.length_next_lt ht
      have h₂ := hm₁.length
      have h₃ := hm₂.length
      have hcondition := rereads_argument deeper reads hm₁ hw.1 hg.1
      have hbody :=
        reads (Cursor.holdsFrom_of_closed hm₂ hw.2.1 hg.2.1 (Cursor.closed_of_branches hm₃))
      have hrest := ih (by omega) hm₃ hw.2.2 hg.2.2
      refine (Completes.eaten ht (hcondition.bind fun a ha => hbody.bind fun a' ha' =>
        hrest.andThen fun b hb => completes_pure ?_)).congr ?_
      · rw [Branches.plain, ha, ha', hb, Branches.plain]
      · simp only [Branches.need]
        omega
    | otherwise body =>
      refine .uneaten ?_ (completes_lastBranch deeper reads hm hw hg hc)
      rw [hm.1]
      decide

theorem completes_loopSource_range (column : Nat) {var : String} {lower upper : Expr}
    (hm : c.Holds (.keyword .rangeK :: pairParens lower.marks upper.marks) c')
    (hw : lower.complete ∧ upper.complete) (hg : lower.grouped ∧ upper.grouped) :
    Completes (loopSource deeper column var) c c' (lower.need ≤ levels ∧ upper.need ≤ levels)
      fun loop => ∀ body, (loop body).plain = .forRange 0 var lower.plain upper.plain body.plain := by
  obtain ⟨ht, hm⟩ := Cursor.holds_cons.mp hm
  rw [Mark.token_keyword] at ht
  have hbounds := completes_argumentPair deeper reads hm hw hg
  rw [loopSource, completes_column_bind, completes_look_bind, ht]
  refine completes_skip_bind.mpr (hbounds.andThen fun p hp => completes_pure fun body => ?_)
  rw [Expr.plain, hp.1, hp.2]

omit reads in
theorem completes_loopSource_each (column : Nat) {vectorColumn : Nat} {var vector : String}
    (hm : c.Holds [.placed vectorColumn (.identifier vector)] c') :
    Completes (loopSource deeper column var) c c' True fun loop => ∀ body,
      (loop body).plain = .forEach 0 var vector 0 body.plain := by
  obtain ⟨ht, rfl⟩ := hm
  rw [Mark.token_placed] at ht
  rw [loopSource, completes_column_bind, completes_look_bind, ht]
  exact completes_skip_bind.mpr (completes_pure fun body => by rw [Expr.plain])

/-- The form of a loop depends on its source alone. -/
theorem completes_forLoop (column : Nat) {var : String} {source : List Mark} {body : Expr}
    {A : Prop} {loopPlain : Expr → Expr}
    (hs : ∀ {c c'}, c.Holds source c' → Completes (loopSource deeper column var) c c' A
      fun loop => ∀ body, (loop body).plain = loopPlain body.plain)
    (hm : c.Holds (parens (.bare (.identifier var) :: .keyword .inK :: source) ++ body.marks) c')
    (hw : body.complete) (hg : body.grouped) (hc : c'.Closed) :
    Completes (forLoop deeper column) c c' (A ∧ body.need ≤ levels) fun a =>
      a.plain = loopPlain body.plain := by
  simp only [Cursor.holds_append, Cursor.holds_cons, Cursor.holds_parens, Mark.token_bare,
    Mark.token_keyword] at hm
  obtain ⟨_, ⟨ht₁, c₁, ⟨ht₂, ht₃, hsource⟩, ht₄, rfl⟩, hm⟩ := hm
  have hbody := reads (Cursor.holdsFrom_of_closed hm hw hg hc)
  refine .symbol ht₁ (.step (clean_nameOrEmpty.mpr ⟨ht₂, rfl⟩) (.keyword ht₃ ((hs hsource).bind
    fun loop hl => .symbol ht₄ (hbody.andThen fun a ha => completes_pure ?_))))
  rw [hl, ha]

/-- The operand of a unary operator takes the operators that bind tighter, and no other comes next. -/
theorem rereads_operation {column : Nat} {op : UnaryOp} {operand : Expr}
    (h : c.HoldsTree (.unary column op operand) c') :
    Rereads (levels + 1) (unary deeper) c (.unary column op operand) c' := by
  obtain ⟨ht, hm⟩ := h.marks
  rw [Mark.token_placed] at ht
  have hw := h.complete
  have hg := h.grouped
  simp only [Expr.complete, Expr.grouped, Expr.everywhere, Expr.groupedHere,
    Bool.and_eq_true] at hw hg
  have he : Cursor.HoldsFrom (op.precedence + 1) c.next operand c' := by
    refine ⟨⟨hm, hw.2, hg.2, fun op' hop => ?_, h.apart⟩, hg.1, fun op' hop => ?_⟩
    all_goals
      have hs := h.settled op' hop
      rw [Expr.absorbs, Bool.or_eq_false_iff, decide_eq_false_iff_not] at hs
    · exact hs.2
    · omega
  rw [Rereads, unary, completes_look_bind, ht, Option.bind_some, op.unary?_token, Expr.need,
    Nat.add_le_add_iff_right]
  refine completes_column_bind.mpr (completes_skip_bind.mpr ((reads he).andThen fun a ha =>
    completes_pure ?_))
  rw [Expr.plain, ha, Expr.plain]

theorem rereads_ifThen {column : Nat} {condition body : Expr} {rest : Branches}
    (h : c.HoldsTree (.ifThen column condition body rest) c') :
    Rereads (levels + 1) (unary deeper) c (.ifThen column condition body rest) c' := by
  obtain ⟨ht, hm⟩ := h.marks
  rw [Mark.token_placed] at ht
  simp only [Cursor.holds_append] at hm
  obtain ⟨c₂, ⟨c₁, hm₁, hm₂⟩, hm₃⟩ := hm
  have hw := h.complete
  have hg := h.grouped
  simp only [Expr.complete, Expr.grouped, Expr.everywhere, Bool.and_eq_true] at hw hg
  have hc := h.closed fun p hp => decide_eq_true hp
  have hcondition := rereads_argument deeper reads hm₁ hw.2.1 hg.2.1
  have hbody := reads (Cursor.holdsFrom_of_closed hm₂ hw.2.2.1 hg.2.2.1
    (Cursor.closed_of_branches hm₃))
  have hrest := completes_branches deeper reads (Nat.le_refl _) hm₃ hw.2.2.2 hg.2.2.2 hc
  rw [Rereads, completes_unary_iff deeper ht rfl rfl, Expr.need, Nat.max_le, Nat.max_le,
    Nat.add_le_add_iff_right, Nat.add_le_add_iff_right, and_assoc]
  refine completes_skip_bind.mpr (hcondition.bind fun a ha => hbody.bind fun a' ha' =>
    completes_left_bind.mpr (hrest.andThen fun b hb => completes_pure ?_))
  rw [Expr.plain, ha, ha', hb, Expr.plain]

theorem rereads_letIn {column : Nat} {bindings : Bindings}
    (h : c.HoldsTree (.letIn column bindings) c') :
    Rereads (levels + 1) (unary deeper) c (.letIn column bindings) c' := by
  obtain ⟨ht, hm⟩ := h.marks
  rw [Mark.token_placed] at ht
  have hw := h.complete
  have hg := h.grouped
  simp only [Expr.complete, Expr.grouped, Expr.everywhere, Bool.and_eq_true] at hw hg
  have hc := h.closed fun p hp => decide_eq_true hp
  cases bindings with
  | body body => cases hw.1
  | bind column' name value rest =>
    have hb := completes_bindings deeper reads (Nat.le_succ _) hm hw.2 hg.2 hc
    rw [Rereads, completes_unary_iff deeper ht rfl rfl, Expr.need]
    refine completes_skip_bind.mpr (completes_left_bind.mpr (hb.andThen fun b hb =>
      completes_pure ?_))
    rw [Expr.plain, hb, Expr.plain]

theorem rereads_forRange {column : Nat} {var : String} {lower upper body : Expr}
    (h : c.HoldsTree (.forRange column var lower upper body) c') :
    Rereads (levels + 1) (unary deeper) c (.forRange column var lower upper body) c' := by
  obtain ⟨ht, hm⟩ := h.marks
  rw [Mark.token_placed] at ht
  have hw := h.complete
  have hg := h.grouped
  simp only [Expr.complete, Expr.grouped, Expr.everywhere, Bool.and_eq_true] at hw hg
  have hc := h.closed fun p hp => decide_eq_true hp
  have hl := completes_forLoop deeper reads c.column
    (fun hs => completes_loopSource_range deeper reads _ hs ⟨hw.2.1, hw.2.2.1⟩ ⟨hg.2.1, hg.2.2.1⟩)
    hm hw.2.2.2 hg.2.2.2 hc
  rw [Rereads, completes_unary_iff deeper ht rfl rfl, Expr.need, Nat.max_le, Nat.max_le,
    Nat.add_le_add_iff_right, Nat.add_le_add_iff_right, Nat.add_le_add_iff_right, Expr.plain]
  exact completes_skip_bind.mpr hl

theorem rereads_forEach {column vectorColumn : Nat} {var vector : String} {body : Expr}
    (h : c.HoldsTree (.forEach column var vector vectorColumn body) c') :
    Rereads (levels + 1) (unary deeper) c (.forEach column var vector vectorColumn body) c' := by
  obtain ⟨ht, hm⟩ := h.marks
  rw [Mark.token_placed] at ht
  have hw := h.complete
  have hg := h.grouped
  simp only [Expr.complete, Expr.grouped, Expr.everywhere, Bool.and_eq_true] at hw hg
  have hc := h.closed fun p hp => decide_eq_true hp
  have hl :=
    completes_forLoop deeper reads c.column (completes_loopSource_each deeper _) hm hw.2 hg.2 hc
  rw [Rereads, completes_unary_iff deeper ht rfl rfl, Expr.need, Nat.add_le_add_iff_right,
    ← true_and (body.need ≤ levels), Expr.plain]
  exact completes_skip_bind.mpr hl

theorem rereads_while {column : Nat} {condition body : Expr}
    (h : c.HoldsTree (.while column condition body) c') :
    Rereads (levels + 1) (unary deeper) c (.while column condition body) c' := by
  obtain ⟨ht, hm⟩ := h.marks
  rw [Mark.token_placed] at ht
  obtain ⟨c₁, hm₁, hm₂⟩ := Cursor.holds_append.mp hm
  have hw := h.complete
  have hg := h.grouped
  simp only [Expr.complete, Expr.grouped, Expr.everywhere, Bool.and_eq_true] at hw hg
  have hc := h.closed fun p hp => decide_eq_true hp
  have hcondition := rereads_argument deeper reads hm₁ hw.2.1 hg.2.1
  have hbody := reads (Cursor.holdsFrom_of_closed hm₂ hw.2.2 hg.2.2 hc)
  rw [Rereads, completes_unary_iff deeper ht rfl rfl, Expr.need, Nat.max_le,
    Nat.add_le_add_iff_right, Nat.add_le_add_iff_right]
  refine completes_skip_bind.mpr (hcondition.bind fun a ha => hbody.andThen fun a' ha' =>
    completes_pure ?_)
  rw [Expr.plain, ha, ha', Expr.plain]

theorem rereads_unary {e : Expr} (h : c.HoldsTree e c') (hb : e.isBinary = false) :
    Rereads (levels + 1) (unary deeper) c e c' := by
  have hm := h.marks
  have hw := h.complete
  have hg := h.grouped
  cases e with
  | number column x =>
    obtain ⟨ht, rfl⟩ : c.token? = some (.number x) ∧ c' = c.next := hm
    rw [Rereads, completes_unary_iff deeper ht rfl rfl]
    exact rereads_word rfl rfl
  | string column s =>
    obtain ⟨ht, rfl⟩ : c.token? = some (.string s) ∧ c' = c.next := hm
    rw [Rereads, completes_unary_iff deeper ht rfl rfl]
    exact rereads_word rfl rfl
  | bool column b =>
    obtain ⟨ht, rfl⟩ : c.token? = some (.bool b) ∧ c' = c.next := hm
    rw [Rereads, completes_unary_iff deeper ht rfl rfl]
    exact rereads_word rfl rfl
  | constant column k =>
    obtain ⟨ht, rfl⟩ : c.token? = some (.constant k) ∧ c' = c.next := hm
    rw [Rereads, completes_unary_iff deeper ht rfl rfl]
    exact rereads_word rfl rfl
  | «variable» column name =>
    obtain ⟨ht, rfl⟩ : c.token? = some (.identifier name) ∧ c' = c.next := hm
    rw [Rereads, completes_unary_iff deeper ht rfl rfl]
    refine completes_skip_bind.mpr ?_
    rw [afterName, completes_look_bind]
    have ha := h.apart
    split
    · next ht' => cases ha _ ht'
    · next ht' => cases ha _ ht'
    · next ht' => cases ha _ ht'
    · exact Completes.fitting (completes_pure rfl) (Nat.le_add_left 1 levels)
  | unary => exact rereads_operation deeper reads h
  | binary => cases hb
  | paren column inner =>
    obtain ⟨ht, hm⟩ := hm
    rw [Mark.token_placed] at ht
    simp only [Cursor.holds_append, Cursor.holds_cons, Cursor.holds_nil, Mark.token_symbol] at hm
    obtain ⟨c₁, hm, ht', rfl⟩ := hm
    simp only [Expr.complete, Expr.grouped, Expr.everywhere, Bool.and_eq_true] at hw hg
    have he := reads (Cursor.holdsFrom_of_closed hm hw.2 hg.2 (Cursor.closed_of_token? ht' rfl))
    rw [Rereads, completes_unary_iff deeper ht rfl rfl, Expr.need, Nat.add_le_add_iff_right]
    refine completes_skip_bind.mpr (he.andThen fun a ha => .symbol ht' (completes_pure ?_))
    rw [Expr.plain, ha, Expr.plain]
  | print column argument =>
    obtain ⟨ht, hm⟩ := hm
    rw [Mark.token_placed] at ht
    simp only [Expr.complete, Expr.grouped, Expr.everywhere, Bool.and_eq_true] at hw hg
    have he := rereads_argument deeper reads hm hw.2 hg.2
    rw [Rereads, completes_unary_iff deeper ht rfl rfl, Expr.need, Nat.add_le_add_iff_right]
    refine completes_skip_bind.mpr (he.andThen fun a ha => completes_pure ?_)
    rw [Expr.plain, ha, Expr.plain]
  | math column f argument =>
    obtain ⟨ht, hm⟩ := hm
    rw [Mark.token_placed] at ht
    simp only [Expr.complete, Expr.grouped, Expr.everywhere, Bool.and_eq_true] at hw hg
    have he := rereads_argument deeper reads hm hw.2 hg.2
    rw [Rereads, completes_unary_iff deeper ht rfl rfl, Expr.need, Nat.add_le_add_iff_right]
    refine completes_skip_bind.mpr (he.andThen fun a ha => completes_pure ?_)
    rw [Expr.plain, ha, Expr.plain]
  | log column base argument =>
    obtain ⟨ht, hm⟩ := hm
    rw [Mark.token_placed] at ht
    simp only [Expr.complete, Expr.grouped, Expr.everywhere, Bool.and_eq_true] at hw hg
    have he := completes_argumentPair deeper reads hm hw.2 hg.2
    rw [Rereads, completes_unary_iff deeper ht rfl rfl, Expr.need, Nat.max_le,
      Nat.add_le_add_iff_right, Nat.add_le_add_iff_right]
    refine completes_skip_bind.mpr (he.andThen fun p hp => completes_pure ?_)
    rw [Expr.plain, hp.1, hp.2, Expr.plain]
  | rand column =>
    obtain ⟨ht, ht₁, ht₂, rfl⟩ := hm
    rw [Mark.token_placed] at ht
    rw [Rereads, completes_unary_iff deeper ht rfl rfl]
    exact Completes.fitting (completes_skip_bind.mpr (.symbol ht₁ (.symbol ht₂ (completes_pure rfl))))
      (Nat.le_add_left 1 levels)
  | ifThen => exact rereads_ifThen deeper reads h
  | letIn => exact rereads_letIn deeper reads h
  | call column name arguments =>
    obtain ⟨ht, ht', hm⟩ := hm
    rw [Mark.token_placed] at ht
    rw [Mark.token_symbol] at ht'
    simp only [Expr.complete, Expr.grouped, Expr.everywhere, Bool.and_eq_true] at hw hg
    have he := completes_expressionsUpTo deeper reads rfl (by decide) rfl hm hw.2 hg.2
    rw [Rereads, completes_unary_iff deeper ht rfl rfl, Expr.need]
    refine completes_skip_bind.mpr ?_
    rw [afterName, completes_look_bind, ht']
    refine completes_skip_bind.mpr (he.andThen fun es hes => completes_pure ?_)
    rw [Expr.plain, hes, Expr.plain]
  | forRange => exact rereads_forRange deeper reads h
  | forEach => exact rereads_forEach deeper reads h
  | «while» => exact rereads_while deeper reads h
  | vector column elements =>
    obtain ⟨ht, hm⟩ := hm
    rw [Mark.token_placed] at ht
    simp only [Expr.complete, Expr.grouped, Expr.everywhere, Bool.and_eq_true] at hw hg
    have he := completes_expressionsUpTo deeper reads rfl (by decide) rfl hm hw.2 hg.2
    rw [Rereads, completes_unary_iff deeper ht rfl rfl, Expr.need]
    refine completes_skip_bind.mpr (he.andThen fun es hes => completes_pure ?_)
    rw [Expr.plain, hes, Expr.plain]
  | range column lower upper =>
    obtain ⟨ht, hm⟩ := hm
    rw [Mark.token_placed] at ht
    simp only [Expr.complete, Expr.grouped, Expr.everywhere, Bool.and_eq_true] at hw hg
    have he := completes_argumentPair deeper reads hm hw.2 hg.2
    rw [Rereads, completes_unary_iff deeper ht rfl rfl, Expr.need, Nat.max_le,
      Nat.add_le_add_iff_right, Nat.add_le_add_iff_right]
    refine completes_skip_bind.mpr (he.andThen fun p hp => completes_pure ?_)
    rw [Expr.plain, hp.1, hp.2, Expr.plain]
  | index column name index =>
    obtain ⟨ht, ht', hm⟩ := hm
    rw [Mark.token_placed] at ht
    rw [Mark.token_symbol] at ht'
    simp only [Cursor.holds_append, Cursor.holds_cons, Cursor.holds_nil, Mark.token_symbol] at hm
    obtain ⟨c₁, hm, ht'', rfl⟩ := hm
    simp only [Expr.complete, Expr.grouped, Expr.everywhere, Bool.and_eq_true] at hw hg
    have he := reads (Cursor.holdsFrom_of_closed hm hw.2 hg.2 (Cursor.closed_of_token? ht'' rfl))
    rw [Rereads, completes_unary_iff deeper ht rfl rfl, Expr.need, Nat.add_le_add_iff_right]
    refine completes_skip_bind.mpr ?_
    rw [afterName, completes_look_bind, ht']
    refine completes_skip_bind.mpr (he.andThen fun a ha => .symbol ht'' (completes_pure ?_))
    rw [Expr.plain, ha, Expr.plain]
  | method column name m =>
    obtain ⟨ht, ht', ht₁, ht₂, rfl⟩ := hm
    rw [Mark.token_placed] at ht
    rw [Mark.token_bare] at ht'
    rw [Rereads, completes_unary_iff deeper ht rfl rfl]
    refine Completes.fitting (completes_skip_bind.mpr ?_) (Nat.le_add_left 1 levels)
    rw [afterName, completes_look_bind, ht']
    exact completes_skip_bind.mpr (.symbol ht₁ (.symbol ht₂ (completes_pure rfl)))
  | error column => cases hw

/-- **What stands on the left of an operator is read in the same rounds as the operator.** An
expression is read by reading its left operands, innermost first, and each leaves the chain in front
of the operator behind it with the operand in hand. What happens behind the expression is up to the
rounds that are left then. -/
theorem completes_binary {level : Nat} {A : Prop} {P : Expr → Prop} {c c₁ c' : Cursor} (e : Expr)
    (h : c.HoldsTree e c₁) (hl : e.bindsFrom level)
    (hk : ∀ a rounds, c₁.rest.length ≤ rounds → a.plain = e.plain →
      Completes (chain deeper level rounds a) c₁ c' A P) :
    Completes (binary deeper level) c c' (e.need ≤ levels + 1 ∧ A) P := by
  cases e with
  | binary column left op right =>
    obtain ⟨c₀, hm₁, ht, hm₂⟩ := Cursor.holds_append.mp h.marks
    rw [Mark.token_placed] at ht
    have hw := h.complete
    have hg := h.grouped
    simp only [Expr.complete, Expr.grouped, Expr.everywhere, Expr.groupedHere, Bool.and_eq_true,
      Bool.not_eq_true'] at hw hg
    obtain ⟨⟨habsorbs, hbinds⟩, hg₁, hg₂⟩ := hg
    rw [Expr.bindsFrom] at hl
    have hop : c₀.operator? = some op := Cursor.operator?_eq_some.mpr ht
    have hleft : c.HoldsTree left c₀ := by
      refine ⟨hm₁, hw.2.1, hg₁, fun op' hop' => ?_, fun t ht' => ?_⟩
      · obtain rfl := Option.some.inj (hop.symm.trans hop')
        exact habsorbs
      · obtain rfl := Option.some.inj (ht.symm.trans ht')
        exact op.extendsName_token
    have hright : c₀.next.HoldsFrom op.rightLevel right c₁ := by
      refine ⟨⟨hm₂, hw.2.2, hg₂, fun op' hop' => ?_, h.apart⟩, hbinds, fun op' hop' => ?_⟩
      all_goals
        have hs := h.settled op' hop'
        rw [Expr.absorbs, Bool.or_eq_false_iff, decide_eq_false_iff_not] at hs
      · exact hs.2
      · omega
    rw [Expr.need, Nat.max_le, Nat.add_le_add_iff_right, and_assoc]
    refine completes_binary left hleft
      (Expr.bindsFrom_of_absorbs_eq_false habsorbs (of_decide_eq_true hl)) fun a rounds hr ha => ?_
    have h₁ := Cursor.length_next_lt ht
    have h₂ := hm₂.length
    cases rounds with
    | zero => omega
    | succ rounds =>
      rw [chain, completes_operator_bind, hop, Option.filter_some, if_pos hl]
      refine completes_column_bind.mpr (completes_skip_bind.mpr ((reads hright).bind
        fun a' ha' => hk _ rounds (by omega) ?_))
      rw [Expr.plain, ha, ha', Expr.plain]
  | _ =>
    exact (rereads_unary deeper reads h rfl).bind fun a ha =>
      completes_left_bind.mpr (hk a _ (Nat.le_refl _) ha)

end Readers

/-- **The reader of expressions is complete**: an expression that fits the levels is read, up to
columns, and reading one that does not is broken off, in either case without a new error. -/
theorem rereads_of_holdsFrom {levels level : Nat} {c c' : Cursor} {e : Expr}
    (h : c.HoldsFrom level e c') :
    Rereads levels (expressionAt levels level) c e c' := by
  induction levels generalizing level c c' e with
  | zero => exact ⟨fun hn => by have := e.need_pos; omega, fun _ => ⟨_, c, rfl, rfl⟩⟩
  | succ levels ih =>
    rw [Rereads, ← and_true (e.need ≤ levels + 1)]
    exact completes_binary (expressionAt levels) ih e h.toHoldsTree h.bindsFrom fun a rounds _ ha =>
      completes_chain_of_loose (expressionAt levels) h.loose ha

end Reading

end ExprScript
