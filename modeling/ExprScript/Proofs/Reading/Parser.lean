import ExprScript.Proofs.Program.Cut
import ExprScript.Proofs.Reading.Plan

/-!
# Parsing with a position and open levels

A cursor knows what is left of one statement only. A parser knows all lexemes of a text, how many of
them are behind it, and how many levels of expressions are open. It carries out the plans of the
readers, and remembers the moments that it has come through.

* `Program.first`, `statementLength`: the statement that comes first, and its number of lexemes;
* `Moment`, `Parser`: where a parser stands, and what it stands in;
* `Plan.exec`, `Parser.nested`: a plan carried out by a parser, and one level of it;
* `Parser.expression`: **the parser of expressions**, which stops unfinished if it goes further down
  too often, whatever levels it may open;
* `Parser.Tracks`: what holds of all moments of a statement;
* **`Parser.lands_expression`**: the parser does what the reader of expressions does, is never
  unfinished, and leaves the levels as they were.
-/

namespace ExprScript

namespace Program

/-- The statement that comes first in a list of lexemes. -/
def first (endColumn : Nat) : List Lexeme → Statement
  | [] => ⟨[], .endOfText endColumn⟩
  | l :: rest =>
    if l.endsStatement then ⟨[], .semicolon l.column⟩
    else { first endColumn rest with lexemes := l :: (first endColumn rest).lexemes }

/-- The number of lexemes up to the first semicolon, which counts too, or up to the end. -/
def statementLength : List Lexeme → Nat
  | [] => 0
  | l :: rest => if l.endsStatement then 1 else statementLength rest + 1

theorem statementLength_le (ls : List Lexeme) : statementLength ls ≤ ls.length := by
  induction ls with
  | nil => exact Nat.le_refl 0
  | cons l rest ih =>
    unfold statementLength
    split
    · exact Nat.le_add_left 1 _
    · exact Nat.succ_le_succ ih

theorem statementLength_pos {ls : List Lexeme} (h : ls ≠ []) : 0 < statementLength ls := by
  cases ls with
  | nil => exact absurd rfl h
  | cons l rest =>
    unfold statementLength
    split <;> exact Nat.succ_pos _

end Program

/-- The number of lexemes that end a statement. -/
def Ending.length : Ending → Nat
  | .semicolon _ => 1
  | .endOfText _ => 0

namespace Program

theorem statementLength_eq (endColumn : Nat) (ls : List Lexeme) :
    statementLength ls =
      (first endColumn ls).lexemes.length + (first endColumn ls).ending.length := by
  induction ls with
  | nil => rfl
  | cons l rest ih =>
    unfold statementLength first
    split
    · rfl
    · rw [ih]
      exact Nat.add_right_comm _ _ 1

/-- **A text is its first statement and those behind it.** -/
theorem statements_eq_first_cons (endColumn : Nat) {ls : List Lexeme} (h : ls ≠ []) :
    statements endColumn ls =
      first endColumn ls :: statements endColumn (ls.drop (statementLength ls)) := by
  induction ls with
  | nil => exact absurd rfl h
  | cons l rest ih =>
    rw [statements_cons]
    by_cases hl : l.endsStatement
    · rw [place_of_endsStatement hl, first, if_pos hl, statementLength, if_pos hl]
      rfl
    · rw [place_of_not_endsStatement hl, first, if_neg hl, statementLength, if_neg hl]
      cases rest with
      | nil => rfl
      | cons l' rest => rw [ih (List.cons_ne_nil _ _), List.drop_succ_cons]

end Program

/-- Behind the last token there is nothing to take. -/
theorem Cursor.next_of_nil {c : Cursor} (h : c.rest = []) : c.next = c := by
  cases c
  cases h
  rfl

/-- What is unexpected is taken, and reported. -/
theorem Cursor.unexpected_eq (c : Cursor) (expected : Expected) :
    c.unexpected expected = { c.next with errors := (c.unexpected expected).errors } := by
  obtain ⟨rest, ending, errors⟩ := c
  cases rest <;> cases ending <;> rfl

/-! ## Parsers -/

/-- How many lexemes are behind a parser, and how many levels are open. -/
structure Moment where
  position : Nat
  depth : Nat
  deriving DecidableEq

/-- A parser in a text whose end is at a column, with the errors of the statement that it is in and
the moments of this statement that it has come through, newest first. -/
structure Parser where
  lexemes : List Lexeme
  endColumn : Nat
  now : Moment
  earlier : List Moment
  errors : List SyntaxError
  deriving DecidableEq

namespace Parser

/-- The lexemes that are not behind a parser. -/
def remaining (p : Parser) : List Lexeme := p.lexemes.drop p.now.position

/-- What a parser sees of the statement that it is in. -/
def cursor (p : Parser) : Cursor :=
  ⟨(Program.first p.endColumn p.remaining).lexemes, (Program.first p.endColumn p.remaining).ending,
    p.errors⟩

/-- All moments, newest first. -/
def history (p : Parser) : List Moment := p.now :: p.earlier

/-- Goes on to another moment. -/
def move (p : Parser) (m : Moment) : Parser := { p with now := m, earlier := p.history }

/-- Takes the next token, but not what ends the statement. -/
def advance (p : Parser) : Parser :=
  if p.cursor.rest = [] then p else p.move { p.now with position := p.now.position + 1 }

/-- Adds an error. -/
def report (p : Parser) (cause : SyntaxCause) (column : Nat) : Parser :=
  { p with errors := ⟨cause, column⟩ :: p.errors }

/-- Reports that something else was expected here, and skips the token that is here instead. -/
def unexpected (p : Parser) (expected : Expected) : Parser :=
  advance { p with errors := (p.cursor.unexpected expected).errors }

/-- Opens a level. -/
def enter (p : Parser) : Parser := p.move { p.now with depth := p.now.depth + 1 }

/-- Closes a level. -/
def leave (p : Parser) : Parser := p.move { p.now with depth := p.now.depth - 1 }

/-- Goes on behind the next semicolon, or to the end. -/
def synchronize (p : Parser) : Parser :=
  p.move { p.now with position := p.now.position + Program.statementLength p.remaining }

end Parser

/-! ## Carrying out plans -/

/-- Why a parser stops: too many levels are open, or it has gone further down too often. -/
inductive Stop where
  | tooDeep (e : TooDeep)
  | unfinished
  deriving DecidableEq

/-- Steps of a parser. -/
abbrev Parsing := EStateM Stop Parser

/-- A plan carried out by a parser, given how it goes further down. -/
def Plan.exec {α : Type} (further : Nat → Parsing Expr) : Plan α → Parsing α
  | done a, p => .ok a p
  | look next, p => (next p.cursor).exec further p
  | skip next, p => next.exec further p.advance
  | report cause column next, p => next.exec further (p.report cause column)
  | unexpected expected next, p => next.exec further (p.unexpected expected)
  | deeper level next, p =>
    match further level p with
    | .ok e p' => (next e).exec further p'
    | .error s p' => .error s p'

namespace Parser

/-- **One level further down**, unless too many are open. The level is closed again, whatever comes
of it. -/
def nested {α : Type} (limit : Nat) (parse : Parsing α) : Parsing α := fun p =>
  if limit ≤ p.now.depth then .error (.tooDeep ⟨p.cursor.column⟩) p
  else match parse p.enter with
    | .ok a p' => .ok a p'.leave
    | .error s p' => .error s p'.leave

/-- **The parser of expressions**, which goes further down only so many times. -/
def expression (limit : Nat) : (calls level : Nat) → Parsing Expr
  | 0, _ => fun p => .error .unfinished p
  | calls + 1, level => nested limit ((Plan.ofLevel level).exec (expression limit calls))

end Parser

/-! ## What holds at every moment -/

/-- A moment of a statement that was entered at another one: it is not in front of it nor behind the
end, no more levels are open than allowed, and **at most one more than tokens have been taken**. -/
structure Moment.Within (m entry : Moment) (stop limit : Nat) : Prop where
  start : entry.position ≤ m.position
  stop : m.position ≤ stop
  limit : m.depth ≤ limit
  tokens : m.depth ≤ m.position - entry.position + 1

namespace Parser

/-- **All moments of a statement** are within it, and **the position never decreases**. -/
structure Tracks (entry : Moment) (limit : Nat) (p : Parser) : Prop where
  entered : p.history.getLast? = some entry
  forward : p.history.Pairwise fun later earlier => earlier.position ≤ later.position
  within : ∀ m ∈ p.history, m.Within entry p.lexemes.length limit

/-- What a parser in a statement can reach: a cursor further ahead in the same statement, with the
same levels open. -/
structure Reaches (entry : Moment) (limit : Nat) (p p' : Parser) : Prop where
  lexemes : p'.lexemes = p.lexemes
  endColumn : p'.endColumn = p.endColumn
  ahead : p.cursor.Ahead p'.cursor
  taken : p'.now.position + p'.cursor.rest.length = p.now.position + p.cursor.rest.length
  depth : p'.now.depth = p.now.depth
  tracks : p'.Tracks entry limit

section Steps

variable {entry : Moment} {limit : Nat} {p p' : Parser}

theorem Tracks.now (h : p.Tracks entry limit) : p.now.Within entry p.lexemes.length limit :=
  h.within p.now List.mem_cons_self

/-- A parser that goes on to a moment within the statement. -/
theorem Tracks.move (h : p.Tracks entry limit) {m : Moment} (hp : p.now.position ≤ m.position)
    (hm : m.Within entry p.lexemes.length limit) : (p.move m).Tracks entry limit where
  entered := by
    rw [← h.entered]
    exact List.getLast?_cons_cons
  forward := by
    refine List.pairwise_cons.mpr ⟨fun m' hm' => ?_, h.forward⟩
    obtain rfl | hm' := List.mem_cons.mp hm'
    · exact hp
    · exact Nat.le_trans ((List.pairwise_cons.mp h.forward).1 m' hm') hp
  within := List.forall_mem_cons.mpr ⟨hm, h.within⟩

theorem Reaches.refl (h : p.Tracks entry limit) : p.Reaches entry limit p :=
  ⟨rfl, rfl, .refl _, rfl, rfl, h⟩

theorem Reaches.trans {p₁ p₂ p₃ : Parser} (h : p₁.Reaches entry limit p₂)
    (h' : p₂.Reaches entry limit p₃) : p₁.Reaches entry limit p₃ :=
  ⟨h'.lexemes.trans h.lexemes, h'.endColumn.trans h.endColumn, h.ahead.trans h'.ahead,
    h'.taken.trans h.taken, h'.depth.trans h.depth, h'.tracks⟩

/-- Where a token is left, it is the next lexeme of the text, and no semicolon. -/
theorem remaining_of_cursor {lexeme : Lexeme} {rest : List Lexeme}
    (h : p.cursor.rest = lexeme :: rest) :
    p.remaining = lexeme :: p.lexemes.drop (p.now.position + 1) ∧ ¬ lexeme.endsStatement := by
  unfold cursor at h
  cases hr : p.remaining with
  | nil => simp [hr, Program.first] at h
  | cons l behind =>
    have hbehind : p.lexemes.drop (p.now.position + 1) = behind := by
      rw [← List.tail_drop, ← remaining, hr, List.tail_cons]
    by_cases hl : l.endsStatement
    · simp [hr, Program.first, hl] at h
    · simp only [hr, Program.first, hl, if_false, Bool.false_eq_true, List.cons.injEq] at h
      exact ⟨by rw [hbehind, h.1], h.1 ▸ hl⟩

@[simp] theorem cursor_advance (p : Parser) : p.advance.cursor = p.cursor.next := by
  unfold advance
  cases hr : p.cursor.rest with
  | nil => rw [if_pos rfl, Cursor.next_of_nil hr]
  | cons lexeme rest =>
    obtain ⟨hremaining, hl⟩ := remaining_of_cursor hr
    rw [if_neg (List.cons_ne_nil _ _)]
    unfold cursor
    rw [hremaining, Program.first, if_neg hl]
    rfl

@[simp] theorem cursor_unexpected (p : Parser) (expected : Expected) :
    (p.unexpected expected).cursor = p.cursor.unexpected expected := by
  rw [unexpected, cursor_advance, p.cursor.unexpected_eq expected]
  rfl

theorem depth_advance (p : Parser) : p.advance.now.depth = p.now.depth := by
  unfold advance
  split <;> rfl

/-- Taking a token moves the position by one. -/
theorem taken_advance (p : Parser) : p.advance.now.position + p.advance.cursor.rest.length =
    p.now.position + p.cursor.rest.length := by
  rw [cursor_advance]
  unfold advance
  cases hr : p.cursor.rest with
  | nil => simp [Cursor.next, hr]
  | cons lexeme rest =>
    simp only [Cursor.next, hr, move, reduceCtorEq, if_false, List.tail_cons, List.length_cons]
    omega

theorem Tracks.advance (h : p.Tracks entry limit) : p.advance.Tracks entry limit := by
  unfold Parser.advance
  split
  · exact h
  · next hr =>
    obtain ⟨lexeme, rest, hr⟩ := List.exists_cons_of_ne_nil hr
    have hlength := congrArg List.length (remaining_of_cursor hr).1
    simp only [remaining, List.length_drop, List.length_cons] at hlength
    have hnow := h.now
    refine h.move (Nat.le_succ _) ⟨Nat.le_succ_of_le hnow.start, ?_, hnow.limit, ?_⟩
    · dsimp only
      omega
    · have := hnow.tokens
      dsimp only
      omega

theorem Reaches.advance (h : p.Tracks entry limit) : p.Reaches entry limit p.advance where
  lexemes := by
    unfold Parser.advance
    split <;> rfl
  endColumn := by
    unfold Parser.advance
    split <;> rfl
  ahead := by
    rw [cursor_advance]
    exact .next _
  taken := p.taken_advance
  depth := p.depth_advance
  tracks := h.advance

theorem Reaches.report (h : p.Tracks entry limit) (cause : SyntaxCause) (column : Nat) :
    p.Reaches entry limit (p.report cause column) :=
  ⟨rfl, rfl, .report p.cursor cause column, rfl, rfl, ⟨h.entered, h.forward, h.within⟩⟩

theorem Reaches.unexpected (h : p.Tracks entry limit) (expected : Expected) :
    p.Reaches entry limit (p.unexpected expected) := by
  have hr : ({ p with errors := (p.cursor.unexpected expected).errors } : Parser).Reaches entry
      limit (p.unexpected expected) := .advance ⟨h.entered, h.forward, h.within⟩
  refine ⟨hr.lexemes, hr.endColumn, ?_, hr.taken, hr.depth, hr.tracks⟩
  rw [cursor_unexpected]
  exact .unexpected _ _

end Steps

/-! ## Parsing is reading -/

/-- **A parser and a reader come to the same**, to a result or to a level too many, and to the same
cursor, which the parser can reach. -/
inductive Lands {α : Type} (entry : Moment) (limit : Nat) (p : Parser) :
    EStateM.Result Stop Parser α → EStateM.Result TooDeep Cursor α → Prop
  | ok (a : α) {p' : Parser} (h : p.Reaches entry limit p') :
    Lands entry limit p (.ok a p') (.ok a p'.cursor)
  | tooDeep (e : TooDeep) {p' : Parser} (h : p.Reaches entry limit p') :
    Lands entry limit p (.error (.tooDeep e) p') (.error e p'.cursor)

section Lands

variable {α : Type} {entry : Moment} {limit : Nat} {p : Parser}

theorem Lands.of_reaches {p' : Parser} (h : p.Reaches entry limit p')
    {r : EStateM.Result Stop Parser α} {r' : EStateM.Result TooDeep Cursor α}
    (hr : p'.Lands entry limit r r') : p.Lands entry limit r r' := by
  cases hr with
  | ok a hr => exact .ok a (h.trans hr)
  | tooDeep e hr => exact .tooDeep e (h.trans hr)

/-- **A plan is carried out as it is read**, if what is further down is, where fewer than `n` tokens
are left. -/
theorem lands_exec {further : Nat → Parsing Expr} {deeper : Nat → Reading Expr} {n : Nat}
    (hfurther : ∀ level p', p.Reaches entry limit p' → p'.cursor.rest.length < n →
      p'.Lands entry limit (further level p') (deeper level p'.cursor))
    (h : p.Tracks entry limit) {plan : Plan α} (hplan : plan.DeeperBelow n p.cursor) :
    p.Lands entry limit (plan.exec further p) (plan.run deeper p.cursor) := by
  -- the plan is carried out from wherever its first steps have led to
  suffices ∀ p', p.Reaches entry limit p' → plan.DeeperBelow n p'.cursor →
      p'.Lands entry limit (plan.exec further p') (plan.run deeper p'.cursor) from
    this p (.refl h) hplan
  clear hplan
  induction plan with
  | done a => exact fun p' hp' _ => .ok a (.refl hp'.tracks)
  | look next ih => exact fun p' hp' hplan => ih _ p' hp' hplan
  | skip next ih =>
    intro p' hp' hplan
    have hstep : p'.Reaches entry limit p'.advance := .advance hp'.tracks
    have hnext := ih p'.advance (hp'.trans hstep) (by rwa [cursor_advance])
    rw [cursor_advance] at hnext
    exact hnext.of_reaches hstep
  | report cause column next ih =>
    intro p' hp' hplan
    have hstep : p'.Reaches entry limit (p'.report cause column) := .report hp'.tracks cause column
    exact (ih _ (hp'.trans hstep) hplan).of_reaches hstep
  | unexpected expected next ih =>
    intro p' hp' hplan
    have hstep : p'.Reaches entry limit (p'.unexpected expected) := .unexpected hp'.tracks expected
    have hnext := ih (p'.unexpected expected) (hp'.trans hstep) (by rwa [cursor_unexpected])
    rw [cursor_unexpected] at hnext
    exact hnext.of_reaches hstep
  | deeper level next ih =>
    intro p' hp' hplan
    have hdown := hfurther level p' hp' hplan.1
    rw [Plan.exec, Plan.run]
    generalize further level p' = r, deeper level p'.cursor = r' at hdown ⊢
    cases hdown with
    | ok e hstep => exact (ih e _ (hp'.trans hstep) (hplan.2 e _ hstep.ahead)).of_reaches hstep
    | tooDeep e hstep => exact .tooDeep e hstep

/-- The parser goes one level further down where there is one left. -/
theorem Tracks.enter (h : p.Tracks entry limit) (hlimit : p.now.depth < limit)
    (htokens : p.now.depth ≤ p.now.position - entry.position) : p.enter.Tracks entry limit :=
  h.move (Nat.le_refl _) ⟨h.now.start, h.now.stop, hlimit, Nat.succ_le_succ htokens⟩

/-- A level that was opened is closed where reading has come to. -/
theorem Reaches.leave {p' : Parser} (h : p.enter.Reaches entry limit p') :
    p.Reaches entry limit p'.leave where
  lexemes := h.lexemes
  endColumn := h.endColumn
  ahead := h.ahead
  taken := h.taken
  depth := by
    change p'.now.depth - 1 = p.now.depth
    rw [h.depth]
    rfl
  tracks := by
    have hnow := h.tracks.now
    have hless : p'.now.depth - 1 ≤ p'.now.depth := Nat.sub_le _ _
    exact h.tracks.move (Nat.le_refl _)
      ⟨hnow.start, hnow.stop, Nat.le_trans hless hnow.limit, Nat.le_trans hless hnow.tokens⟩

/-- **A level lands where what is read in it does**, if it may be opened. -/
theorem Lands.nested {parse : Parsing α} {r : EStateM.Result TooDeep Cursor α}
    (hlimit : p.now.depth < limit) (h : p.enter.Lands entry limit (parse p.enter) r) :
    p.Lands entry limit (nested limit parse p) r := by
  rw [Parser.nested, if_neg (Nat.not_le_of_lt hlimit)]
  generalize parse p.enter = r' at h ⊢
  cases h with
  | ok a h => exact .ok a h.leave
  | tooDeep e h => exact .tooDeep e h.leave

/-- **The parser of expressions does what the reader does**, with as many levels as are left, and
leaves the levels as they were. As many calls as tokens are left and one more are enough, since each
level takes a token before it goes further down; that is also why there is a token for each open
level but one. -/
theorem lands_expression (calls level : Nat) (h : p.Tracks entry limit)
    (htokens : p.now.depth ≤ p.now.position - entry.position)
    (hcalls : p.cursor.rest.length < calls) :
    p.Lands entry limit (expression limit calls level p)
      (Reading.expressionAt (limit - p.now.depth) level p.cursor) := by
  induction calls generalizing level p with
  | zero => exact absurd hcalls (Nat.not_lt_zero _)
  | succ calls ih =>
    obtain hlimit | hlimit := Nat.lt_or_ge p.now.depth limit
    · obtain ⟨levels, hlevels⟩ := Nat.exists_eq_add_of_lt hlimit
      rw [show limit - p.now.depth = levels + 1 by omega, expression, Reading.expressionAt,
        ← Plan.run_ofLevel]
      refine .nested hlimit (lands_exec (n := p.cursor.rest.length) (fun level' p' hp' hlt => ?_)
        (h.enter hlimit htokens) (Plan.deeperBelow_ofLevel level p.cursor))
      -- a token of this level has been taken, and it pays for the level that is opened next
      have htaken : p'.now.position + p'.cursor.rest.length =
        p.now.position + p.cursor.rest.length := hp'.taken
      have hdepth : p'.now.depth = p.now.depth + 1 := hp'.depth
      have hstart := h.now.start
      have hlands := ih level' hp'.tracks (by omega) (by omega)
      rwa [show limit - p'.now.depth = levels by omega] at hlands
    · rw [Nat.sub_eq_zero_of_le hlimit, expression, Parser.nested, if_pos hlimit]
      exact .tooDeep ⟨p.cursor.column⟩ (.refl h)

end Lands

end Parser

end ExprScript
