import ExprScript.Proofs.Program.Report
import ExprScript.Proofs.Reading.Parser
import ExprScript.Proofs.Reading.Rounds

/-!
# Parsing a text makes progress

A text is parsed statement by statement, until no lexeme is left. Each statement takes a lexeme at
least, so as many rounds as there are lexemes are enough; and no more calls go further down than
there are lexemes, whatever levels may be opened.

* `Parser.statement`, `Parser.program`: the parser of statements, and **the parser of texts**;
* `Stage`, `Stage.Progresses`: what the parser went through in one statement, and what holds of it;
* `Parser.exists_statement_eq`: **one statement**;
* `Parser.Finishes`, `Parser.finishes`: the statements behind a parser;
* `Program.readLexing_levels`: more levels than lexemes make no difference;
* **`Parser.program_progresses`**: every text.
-/

namespace ExprScript

namespace Statement

/-- What a declaration that was read up to a cursor comes to. -/
def declared (table : FunctionTable) (lexical : List LexicalError) (d : Declaration) (c : Cursor) :
    Tree × FunctionTable :=
  if lexical.isEmpty && c.errors.isEmpty && c.complete then
    match d.define? table with
    | some f => (⟨none, []⟩, table.declare f)
    | none => (failed lexical (c.report (.uninferableBody d.name) d.column), table)
  else (finish lexical none c, table)

/-- What a statement comes to, given what is made of it if it was read up to a cursor. -/
def conclude {α : Type} (limit : Nat) (table : FunctionTable) (lexical : List LexicalError)
    (read : α → Cursor → Tree × FunctionTable) :
    EStateM.Result TooDeep Cursor α → Tree × FunctionTable
  | .ok a c => read a c
  | .error e c => (brokenOff limit lexical e c, table)

theorem read_eq_conclude (limit : Nat) (table : FunctionTable) (lexical : List LexicalError)
    (s : Statement) :
    s.read limit table lexical =
      if s.start.token? = some (.keyword .functionK) then
        conclude limit table lexical (declared table lexical)
          (Reading.declaration table (Reading.expressionAt limit) s.start)
      else conclude limit table lexical (fun root c => (finish lexical (some root) c, table))
        (Reading.expressionAt limit 1 s.start) := by
  by_cases h : s.start.token? = some (.keyword .functionK)
  · rw [if_pos h, read_of_isDeclaration h, readDeclaration, EStateM.run]
    cases Reading.declaration table (Reading.expressionAt limit) s.start <;> rfl
  · rw [if_neg h, read_of_not_isDeclaration h, readExpression, EStateM.run]
    cases Reading.expressionAt limit 1 s.start <;> rfl

end Statement

namespace Parser

/-- The parser of declarations. -/
def declaration (limit calls : Nat) (table : FunctionTable) : Parsing Declaration :=
  (Plan.ofDeclaration table).exec (expression limit calls)

/-- A parser in front of a statement, which has come through nothing of it. -/
def start (p : Parser) : Parser := { p with earlier := [], errors := [] }

/-- What a statement comes to, and the parser behind it: its semicolon is taken, or what is left of
it is passed over. -/
def conclude {α : Type} (limit : Nat) (table : FunctionTable) (lexical : List LexicalError)
    (read : α → Cursor → Tree × FunctionTable) :
    EStateM.Result Stop Parser α → Option ((Tree × FunctionTable) × Parser)
  | .ok a p => some (read a p.cursor, p.synchronize)
  | .error (.tooDeep e) p =>
    some ((Statement.brokenOff limit lexical e p.cursor, table), p.synchronize)
  | .error .unfinished _ => none

/-- **The parser of statements**: what `Statement.read` makes of the first statement, and the parser
behind it. -/
def statement (limit calls : Nat) (table : FunctionTable) (lexical : List LexicalError)
    (p : Parser) : Option ((Tree × FunctionTable) × Parser) :=
  if p.cursor.token? = some (.keyword .functionK) then
    conclude limit table lexical (Statement.declared table lexical)
      (declaration limit calls table p)
  else conclude limit table lexical (fun root c => (Statement.finish lexical (some root) c, table))
    (expression limit calls 1 p)

end Parser

/-- What a parser went through in a statement: where it was entered and left, and all moments from
the one to the other, newest first. -/
structure Stage where
  entry : Moment
  exit : Moment
  history : List Moment
  deriving DecidableEq

namespace Parser

/-- **The parser of texts**, in at most so many rounds, each for one statement: what it went through,
the trees and the functions declared in the end. `Program.readAll` makes a tree of the errors behind
the last statement. -/
def program (limit calls rounds : Nat) (table : FunctionTable) (errors : List LexicalError)
    (p : Parser) : Option (List Stage × List Tree × FunctionTable) :=
  if p.remaining = [] then some ([], Program.readAll limit table errors [])
  else match rounds with
    | 0 => none
    | rounds + 1 => do
      let own := errors.takeWhile (Program.belongs p.cursor.ending)
      let later := errors.dropWhile (Program.belongs p.cursor.ending)
      let ((tree, table), p') ← statement limit calls table own p.start
      let (stages, trees, table) ← program limit calls rounds table later p'
      return (⟨p.now, p'.now, p'.history⟩ :: stages, tree :: trees, table)

/-- A parser in front of a text. -/
def ofLexemes (endColumn : Nat) (lexemes : List Lexeme) : Parser :=
  ⟨lexemes, endColumn, ⟨0, 0⟩, [], []⟩

end Parser

/-! ## Progress -/

/-- **The parser makes progress in a statement** of a text of so many lexemes: it takes one at least,
starts and ends with no level open, and never goes back; and at no moment are more levels open than
allowed, nor more than one above the number of lexemes that it has taken. -/
structure Stage.Progresses (limit stop : Nat) (s : Stage) : Prop where
  exit : s.history.head? = some s.exit
  entry : s.history.getLast? = some s.entry
  takes : s.entry.position < s.exit.position
  opened : s.entry.depth = 0
  closed : s.exit.depth = 0
  forward : s.history.Pairwise fun later earlier => earlier.position ≤ later.position
  within : ∀ m ∈ s.history, m.Within s.entry stop limit

/-- Stages that follow each other from one moment to another. -/
def Stage.Tile : Moment → List Stage → Moment → Prop
  | m, [], m' => m = m'
  | m, s :: rest, m' => s.entry = m ∧ Tile s.exit rest m'

namespace Parser

variable {limit calls : Nat} {table : FunctionTable} {p : Parser}

/-! ### One statement -/

/-- In front of a statement everything is fine, if no level is open. -/
theorem tracks_start (hdepth : p.now.depth = 0) (hposition : p.now.position ≤ p.lexemes.length) :
    p.start.Tracks p.now limit where
  entered := rfl
  forward := List.pairwise_singleton _ _
  within := by
    refine List.forall_mem_singleton.mpr ⟨Nat.le_refl _, hposition, ?_, ?_⟩
    · exact hdepth ▸ Nat.zero_le _
    · exact hdepth ▸ Nat.zero_le _

/-- Wherever a parser has come to in a statement, this ends where it does. -/
theorem position_synchronize {entry : Moment} {p' : Parser} (h : p.Reaches entry limit p') :
    p'.synchronize.now.position = p.now.position + Program.statementLength p.remaining := by
  have hlength : Program.statementLength p.remaining =
      p.cursor.rest.length + p.cursor.ending.length := Program.statementLength_eq _ _
  have hlength' : Program.statementLength p'.remaining =
      p'.cursor.rest.length + p'.cursor.ending.length := Program.statementLength_eq _ _
  have htaken := h.taken
  change p'.now.position + Program.statementLength p'.remaining = _
  rw [hlength', hlength, h.ahead.ending]
  omega

theorem tracks_synchronize {entry : Moment} (h : p.Tracks entry limit) :
    p.synchronize.Tracks entry limit := by
  have hnow := h.now
  have hlength := Program.statementLength_le p.remaining
  rw [remaining, List.length_drop] at hlength
  have hstop := hnow.stop
  have htokens := hnow.tokens
  refine h.move (Nat.le_add_right _ _) ⟨hnow.start.trans (Nat.le_add_right _ _), ?_, hnow.limit, ?_⟩
  · dsimp only [remaining]
    omega
  · dsimp only
    omega

theorem exists_conclude_eq {α : Type} {entry : Moment} {lexical : List LexicalError}
    (read : α → Cursor → Tree × FunctionTable) {r : EStateM.Result Stop Parser α}
    {r' : EStateM.Result TooDeep Cursor α} (h : p.Lands entry limit r r') :
    ∃ p', p.Reaches entry limit p' ∧ conclude limit table lexical read r =
      some (Statement.conclude limit table lexical read r', p'.synchronize) := by
  cases h with
  | ok a h => exact ⟨_, h, rfl⟩
  | tooDeep e h => exact ⟨_, h, rfl⟩

/-- The parser of declarations does what their reader does. -/
theorem lands_declaration {entry : Moment} (hdepth : p.now.depth = 0) (h : p.Tracks entry limit)
    {t : Token} (ht : p.cursor.token? = some t) (hcalls : p.cursor.rest.length < calls) :
    p.Lands entry limit (declaration limit calls table p)
      (Reading.declaration table (Reading.expressionAt limit) p.cursor) := by
  rw [← Plan.run_ofDeclaration]
  refine lands_exec (fun level p' hp' hlt => ?_) h (Plan.deeperBelow_ofDeclaration table ht)
  have hdepth' : p'.now.depth = 0 := hp'.depth.trans hdepth
  have hlands := lands_expression calls level hp'.tracks (hdepth' ▸ Nat.zero_le _)
    (hlt.trans hcalls)
  rwa [hdepth'] at hlands

/-- The parser does what `Statement.read` does, and then goes on behind the statement. -/
theorem exists_statement_start (lexical : List LexicalError) (hdepth : p.now.depth = 0)
    (h : p.start.Tracks p.now limit) (hcalls : p.start.cursor.rest.length < calls) :
    ∃ p', p.start.Reaches p.now limit p' ∧ statement limit calls table lexical p.start =
      some ((Program.first p.endColumn p.remaining).read limit table lexical, p'.synchronize) := by
  have hcursor : (Program.first p.endColumn p.remaining).start = p.start.cursor := rfl
  rw [Statement.read_eq_conclude, hcursor, statement]
  by_cases hf : p.start.cursor.token? = some (.keyword .functionK)
  · rw [if_pos hf, if_pos hf]
    exact exists_conclude_eq _ (lands_declaration hdepth h hf hcalls)
  · rw [if_neg hf, if_neg hf]
    have hlands := lands_expression calls 1 h (hdepth ▸ Nat.zero_le _) hcalls
    rw [show p.start.now.depth = 0 from hdepth] at hlands
    exact exists_conclude_eq _ hlands

/-- **The parser makes progress in a statement**, whatever it has come to in it. -/
theorem Reaches.progresses {p' : Parser} (h : p.start.Reaches p.now limit p')
    (hdepth : p.now.depth = 0) (hp : p.remaining ≠ []) :
    (⟨p.now, p'.synchronize.now, p'.synchronize.history⟩ : Stage).Progresses limit
      p.lexemes.length where
  exit := rfl
  entry := (tracks_synchronize h.tracks).entered
  takes := by
    change p.now.position < p'.synchronize.now.position
    rw [position_synchronize h]
    exact Nat.lt_add_of_pos_right (Program.statementLength_pos hp)
  opened := hdepth
  closed := h.depth.trans hdepth
  forward := (tracks_synchronize h.tracks).forward
  within := by
    rw [← show p'.synchronize.lexemes = p.lexemes from h.lexemes]
    exact (tracks_synchronize h.tracks).within

/-- **One statement**: the parser does what `Statement.read` does, makes progress, and stands in
front of the next statement then. -/
theorem exists_statement_eq (lexical : List LexicalError) (hdepth : p.now.depth = 0)
    (hp : p.remaining ≠ []) (hcalls : p.remaining.length < calls) :
    ∃ p', statement limit calls table lexical p.start =
        some ((Program.first p.endColumn p.remaining).read limit table lexical, p') ∧
      p'.lexemes = p.lexemes ∧ p'.endColumn = p.endColumn ∧
      p'.remaining = p.remaining.drop (Program.statementLength p.remaining) ∧
      (⟨p.now, p'.now, p'.history⟩ : Stage).Progresses limit p.lexemes.length := by
  have hposition : p.now.position < p.lexemes.length := by
    by_contra hposition
    exact hp (List.drop_eq_nil_of_le (Nat.le_of_not_lt hposition))
  have hcalls' : p.start.cursor.rest.length < calls := by
    have hlength := Program.statementLength_eq p.endColumn p.remaining
    have hle := Program.statementLength_le p.remaining
    change (Program.first p.endColumn p.remaining).lexemes.length < calls
    omega
  obtain ⟨p', hreaches, hstatement⟩ := exists_statement_start lexical hdepth
    (tracks_start hdepth (Nat.le_of_lt hposition)) hcalls'
  refine ⟨p'.synchronize, hstatement, hreaches.lexemes, hreaches.endColumn, ?_,
    hreaches.progresses hdepth hp⟩
  change List.drop p'.synchronize.now.position p'.lexemes = _
  rw [position_synchronize hreaches, hreaches.lexemes]
  exact List.drop_drop.symm

/-! ### Every statement -/

/-- A parser between two statements that is not behind the end stands at the end, if no lexeme is
left. -/
theorem now_of_nil (hdepth : p.now.depth = 0) (hposition : p.now.position ≤ p.lexemes.length)
    (hp : p.remaining = []) : p.now = ⟨p.lexemes.length, 0⟩ := by
  have hle : p.lexemes.length ≤ p.now.position := List.drop_eq_nil_iff.mp hp
  obtain ⟨lexemes, endColumn, ⟨position, depth⟩, earlier, errors⟩ := p
  cases hdepth
  exact congrArg (Moment.mk · 0) (Nat.le_antisymm hposition hle)

/-- What the parser does with the statements behind it, if no level is open and it is not behind the
end: it does what `Program.readAll` does, and makes progress in each of them up to the end. -/
def Finishes (limit calls rounds : Nat) (table : FunctionTable) (errors : List LexicalError)
    (p : Parser) : Prop :=
  ∃ stages, program limit calls rounds table errors p =
      some (stages,
        Program.readAll limit table errors (Program.statements p.endColumn p.remaining)) ∧
    Stage.Tile p.now stages ⟨p.lexemes.length, 0⟩ ∧
    ∀ s ∈ stages, s.Progresses limit p.lexemes.length

theorem finishes_of_nil (rounds : Nat) (errors : List LexicalError) (hdepth : p.now.depth = 0)
    (hposition : p.now.position ≤ p.lexemes.length) (hp : p.remaining = []) :
    Finishes limit calls rounds table errors p := by
  refine ⟨[], ?_, now_of_nil hdepth hposition hp, List.forall_mem_nil _⟩
  rw [program.eq_def, if_pos hp, hp]
  rfl

/-- **The statements behind a parser** that stands between two of them: as many rounds as lexemes
are left are enough, and so are more calls than there are lexemes. -/
theorem finishes (rounds : Nat) (errors : List LexicalError) (hdepth : p.now.depth = 0)
    (hposition : p.now.position ≤ p.lexemes.length) (hcalls : p.lexemes.length < calls)
    (hrounds : p.remaining.length ≤ rounds) : Finishes limit calls rounds table errors p := by
  induction rounds generalizing table errors p with
  | zero =>
    exact finishes_of_nil 0 errors hdepth hposition
      (List.length_eq_zero_iff.mp (Nat.le_zero.mp hrounds))
  | succ rounds ih =>
    by_cases hp : p.remaining = []
    · exact finishes_of_nil (rounds + 1) errors hdepth hposition hp
    have hleft : p.remaining.length = p.lexemes.length - p.now.position := List.length_drop
    obtain ⟨p', hstatement, hlexemes, hend, hremaining, hprogress⟩ :=
      @exists_statement_eq limit calls table p
        (errors.takeWhile (Program.belongs p.cursor.ending)) hdepth hp (by omega)
    have hposition' : p'.now.position ≤ p'.lexemes.length := by
      rw [hlexemes]
      exact (hprogress.within p'.now List.mem_cons_self).stop
    have hrounds' : p'.remaining.length ≤ rounds := by
      have hpos := Program.statementLength_pos hp
      rw [hremaining, List.length_drop]
      omega
    obtain ⟨stages, hprogram, htile, hstages⟩ := ih
      (errors.dropWhile (Program.belongs p.cursor.ending)) hprogress.closed hposition'
      (hlexemes ▸ hcalls) hrounds'
    refine ⟨⟨p.now, p'.now, p'.history⟩ :: stages, ?_, ⟨rfl, hlexemes ▸ htile⟩,
      List.forall_mem_cons.mpr ⟨hprogress, hlexemes ▸ hstages⟩⟩
    rw [program.eq_def, if_neg hp, Program.statements_eq_first_cons p.endColumn hp,
      Program.readAll_cons]
    rw [hremaining, hend] at hprogram
    dsimp only [Option.bind_eq_bind]
    rw [hstatement, Option.bind_some, hprogram]
    rfl

end Parser

/-! ## The limit -/

namespace Statement

/-- More levels than tokens make no difference to a statement. -/
theorem read_levels {limit limit' : Nat} {s : Statement} (table : FunctionTable)
    (lexical : List LexicalError) (h : s.lexemes.length < limit) (h' : s.lexemes.length < limit') :
    s.read limit' table lexical = s.read limit table lexical := by
  rw [read_eq_conclude, read_eq_conclude]
  split
  · next ht =>
    rw [← Plan.run_ofDeclaration, ← Plan.run_ofDeclaration]
    obtain ⟨d, c, hd, hd'⟩ := Plan.exists_run_eq (c := s.start)
      (f := Reading.expressionAt limit) (g := Reading.expressionAt limit')
      (fun level c hc => Reading.exists_expressionAt_eq level (hc.trans h) (hc.trans h'))
      (Plan.deeperBelow_ofDeclaration table ht)
    rw [hd, hd']
    rfl
  · obtain ⟨e, c, he, he'⟩ := Reading.exists_expressionAt_eq 1 (c := s.start) h h'
    rw [he, he']
    rfl

end Statement

namespace Program

theorem readAll_levels {limit limit' : Nat} (table : FunctionTable) (errors : List LexicalError)
    {ss : List Statement} (h : ∀ s ∈ ss, s.lexemes.length < limit ∧ s.lexemes.length < limit') :
    readAll limit' table errors ss = readAll limit table errors ss := by
  induction ss generalizing table errors with
  | nil => cases errors <;> rfl
  | cons s rest ih =>
    obtain ⟨hs, hrest⟩ := List.forall_mem_cons.mp h
    rw [readAll_cons, readAll_cons, Statement.read_levels table _ hs.1 hs.2]
    dsimp only
    rw [ih _ _ hrest]

theorem length_le_of_mem_statements {endColumn : Nat} {ls : List Lexeme} {s : Statement}
    (h : s ∈ statements endColumn ls) : s.lexemes.length ≤ ls.length := by
  obtain ⟨i, hi⟩ := List.mem_iff_getElem?.mp h
  obtain ⟨before, after, hs⟩ := exists_standsIn hi
  rw [hs.split, List.length_append, List.length_append]
  omega

/-- **More levels than lexemes make no difference to a text.** -/
theorem readLexing_levels (table : FunctionTable) (endColumn : Nat) (lexing : Lexing) (more : Nat) :
    readLexing (lexing.lexemes.length + 1 + more) table endColumn lexing =
      readLexing (lexing.lexemes.length + 1) table endColumn lexing := by
  refine readAll_levels table lexing.errors fun s hs => ?_
  have := length_le_of_mem_statements hs
  omega

end Program

/-- **The parser of texts makes progress**, and does not need its limit to come to an end. For every
text, with any functions and any limit, as many rounds as there are lexemes are enough, and calls
within each other are as many and one more; the text is parsed into what `Program.readLexing` reads.
The statements follow each other from the start of the text to its end, and the parser makes progress
in each of them. As many levels as lexemes and one more are as good as any number of them, and the
loops of the readers end by themselves, on any number of levels. -/
theorem Parser.program_progresses (limit : Nat) (table : FunctionTable) (endColumn : Nat)
    (lexing : Lexing) :
    let n := lexing.lexemes.length
    (∃ stages, program limit (n + 1) n table lexing.errors (ofLexemes endColumn lexing.lexemes) =
        some (stages, Program.readLexing limit table endColumn lexing) ∧
      Stage.Tile ⟨0, 0⟩ stages ⟨n, 0⟩ ∧ ∀ s ∈ stages, s.Progresses limit n) ∧
    (∀ more, Program.readLexing (n + 1 + more) table endColumn lexing =
      Program.readLexing (n + 1) table endColumn lexing) ∧
    ∀ levels, Reading.LoopsEnd (Reading.expressionAt levels) :=
  ⟨finishes (p := .ofLexemes endColumn lexing.lexemes) lexing.lexemes.length lexing.errors rfl
    (Nat.zero_le _) (Nat.lt_succ_self _) (Nat.le_refl _),
    Program.readLexing_levels table endColumn lexing,
    fun levels => Reading.loopsEnd (Reading.expressionAt levels)⟩

/-- Two parentheses are one level too many for a single one: the statement is broken off, and left
with no level open. -/
example :
    (Parser.program 1 4 3 .empty [] (.ofLexemes 4 [⟨.symbol .leftParen, 1⟩, ⟨.symbol .leftParen, 2⟩,
      ⟨.symbol .semicolon, 3⟩])).map Prod.fst =
    some [⟨⟨0, 0⟩, ⟨3, 0⟩, [⟨3, 0⟩, ⟨1, 0⟩, ⟨1, 1⟩, ⟨0, 1⟩, ⟨0, 0⟩]⟩] := by
  decide

end ExprScript
