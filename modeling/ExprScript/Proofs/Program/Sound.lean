import ExprScript.Proofs.Program.Cut
import ExprScript.Proofs.Reading.Sound
import ExprScript.Session
import Mathlib

/-!
# Trees without errors

A statement that was read into a tree without diagnostics consists of exactly the tokens that the
tree is spelled with, at the columns that the tree records, and the tree is grouped as the binding
powers dictate.

* `Cursor.reads_iff`: the lexemes between two cursors;
* `Statement.readsFrom_of_read`: the same for one statement;
* **`Session.parse_spells`**: the same for every tree of a source text.
-/

namespace ExprScript

/-- Lexemes that fit marks have their tokens. -/
theorem Mark.map_token_of_fits {ms : List Mark} {ls : List Lexeme}
    (h : List.Forall₂ Mark.Fits ms ls) : ls.map Lexeme.token = ms.map Mark.token := by
  induction h with
  | nil => rfl
  | cons hm _ ih => rw [List.map_cons, List.map_cons, hm.1, ih]

namespace Cursor

/-- A spelling between two cursors is a part of the lexemes, and nothing else changes. -/
theorem reads_iff {c c' : Cursor} {ms : List Mark} :
    c.Reads ms c' ↔ ∃ taken, c.rest = taken ++ c'.rest ∧ List.Forall₂ Mark.Fits ms taken ∧
      c'.ending = c.ending ∧ c'.errors = c.errors := by
  induction ms generalizing c with
  | nil =>
    constructor
    · rintro rfl
      exact ⟨[], rfl, .nil, rfl, rfl⟩
    · rintro ⟨taken, hr, hf, he, he'⟩
      cases hf
      cases c
      cases c'
      simp_all
  | cons m ms ih =>
    rw [reads_cons, ih]
    constructor
    · rintro ⟨⟨ht, hc⟩, taken, hr, hf, he, he'⟩
      cases hl : c.rest with
      | nil => simp [token?, hl] at ht
      | cons l rest =>
        simp only [token?, column, next, hl, List.tail_cons, List.head?_cons, Option.map_some,
          Option.some.injEq] at ht hc hr
        exact ⟨l :: taken, by rw [hr]; rfl, .cons ⟨ht, hc⟩ hf, he, he'⟩
    · rintro ⟨_, hr, hf, he, he'⟩
      cases hf with
      | cons hm hf =>
        refine ⟨?_, _, by rw [next, hr]; rfl, hf, he, he'⟩
        simpa [Shows, Mark.Fits, token?, column, hr] using hm

end Cursor

namespace Statement

/-- A declaration has no tree. -/
theorem root_readDeclaration (limit : Nat) (table : FunctionTable) (lexical : List LexicalError)
    (s : Statement) : (s.readDeclaration limit table lexical).1.root = none := by
  unfold readDeclaration
  split
  · split
    · split <;> rfl
    · dsimp only [finish]
      split <;> rfl
  · rfl

theorem eq_nil_of_complete {c : Cursor} (h : c.complete) :
    c.rest = [] ∧ ∃ column, c.ending = .semicolon column := by
  unfold Cursor.complete at h
  split at h
  · next column hr he => exact ⟨hr, column, he⟩
  · cases h

/-- An expression that was read without an error is a tree in front of a semicolon. -/
theorem readsFrom_of_readExpression {limit : Nat} {lexical : List LexicalError} {s : Statement}
    {root : Expr} (hr : (s.readExpression limit lexical).root = some root)
    (hd : (s.readExpression limit lexical).diagnostics = []) :
    ∃ column, s.ending = .semicolon column ∧ s.start.ReadsFrom 1 root ⟨[], s.ending, []⟩ := by
  unfold readExpression at hr hd
  cases hrun : (Reading.expressionAt limit 1).run s.start with
  | error e c => rw [hrun] at hr; cases hr
  | ok e c =>
    simp only [hrun, finish] at hr hd
    by_cases hc : c.complete
    · rw [if_pos hc] at hr hd
      obtain rfl := Option.some.inj hr
      have he : c.errors = [] := by simpa [failed] using (List.append_eq_nil_iff.mp hd).2
      have hread := Reading.readsFrom_of_clean ⟨hrun, he⟩
      have hend := (Reading.Advances.ok (p := Reading.expressionAt limit 1) hrun).ending
      obtain ⟨hn, column, hcol⟩ := eq_nil_of_complete hc
      refine ⟨column, hend.symm.trans hcol, ?_⟩
      have : c = ⟨[], s.ending, []⟩ := by
        cases c
        simp_all [start]
      rwa [this] at hread
    · rw [if_neg hc] at hr
      cases hr

/-- A statement that was read without an error ends in a semicolon, and its tree stands in front of
that. -/
theorem readsFrom_of_read {limit : Nat} {table : FunctionTable} {lexical : List LexicalError}
    {s : Statement} {root : Expr} (hr : (s.read limit table lexical).1.root = some root)
    (hd : (s.read limit table lexical).1.diagnostics = []) :
    ∃ column, s.ending = .semicolon column ∧ s.start.ReadsFrom 1 root ⟨[], s.ending, []⟩ := by
  unfold read at hr hd
  split at hr
  · rw [root_readDeclaration] at hr
    cases hr
  · next hf =>
    split at hd
    · next hf' => exact absurd hf' hf
    · exact readsFrom_of_readExpression hr hd

end Statement

/-- **A tree without errors is the statement that it was read from.** The tokens of statement number
`i`, at their columns, are those that tree number `i` is spelled with, and a semicolon; and the tree
is grouped as the binding powers dictate. -/
theorem Session.parse_spells (s : Session) (source : String) (i : Nat) {tree : Tree} {root : Expr}
    (h : (s.parse source).1[i]? = some tree) (hr : tree.root = some root)
    (hd : tree.diagnostics = []) :
    ∃ before own column after,
      (tokenize source).lexemes = before ++ own ++ ⟨.symbol .semicolon, column⟩ :: after ∧
      StatementStart before i ∧ (∀ l ∈ own, ¬ l.endsStatement) ∧
      own.map Lexeme.token = root.tokens ∧ List.Forall₂ Mark.Fits root.marks own ∧
      root.grouped ∧ root.complete := by
  obtain ⟨st, table, lexical, hs, rfl⟩ := Program.read_of_readAll h (by rw [hr]; rfl)
  obtain ⟨column, he, hread⟩ := Statement.readsFrom_of_read hr hd
  obtain ⟨before, after, hsplit, hb, hn⟩ := Program.exists_split_of_statements hs he
  obtain ⟨taken, hrest, hf, -, -⟩ := Cursor.reads_iff.mp hread.marks
  obtain rfl : st.lexemes = taken := by simpa [Statement.start] using hrest
  exact ⟨before, st.lexemes, column, after, hsplit, hb, hn, Mark.map_token_of_fits hf, hf,
    hread.grouped, hread.complete⟩

/-- The second statement of `x; -a ^ b;`, where the power is inside the negation. -/
theorem Session.parse_spells_negated_power :
    ((Session.new {} 0).parse "x; -a ^ b;").1[1]? = some
      ⟨some (.unary 4 .negate
        (.binary 7 (.variable 5 "a") (.arithmetic .pow) (.variable 9 "b"))), []⟩ ∧
    ∃ before own column after,
      (tokenize "x; -a ^ b;").lexemes = before ++ own ++ ⟨.symbol .semicolon, column⟩ :: after ∧
      StatementStart before 1 ∧ (∀ l ∈ own, ¬ l.endsStatement) ∧
      own.map Lexeme.token = [.symbol .minus, .identifier "a", .symbol .caret, .identifier "b"] ∧
      List.Forall₂ Mark.Fits [.placed 4 (.symbol .minus), .placed 5 (.identifier "a"),
        .placed 7 (.symbol .caret), .placed 9 (.identifier "b")] own := by
  have h : ((Session.new {} 0).parse "x; -a ^ b;").1[1]? = some
      ⟨some (.unary 4 .negate
        (.binary 7 (.variable 5 "a") (.arithmetic .pow) (.variable 9 "b"))), []⟩ := by cbv
  obtain ⟨before, own, column, after, hs, hb, hn, ht, hf, -⟩ := parse_spells _ _ _ h rfl rfl
  exact ⟨h, before, own, column, after, hs, hb, hn, ht, hf⟩

end ExprScript
