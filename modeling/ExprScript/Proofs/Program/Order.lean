import ExprScript.Proofs.Program.Declare
import ExprScript.Proofs.Program.Report
import ExprScript.Proofs.Reading.Order

/-!
# Grammatical errors stand in their statement, from left to right

Where reading a statement stops, the errors found so far are in order, and so is the one that it
stops with.

* `Statement.StandsIn.inOrder_start`: a statement of a text starts in order;
* `Statement.inOrder_read`: **what a statement reports is in order**;
* `Statement.diagnostics_ne_nil`: nothing fails without a report;
* **`Session.parse_in_order`**: the grammatical errors of every tree of a text.
-/

namespace ExprScript

namespace Statement

/-- A statement of a text whose columns increase starts in order. -/
theorem StandsIn.inOrder_start {s : Statement} {endColumn i : Nat}
    {lexemes before after : List Lexeme} (h : s.StandsIn endColumn lexemes i before after)
    (hl : lexemes.Pairwise (·.column < ·.column)) (hend : ∀ l ∈ lexemes, l.column < endColumn) :
    s.start.InOrder s.start.column := by
  have hown : s.lexemes.Pairwise (·.column < ·.column) ∧ ∀ l ∈ s.lexemes, l.column < s.ending.column := by
    rw [h.split] at hl hend
    obtain ⟨hfront, -, hbehind⟩ := List.pairwise_append.mp hl
    refine ⟨(List.pairwise_append.mp hfront).2.1, fun l hm => ?_⟩
    obtain ⟨column, rest, hending, rfl⟩ | ⟨hending, -, -⟩ := h.ending
    · rw [hending]
      exact hbehind l (List.mem_append_right _ hm) _ List.mem_cons_self
    · rw [hending]
      exact hend l (List.mem_append_left _ (List.mem_append_right _ hm))
  have hcolumns : (s.lexemes.map Lexeme.column ++ [s.ending.column]).Pairwise (· ≤ ·) := by
    refine List.pairwise_append.mpr ⟨?_, List.pairwise_singleton _ _, fun k hk k' hk' => ?_⟩
    · exact List.pairwise_map.mpr (hown.1.imp Nat.le_of_lt)
    · obtain ⟨l, hm, rfl⟩ := List.mem_map.mp hk
      rw [List.mem_singleton.mp hk']
      exact Nat.le_of_lt (hown.2 l hm)
  obtain ⟨behind, hb⟩ := s.start.exists_columns_behind
  change (s.start.column :: (s.lexemes.map Lexeme.column ++ [s.ending.column])).Pairwise (· ≤ ·)
  change s.lexemes.map Lexeme.column ++ [s.ending.column] = s.start.column :: behind at hb
  rw [hb] at hcolumns ⊢
  obtain ⟨hfirst, -⟩ := List.pairwise_cons.mp hcolumns
  exact List.pairwise_cons.mpr ⟨List.forall_mem_cons.mpr ⟨Nat.le_refl _, hfirst⟩, hcolumns⟩

/-- A declaration that was read without an error has its name at the column that it is given. -/
theorem column_of_readDeclaration {s : Statement} {table : FunctionTable} {limit : Nat}
    {d : Declaration} {c : Cursor} (hs : s.isDeclaration)
    (h : (Reading.declaration table (Reading.expressionAt limit)).run s.start = .ok d c)
    (he : c.errors = []) : d.column = s.start.next.column := by
  have hmarks := (Reading.readsDeclaration_of_clean (c := s.start) hs ⟨h, he⟩).marks
  simp only [declarationMarks, Cursor.reads_cons, Cursor.shows_placed] at hmarks
  exact hmarks.2.1.2.symm

/-- A reading that keeps the order reports in order, wherever it stops. -/
theorem endsWith_of_keepsOrder {α : Type} {p : Reading α} [Reading.Advances p] {s : Statement}
    (limit : Nat) {R : α → Cursor → Prop} (hp : Reading.KeepsOrder p)
    (h : s.start.InOrder s.start.column) (hR : ∀ a c, p.run s.start = .ok a c →
      c.InOrder s.start.column → c.ending = s.ending → R a c) :
    EndsWith limit (fun c => c.InOrder s.start.column ∧ c.ending = s.ending) R (p.run s.start) := by
  have hend := hp s.start.column s.start h
  change Reading.EndsInOrder _ (p.run s.start) at hend
  cases hrun : p.run s.start with
  | ok a c =>
    rw [hrun] at hend
    have hending : c.ending = s.ending := (Reading.Advances.ok (p := p) hrun).ending
    exact ⟨⟨hend, hending⟩, hR a c hrun hend hending⟩
  | error e c =>
    rw [hrun] at hend
    exact ⟨hend.2 ▸ hend.1.report _, (Reading.Advances.error (p := p) hrun).ending⟩

/-- **What a statement reports is in order**, if its lexemes are. -/
theorem inOrder_read {s : Statement} (limit : Nat) (table : FunctionTable)
    (lexical : List LexicalError) (h : s.start.InOrder s.start.column) :
    ∃ c : Cursor, (c.InOrder s.start.column ∧ c.ending = s.ending) ∧
      (s.read limit table lexical).1.diagnostics = .ofReading lexical c.errors.reverse := by
  refine read_reports lexical (fun c expected hc => ?_)
    (endsWith_of_keepsOrder limit (Reading.keepsOrder_expressionAt limit 1) h fun _ _ _ _ _ => trivial)
    fun hs => endsWith_of_keepsOrder limit (Reading.keepsOrder_declaration table limit) h
      fun d c hrun hc hending herrors hcomplete => ⟨?_, hending⟩
  · exact ⟨hc.1.unexpected expected, (Cursor.Ahead.unexpected c expected).ending.trans hc.2⟩
  · -- there is no other error, so the name may stand anywhere in the statement
    obtain ⟨hlow, hhigh⟩ := h.next.column_bounds
    have hcolumns : (c.report (.uninferableBody d.name) d.column).columns =
        [s.start.next.column, s.ending.column] := by
      rw [column_of_readDeclaration hs hrun herrors, Cursor.columns, Cursor.report, herrors,
        (eq_nil_of_complete hcomplete).1, hending]
      rfl
    have hhigh' : s.start.next.column ≤ s.ending.column := hhigh
    unfold Cursor.InOrder
    rw [hcolumns]
    simp only [List.pairwise_cons, List.mem_cons, List.not_mem_nil, or_false, forall_eq_or_imp,
      forall_eq, List.Pairwise.nil, and_true, IsEmpty.forall_iff, implies_true]
    exact ⟨⟨hlow, hlow.trans hhigh'⟩, hhigh'⟩

/-- **Nothing fails without a report**: an expression without a tree has an error. -/
theorem diagnostics_ne_nil {s : Statement} (hs : ¬ s.isDeclaration) {limit : Nat}
    {table : FunctionTable} {lexical : List LexicalError}
    (hr : (s.read limit table lexical).1.root = none) :
    (s.read limit table lexical).1.diagnostics ≠ [] := by
  rw [read_of_not_isDeclaration hs] at hr ⊢
  dsimp only at hr ⊢
  intro hd
  exact not_declares_readExpression limit lexical s (by simp [Tree.declares, hr, hd])

end Statement

/-- The first of errors in order is the leftmost one. -/
theorem leftmost_of_pairwise {errors : List SyntaxError}
    (h : errors.Pairwise (·.column ≤ ·.column)) :
    ∀ first ∈ errors.head?, ∀ e ∈ errors, first.column ≤ e.column := by
  intro first hfirst e he
  obtain ⟨rest, rfl⟩ := List.head?_eq_some_iff.mp hfirst
  obtain rfl | he := List.mem_cons.mp he
  · exact Nat.le_refl _
  · exact (List.pairwise_cons.mp h).1 e he

namespace Session

/-- **The grammatical errors of a statement are reported from left to right**, so that the first one is
the leftmost. They stand between its first token and the semicolon that it ends in, or the end of
the text if there is none; and a statement that is no declaration and was not read into a tree has
an error. The lexical errors behind the last statement come without grammatical ones. -/
theorem parse_in_order (s : Session) (source : String) {i : Nat} {tree : Tree}
    (h : (s.parse source).1[i]? = some tree) :
    let lexemes := (tokenize source).lexemes
    let errors := tree.diagnostics.grammatical
    errors.Pairwise (·.column ≤ ·.column) ∧
    (∀ first ∈ errors.head?, ∀ e ∈ errors, first.column ≤ e.column) ∧
    ((∃ (own : Statement) (before after : List Lexeme),
        own.StandsIn (source.length + 1) lexemes i before after ∧
        (∀ e ∈ errors, own.start.column ≤ e.column ∧ e.column ≤ own.ending.column) ∧
        (tree.root = none → ¬ own.isDeclaration → tree.diagnostics ≠ [])) ∨
      StatementStart lexemes i ∧ errors = []) := by
  have hl : (tokenize source).lexemes.Pairwise (·.column < ·.column) := pairwise_lexemes 1 _
  have hend : ∀ l ∈ (tokenize source).lexemes, l.column < source.length + 1 := by
    intro l hm
    have hbound := (column_bounds (.lexeme hm)).2
    rwa [String.length_toList, Nat.add_comm] at hbound
  obtain ⟨own, before, after, table, hstands, rfl⟩ | ⟨hstart, -, -, rfl⟩ :=
    Program.exists_read hl (pairwise_errors 1 _) h
  · obtain ⟨c, ⟨hc, hending⟩, hd⟩ := Statement.inOrder_read s.limits.parseDepth table
      ((tokenize source).errors.filter (liesBetween before after ·.column))
      (hstands.inOrder_start hl hend)
    dsimp only
    rw [hd, Diagnostics.grammatical_ofReading, ← hd]
    refine ⟨hc.pairwise_errors, leftmost_of_pairwise hc.pairwise_errors,
      .inl ⟨own, before, after, hstands, fun e he => ?_, fun hr hs => Statement.diagnostics_ne_nil hs hr⟩⟩
    rw [← hending]
    exact hc.error_bounds (List.mem_reverse.mp he)
  · dsimp only
    rw [Diagnostics.grammatical_ofReading]
    exact ⟨.nil, leftmost_of_pairwise .nil, .inr ⟨hstart, rfl⟩⟩

/-- A declaration whose name is taken and one of whose parameters is repeated: each is reported at a
name, and the missing semicolon at the end of the text. -/
theorem parse_in_order_declaration :
    let f : FunctionDef := ⟨"f", [], [], .of .string, .string 1 "", 1⟩
    let s : Session := { Session.new {} 0 with functions := ⟨[f]⟩ }
    let source := "x; function f(x, x) => x"
    let errors : List SyntaxError := [⟨.functionDefined "f", 13⟩, ⟨.repeatedParameter "x", 18⟩,
      ⟨.unexpectedEnd (.token (.symbol .semicolon)), 25⟩]
    (s.parse source).1[1]? = some ⟨none, .ofReading [] errors⟩ ∧
    errors.Pairwise (·.column ≤ ·.column) ∧
    ∃ (own : Statement) (before after : List Lexeme),
      own.StandsIn (source.length + 1) (tokenize source).lexemes 1 before after ∧
      ∀ e ∈ errors, own.start.column ≤ e.column ∧ e.column ≤ own.ending.column := by
  intro f s source errors
  have htree : (s.parse source).1[1]? = some ⟨none, .ofReading [] errors⟩ := by
    dsimp only [s, f, source, errors]
    cbv
  have hnone : errors ≠ [] := List.cons_ne_nil _ _
  obtain ⟨hpairwise, -, ⟨own, before, after, hstands, hbounds, -⟩ | ⟨-, he⟩⟩ :=
    parse_in_order s source htree
  · rw [Diagnostics.grammatical_ofReading] at hpairwise hbounds
    exact ⟨htree, hpairwise, own, before, after, hstands, hbounds⟩
  · rw [Diagnostics.grammatical_ofReading] at he
    exact absurd he hnone

end Session

end ExprScript
