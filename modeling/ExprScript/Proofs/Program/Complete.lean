import ExprScript.Proofs.Program.Cut
import ExprScript.Proofs.Reading.Complete
import Mathlib

/-!
# The written-out tree is read again

The tokens of a tree that is grouped as the binding powers dictate, and a semicolon, are a source text
of one statement. The limit on levels decides alone what it is read into.

* `Expr.token_ne_semicolon`: no tree is spelled with a semicolon;
* **`Program.readLexing_of_tokens`**: below the limit, the text is read into the tree; above it, the
  only diagnostic says that the limit was reached.
-/

namespace ExprScript

/-! ## Spellings have no semicolon -/

theorem BinaryOp.token_ne_semicolon (op : BinaryOp) : op.token ≠ .symbol .semicolon := by
  rcases op with op | op | op | op | _ <;> first | (cases op <;> decide) | decide

theorem UnaryOp.token_ne_semicolon (op : UnaryOp) : op.token ≠ .symbol .semicolon := by
  cases op <;> decide

/-- Whether no mark is a semicolon. -/
def Unended (ms : List Mark) : Prop := ∀ m ∈ ms, m.token ≠ .symbol .semicolon

namespace Unended

@[simp] theorem nil : Unended [] := List.forall_mem_nil _

@[simp] theorem cons_iff {m : Mark} {ms : List Mark} :
    Unended (m :: ms) ↔ m.token ≠ .symbol .semicolon ∧ Unended ms :=
  List.forall_mem_cons

@[simp] theorem append_iff {ms ns : List Mark} : Unended (ms ++ ns) ↔ Unended ms ∧ Unended ns :=
  List.forall_mem_append

@[simp] theorem parens_iff {ms : List Mark} : Unended (parens ms) ↔ Unended ms := by
  simp [parens]

@[simp] theorem pairParens_iff {ms ns : List Mark} :
    Unended (pairParens ms ns) ↔ Unended ms ∧ Unended ns := by
  simp [pairParens]

@[simp] theorem separator (es : List Expr) : Unended (separator es) := by
  cases es <;> simp [ExprScript.separator]

@[simp] theorem bindingsSeparator (b : Bindings) : Unended b.separator := by
  cases b <;> simp [Bindings.separator]

end Unended

mutual

/-- No tree is spelled with a semicolon. -/
theorem Expr.unended_marks : (e : Expr) → Unended e.marks
  | .number .. | .string .. | .bool .. | .constant .. | .variable .. | .rand .. | .method ..
  | .error .. => by simp [Expr.marks]
  | .unary _ op operand => by
    simp [Expr.marks, op.token_ne_semicolon, operand.unended_marks]
  | .binary _ left op right => by
    simp [Expr.marks, op.token_ne_semicolon, left.unended_marks, right.unended_marks]
  | .paren _ e | .print _ e | .math _ _ e | .index _ _ e | .forEach _ _ _ _ e => by
    simp [Expr.marks, e.unended_marks]
  | .log _ e₁ e₂ | .while _ e₁ e₂ | .range _ e₁ e₂ => by
    simp [Expr.marks, e₁.unended_marks, e₂.unended_marks]
  | .forRange _ _ e₁ e₂ e₃ => by
    simp [Expr.marks, e₁.unended_marks, e₂.unended_marks, e₃.unended_marks]
  | .ifThen _ condition body rest => by
    simp [Expr.marks, condition.unended_marks, body.unended_marks, rest.unended_marks]
  | .letIn _ bindings => by simp [Expr.marks, bindings.unended_marks]
  | .call _ _ es | .vector _ es => by simp [Expr.marks, unended_marksAll es]

theorem unended_marksAll : (es : List Expr) → Unended (marksAll es)
  | [] => Unended.nil
  | e :: rest => by simp [marksAll, e.unended_marks, unended_marksAll rest]

theorem Branches.unended_marks : (b : Branches) → Unended b.marks
  | .elif condition body rest => by
    simp [Branches.marks, condition.unended_marks, body.unended_marks, rest.unended_marks]
  | .otherwise body => by simp [Branches.marks, body.unended_marks]

theorem Bindings.unended_marks : (b : Bindings) → Unended b.marks
  | .bind _ _ value rest => by
    simp [Bindings.marks, value.unended_marks, rest.unended_marks]
  | .body body => by simp [Bindings.marks, body.unended_marks]

end

/-! ## One statement -/

namespace Statement

/-- A statement that starts like an expression is read as one. -/
theorem read_of_startsExpression {limit : Nat} {table : FunctionTable} {lexical : List LexicalError}
    {s : Statement} {t : Token} (h : s.lexemes.head?.map Lexeme.token = some t)
    (ht : t.startsExpression = true) :
    s.read limit table lexical = (s.readExpression limit lexical, table) := by
  unfold read
  split
  · next hf =>
    rw [hf] at h
    cases h
    cases ht
  · rfl

/-- **A tree that is written out in front of a semicolon is read again**, up to columns, if it fits
the limit, and nothing but the limit is reported if it does not. -/
theorem readExpression_of_tokens (limit : Nat) {t : Expr} (hw : t.complete) (hg : t.grouped)
    {s : Statement} {column : Nat} (hs : s.lexemes.map Lexeme.token = t.tokens)
    (he : s.ending = .semicolon column) :
    (t.need ≤ limit → ∃ root, s.readExpression limit [] = ⟨some root, []⟩ ∧ root.plain = t.plain) ∧
    (limit < t.need → ∃ column', s.readExpression limit [] =
      ⟨none, [.grammatical ⟨.tooDeep limit, column'⟩]⟩) := by
  have hm : s.start.Holds t.marks ⟨[], s.ending, []⟩ := by
    have h : Cursor.Holds ⟨s.lexemes ++ [], s.ending, []⟩ t.marks ⟨[], s.ending, []⟩ :=
      Cursor.holds_of_map_token hs
    rwa [List.append_nil] at h
  have hc : Cursor.Closed ⟨[], s.ending, []⟩ := ⟨rfl, fun t ht => by cases ht⟩
  have hread : Reading.Completes (Reading.expressionAt limit 1) s.start ⟨[], s.ending, []⟩ _ _ :=
    Reading.rereads_of_holdsFrom (Cursor.holdsFrom_of_closed hm hw hg hc)
  constructor
  · intro hn
    obtain ⟨root, ⟨hrun, -⟩, hp⟩ := hread.reads hn
    refine ⟨root, ?_, hp⟩
    unfold readExpression
    rw [EStateM.run, hrun, he]
    rfl
  · intro hn
    obtain ⟨e, c, hrun, herr⟩ := hread.fails (Nat.not_le_of_lt hn)
    refine ⟨e.column, ?_⟩
    unfold readExpression
    rw [EStateM.run, hrun]
    change failed [] (c.report (.tooDeep limit) e.column) = _
    rw [failed, Cursor.report, herr]
    rfl

end Statement

/-- **A tree that is written out with a semicolon is read again.** The tokens of a tree, without
missing parts and grouped as the binding powers dictate, are read into that tree alone, up to
columns, if its need is within the limit; if it is not, they are read into one tree without a root,
and its only diagnostic says so. -/
theorem Program.readLexing_of_tokens (limit : Nat) (table : FunctionTable) (endColumn : Nat) {t : Expr}
    (hw : t.complete) (hg : t.grouped) {lexing : Lexing} (he : lexing.errors = [])
    (hl : lexing.lexemes.map Lexeme.token = t.tokens ++ [.symbol .semicolon]) :
    (t.need ≤ limit → ∃ root,
      readLexing limit table endColumn lexing = ([⟨some root, []⟩], table) ∧ root.plain = t.plain) ∧
    (limit < t.need → ∃ column, readLexing limit table endColumn lexing =
      ([⟨none, [.grammatical ⟨.tooDeep limit, column⟩]⟩], table)) := by
  obtain ⟨own, last, hsplit, hown, hlast⟩ := List.map_eq_append_iff.mp hl
  obtain ⟨l, rfl, hsemi⟩ : ∃ l, last = [l] ∧ l.token = .symbol .semicolon := by
    rw [List.map_eq_singleton_iff] at hlast
    obtain ⟨l, hl, ht⟩ := hlast
    exact ⟨l, hl, ht⟩
  have hn : ∀ l ∈ own, ¬ l.endsStatement := by
    intro l hl
    obtain ⟨m, hm, ht⟩ := List.mem_map.mp (hown ▸ List.mem_map_of_mem hl)
    rw [Lexeme.endsStatement, ← ht, decide_eq_true_eq]
    exact t.unended_marks m hm
  have hs : statements endColumn lexing.lexemes = [⟨own, .semicolon l.column⟩] := by
    obtain ⟨token, column⟩ := l
    obtain rfl : token = .symbol .semicolon := hsemi
    rw [hsplit]
    exact statements_eq_singleton hn
  have hread : readLexing limit table endColumn lexing =
      ([Statement.readExpression limit [] ⟨own, .semicolon l.column⟩], table) := by
    obtain ⟨m, ms, hms, hstart⟩ := t.exists_marks_eq_cons hw
    have hhead : own.head?.map Lexeme.token = some m.token := by
      rw [← List.head?_map, hown, Expr.tokens, hms]
      rfl
    rw [readLexing, he, hs, readAll_cons]
    dsimp only [List.takeWhile_nil, List.dropWhile_nil]
    rw [Statement.read_of_startsExpression hhead hstart]
    rfl
  obtain ⟨hfits, hdeep⟩ := Statement.readExpression_of_tokens limit hw hg
    (s := ⟨own, .semicolon l.column⟩) hown rfl
  rw [hread]
  constructor
  · intro hn
    obtain ⟨root, hr, hp⟩ := hfits hn
    exact ⟨root, by rw [hr], hp⟩
  · intro hn
    obtain ⟨column, hc⟩ := hdeep hn
    exact ⟨column, by rw [hc]⟩

/-- The text `a - -(b);`, whose tree needs four levels. -/
theorem Program.readLexing_of_tokens_subtraction :
    (∃ root, readLexing 4 .empty 10 (tokenize "a - -(b);") = ([⟨some root, []⟩], .empty) ∧
      root.plain = .binary 0 (.variable 0 "a") (.arithmetic .sub)
        (.unary 0 .negate (.paren 0 (.variable 0 "b")))) ∧
    ∃ column, readLexing 3 .empty 10 (tokenize "a - -(b);") =
      ([⟨none, [.grammatical ⟨.tooDeep 3, column⟩]⟩], .empty) := by
  have he : (tokenize "a - -(b);").errors = [] := by cbv
  have hl : (tokenize "a - -(b);").lexemes.map Lexeme.token =
      (Expr.binary 0 (.variable 0 "a") (.arithmetic .sub)
        (.unary 0 .negate (.paren 0 (.variable 0 "b")))).tokens ++ [.symbol .semicolon] := by cbv
  exact ⟨(readLexing_of_tokens 4 .empty 10 rfl rfl he hl).1 (by decide),
    (readLexing_of_tokens 3 .empty 10 rfl rfl he hl).2 (by decide)⟩

end ExprScript
