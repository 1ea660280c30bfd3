import ExprScript.Proofs.Lexing.Columns
import ExprScript.Proofs.Program.Cut
import ExprScript.Proofs.Reading.Follow

/-!
# Programs do not depend on columns

The statements of a text are read into the same trees wherever the text stands, and whatever the
limit on levels is, as long as no statement reaches it.

* `Tree.relocate`, `Statement.relocate`: trees and statements with their columns changed;
* `Tree.BrokenOff`: a statement that has reached the limit on levels;
* `Statement.read_relocate`: a statement at other columns, read on as many or more levels;
* **`Program.readAll_relocate`**, `Program.readLexing_relocate`: the same for all statements of a
  text.
-/

namespace ExprScript

/-- A diagnostic at another column. -/
def Diagnostic.relocate (f : Nat → Nat) : Diagnostic → Diagnostic
  | .lexical e => .lexical (e.relocate f)
  | .grammatical e => .grammatical (e.relocate f)
  | .runtime e => .runtime { e with column := f e.column }

/-- A tree at other columns. -/
def Tree.relocate (f : Nat → Nat) (t : Tree) : Tree :=
  ⟨t.root.map (Expr.relocate f), t.diagnostics.map (Diagnostic.relocate f)⟩

/-- A statement at other columns. -/
def Statement.relocate (f : Nat → Nat) (s : Statement) : Statement :=
  ⟨s.lexemes.map (Lexeme.relocate f), s.ending.relocate f⟩

/-- Whether a statement has reached the limit on levels. -/
def Tree.BrokenOff (t : Tree) : Prop :=
  ∃ limit column, Diagnostic.grammatical ⟨.tooDeep limit, column⟩ ∈ t.diagnostics

/-! ## Statements -/

namespace Statement

variable {f : Nat → Nat}

theorem failed_relocate (lexical : List LexicalError) (c : Cursor) :
    failed (lexical.map (LexicalError.relocate f)) (c.relocate f) =
      (failed lexical c).relocate f := by
  simp [failed, Tree.relocate, Cursor.relocate, Diagnostic.relocate, Function.comp_def]

theorem finish_relocate (lexical : List LexicalError) (root : Option Expr) (c : Cursor) :
    finish (lexical.map (LexicalError.relocate f)) (root.map (Expr.relocate f)) (c.relocate f) =
      (finish lexical root c).relocate f := by
  unfold finish
  rw [c.complete_relocate, failed_relocate, c.unexpected_relocate, failed_relocate]
  split <;> rfl

theorem brokenOff_relocate (limit : Nat) (lexical : List LexicalError) {e e' : TooDeep} (c : Cursor)
    (h : e'.column = f e.column) :
    brokenOff limit (lexical.map (LexicalError.relocate f)) e' (c.relocate f) =
      (brokenOff limit lexical e c).relocate f := by
  rw [brokenOff, brokenOff, ← failed_relocate, h]
  rfl

theorem brokenOff_brokenOff (limit : Nat) (lexical : List LexicalError) (e : TooDeep) (c : Cursor) :
    (brokenOff limit lexical e c).BrokenOff :=
  ⟨limit, e.column, by simp [brokenOff, failed, Cursor.report]⟩

theorem readExpression_relocate {limit limit' : Nat} {lexical : List LexicalError} {s : Statement}
    (h : LimitLe (¬ (s.readExpression limit lexical).BrokenOff) limit limit') :
    (s.relocate f).readExpression limit' (lexical.map (LexicalError.relocate f)) =
      (s.readExpression limit lexical).relocate f := by
  obtain ⟨lenient, hb, h⟩ : ∃ lenient : Prop,
      (lenient → ¬ (s.readExpression limit lexical).BrokenOff) ∧
        LimitLe lenient limit limit' := ⟨_, id, h⟩
  have hrun : (Reading.atColumns f lenient).Ends _ ((Reading.expressionAt limit 1).run s.start)
      ((Reading.expressionAt limit' 1).run (s.relocate f).start) :=
    Reading.follows_expressionAt h 1 s.start _ rfl
  unfold readExpression at hb ⊢
  generalize (Reading.expressionAt limit 1).run s.start = r at hb hrun ⊢
  generalize (Reading.expressionAt limit' 1).run (s.relocate f).start = r' at hrun ⊢
  cases hrun with
  | ok hr hc =>
    cases hr
    cases hc
    exact finish_relocate lexical (some _) _
  | error he hc =>
    cases hc
    obtain rfl := h.resolve_right fun hx => hb hx.2 (brokenOff_brokenOff _ _ _ _)
    exact brokenOff_relocate limit lexical _ he
  | excused hx => exact absurd (brokenOff_brokenOff _ _ _ _) (hb hx)

theorem readDeclaration_relocate {limit limit' k : Nat} {table : FunctionTable}
    {lexical : List LexicalError} {s : Statement} (hk : k ≤ table.entries.length)
    (h : LimitLe (¬ (s.readDeclaration limit table lexical).1.BrokenOff) limit limit') :
    (s.relocate f).readDeclaration limit' (table.relocateFrom k f)
        (lexical.map (LexicalError.relocate f)) =
      ((s.readDeclaration limit table lexical).1.relocate f,
        (s.readDeclaration limit table lexical).2.relocateFrom k f) := by
  obtain ⟨lenient, hb, h⟩ : ∃ lenient : Prop,
      (lenient → ¬ (s.readDeclaration limit table lexical).1.BrokenOff) ∧
        LimitLe lenient limit limit' := ⟨_, id, h⟩
  have hsame := table.sameTypes_relocateFrom k f
  have hrun : (Reading.atColumns f lenient).Ends _
      ((Reading.declaration table (Reading.expressionAt limit)).run s.start)
      ((Reading.declaration (table.relocateFrom k f) (Reading.expressionAt limit')).run
        (s.relocate f).start) :=
    Reading.follows_declaration hsame.contains (Reading.follows_expressionAt h) s.start _ rfl
  unfold readDeclaration at hb ⊢
  generalize (Reading.declaration table (Reading.expressionAt limit)).run s.start = r at hb hrun ⊢
  generalize (Reading.declaration (table.relocateFrom k f) (Reading.expressionAt limit')).run
    (s.relocate f).start = r' at hrun ⊢
  cases hrun with
  | ok hr hc =>
    cases hr
    cases hc
    rename_i d c
    have hlexical : (lexical.map (LexicalError.relocate f)).isEmpty = lexical.isEmpty :=
      List.isEmpty_map
    have herrors : (c.relocate f).errors.isEmpty = c.errors.isEmpty := List.isEmpty_map
    dsimp only
    rw [hlexical, herrors, c.complete_relocate, d.define?_relocate hsame]
    split
    · cases d.define? table with
      | none => exact Prod.ext (failed_relocate lexical (c.report _ _)) rfl
      | some g => exact Prod.ext rfl (FunctionTable.relocateFrom_declare f hk g).symm
    · exact Prod.ext (finish_relocate lexical none c) rfl
  | error he hc =>
    cases hc
    obtain rfl := h.resolve_right fun hx => hb hx.2 (brokenOff_brokenOff _ _ _ _)
    exact Prod.ext (brokenOff_relocate limit lexical _ he) rfl
  | excused hx => exact absurd (brokenOff_brokenOff _ _ _ _) (hb hx)

/-- **A statement at other columns**, read on as many levels, or on more of them if it has not
reached the limit. -/
theorem read_relocate {limit limit' k : Nat} {table : FunctionTable} {lexical : List LexicalError}
    {s : Statement} (hk : k ≤ table.entries.length)
    (h : LimitLe (¬ (s.read limit table lexical).1.BrokenOff) limit limit') :
    (s.relocate f).read limit' (table.relocateFrom k f) (lexical.map (LexicalError.relocate f)) =
      ((s.read limit table lexical).1.relocate f,
        (s.read limit table lexical).2.relocateFrom k f) := by
  have hhead : (s.relocate f).lexemes.head?.map Lexeme.token = s.lexemes.head?.map Lexeme.token :=
    s.start.token?_relocate f
  unfold read at h ⊢
  rw [hhead]
  split at h
  · exact readDeclaration_relocate hk h
  · exact Prod.ext (readExpression_relocate h) rfl

theorem length_le_read (limit : Nat) (table : FunctionTable) (lexical : List LexicalError)
    (s : Statement) : table.entries.length ≤ (s.read limit table lexical).2.entries.length := by
  unfold read readDeclaration
  repeat' split
  all_goals first | exact Nat.le_refl _ | exact table.length_le_declare _

end Statement

/-! ## All statements of a text -/

namespace Program

variable {f : Nat → Nat}

theorem belongs_relocate (hf : ∀ a b, f a ≤ f b ↔ a ≤ b) (ending : Ending) (e : LexicalError) :
    belongs (ending.relocate f) (e.relocate f) = belongs ending e := by
  cases ending with
  | semicolon column => exact decide_eq_decide.mpr (hf _ _)
  | endOfText column => rfl

/-- **The statements of a text at other columns**, read on as many levels, or on more of them if no
statement has reached the limit. -/
theorem readAll_relocate (hf : ∀ a b, f a ≤ f b ↔ a ≤ b) {limit limit' k : Nat}
    {table : FunctionTable} {errors : List LexicalError} {ss : List Statement}
    (hk : k ≤ table.entries.length)
    (h : LimitLe (∀ t ∈ (readAll limit table errors ss).1, ¬ t.BrokenOff) limit limit') :
    readAll limit' (table.relocateFrom k f) (errors.map (LexicalError.relocate f))
        (ss.map (Statement.relocate f)) =
      ((readAll limit table errors ss).1.map (Tree.relocate f),
        (readAll limit table errors ss).2.relocateFrom k f) := by
  induction ss generalizing table errors with
  | nil => cases errors <;> simp [readAll, Tree.relocate, Diagnostic.relocate, Function.comp_def]
  | cons s rest ih =>
    have hb : belongs (s.relocate f).ending ∘ LexicalError.relocate f = belongs s.ending :=
      funext (belongs_relocate hf s.ending)
    rw [readAll_cons] at h ⊢
    rw [List.map_cons, readAll_cons, List.takeWhile_map, List.dropWhile_map, hb]
    dsimp only at h ⊢
    rw [Statement.read_relocate hk (h.mono fun h => h _ List.mem_cons_self)]
    dsimp only
    rw [ih (Nat.le_trans hk (s.length_le_read limit table _))
      (h.mono fun h t ht => h t (List.mem_cons_of_mem _ ht))]
    rfl

theorem statements_relocate (f : Nat → Nat) (endColumn : Nat) (ls : List Lexeme) :
    statements (f endColumn) (ls.map (Lexeme.relocate f)) =
      (statements endColumn ls).map (Statement.relocate f) := by
  induction ls with
  | nil => rfl
  | cons l rest ih =>
    rw [List.map_cons, statements_cons, statements_cons, ih]
    have ht : (l.relocate f).token = l.token := rfl
    unfold place
    rw [ht]
    split
    · rfl
    · cases statements endColumn rest <;> rfl

/-- **The words of a text at other columns**, read on as many levels, or on more of them if no
statement has reached the limit. -/
theorem readLexing_relocate (hf : ∀ a b, f a ≤ f b ↔ a ≤ b) {limit limit' k : Nat}
    {table : FunctionTable} (endColumn : Nat) (lexing : Lexing) (hk : k ≤ table.entries.length)
    (h : LimitLe (∀ t ∈ (readLexing limit table endColumn lexing).1, ¬ t.BrokenOff) limit limit') :
    readLexing limit' (table.relocateFrom k f) (f endColumn) (lexing.relocate f) =
      ((readLexing limit table endColumn lexing).1.map (Tree.relocate f),
        (readLexing limit table endColumn lexing).2.relocateFrom k f) := by
  unfold readLexing at h ⊢
  dsimp only [Lexing.relocate]
  rw [statements_relocate, readAll_relocate hf hk h]

end Program

end ExprScript
