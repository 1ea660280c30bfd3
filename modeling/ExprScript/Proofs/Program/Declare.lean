import ExprScript.Proofs.Lexing.Names
import ExprScript.Proofs.Program.Append
import ExprScript.Proofs.Program.Sound
import ExprScript.Proofs.Reading.Declaration
import ExprScript.Proofs.Ty.Table

/-!
# Declarations take effect as a whole

A statement adds a function to the table if nothing at all is wrong with it, and leaves the table as
it was otherwise. Its tree tells which: that of a declaration that takes effect has neither a root
nor diagnostics, and no other tree is like that.

* `Tree.declares`: the trees of declarations that take effect;
* `FunctionTable.Adds`: a table with one more function, and what that is told of its types;
* `Statement.adds_of_read`, `Statement.table_of_read`: what a statement does to the table;
* `Lexing.DeclaresAt`: the statement of a number is the declaration of a function;
* **`Program.exists_tables`**: what the statements of a text do to the table, one after the other;
* `Program.read_induction`: induction on the functions that a text adds.
-/

namespace ExprScript

/-- Whether a tree is that of a declaration that takes effect: there is nothing in it. -/
def Tree.declares (t : Tree) : Bool := t.root.isNone && t.diagnostics.isEmpty

/-- **A function is added to a table**: behind its other functions, under a name that was not taken,
and with the types that are told of its body under the table before. -/
structure FunctionTable.Adds (before after : FunctionTable) (f : FunctionDef) : Prop where
  entries : after.entries = before.entries ++ [f]
  fresh : before.contains f.name = false
  nodup : f.params.Nodup
  complete : f.body.complete
  grouped : f.body.grouped
  returnType : f.returnType = Ty.infer before (parameterScope f.params) f.body
  inferable : f.returnType ≠ .never
  paramTypes : f.paramTypes = f.params.map fun p => Ty.usage before p f.body

/-- What the function of a declaration has from the declaration, and what it is told. -/
theorem Declaration.define?_eq_some {table : FunctionTable} {d : Declaration} {f : FunctionDef}
    (h : d.define? table = some f) :
    declarationMarks d.column d.name d.params d.body = f.marks ∧ d.name = f.name ∧
      d.params = f.params ∧ d.body = f.body ∧
      f.returnType = Ty.infer table (FunctionTable.parameterScope f.params) f.body ∧
      f.returnType ≠ .never ∧ f.paramTypes = f.params.map fun p => Ty.usage table p f.body := by
  unfold Declaration.define? at h
  dsimp only at h
  split at h
  · cases h
  · next hn =>
    cases h
    exact ⟨rfl, rfl, rfl, rfl, rfl, hn, rfl⟩

/-! ## One statement -/

namespace Statement

theorem declares_failed (lexical : List LexicalError) (c : Cursor) :
    (failed lexical c).declares ↔ lexical = [] ∧ c.errors = [] := by
  simp [Tree.declares, failed]

theorem errors_unexpected_ne_nil (c : Cursor) (expected : Expected) :
    (c.unexpected expected).errors ≠ [] := by
  unfold Cursor.unexpected
  split <;> exact List.cons_ne_nil _ _

theorem declares_finish (lexical : List LexicalError) (root : Option Expr) (c : Cursor) :
    (finish lexical root c).declares ↔
      root = none ∧ lexical = [] ∧ c.errors = [] ∧ c.complete := by
  unfold finish
  by_cases hc : c.complete
  · rw [if_pos hc]
    simp [Tree.declares, failed, hc]
  · rw [if_neg hc, declares_failed]
    simp [errors_unexpected_ne_nil, hc]

theorem not_declares_brokenOff (limit : Nat) (lexical : List LexicalError) (e : TooDeep)
    (c : Cursor) : ¬ (brokenOff limit lexical e c).declares := by
  rw [brokenOff, declares_failed]
  exact fun h => List.cons_ne_nil _ _ h.2

theorem not_declares_readExpression (limit : Nat) (lexical : List LexicalError) (s : Statement) :
    ¬ (s.readExpression limit lexical).declares := by
  unfold readExpression
  split
  · simp [declares_finish]
  · exact not_declares_brokenOff _ _ _ _

variable {limit : Nat} {table : FunctionTable} {lexical : List LexicalError} {s : Statement}

/-- **A declaration that takes effect** has been read to its end without any error. -/
theorem exists_of_readDeclaration
    (h : (s.readDeclaration limit table lexical).1.declares) :
    ∃ d c f, (Reading.declaration table (Reading.expressionAt limit)).run s.start = .ok d c ∧
      lexical = [] ∧ c.errors = [] ∧ c.complete ∧ d.define? table = some f ∧
      (s.readDeclaration limit table lexical).2 = table.declare f := by
  unfold readDeclaration at h ⊢
  generalize (Reading.declaration table (Reading.expressionAt limit)).run s.start = r at h ⊢
  cases r with
  | error e c => exact absurd h (not_declares_brokenOff _ _ _ _)
  | ok d c =>
    dsimp only at h ⊢
    by_cases hc : (lexical.isEmpty && c.errors.isEmpty && c.complete) = true
    · rw [if_pos hc] at h ⊢
      simp only [Bool.and_eq_true, List.isEmpty_iff] at hc
      obtain ⟨⟨hlexical, herrors⟩, hcomplete⟩ := hc
      cases hd : d.define? table with
      | none =>
        rw [hd] at h
        exact absurd ((declares_failed _ _).mp h).2 (List.cons_ne_nil _ _)
      | some f => exact ⟨d, c, f, rfl, hlexical, herrors, hcomplete, hd, rfl⟩
    · rw [if_neg hc, declares_finish] at h
      obtain ⟨-, hlexical, herrors, hcomplete⟩ := h
      exact absurd (by simp [hlexical, herrors, hcomplete]) hc

/-- **Any other statement leaves the table as it was.** -/
theorem table_of_read (h : ¬ (s.read limit table lexical).1.declares) :
    (s.read limit table lexical).2 = table := by
  unfold read at h ⊢
  split at h
  · unfold readDeclaration at h ⊢
    split
    · next d c hrun =>
      rw [hrun] at h
      dsimp only at h ⊢
      split
      · next hc =>
        rw [if_pos hc] at h
        split
        · next f hd =>
          rw [hd] at h
          exact absurd rfl h
        · rfl
      · rfl
    · rfl
  · rfl

/-- The name of a declaration is a name, as those of texts are. -/
theorem name_ne_empty {column : Nat} {name : String} {params : List String} {body : Expr}
    {ls : List Lexeme} (h : List.Forall₂ Mark.Fits (declarationMarks column name params body) ls)
    (hn : ∀ l ∈ ls, l.token.named) : name ≠ "" := by
  unfold declarationMarks at h
  cases h with
  | cons _ h =>
    cases h with
    | @cons _ l _ _ hl _ =>
      intro he
      exact hn l (by simp) (hl.1.trans (congrArg Token.identifier he))

/-- **What a declaration adds to the table** is the function that it is spelled as. -/
theorem adds_of_read (hn : ∀ l ∈ s.lexemes, l.token.named)
    (h : (s.read limit table lexical).1.declares) :
    ∃ f column, table.Adds (s.read limit table lexical).2 f ∧
      List.Forall₂ Mark.Fits f.marks s.lexemes ∧ s.ending = .semicolon column ∧ lexical = [] := by
  unfold read at h ⊢
  split at h
  · next hk =>
    obtain ⟨d, c, f, hrun, hlexical, herrors, hcomplete, hd, htable⟩ := exists_of_readDeclaration h
    have hread := Reading.readsDeclaration_of_clean (c := s.start) hk ⟨hrun, herrors⟩
    obtain ⟨hrest, column, hcolumn⟩ := eq_nil_of_complete hcomplete
    obtain ⟨taken, htaken, hfits, hending, -⟩ := Cursor.reads_iff.mp hread.marks
    obtain rfl : s.lexemes = taken := by simpa [start, hrest] using htaken
    have hfresh := hread.fresh (name_ne_empty hfits hn)
    obtain ⟨hmarks, hname, hparams, hbody, hreturn, hnever, htypes⟩ :=
      Declaration.define?_eq_some hd
    rw [hname] at hfresh
    refine ⟨f, column, ⟨?_, hfresh, hparams ▸ hread.nodup, hbody ▸ hread.complete,
      hbody ▸ hread.grouped, hreturn, hnever, htypes⟩, hmarks ▸ hfits, hending.symm.trans hcolumn,
      hlexical⟩
    rw [htable, FunctionTable.declare, if_neg (by simp [hfresh])]
  · exact absurd h (not_declares_readExpression _ _ _)

end Statement

/-! ## All statements of a text -/

/-- **Statement number `i` of a text is the declaration of a function.** It consists of the tokens
that the declaration is spelled with, and of a semicolon, and it has no lexical error: those up to
its semicolon stand in front of an earlier one. -/
def Lexing.DeclaresAt (lexing : Lexing) (i : Nat) (f : FunctionDef) : Prop :=
  ∃ before own column after,
    lexing.lexemes = before ++ own ++ ⟨.symbol .semicolon, column⟩ :: after ∧
    StatementStart before i ∧ (∀ l ∈ own, ¬ l.endsStatement) ∧
    List.Forall₂ Mark.Fits f.marks own ∧
    ∀ e ∈ lexing.errors, e.column ≤ column → ∃ l ∈ before, l.endsStatement ∧ e.column ≤ l.column

namespace Program

/-- An error that a statement might take is taken by this or by an earlier one. -/
theorem mem_takeWhile_of_belongs {errors : List LexicalError} {ending : Ending} {e : LexicalError}
    (he : e ∈ errors) (hb : belongs ending e) (h : errors.Pairwise (·.column < ·.column)) :
    e ∈ errors.takeWhile (belongs ending) := by
  have hm : e ∈ errors.takeWhile (belongs ending) ++ errors.dropWhile (belongs ending) := by
    rwa [List.takeWhile_append_dropWhile]
  refine (List.mem_append.mp hm).resolve_right fun hd => ?_
  rw [dropWhile_belongs_eq_filter ending h, List.mem_filter, hb] at hd
  exact Bool.noConfusion hd.2

/-- **What the statements of a text do to the table**, one after the other: each is read under the
table that the ones before it leave. The errors that are left over make a tree that declares
nothing. -/
theorem exists_tables_of_readAll (limit : Nat) (table : FunctionTable) {errors : List LexicalError}
    (he : errors.Pairwise (·.column < ·.column)) (ss : List Statement) :
    ∃ tables : Nat → FunctionTable, tables 0 = table ∧
      tables (readAll limit table errors ss).1.length = (readAll limit table errors ss).2 ∧
      ∀ i tree, (readAll limit table errors ss).1[i]? = some tree →
        (¬ tree.declares ∧ tables (i + 1) = tables i) ∨
        ∃ s lexical, ss[i]? = some s ∧ s.read limit (tables i) lexical = (tree, tables (i + 1)) ∧
          ∀ e ∈ errors, belongs s.ending e →
            e ∈ lexical ∨ ∃ j s', j < i ∧ ss[j]? = some s' ∧ belongs s'.ending e := by
  induction ss generalizing table errors with
  | nil =>
    cases errors with
    | nil => exact ⟨fun _ => table, rfl, rfl, fun i tree h => by simp [readAll] at h⟩
    | cons e errors =>
      refine ⟨fun _ => table, rfl, rfl, fun i tree h => .inl ⟨?_, rfl⟩⟩
      obtain rfl := List.mem_singleton.mp (List.mem_of_getElem? h)
      exact fun h => Bool.noConfusion h
  | cons s rest ih =>
    rw [readAll_cons]
    obtain ⟨tables, h₀, hn, htables⟩ := ih (s.read limit table (errors.takeWhile _)).2
      (he.sublist (List.dropWhile_sublist (belongs s.ending)))
    refine ⟨fun n => n.casesOn table tables, rfl, hn, fun i tree h => ?_⟩
    cases i with
    | zero =>
      obtain rfl := Option.some.inj h
      refine .inr ⟨s, _, rfl, Prod.ext rfl h₀.symm, fun e hm hb => .inl ?_⟩
      exact mem_takeWhile_of_belongs hm hb he
    | succ i =>
      obtain hleft | ⟨s', lexical, hs, hread, herrors⟩ := htables i tree h
      · exact .inl hleft
      · refine .inr ⟨s', lexical, hs, hread, fun e hm hb => ?_⟩
        by_cases hfirst : belongs s.ending e
        · exact .inr ⟨0, s, Nat.succ_pos i, rfl, hfirst⟩
        · have hlater : e ∈ errors.dropWhile (belongs s.ending) := by
            rw [dropWhile_belongs_eq_filter s.ending he]
            exact List.mem_filter.mpr ⟨hm, by simp [hfirst]⟩
          obtain hown | ⟨j, s'', hj, hs'', hb''⟩ := herrors e hlater hb
          · exact .inl hown
          · exact .inr ⟨j + 1, s'', Nat.succ_lt_succ hj, hs'', hb''⟩

/-- An earlier statement ends in a semicolon in front of the later ones. -/
theorem exists_semicolon {endColumn i j : Nat} {before own after : List Lexeme} {l : Lexeme}
    {s : Statement} {e : LexicalError} (hb : StatementStart before i)
    (hs : (statements endColumn (before ++ own ++ l :: after))[j]? = some s) (hj : j < i)
    (he : belongs s.ending e) : ∃ l ∈ before, l.endsStatement ∧ e.column ≤ l.column := by
  have hlt : j < (before.filter Lexeme.endsStatement).length := by
    rwa [← List.countP_eq_length_filter, hb.count]
  have hending := congrArg (Option.map Statement.ending) hs
  rw [← List.getElem?_map, endings_statements, List.append_assoc before, List.filter_append,
    List.map_append, List.append_assoc, List.getElem?_append_left (by rwa [List.length_map]),
    List.getElem?_map, List.getElem?_eq_getElem hlt] at hending
  obtain ⟨hmem, hends⟩ := List.mem_filter.mp (List.getElem_mem hlt)
  refine ⟨_, hmem, hends, ?_⟩
  rw [← Option.some.inj hending] at he
  exact of_decide_eq_true he

/-- **Declarations take effect as a whole.** The table goes from one statement of a text to the next;
a tree without a root and without diagnostics is a declaration that adds its function, and nothing
else changes the table. -/
theorem exists_tables (limit : Nat) (table : FunctionTable) (source : String) :
    ∃ tables : Nat → FunctionTable, tables 0 = table ∧
      tables (read limit table source).1.length = (read limit table source).2 ∧
      ∀ i tree, (read limit table source).1[i]? = some tree →
        (tree.declares → ∃ f, (tables i).Adds (tables (i + 1)) f ∧ (tokenize source).DeclaresAt i f) ∧
        (¬ tree.declares → tables (i + 1) = tables i) := by
  obtain ⟨tables, h₀, hn, htables⟩ := exists_tables_of_readAll limit table
    (pairwise_errors 1 source.toList) (statements (source.length + 1) (tokenize source).lexemes)
  refine ⟨tables, h₀, hn, fun i tree h => ?_⟩
  obtain ⟨hd, ht⟩ | ⟨s, lexical, hs, hread, herrors⟩ := htables i tree h
  · exact ⟨fun hd' => absurd hd' hd, fun _ => ht⟩
  have ht : (s.read limit (tables i) lexical).2 = tables (i + 1) := congrArg Prod.snd hread
  obtain rfl : (s.read limit (tables i) lexical).1 = tree := congrArg Prod.fst hread
  rw [← ht]
  refine ⟨fun hd => ?_, Statement.table_of_read⟩
  have hnamed : ∀ l ∈ s.lexemes, l.token.named := fun l hl =>
    named_of_mem_tokenize (mem_of_mem_statements (List.mem_of_getElem? hs) hl)
  obtain ⟨f, column, hadds, hfits, hending, rfl⟩ := Statement.adds_of_read hnamed hd
  obtain ⟨before, after, hsplit, hb, hno⟩ := exists_split_of_statements hs hending
  refine ⟨f, hadds, before, s.lexemes, column, after, hsplit, hb, hno, hfits, fun e he hcolumn => ?_⟩
  have hbelongs : belongs s.ending e := by
    rw [hending]
    exact decide_eq_true hcolumn
  obtain hm | ⟨j, s', hj, hs', hb'⟩ := herrors e he hbelongs
  · cases hm
  · rw [hsplit] at hs'
    exact exists_semicolon hb hs' hj hb'

/-- **What every added function keeps, reading keeps**: induction on the declarations of a text that
take effect. -/
theorem read_induction {P : FunctionTable → Prop} {limit : Nat} {table : FunctionTable}
    {source : String} (h : P table)
    (adds : ∀ {before after f i}, P before → before.Adds after f →
      (tokenize source).DeclaresAt i f → P after) : P (read limit table source).2 := by
  obtain ⟨tables, h₀, hn, htables⟩ := exists_tables limit table source
  have hall : ∀ n ≤ (read limit table source).1.length, P (tables n) := by
    intro n hle
    induction n with
    | zero => exact h₀ ▸ h
    | succ n ih =>
      have hb := ih (Nat.le_of_succ_le hle)
      have htree := List.getElem?_eq_getElem (Nat.lt_of_succ_le hle)
      obtain ⟨hadds, hkeeps⟩ := htables n _ htree
      by_cases hd : (read limit table source).1[n].declares
      · obtain ⟨f, hf, hat⟩ := hadds hd
        exact adds hb hf hat
      · rwa [hkeeps hd]
  exact hn ▸ hall _ (Nat.le_refl _)

end Program

end ExprScript
