import ExprScript.Proofs.Program.Append

/-!
# What trees report

A tree reports the lexical errors of its statement first and then the grammatical ones. Each lexical
error of a text is in the tree of the statement that it stands in; those behind the last statement
make up a tree of their own.

* `Diagnostics.lexical`, `Diagnostics.grammatical`, `Diagnostics.ofReading`: the errors of each phase;
* **`Statement.read_reports`**: what the reader of statements reports, however it stops;
* `Program.exists_read_of_readAll`: the tree of a number, and the errors that it takes;
* `liesBetween`, `Program.exists_read`: **the errors that a statement takes stand in it**;
* **`Session.parse_distributes`**: lexical errors are distributed over trees without loss.
-/

namespace ExprScript

/-! ## Diagnostics of two phases -/

namespace Diagnostics

/-- The lexical errors among diagnostics. -/
def lexical (ds : Diagnostics) : List LexicalError :=
  ds.filterMap fun
    | .lexical e => some e
    | _ => none

/-- The grammatical errors among diagnostics. -/
def grammatical (ds : Diagnostics) : List SyntaxError :=
  ds.filterMap fun
    | .grammatical e => some e
    | _ => none

/-- Lexical errors, and grammatical ones behind them. -/
def ofReading (lexical : List LexicalError) (grammatical : List SyntaxError) : Diagnostics :=
  lexical.map .lexical ++ grammatical.map .grammatical

variable (ls : List LexicalError) (gs : List SyntaxError)

@[simp] theorem lexical_ofReading : (ofReading ls gs).lexical = ls := by
  simp [ofReading, lexical, List.filterMap_append, List.filterMap_map]

@[simp] theorem grammatical_ofReading : (ofReading ls gs).grammatical = gs := by
  simp [ofReading, grammatical, List.filterMap_append, List.filterMap_map]

end Diagnostics

/-! ## One statement -/

namespace Statement

/-- Whether a statement is a declaration. -/
def isDeclaration (s : Statement) : Prop :=
  s.lexemes.head?.map Lexeme.token = some (.keyword .functionK)

theorem read_of_isDeclaration {s : Statement} (h : s.isDeclaration) (limit : Nat) (table : FunctionTable)
    (lexical : List LexicalError) :
    s.read limit table lexical = s.readDeclaration limit table lexical := by
  rw [read, h]

theorem read_of_not_isDeclaration {s : Statement} (h : ¬ s.isDeclaration) (limit : Nat)
    (table : FunctionTable) (lexical : List LexicalError) :
    s.read limit table lexical = (s.readExpression limit lexical, table) := by
  unfold read
  split
  · next h' => exact absurd h' h
  · rfl

/-- What is asked of the ends of a reading, so that the cursor that a statement reports from has a
property: success leaves it as it is, and a reading that is broken off reports that. -/
def EndsWith {α : Type} (limit : Nat) (Q : Cursor → Prop) (R : α → Cursor → Prop) :
    EStateM.Result TooDeep Cursor α → Prop
  | .ok a c => Q c ∧ R a c
  | .error e c => Q (c.report (.tooDeep limit) e.column)

variable {limit : Nat} {table : FunctionTable} {lexical : List LexicalError} {s : Statement}
  {Q : Cursor → Prop}

theorem finish_reports (hu : ∀ c expected, Q c → Q (c.unexpected expected)) {c : Cursor} (hc : Q c)
    (lexical : List LexicalError) (root : Option Expr) :
    ∃ c', Q c' ∧ (finish lexical root c).diagnostics = .ofReading lexical c'.errors.reverse := by
  unfold finish
  split
  · exact ⟨c, hc, rfl⟩
  · exact ⟨_, hu c _ hc, rfl⟩

/-- **What the reader of statements reports**: its lexical errors, and then the errors of a cursor. To
show something of this cursor, show it where reading stops; that a body produces no value is
reported at the name, and there is no other error then. -/
theorem read_reports (lexical : List LexicalError)
    (hu : ∀ c expected, Q c → Q (c.unexpected expected))
    (he : EndsWith limit Q (fun _ _ => True) ((Reading.expressionAt limit 1).run s.start))
    (hd : s.isDeclaration → EndsWith limit Q
      (fun d c => c.errors = [] → c.complete → Q (c.report (.uninferableBody d.name) d.column))
      ((Reading.declaration table (Reading.expressionAt limit)).run s.start)) :
    ∃ c, Q c ∧ (s.read limit table lexical).1.diagnostics = .ofReading lexical c.errors.reverse := by
  by_cases h : s.isDeclaration
  · rw [read_of_isDeclaration h, readDeclaration]
    have hend := hd h
    generalize (Reading.declaration table (Reading.expressionAt limit)).run s.start = r at hend ⊢
    cases r with
    | error e c => exact ⟨_, hend, rfl⟩
    | ok d c =>
      obtain ⟨hc, hbody⟩ := hend
      dsimp only
      split
      · next hclean =>
        simp only [Bool.and_eq_true, List.isEmpty_iff] at hclean
        obtain ⟨⟨rfl, herrors⟩, hcomplete⟩ := hclean
        split
        · exact ⟨c, hc, by rw [herrors]; rfl⟩
        · exact ⟨_, hbody herrors hcomplete, rfl⟩
      · exact finish_reports hu hc lexical none
  · rw [read_of_not_isDeclaration h, readExpression]
    generalize (Reading.expressionAt limit 1).run s.start = r at he ⊢
    cases r with
    | error e c => exact ⟨_, he, rfl⟩
    | ok root c => exact finish_reports hu he.1 lexical (some root)

/-- A tree reports the lexical errors that it is given first. -/
theorem exists_ofReading (limit : Nat) (table : FunctionTable) (lexical : List LexicalError)
    (s : Statement) :
    ∃ gs, (s.read limit table lexical).1.diagnostics = .ofReading lexical gs := by
  have hend : ∀ {α : Type} {R : α → Cursor → Prop}, (∀ a c, R a c) →
      ∀ r, EndsWith limit (fun _ => True) R r := by
    intro α R hR r
    cases r with
    | ok a c => exact ⟨trivial, hR a c⟩
    | error e c => trivial
  obtain ⟨c, -, hc⟩ := @read_reports limit table s (fun _ => True) lexical (fun _ _ _ => trivial)
    (hend (fun _ _ => trivial) _) fun _ => hend (fun _ _ _ _ => trivial) _
  exact ⟨_, hc⟩

@[simp] theorem lexical_read (limit : Nat) (table : FunctionTable) (lexical : List LexicalError)
    (s : Statement) : (s.read limit table lexical).1.diagnostics.lexical = lexical := by
  obtain ⟨gs, h⟩ := exists_ofReading limit table lexical s
  rw [h, Diagnostics.lexical_ofReading]

end Statement

/-! ## All statements -/

/-- Whether a column lies behind what is in front of a statement, and not behind what ends it. -/
def liesBetween (before after : List Lexeme) (column : Nat) : Bool :=
  (before.getLast?.all fun l => l.column < column) && after.head?.all fun l => column ≤ l.column

namespace Program

theorem takeWhile_belongs_eq_filter {errors : List LexicalError} (ending : Ending)
    (h : errors.Pairwise (·.column < ·.column)) :
    errors.takeWhile (belongs ending) = errors.filter (belongs ending) := by
  have htake : (errors.takeWhile (belongs ending)).filter (belongs ending) =
      errors.takeWhile (belongs ending) :=
    List.filter_eq_self.mpr fun e he => List.mem_takeWhile_imp he
  have hdrop : (errors.dropWhile (belongs ending)).filter (belongs ending) = [] := by
    rw [dropWhile_belongs_eq_filter ending h, List.filter_filter]
    simp
  conv_rhs => rw [← List.takeWhile_append_dropWhile (p := belongs ending) (l := errors)]
  rw [List.filter_append, htake, hdrop, List.append_nil]

/-- **The tree of a number** is that of the statement of this number, with the errors that it takes of
those that the statements before it have left over; or it is made up of what all statements have
left over. -/
theorem exists_read_of_readAll {limit i : Nat} {table : FunctionTable} {errors : List LexicalError}
    {ss : List Statement} {tree : Tree} (h : (readAll limit table errors ss).1[i]? = some tree) :
    (∃ s table', ss[i]? = some s ∧ tree =
      (s.read limit table' ((leftOver errors (ss.take i)).takeWhile (belongs s.ending))).1) ∨
    i = ss.length ∧ leftOver errors ss ≠ [] ∧ tree = ⟨none, (leftOver errors ss).map .lexical⟩ := by
  induction ss generalizing i table errors with
  | nil =>
    cases errors with
    | nil => simp [readAll] at h
    | cons e errors =>
      cases i with
      | zero =>
        obtain rfl := Option.some.inj h
        exact .inr ⟨rfl, List.cons_ne_nil _ _, rfl⟩
      | succ i => simp [readAll] at h
  | cons s rest ih =>
    rw [readAll_cons] at h
    cases i with
    | zero =>
      obtain rfl := Option.some.inj h
      exact .inl ⟨s, table, rfl, rfl⟩
    | succ i =>
      obtain ⟨s', table', hs, ht⟩ | ⟨rfl, hleft, ht⟩ := ih h
      · exact .inl ⟨s', table', hs, ht⟩
      · exact .inr ⟨rfl, hleft, ht⟩

/-- **No lexical error is lost**, whatever statements there are. -/
theorem flatMap_lexical_readAll (limit : Nat) (table : FunctionTable) (errors : List LexicalError)
    (ss : List Statement) :
    ((readAll limit table errors ss).1.flatMap fun tree => tree.diagnostics.lexical) = errors := by
  induction ss generalizing table errors with
  | nil =>
    cases errors with
    | nil => rfl
    | cons e errors =>
      have h := Diagnostics.lexical_ofReading (e :: errors) []
      simpa [readAll, Diagnostics.ofReading] using h
  | cons s rest ih =>
    rw [readAll_cons]
    dsimp only
    rw [List.flatMap_cons, ih, Statement.lexical_read, List.takeWhile_append_dropWhile]

/-! ## Where errors stand -/

theorem unfinished_of_start {before : List Lexeme} {i : Nat} (h : StatementStart before i) :
    unfinished before = false := by
  unfold unfinished
  cases hl : before.getLast? with
  | none => rfl
  | some l => simp [h.last l hl]

/-- The statements in front of a part of a text. -/
theorem take_statements {before behind : List Lexeme} {i : Nat} (h : StatementStart before i)
    (endColumn : Nat) :
    (statements endColumn (before ++ behind)).take i = statements endColumn before := by
  cases hl : before.getLast? with
  | none =>
    obtain rfl := List.getLast?_eq_none_iff.mp hl
    obtain rfl : 0 = i := h.count
    rfl
  | some l =>
    have hlength : (statements endColumn before).length = i := by
      rw [length_statements, unfinished_of_start h, h.count]
      rfl
    rw [statements_append ⟨l, hl, h.last l hl⟩ endColumn endColumn, List.take_left' hlength]

theorem trailing_of_start {before : List Lexeme} {i : Nat} (h : StatementStart before i)
    (errors : List LexicalError) :
    (Lexing.mk before errors).trailing =
      errors.filter fun e => before.getLast?.all fun l => l.column < e.column := by
  unfold Lexing.trailing
  dsimp only
  cases hl : before.getLast? with
  | none => exact (List.filter_eq_self.mpr fun _ _ => rfl).symm
  | some l => exact if_pos (h.last l hl)

theorem trailing_eq_filter {l : Lexing} {i : Nat} (h : StatementStart l.lexemes i) :
    l.trailing = l.errors.filter (liesBetween l.lexemes [] ·.column) := by
  simpa [liesBetween] using trailing_of_start h l.errors

/-- A text with errors behind all statements ends in front of a statement. -/
theorem statementStart_of_trailing {l : Lexing} (h : l.trailing ≠ []) (endColumn : Nat) :
    StatementStart l.lexemes (statements endColumn l.lexemes).length := by
  have hu : unfinished l.lexemes = false := by
    unfold Lexing.trailing at h
    unfold unfinished
    split at h
    · next hlast => rw [hlast]; rfl
    · next last hlast =>
      split at h
      · next hends => simp [hlast, hends]
      · exact absurd rfl h
  refine ⟨?_, fun last hlast => ?_⟩
  · rw [length_statements, hu]
    rfl
  · rw [unfinished, hlast] at hu
    simpa using hu

/-- Errors behind all statements make up one more tree. -/
theorem length_readAll {limit : Nat} {table : FunctionTable} {errors : List LexicalError}
    {ss : List Statement} (h : leftOver errors ss ≠ []) :
    (readAll limit table errors ss).1.length = ss.length + 1 := by
  obtain ⟨trees, hn, htrees⟩ := exists_trees limit table errors ss
  rw [htrees, if_neg h, List.length_append, hn]
  rfl

/-- **The tree of a number is that of a statement and of the lexical errors that stand in it**; or no
statement is left, and it is made up of the errors behind the last one. -/
theorem exists_read {limit i endColumn : Nat} {table : FunctionTable} {lexing : Lexing} {tree : Tree}
    (hl : lexing.lexemes.Pairwise (·.column < ·.column))
    (he : lexing.errors.Pairwise (·.column < ·.column))
    (h : (readLexing limit table endColumn lexing).1[i]? = some tree) :
    (∃ (s : Statement) (before after : List Lexeme) (table' : FunctionTable),
      s.StandsIn endColumn lexing.lexemes i before after ∧
      tree = (s.read limit table' (lexing.errors.filter (liesBetween before after ·.column))).1) ∨
    StatementStart lexing.lexemes i ∧ i + 1 = (readLexing limit table endColumn lexing).1.length ∧
      lexing.errors.filter (liesBetween lexing.lexemes [] ·.column) ≠ [] ∧
      tree = ⟨none, .ofReading (lexing.errors.filter (liesBetween lexing.lexemes [] ·.column)) []⟩ := by
  obtain ⟨s, table', hs, ht⟩ | ⟨hi, hleft, ht⟩ := exists_read_of_readAll h
  · obtain ⟨before, after, hstands⟩ := exists_standsIn hs
    refine .inl ⟨s, before, after, table', hstands, ?_⟩
    have hbefore : before.Pairwise (·.column < ·.column) := by
      rw [hstands.split, List.append_assoc] at hl
      exact (List.pairwise_append.mp hl).1
    have hbelongs : ∀ e, belongs s.ending e = after.head?.all fun l => e.column ≤ l.column := by
      intro e
      obtain ⟨column, rest, hending, rfl⟩ | ⟨hending, rfl, -⟩ := hstands.ending
      · rw [hending]
        rfl
      · rw [hending]
        rfl
    have hsplit : lexing.lexemes = before ++ (s.lexemes ++ after) := by
      rw [hstands.split, List.append_assoc]
    rw [ht, hsplit, take_statements hstands.start,
      leftOver_eq_trailing endColumn (l := ⟨before, lexing.errors⟩) hbefore he,
      trailing_of_start hstands.start, takeWhile_belongs_eq_filter _ (he.filter _),
      List.filter_filter]
    simp only [hbelongs, liesBetween, Bool.and_comm]
  · have hlength : (readLexing limit table endColumn lexing).1.length = i + 1 := by
      rw [readLexing, length_readAll hleft, hi]
    rw [leftOver_eq_trailing endColumn hl he] at hleft ht
    have hstart : StatementStart lexing.lexemes i := hi ▸ statementStart_of_trailing hleft endColumn
    rw [trailing_eq_filter hstart] at hleft ht
    exact .inr ⟨hstart, hlength.symm, hleft, by rw [ht]; simp [Diagnostics.ofReading]⟩

end Program

namespace Session

/-- **Lexical errors are distributed over the trees of a text without loss.** The trees report them in
the order of the text, each tree in front of its grammatical errors. A tree is that of the statement
of its number, and reports the errors behind the semicolon in front of the statement and up to its
own, if there are such; the errors behind all statements make up a last tree without a root. -/
theorem parse_distributes (s : Session) (source : String) :
    let lexing := tokenize source
    let trees := (s.parse source).1
    (trees.flatMap fun tree => tree.diagnostics.lexical) = lexing.errors ∧
    (∀ tree ∈ trees, tree.diagnostics =
      .ofReading tree.diagnostics.lexical tree.diagnostics.grammatical) ∧
    ∀ i tree, trees[i]? = some tree →
      (∃ (own : Statement) (before after : List Lexeme) (table : FunctionTable),
        own.StandsIn (source.length + 1) lexing.lexemes i before after ∧
        tree = (own.read s.limits.parseDepth table tree.diagnostics.lexical).1 ∧
        tree.diagnostics.lexical = lexing.errors.filter (liesBetween before after ·.column)) ∨
      StatementStart lexing.lexemes i ∧ i + 1 = trees.length ∧ tree.root = none ∧
        tree.diagnostics.lexical ≠ [] ∧ tree.diagnostics.grammatical = [] ∧
        tree.diagnostics.lexical =
          lexing.errors.filter (liesBetween lexing.lexemes [] ·.column) := by
  intro lexing trees
  have hl : lexing.lexemes.Pairwise (·.column < ·.column) := pairwise_lexemes 1 _
  have he : lexing.errors.Pairwise (·.column < ·.column) := pairwise_errors 1 _
  refine ⟨Program.flatMap_lexical_readAll _ _ _ _, fun tree htree => ?_, fun i tree htree => ?_⟩
  · obtain ⟨i, hi⟩ := List.mem_iff_getElem?.mp htree
    obtain ⟨own, before, after, table, -, rfl⟩ | ⟨-, -, -, rfl⟩ := Program.exists_read hl he hi
    · obtain ⟨gs, hgs⟩ := Statement.exists_ofReading s.limits.parseDepth table
        (lexing.errors.filter (liesBetween before after ·.column)) own
      rw [hgs, Diagnostics.lexical_ofReading, Diagnostics.grammatical_ofReading]
    · rw [Diagnostics.lexical_ofReading, Diagnostics.grammatical_ofReading]
  · obtain ⟨own, before, after, table, hstands, rfl⟩ | ⟨hstart, hi, hne, rfl⟩ :=
      Program.exists_read hl he htree
    · refine .inl ⟨own, before, after, table, hstands, ?_, Statement.lexical_read _ _ _ _⟩
      rw [Statement.lexical_read]
    · refine .inr ⟨hstart, hi, rfl, ?_, Diagnostics.grammatical_ofReading _ _,
        Diagnostics.lexical_ofReading _ _⟩
      rwa [Diagnostics.lexical_ofReading]

/-- The second of three trees: its statement has a lexical error in front of a grammatical one. -/
theorem parse_distributes_second :
    let source := "$ f; x $ y; $"
    let trees := ((Session.new {} 0).parse source).1
    (trees.flatMap fun tree => tree.diagnostics.lexical) =
      [⟨.invalidToken, "$", 1⟩, ⟨.invalidToken, "$", 8⟩, ⟨.invalidToken, "$", 13⟩] ∧
    trees[1]? = some ⟨none, .ofReading [⟨.invalidToken, "$", 8⟩]
      [⟨.unexpectedToken (.identifier "y") (.token (.symbol .semicolon)), 10⟩]⟩ ∧
    ∃ (own : Statement) (before after : List Lexeme),
      own.StandsIn (source.length + 1) (tokenize source).lexemes 1 before after ∧
      (tokenize source).errors.filter (liesBetween before after ·.column) =
        [⟨.invalidToken, "$", 8⟩] := by
  intro source trees
  have hlexical : (trees.flatMap fun tree => tree.diagnostics.lexical) =
      [⟨.invalidToken, "$", 1⟩, ⟨.invalidToken, "$", 8⟩, ⟨.invalidToken, "$", 13⟩] := by
    dsimp only [trees, source]
    cbv
  have htree : trees[1]? = some ⟨none, .ofReading [⟨.invalidToken, "$", 8⟩]
      [⟨.unexpectedToken (.identifier "y") (.token (.symbol .semicolon)), 10⟩]⟩ := by
    dsimp only [trees, source]
    cbv
  have hlength : trees.length = 3 := by
    dsimp only [trees, source]
    cbv
  refine ⟨hlexical, htree, ?_⟩
  obtain ⟨own, before, after, table, hstands, -, hfilter⟩ | ⟨-, hi, -⟩ :=
    (parse_distributes (Session.new {} 0) source).2.2 1 _ htree
  · exact ⟨own, before, after, hstands, by rw [← hfilter, Diagnostics.lexical_ofReading]⟩
  · exact absurd (hi.trans hlength) (by decide)

end Session

end ExprScript
