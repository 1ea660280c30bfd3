import ExprScript.Grammar.Program

/-!
# Cutting a text into statements

* `Lexeme.endsStatement`: whether a lexeme is a semicolon;
* `StatementStart`: a part of a text behind which a statement starts, with the number of the
  statement;
* `Statement.StandsIn`, **`exists_standsIn`**: a statement is the part of the text between two
  semicolons, or behind the last one;
* `statements_eq_singleton`: a text whose only semicolon is its last lexeme is one statement;
* `statements_append`, `endings_statements`: **a semicolon parts the statements**, and they end in the
  semicolons of the text;
* `read_of_readAll`: each tree with a root is read from the statement of its number.
-/

namespace ExprScript

/-- Whether a lexeme is a semicolon. -/
def Lexeme.endsStatement (l : Lexeme) : Bool := l.token = .symbol .semicolon

/-- Whether statement number `i` starts behind the given lexemes: there are as many semicolons among
them, and the last lexeme is one of these. -/
structure StatementStart (before : List Lexeme) (i : Nat) : Prop where
  count : before.countP Lexeme.endsStatement = i
  last : ∀ l ∈ before.getLast?, l.endsStatement

namespace StatementStart

theorem nil : StatementStart [] 0 := ⟨rfl, by simp⟩

theorem eq_nil {before : List Lexeme} (h : StatementStart before 0) : before = [] := by
  cases hl : before.getLast? with
  | none => exact List.getLast?_eq_none_iff.mp hl
  | some l =>
    have hm : l ∈ before := List.mem_of_getLast? hl
    have := List.countP_eq_zero.mp h.count l hm
    exact absurd (h.last l hl) this

theorem cons_semicolon {before : List Lexeme} {i : Nat} {l : Lexeme} (hl : l.endsStatement)
    (h : StatementStart before i) : StatementStart (l :: before) (i + 1) := by
  refine ⟨by rw [List.countP_cons_of_pos hl, h.count], fun l' hl' => ?_⟩
  cases before with
  | nil => simp_all
  | cons b before => exact h.last l' (by simpa using hl')

theorem cons_other {before : List Lexeme} {i : Nat} {l : Lexeme} (hl : ¬ l.endsStatement)
    (h : StatementStart before (i + 1)) : StatementStart (l :: before) (i + 1) := by
  refine ⟨by rw [List.countP_cons_of_neg hl, h.count], fun l' hl' => ?_⟩
  cases before with
  | nil => cases h.count
  | cons b before => exact h.last l' (by simpa using hl')

end StatementStart

/-- **Where statement number `i` of a text stands**: `before` is in front of it, its lexemes are no
semicolons, and `after` starts with the semicolon that it ends in, or is empty because it has none. -/
structure Statement.StandsIn (s : Statement) (endColumn : Nat) (lexemes : List Lexeme) (i : Nat)
    (before after : List Lexeme) : Prop where
  split : lexemes = before ++ s.lexemes ++ after
  start : StatementStart before i
  own : ∀ l ∈ s.lexemes, ¬ l.endsStatement
  ending : (∃ column rest, s.ending = .semicolon column ∧
      after = ⟨.symbol .semicolon, column⟩ :: rest) ∨
    s.ending = .endOfText endColumn ∧ after = [] ∧ s.lexemes ≠ []

namespace Program

theorem place_ne_nil (endColumn : Nat) (l : Lexeme) (ss : List Statement) :
    place endColumn l ss ≠ [] := by
  unfold place
  split
  · exact List.cons_ne_nil _ _
  · split <;> exact List.cons_ne_nil _ _

/-- **A statement is the part of the text between two semicolons**, or behind the last one. -/
theorem exists_standsIn {endColumn i : Nat} {lexemes : List Lexeme} {s : Statement}
    (h : (statements endColumn lexemes)[i]? = some s) :
    ∃ before after, s.StandsIn endColumn lexemes i before after := by
  induction lexemes generalizing i s with
  | nil => simp [statements] at h
  | cons l rest ih =>
    change (place endColumn l (statements endColumn rest))[i]? = some s at h
    unfold place at h
    split at h
    · next hl =>
      cases i with
      | zero =>
        obtain rfl := Option.some.inj h
        exact ⟨[], l :: rest, rfl, .nil, by simp, .inl ⟨l.column, rest, rfl, by rw [← hl]⟩⟩
      | succ i =>
        obtain ⟨before, after, hs⟩ := ih h
        exact ⟨l :: before, after, by simp [hs.split], hs.start.cons_semicolon (decide_eq_true hl),
          hs.own, hs.ending⟩
    · next hl =>
      have hl' : ¬ l.endsStatement := by simpa [Lexeme.endsStatement] using hl
      split at h
      · next first others hr =>
        rw [hr] at ih
        cases i with
        | zero =>
          obtain rfl := Option.some.inj h
          obtain ⟨before, after, hs⟩ := ih (i := 0) (s := first) rfl
          obtain rfl := hs.start.eq_nil
          refine ⟨[], after, by simp [hs.split], .nil, List.forall_mem_cons.mpr ⟨hl', hs.own⟩, ?_⟩
          exact hs.ending.imp_right fun ⟨he, ha, _⟩ => ⟨he, ha, List.cons_ne_nil _ _⟩
        | succ i =>
          obtain ⟨before, after, hs⟩ := ih (i := i + 1) h
          exact ⟨l :: before, after, by simp [hs.split], hs.start.cons_other hl', hs.own, hs.ending⟩
      · next hr =>
        have hrest : rest = [] := by
          cases rest with
          | nil => rfl
          | cons l' rest => exact absurd hr (place_ne_nil _ _ _)
        cases i with
        | zero =>
          obtain rfl := Option.some.inj h
          exact ⟨[], [], by simp [hrest], .nil, by simpa using hl',
            .inr ⟨rfl, rfl, List.cons_ne_nil _ _⟩⟩
        | succ i => simp at h

/-- A statement that ends in a semicolon is the part of the text between two semicolons. -/
theorem exists_split_of_statements {endColumn column i : Nat} {lexemes : List Lexeme}
    {s : Statement} (h : (statements endColumn lexemes)[i]? = some s)
    (he : s.ending = .semicolon column) :
    ∃ before after, lexemes = before ++ s.lexemes ++ ⟨.symbol .semicolon, column⟩ :: after ∧
      StatementStart before i ∧ ∀ l ∈ s.lexemes, ¬ l.endsStatement := by
  obtain ⟨before, after, hs⟩ := exists_standsIn h
  obtain ⟨k, rest, hk, rfl⟩ | ⟨hk, -⟩ := hs.ending
  · obtain rfl : k = column := Ending.semicolon.inj (hk.symm.trans he)
    exact ⟨before, rest, hs.split, hs.start, hs.own⟩
  · rw [he] at hk
    cases hk

/-- A text whose only semicolon is its last lexeme is one statement. -/
theorem statements_eq_singleton {endColumn column : Nat} {lexemes : List Lexeme}
    (h : ∀ l ∈ lexemes, ¬ l.endsStatement) :
    statements endColumn (lexemes ++ [⟨.symbol .semicolon, column⟩]) =
      [⟨lexemes, .semicolon column⟩] := by
  induction lexemes with
  | nil => rfl
  | cons l rest ih =>
    rw [List.forall_mem_cons] at h
    have hl : l.token ≠ .symbol .semicolon := by simpa [Lexeme.endsStatement] using h.1
    change place endColumn l (statements endColumn (rest ++ _)) = _
    rw [ih h.2, place, if_neg hl]

theorem statements_cons (endColumn : Nat) (l : Lexeme) (ls : List Lexeme) :
    statements endColumn (l :: ls) = place endColumn l (statements endColumn ls) := rfl

/-- Statements consist of the lexemes of the text. -/
theorem mem_of_mem_statements {endColumn : Nat} {ls : List Lexeme} {s : Statement} {l : Lexeme}
    (hs : s ∈ statements endColumn ls) (hl : l ∈ s.lexemes) : l ∈ ls := by
  induction ls generalizing s with
  | nil => cases hs
  | cons l' rest ih =>
    rw [statements_cons] at hs
    unfold place at hs
    split at hs
    · obtain rfl | hs := List.mem_cons.mp hs
      · cases hl
      · exact List.mem_cons_of_mem _ (ih hs hl)
    · split at hs
      · next first others hfirst =>
        rw [hfirst] at ih
        obtain rfl | hs := List.mem_cons.mp hs
        · obtain rfl | hl := List.mem_cons.mp hl
          · exact List.mem_cons_self
          · exact List.mem_cons_of_mem _ (ih List.mem_cons_self hl)
        · exact List.mem_cons_of_mem _ (ih (List.mem_cons_of_mem _ hs) hl)
      · obtain rfl := List.mem_singleton.mp hs
        obtain rfl := List.mem_singleton.mp hl
        exact List.mem_cons_self

/-! ## Statements of texts one behind the other -/

/-- The last of some lexemes is a semicolon. -/
def EndsStatement (ls : List Lexeme) : Prop := ∃ last ∈ ls.getLast?, last.endsStatement

theorem place_append_of_ne_nil {endColumn endColumn' : Nat} {l : Lexeme} {ss : List Statement}
    (h : ss ≠ []) (ss' : List Statement) :
    place endColumn l (ss ++ ss') = place endColumn' l ss ++ ss' := by
  cases ss with
  | nil => exact absurd rfl h
  | cons s ss =>
    unfold place
    split <;> rfl

theorem place_of_endsStatement {l : Lexeme} (h : l.endsStatement) (endColumn : Nat)
    (ss : List Statement) : place endColumn l ss = ⟨[], .semicolon l.column⟩ :: ss :=
  if_pos (of_decide_eq_true h)

theorem place_of_not_endsStatement {l : Lexeme} (h : ¬ l.endsStatement) (endColumn : Nat)
    (ss : List Statement) :
    place endColumn l ss = match ss with
      | first :: others => { first with lexemes := l :: first.lexemes } :: others
      | [] => [⟨[l], .endOfText endColumn⟩] :=
  if_neg fun ht => h (decide_eq_true ht)

/-- **A semicolon parts the statements**, and the end of the text belongs to those behind it. -/
theorem statements_append {ls : List Lexeme} (h : EndsStatement ls) (endColumn endColumn' : Nat)
    (ls' : List Lexeme) :
    statements endColumn (ls ++ ls') = statements endColumn' ls ++ statements endColumn ls' := by
  induction ls with
  | nil =>
    obtain ⟨last, hl, -⟩ := h
    cases hl
  | cons l rest ih =>
    rw [List.cons_append, statements_cons, statements_cons]
    cases rest with
    | nil =>
      have hl : l.endsStatement := by simpa [EndsStatement] using h
      rw [place_of_endsStatement hl, place_of_endsStatement hl]
      rfl
    | cons l' rest =>
      have hr : EndsStatement (l' :: rest) := by simpa [EndsStatement] using h
      rw [ih hr]
      exact place_append_of_ne_nil (place_ne_nil _ _ _) _

/-! ## What statements end in -/

/-- Whether tokens remain behind the last semicolon. -/
def unfinished (ls : List Lexeme) : Bool := ls.getLast?.any fun l => !l.endsStatement

theorem unfinished_cons_cons (l l' : Lexeme) (rest : List Lexeme) :
    unfinished (l :: l' :: rest) = unfinished (l' :: rest) := by
  simp [unfinished]

/-- **What the statements of a text end in**: its semicolons, and its end if tokens remain behind
them. -/
theorem endings_statements (endColumn : Nat) (ls : List Lexeme) :
    (statements endColumn ls).map Statement.ending =
      (ls.filter Lexeme.endsStatement).map (fun l => .semicolon l.column) ++
        if unfinished ls then [.endOfText endColumn] else [] := by
  induction ls with
  | nil => rfl
  | cons l rest ih =>
    rw [statements_cons]
    by_cases hl : l.endsStatement
    · rw [place_of_endsStatement hl, List.filter_cons_of_pos hl, List.map_cons, ih]
      cases rest with
      | nil => simp [unfinished, hl]
      | cons l' rest =>
        rw [unfinished_cons_cons]
        rfl
    · rw [List.filter_cons_of_neg hl, place_of_not_endsStatement hl]
      cases rest with
      | nil => simp [statements, unfinished, hl]
      | cons l' rest =>
        rw [unfinished_cons_cons, ← ih]
        cases hs : statements endColumn (l' :: rest) with
        | nil => exact absurd hs (place_ne_nil _ _ _)
        | cons first others => rfl

theorem length_statements (endColumn : Nat) (ls : List Lexeme) :
    (statements endColumn ls).length =
      ls.countP Lexeme.endsStatement + if unfinished ls then 1 else 0 := by
  have h := congrArg List.length (endings_statements endColumn ls)
  rw [List.length_map, List.length_append, List.length_map, ← List.countP_eq_length_filter] at h
  rw [h]
  split <;> rfl

/-! ## Reading statement by statement -/

theorem readAll_cons (limit : Nat) (table : FunctionTable) (errors : List LexicalError)
    (s : Statement) (rest : List Statement) :
    readAll limit table errors (s :: rest) =
      let first := s.read limit table (errors.takeWhile (belongs s.ending))
      let others := readAll limit first.2 (errors.dropWhile (belongs s.ending)) rest
      (first.1 :: others.1, others.2) := by
  cases errors <;> rfl

/-- Each tree with a root is read from the statement of its number. -/
theorem read_of_readAll {limit i : Nat} {table : FunctionTable} {errors : List LexicalError}
    {ss : List Statement} {tree : Tree} (h : (readAll limit table errors ss).1[i]? = some tree)
    (hr : tree.root.isSome) :
    ∃ s table' own, ss[i]? = some s ∧ tree = (s.read limit table' own).1 := by
  induction ss generalizing i table errors with
  | nil =>
    cases errors with
    | nil => simp [readAll] at h
    | cons e errors =>
      cases i with
      | zero =>
        obtain rfl := Option.some.inj h
        cases hr
      | succ i => simp [readAll] at h
  | cons s rest ih =>
    rw [readAll_cons] at h
    cases i with
    | zero =>
      obtain rfl := Option.some.inj h
      exact ⟨s, table, _, rfl, rfl⟩
    | succ i => exact ih h

end Program

end ExprScript
