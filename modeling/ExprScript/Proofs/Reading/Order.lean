import ExprScript.Grammar.Statement
import ExprScript.Proofs.Reading.Composed

/-!
# Errors are reported from left to right

A reader reports errors where it stands, or at a name that it has just taken, and never goes back. So
the columns of the errors, in the order of their report, go on in those of what is left of the
statement.

* `Cursor.columns`, `Cursor.InOrder`: **the columns of errors and of what is left**, in order;
* `Cursor.InOrder.next`, `Cursor.InOrder.report`, `Cursor.InOrder.unexpected`: what keeps that order;
* `Reading.KeepsOrder`: a step keeps that order, and is broken off where the cursor stands;
* **`Reading.keepsOrder_expressionAt`**, **`Reading.keepsOrder_declaration`**: so do the readers.
-/

namespace ExprScript

namespace Cursor

/-- The columns of the errors in the order of their report, then of what is left, then of the
ending. -/
def columns (c : Cursor) : List Nat :=
  (c.errors.map SyntaxError.column).reverse ++ (c.rest.map Lexeme.column ++ [c.ending.column])

/-- **The columns of errors and of what is left are in order**, from a column on. -/
def InOrder (start : Nat) (c : Cursor) : Prop := (start :: c.columns).Pairwise (· ≤ ·)

variable {start : Nat} {c : Cursor}

/-- What is left starts at the column of the cursor. -/
theorem exists_columns_behind (c : Cursor) :
    ∃ behind, c.rest.map Lexeme.column ++ [c.ending.column] = c.column :: behind := by
  unfold column
  cases c.rest with
  | nil => exact ⟨[], rfl⟩
  | cons l rest => exact ⟨rest.map Lexeme.column ++ [c.ending.column], rfl⟩

theorem InOrder.next (h : c.InOrder start) : c.next.InOrder start := by
  have hrest : (c.rest.tail.map Lexeme.column).Sublist (c.rest.map Lexeme.column) :=
    (List.tail_sublist _).map _
  exact h.sublist (((hrest.append_right _).append_left _).cons_cons start)

/-- An error at the column of the cursor comes behind the errors before, and in front of what is
left. -/
theorem InOrder.report (h : c.InOrder start) (cause : SyntaxCause) :
    (c.report cause c.column).InOrder start := by
  obtain ⟨behind, hb⟩ := c.exists_columns_behind
  change (start :: ((c.column :: c.errors.map SyntaxError.column).reverse ++
    (c.rest.map Lexeme.column ++ [c.ending.column]))).Pairwise (· ≤ ·)
  unfold InOrder columns at h
  rw [hb] at h ⊢
  simp only [List.reverse_cons, List.append_assoc, List.singleton_append, List.pairwise_cons,
    List.pairwise_append, List.mem_append, List.mem_cons] at h ⊢
  grind

theorem InOrder.unexpected (h : c.InOrder start) (expected : Expected) :
    (c.unexpected expected).InOrder start := by
  have hr := fun cause => h.report cause
  unfold Cursor.unexpected
  unfold column at hr
  split
  · next lexeme rest hrest =>
    rw [hrest] at hr
    exact (hr _).next
  · next column hrest hending =>
    rw [hrest, hending] at hr
    exact hr _
  · next column hrest hending =>
    rw [hrest, hending] at hr
    exact hr _

/-- The cursor stands between the start and the ending. -/
theorem InOrder.column_bounds (h : c.InOrder start) :
    start ≤ c.column ∧ c.column ≤ c.ending.column := by
  obtain ⟨behind, hb⟩ := c.exists_columns_behind
  obtain ⟨hstart, hcolumns⟩ := List.pairwise_cons.mp h
  have hleft := (List.pairwise_append.mp hcolumns).2.1
  have hending : c.ending.column ∈ c.column :: behind := hb ▸ by simp
  refine ⟨hstart _ (List.mem_append_right _ (hb ▸ List.mem_cons_self)), ?_⟩
  rw [hb] at hleft
  obtain he | he := List.mem_cons.mp hending
  · exact Nat.le_of_eq he.symm
  · exact (List.pairwise_cons.mp hleft).1 _ he

/-- Errors were reported from left to right. -/
theorem InOrder.pairwise_errors (h : c.InOrder start) :
    c.errors.reverse.Pairwise (·.column ≤ ·.column) := by
  have herrors := (List.pairwise_append.mp (List.pairwise_cons.mp h).2).1
  rw [← List.map_reverse] at herrors
  exact List.pairwise_map.mp herrors

/-- Errors stand between the start and the ending. -/
theorem InOrder.error_bounds (h : c.InOrder start) {e : SyntaxError} (he : e ∈ c.errors) :
    start ≤ e.column ∧ e.column ≤ c.ending.column := by
  obtain ⟨hstart, hcolumns⟩ := List.pairwise_cons.mp h
  have hm : e.column ∈ (c.errors.map SyntaxError.column).reverse :=
    List.mem_reverse.mpr (List.mem_map_of_mem he)
  exact ⟨hstart _ (List.mem_append_left _ hm),
    (List.pairwise_append.mp hcolumns).2.2 _ hm _ (by simp)⟩

end Cursor

namespace Reading

variable {α β : Type}

/-- How a reading ends that kept the order: one that was broken off was so where its cursor stands. -/
def EndsInOrder (start : Nat) : EStateM.Result TooDeep Cursor α → Prop
  | .ok _ c => c.InOrder start
  | .error e c => c.InOrder start ∧ e.column = c.column

/-- **A step keeps the order** of errors and of what is left. -/
def KeepsOrder (p : Reading α) : Prop := ∀ start c, c.InOrder start → EndsInOrder start (p c)

theorem KeepsOrder.bind {p : Reading α} {f : α → Reading β} (hp : KeepsOrder p)
    (hf : ∀ a, KeepsOrder (f a)) : KeepsOrder (p >>= f) := by
  intro start c h
  have hend := hp start c h
  change EndsInOrder start (EStateM.bind p f c)
  unfold EStateM.bind
  generalize p c = r at hend ⊢
  cases r with
  | ok a c' => exact hf a start c' hend
  | error e c' => exact hend

/-- Steps that are made of basic ones keep the order, since those do. -/
theorem Composed.keepsOrder {deeper : Nat → Reading Expr} (hd : ∀ level, KeepsOrder (deeper level))
    {p : Reading α} (h : Composed deeper p) : KeepsOrder p := by
  induction h with
  | bind _ _ hp hf => exact hp.bind hf
  | deeper level => exact hd level
  | pure a => exact fun _ _ h => h
  | look => exact fun _ _ h => h
  | column => exact fun _ _ h => h
  | left => exact fun _ _ h => h
  | skip => exact fun _ _ h => h.next
  | unexpected expected => exact fun _ _ h => h.unexpected expected

/-- **Reading an expression keeps the order**, and is broken off where the cursor stands. -/
theorem keepsOrder_expressionAt (levels level : Nat) : KeepsOrder (expressionAt levels level) := by
  induction levels generalizing level with
  | zero => exact fun _ _ h => ⟨h, rfl⟩
  | succ levels ih => exact Composed.keepsOrder ih (inferInstanceAs (Composed _ (binary _ level)))

/-! ## Declarations

A declaration also reports errors at a name that it has just taken. -/

/-- Steps that are made of basic ones alone keep the order. -/
theorem keepsOrder_basic (p : Reading α) [h : Composed (expressionAt 0) p] : KeepsOrder p :=
  h.keepsOrder (keepsOrder_expressionAt 0)

theorem identifier_apply (c : Cursor) :
    identifier? c = match c.token? with
      | some (.identifier name) => .ok (some (name, c.column)) c.next
      | _ => .ok none (c.unexpected .identifier) := by
  change (match c.token? with
    | some (.identifier name) => (do skip; return some (name, c.column) : Reading _)
    | _ => do unexpected .identifier; return none) c = _
  cases c.token? with
  | none => rfl
  | some t => cases t <;> rfl

theorem nameOrEmpty_apply (c : Cursor) :
    nameOrEmpty c = match c.token? with
      | some (.identifier name) => .ok name c.next
      | _ => .ok "" (c.unexpected .identifier) := by
  change EStateM.bind identifier? _ c = _
  unfold EStateM.bind
  rw [identifier_apply]
  cases c.token? with
  | none => rfl
  | some t => cases t <;> rfl

/-- An error at the column of a token that was just taken, or none. -/
theorem endsInOrder_reportIf {start : Nat} {c : Cursor} {p : Prop} [Decidable p]
    {cause : SyntaxCause} {k : Unit → Reading α} (h : c.InOrder start)
    (hk : ∀ u, KeepsOrder (k u)) :
    EndsInOrder start ((if p then report cause c.column >>= k else k ()) c.next) := by
  split
  · exact hk () start (c.report cause c.column).next (h.report cause).next
  · exact hk () start c.next h.next

theorem keepsOrder_parameterNames (seen : List String) (rounds : Nat) :
    KeepsOrder (parameterNames seen rounds) := by
  induction rounds generalizing seen with
  | zero => exact fun _ _ h => h
  | succ rounds ih =>
    intro start c h
    change EndsInOrder start (EStateM.bind identifier? _ c)
    unfold EStateM.bind
    rw [identifier_apply]
    split
    · next found c' hfound =>
      split at hfound
      · next name ht =>
        obtain ⟨rfl, rfl⟩ := EStateM.Result.ok.inj hfound
        refine endsInOrder_reportIf h fun _ => (keepsOrder_basic (eat _)).bind fun b => ?_
        cases b with
        | true => exact (ih (name :: seen)).bind fun _ _ _ h => h
        | false => exact fun _ _ h => h
      · obtain ⟨rfl, rfl⟩ := EStateM.Result.ok.inj hfound
        exact h.unexpected _
    · next hfound => split at hfound <;> cases hfound

theorem keepsOrder_parameters : KeepsOrder parameters := by
  unfold parameters
  refine (keepsOrder_basic (expect _)).bind fun opened => ?_
  cases opened with
  | false => exact fun _ _ h => h
  | true =>
    refine (keepsOrder_basic (eat _)).bind fun closed => ?_
    cases closed with
    | true => exact fun _ _ h => h
    | false =>
      refine (keepsOrder_basic left).bind fun n => (keepsOrder_parameterNames _ _).bind fun names => ?_
      exact (keepsOrder_basic (symbol _)).bind fun _ _ _ h => h

/-- **Reading a declaration keeps the order.** -/
theorem keepsOrder_declaration (table : FunctionTable) (levels : Nat) :
    KeepsOrder (declaration table (expressionAt levels)) := by
  intro start c h
  have hbehind : ∀ (column : Nat) (name : String), KeepsOrder (do
      let params ← parameters
      symbol .arrow
      return (⟨column, name, params, ← expression (expressionAt levels)⟩ : Declaration)) := by
    intro column name
    refine keepsOrder_parameters.bind fun params => (keepsOrder_basic (symbol _)).bind fun _ => ?_
    exact (keepsOrder_expressionAt levels 1).bind fun _ _ _ h => h
  change EndsInOrder start (EStateM.bind nameOrEmpty _ c.next)
  unfold EStateM.bind
  rw [nameOrEmpty_apply]
  split
  · next name c' hname =>
    split at hname
    · obtain ⟨rfl, rfl⟩ := EStateM.Result.ok.inj hname
      exact endsInOrder_reportIf h.next fun _ => hbehind _ _
    · obtain ⟨rfl, rfl⟩ := EStateM.Result.ok.inj hname
      exact hbehind _ _ start _ (h.next.unexpected _)
  · next hname => split at hname <;> cases hname

end Reading

end ExprScript
