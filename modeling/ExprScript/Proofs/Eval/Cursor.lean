import ExprScript.Proofs.Eval.History
import ExprScript.Proofs.Eval.Step

/-!
# Cursors

What the methods of a vector do depends on what has been taken from its binding, and on nothing else
that has happened: `next` hands out what comes behind, until nothing is left, and `current` hands out
what was taken last. Nothing but `next` takes anything, and it takes from one binding only.

* `Eval.next_eq`, `Eval.current_eq` and their siblings: what is done with a vector under a name;
* `History.Iterates`: the same, told by a history;
* **`Expr.cursors_iterate`**: vector cursors iterate each binding once, and independently.
-/

namespace ExprScript

/-! ## What is done with a vector -/

namespace Eval

theorem vectorBinding_eq {m : Machine} {name : String} {elements : List Value} {cursor : Option Nat}
    (hb : m.scopes.find? name = some ⟨.vector elements, cursor⟩) (column : Nat) :
    vectorBinding name column m = .ok (elements, cursor) m := by
  have hbinding : Eval.binding name column m = .ok ⟨.vector elements, cursor⟩ m := by
    have hget : (get : Eval Machine) m = .ok m m := rfl
    rw [Eval.binding, Eval.bind_apply, hget]
    dsimp only
    rw [hb]
    rfl
  rw [Eval.vectorBinding, Eval.bind_apply, hbinding]
  rfl

section Vector

variable {m : Machine} {name : String} {elements : List Value} {cursor : Option Nat}
  (hb : m.scopes.find? name = some ⟨.vector elements, cursor⟩)

include hb

theorem next_eq (column : Nat) : Eval.method column name .next m =
    match elements[Binding.following cursor]? with
    | some x => .ok x { m with scopes := m.scopes.setCursor name (Binding.following cursor) }
    | none => .error (.error ⟨.cursorExhausted name, column⟩) m := by
  rw [Eval.method, Eval.bind_apply, vectorBinding_eq hb, Binding.following.eq_def]
  cases cursor with
  | none =>
    dsimp only
    cases elements[0]? <;> rfl
  | some i =>
    dsimp only
    cases elements[i + 1]? <;> rfl

theorem current_eq (column : Nat) : Eval.method column name .current m =
    match cursor.bind (elements[·]?) with
    | some x => .ok x m
    | none => .error (.error ⟨.cursorNotStarted name, column⟩) m := by
  rw [Eval.method, Eval.bind_apply, vectorBinding_eq hb]
  dsimp only
  cases cursor.bind (elements[·]?) <;> rfl

theorem size_eq (column : Nat) :
    Eval.method column name .size m = .ok (.number (Number.ofCount elements.length)) m := by
  rw [Eval.method, Eval.bind_apply, vectorBinding_eq hb]
  rfl

theorem index_eq (setting : Setting) (enter : Enter) (column : Nat) (index : Expr) :
    (Expr.index column name index).evalWith setting enter m =
      (do Eval.element column name elements (← index.evalWith setting enter)) m := by
  rw [Expr.evalWith, Eval.bind_apply, vectorBinding_eq hb]

theorem forEach_eq (setting : Setting) (enter : Enter) (column nameColumn : Nat) (var : String)
    (body : Expr) : (Expr.forEach column var name nameColumn body).evalWith setting enter m =
      Eval.loop var elements (body.evalWith setting enter) m := by
  rw [Expr.evalWith, Eval.bind_apply, vectorBinding_eq hb]

end Vector

end Eval

theorem EvalOver.bind_apply {μ α β : Type} (p : EvalOver μ α) (f : α → EvalOver μ β) (t : Store μ) :
    (p >>= f) t = match p t with
      | .ok a t' => f a t'
      | .error e t' => .error e t' := by
  show EStateM.bind p f t = _
  unfold EStateM.bind
  cases p t <;> rfl

/-- Over another memory, `next` does the same. -/
theorem Memory.next_eq {μ : Type} (M : Memory μ) {t : Store μ} {name : String} {elements : List Value}
    {cursor : Option Nat} (hb : M.find? t.memory name = some ⟨.vector elements, cursor⟩) (column : Nat) :
    M.method column name .next t =
      match elements[Binding.following cursor]? with
      | some x => .ok x { t with memory := M.setCursor name (Binding.following cursor) t.memory }
      | none => .error (.error ⟨.cursorExhausted name, column⟩) t := by
  have hbinding : M.binding name column t = .ok ⟨.vector elements, cursor⟩ t := by
    have hget : (get : EvalOver μ (Store μ)) t = .ok t t := rfl
    rw [Memory.binding, EvalOver.bind_apply, hget]
    dsimp only
    rw [hb]
    rfl
  have hvector : M.vectorBinding name column t = .ok (elements, cursor) t := by
    rw [Memory.vectorBinding, EvalOver.bind_apply, hbinding]
    rfl
  rw [Memory.method, EvalOver.bind_apply, hvector, Binding.following.eq_def]
  cases cursor with
  | none =>
    dsimp only
    cases elements[0]? <;> rfl
  | some i =>
    dsimp only
    cases elements[i + 1]? <;> rfl

namespace History

/-! ## Vectors and histories -/

/-- **What methods, indexing and loops do with a vector** under a name that stands for a binding whose
cursor had not moved when it was made. -/
structure Iterates (h : History) (i : Nat) (elements : List Value) (name : String) (m : Machine) :
    Prop where
  /-- What is left is handed out one by one, and this is all that happens to any binding. -/
  next (column : Nat) {x : Value} {rest : List Value} : elements = h.takenFrom i ++ x :: rest →
    (∃ m', Eval.method column name .next m = .ok x m' ∧ (h.advance i).Tells m'.scopes) ∧
      (h.advance i).made = h.made ∧
      ∀ j, (h.advance i).takenFrom j = if j = i then h.takenFrom i ++ [x] else h.takenFrom j
  /-- Behind the last element there is nothing to hand out. -/
  exhausted (column : Nat) : h.takenFrom i = elements →
    Eval.method column name .next m = .error (.error ⟨.cursorExhausted name, column⟩) m
  current (column : Nat) {x : Value} : (h.takenFrom i).getLast? = some x →
    Eval.method column name .current m = .ok x m
  notStarted (column : Nat) : h.takenFrom i = [] →
    Eval.method column name .current m = .error (.error ⟨.cursorNotStarted name, column⟩) m
  /-- What is handed out is what is taken from the binding in the history of an evaluation. -/
  recorded (column : Nat) {x : Value} {rest : List Value} : elements = h.takenFrom i ++ x :: rest →
    ∀ t : Store History, t.memory = h →
      Memory.histories.method column name .next t = .ok x { t with memory := h.advance i }
  size (column : Nat) :
    Eval.method column name .size m = .ok (.number (Number.ofCount elements.length)) m
  /-- An index is evaluated, and the element there is the result. -/
  index (setting : Setting) (enter : Enter) (column : Nat) (index : Expr) :
    (Expr.index column name index).evalWith setting enter m =
      (do Eval.element column name elements (← index.evalWith setting enter)) m
  /-- The body is evaluated for each element, wherever the cursor stands. -/
  loop (setting : Setting) (enter : Enter) (column nameColumn : Nat) (var : String) (body : Expr) :
    (Expr.forEach column var name nameColumn body).evalWith setting enter m =
      Eval.loop var elements (body.evalWith setting enter) m

variable {h : History} {i : Nat} {elements : List Value}

theorem takenFrom_prefix (hmade : h.made[i]? = some ⟨.vector elements, none⟩) :
    h.takenFrom i <+: elements := by
  have hahead : aheadOf h.made i = elements := by
    rw [aheadOf, hmade]
    rfl
  exact hahead ▸ h.inOrder i

/-- **What is done with a vector is told by what has been taken from it.** -/
theorem iterates (hmade : h.made[i]? = some ⟨.vector elements, none⟩) {m : Machine}
    (hm : h.Tells m.scopes) {name : String} (hi : h.tag? name = some i) :
    h.Iterates i elements name m := by
  obtain ⟨rest, hrest⟩ := takenFrom_prefix hmade
  have hnow : h.binding? i = some ⟨.vector elements, cursorAfter none (h.takenFrom i).length⟩ := by
    rw [binding?, hmade]
    rfl
  have hb : m.scopes.find? name = some ⟨.vector elements, cursorAfter none (h.takenFrom i).length⟩ := by
    rw [← hm.find? name, hi, Option.bind_some, hnow]
  have hfollowing : Binding.following (cursorAfter none (h.takenFrom i).length) =
      (h.takenFrom i).length := by
    rw [following_cursorAfter]
    exact Nat.zero_add _
  obtain ⟨b, -, -, -, hahead⟩ := h.getElem?_ahead hnow
  refine ⟨fun column x rest hsplit => ?_, fun column hall => ?_, fun column x hx => ?_,
    fun column hnone => ?_, fun column x rest hsplit t ht => ?_, Eval.size_eq hb, Eval.index_eq hb,
    Eval.forEach_eq hb⟩
  · have hx : elements[(h.takenFrom i).length]? = some x := by rw [hsplit]; simp
    rw [hfollowing, hx] at hahead
    rw [Eval.next_eq hb, hfollowing, hx, h.advance_eq hahead]
    refine ⟨⟨_, rfl, ?_⟩, rfl, fun j => ?_⟩
    · exact hfollowing ▸ hm.take hi hnow hahead
    · rw [takenFrom_take]
      by_cases hj : j = i
      · rw [if_pos hj, if_pos hj, hj]
      · rw [if_neg hj, if_neg hj]
  · have hnone : elements[(h.takenFrom i).length]? = none := by rw [hall]; simp
    rw [Eval.next_eq hb, hfollowing, hnone]
  · obtain ⟨front, hfront⟩ := List.getLast?_eq_some_iff.mp hx
    have hcursor : cursorAfter none (h.takenFrom i).length = some front.length := by
      rw [hfront, List.length_append, List.length_singleton]
      exact congrArg some (Nat.zero_add _)
    have hlast : elements[front.length]? = some x := by rw [← hrest, hfront]; simp
    rw [Eval.current_eq hb, hcursor, Option.bind_some, hlast]
  · rw [Eval.current_eq hb, hnone]
    rfl
  · have hx : elements[(h.takenFrom i).length]? = some x := by rw [hsplit]; simp
    have hfind : Memory.histories.find? t.memory name =
        some ⟨.vector elements, cursorAfter none (h.takenFrom i).length⟩ := by
      show (t.memory.tag? name).bind t.memory.binding? = _
      rw [ht, hi, Option.bind_some, hnow]
    rw [Memory.histories.next_eq hfind, hfollowing, hx, ht]
    show EStateM.Result.ok x { t with memory := (h.tag? name).elim h h.advance } = _
    rw [hi, Option.elim_some]

end History

/-- **Vector cursors iterate each binding once, and independently.** Every machine is told by a history,
and from there evaluation is that over histories, in which the elements of every vector that is bound
are taken in order. At any point, what a method or anything else does with a vector is told by what has
been taken from its own binding. -/
theorem Expr.cursors_iterate (setting : Setting) (calls : Nat) (e : Expr) (m : Machine) :
    (History.ofScopes m.scopes).Tells m.scopes ∧
      (∀ h : History, h.Tells m.scopes →
        EndAlike (fun s h' => h'.Tells s ∧ h.Grown h') (e.evalAt setting calls m)
          (Memory.histories.evalAt setting calls e
            ⟨h, m.callDepth, m.printRequested, m.generator⟩)) ∧
      ∀ (h : History) (i : Nat) (elements : List Value),
        h.made[i]? = some ⟨.vector elements, none⟩ → h.takenFrom i <+: elements ∧
          ∀ (m : Machine) (name : String), h.Tells m.scopes → h.tag? name = some i →
            h.Iterates i elements name m :=
  ⟨History.tells_ofScopes m.scopes, fun _ hm => e.endAlike_histories setting calls hm,
    fun _ _ _ hmade => ⟨History.takenFrom_prefix hmade, fun _ _ hm hi => History.iterates hmade hm hi⟩⟩

/-- A vector that is bound again under the same name, after its cursor has moved: the new binding starts
with its first element. -/
theorem Expr.cursors_iterate_shadowed :
    let inner : Bindings := .bind 47 "v" (.variable 51 "v")
      (.bind 54 "y" (.method 58 "v" .next) (.body (.method 70 "v" .current)))
    let e : Expr := .letIn 1 (.bind 5 "v" (.vector 9 [.number 10 10, .number 14 20])
      (.bind 19 "x" (.method 23 "v" .next) (.body (.letIn 43 inner))))
    let setting : Setting := ⟨.empty, {}, 0⟩
    let m : Machine := ⟨[], 0, false, .ofSeed 0⟩
    let start : History := .ofScopes []
    start.Tells m.scopes ∧ ∃ t,
      Memory.histories.eval setting e ⟨start, 0, false, .ofSeed 0⟩ = .ok (.number 10) t ∧
      t.memory.taken = [(0, .number 10), (2, .number 10)] ∧
      EndAlike (fun s h => h.Tells s ∧ start.Grown h) (e.eval setting m) (.ok (.number 10) t) := by
  intro inner e setting m start
  obtain ⟨hstart, hrun, -⟩ := e.cursors_iterate setting setting.limits.callDepth m
  exact ⟨hstart, _, rfl, rfl, hrun start hstart⟩

end ExprScript
