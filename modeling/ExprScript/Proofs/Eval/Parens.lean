import ExprScript.Proofs.Eval.Calls
import ExprScript.Proofs.Eval.Step
import ExprScript.Proofs.Ty.Reshape

/-!
# Parentheses

Parentheses group, and do nothing else. Nothing but the column of a condition, which messages point
at, tells an expression in parentheses from the expression.

* `Expr.bare`, `FunctionTable.bare`: trees and functions without their parentheses;
* `Eval.outcome`: what a run has come to, without the column of its error;
* `StepRelation.upToColumn`: steps that come to the same;
* **`Expr.parens_transparent`**: trees that are the same without their parentheses.
-/

namespace ExprScript

/-! ## Trees without parentheses -/

/-- An expression without the parentheses around it. -/
def Expr.unwrap : Expr → Expr
  | .paren _ inner => inner
  | e => e

/-- **An expression without any parentheses in it.** -/
def Expr.bare (e : Expr) : Expr := e.reshape Expr.unwrap

/-- Functions whose bodies have no parentheses in them. -/
def FunctionTable.bare (table : FunctionTable) : FunctionTable := table.reshape Expr.unwrap

@[simp] theorem Expr.bare_paren (column : Nat) (inner : Expr) :
    (Expr.paren column inner).bare = inner.bare := rfl

/-- Whether an expression is in parentheses itself. -/
def Expr.wrapped : Expr → Bool
  | .paren .. => true
  | _ => false

mutual

/-- Nothing is in parentheses any more. -/
theorem Expr.everywhere_bare : (e : Expr) → (e.reshape Expr.unwrap).everywhere (!·.wrapped)
  | .number .. | .string .. | .bool .. | .constant .. | .variable .. | .rand .. | .method ..
  | .error .. => rfl
  | .paren _ e => e.everywhere_bare
  | .unary _ _ e | .print _ e | .math _ _ e | .index _ _ e | .forEach _ _ _ _ e => by
    simp only [Expr.reshape, Expr.unwrap, Expr.everywhere, e.everywhere_bare]
    rfl
  | .binary _ e₁ _ e₂ | .log _ e₁ e₂ | .while _ e₁ e₂ | .range _ e₁ e₂ => by
    simp only [Expr.reshape, Expr.unwrap, Expr.everywhere, e₁.everywhere_bare, e₂.everywhere_bare]
    rfl
  | .forRange _ _ e₁ e₂ e₃ => by
    simp only [Expr.reshape, Expr.unwrap, Expr.everywhere, e₁.everywhere_bare, e₂.everywhere_bare,
      e₃.everywhere_bare]
    rfl
  | .ifThen _ condition body rest => by
    simp only [Expr.reshape, Expr.unwrap, Expr.everywhere, condition.everywhere_bare,
      body.everywhere_bare, rest.everywhere_bare]
    rfl
  | .letIn _ bindings => by
    simp only [Expr.reshape, Expr.unwrap, Expr.everywhere, bindings.everywhere_bare]
    rfl
  | .call _ _ es | .vector _ es => by
    simp only [Expr.reshape, Expr.unwrap, Expr.everywhere, everywhereAll_bare es]
    rfl

theorem everywhereAll_bare : (es : List Expr) →
    everywhereAll (!·.wrapped) (reshapeAll Expr.unwrap es)
  | [] => rfl
  | e :: rest => by
    simp only [reshapeAll, everywhereAll, e.everywhere_bare, everywhereAll_bare rest]
    rfl

theorem Branches.everywhere_bare : (b : Branches) →
    (b.reshape Expr.unwrap).everywhere (!·.wrapped)
  | .elif condition body rest => by
    simp only [Branches.reshape, Branches.everywhere, condition.everywhere_bare,
      body.everywhere_bare, rest.everywhere_bare]
    rfl
  | .otherwise body => body.everywhere_bare

theorem Bindings.everywhere_bare : (b : Bindings) →
    (b.reshape Expr.unwrap).everywhere (!·.wrapped)
  | .bind _ _ value rest => by
    simp only [Bindings.reshape, Bindings.everywhere, value.everywhere_bare, rest.everywhere_bare]
    rfl
  | .body body => body.everywhere_bare

end

/-- Nothing that is told of an expression depends on parentheses around it. -/
theorem Ty.unchanged_unwrap (table : FunctionTable) : Ty.Unchanged table Expr.unwrap where
  infer _ e := by cases e <;> rfl
  names _ e := by cases e <;> rfl
  firstUse? _ e := by cases e <;> rfl

/-- Nor does what happens when an expression is evaluated. -/
theorem Expr.evalWith_unwrap (setting : Setting) (enter : Enter) (e : Expr) :
    e.unwrap.evalWith setting enter = e.evalWith setting enter := by
  cases e <;> rfl

/-! ## Runs up to the columns of errors -/

/-- The cause of an error. Giving up a loop has none. -/
def Halt.cause? : Halt → Option EvalCause
  | .error e => some e.cause
  | .outOfRounds => none

/-- What a run has come to, wherever its error is reported: the value or the cause of the error, and
the machine. -/
def Eval.outcome {α : Type} : EStateM.Result Halt Machine α → Except (Option EvalCause) α × Machine
  | .ok a m => (.ok a, m)
  | .error h m => (.error h.cause?, m)

/-- Runs that have come to the same. -/
theorem Eval.outcome_eq {α : Type} {r r' : EStateM.Result Halt Machine α}
    (h : outcome r' = outcome r) :
    (∃ a m, r = .ok a m ∧ r' = .ok a m) ∨
      ∃ halt halt' m, r = .error halt m ∧ r' = .error halt' m ∧ halt'.cause? = halt.cause? := by
  cases r with
  | ok a m =>
    cases r' with
    | ok a' m' =>
      cases h
      exact .inl ⟨a, m, rfl, rfl⟩
    | error halt' m' => simp [outcome] at h
  | error halt m =>
    cases r' with
    | ok a' m' => simp [outcome] at h
    | error halt' m' =>
      obtain ⟨hc, rfl⟩ := Prod.mk.inj h
      exact .inr ⟨halt, halt', m', rfl, rfl, Except.error.inj hc⟩

namespace StepRelation

/-- **Steps that come to the same**, from every machine. -/
def upToColumn : StepRelation where
  Rel p q := ∀ m, Eval.outcome (q m) = Eval.outcome (p m)
  pure _ _ := rfl
  fail _ _ _ := rfl
  get _ := rfl
  modify _ _ := rfl
  bind {α β p q f g} h hf m := by
    have hm := h m
    rw [Eval.bind_apply, Eval.bind_apply]
    generalize p m = r at hm ⊢
    generalize q m = r' at hm ⊢
    obtain ⟨a, m₁, rfl, rfl⟩ | ⟨halt, halt', m₁, rfl, rfl, hc⟩ := Eval.outcome_eq hm
    · exact hf a m₁
    · simp only [Eval.outcome, hc]
  inFrame {α p q} frame h m := by
    have hm := h { m with scopes := frame :: m.scopes }
    unfold Eval.inFrame
    generalize p { m with scopes := frame :: m.scopes } = r at hm ⊢
    generalize q { m with scopes := frame :: m.scopes } = r' at hm ⊢
    obtain ⟨a, m₁, rfl, rfl⟩ | ⟨halt, halt', m₁, rfl, rfl, hc⟩ := Eval.outcome_eq hm
    · rfl
    · simp only [Eval.outcome, hc]

/-- The same for a frame that belongs to a call. -/
theorem upToColumn_counts : upToColumn.Counts := by
  intro frame p q h m
  have hm := upToColumn.inFrame frame h { m with callDepth := m.callDepth + 1 }
  unfold Eval.inCall
  generalize Eval.inFrame frame p { m with callDepth := m.callDepth + 1 } = r at hm ⊢
  generalize Eval.inFrame frame q { m with callDepth := m.callDepth + 1 } = r' at hm ⊢
  obtain ⟨a, m₁, rfl, rfl⟩ | ⟨halt, halt', m₁, rfl, rfl, hc⟩ := Eval.outcome_eq hm
  · rfl
  · simp only [Eval.outcome, hc]

/-- A condition is the same one, wherever it is reported that it is no boolean. -/
theorem upToColumn_condition (column column' : Nat) (v : Value) :
    upToColumn.Rel (Eval.condition column v) (Eval.condition column' v) := by
  intro m
  cases v <;> rfl

theorem upToColumn_admits (setting : Setting) :
    upToColumn.Admits (fun _ => true) setting setting where
  functions := upToColumn.alike_find? setting.functions
  limits := rfl
  missing _ _ _ := rfl
  loop _ := ⟨rfl, fun _ => rfl⟩

end StepRelation

open StepRelation

/-- Evaluation comes to the same without the parentheses. -/
theorem Expr.outcome_bare (functions : FunctionTable) (limits : Limits) (rounds : Nat) (e : Expr)
    (m : Machine) :
    Eval.outcome (e.bare.eval ⟨functions.bare, limits, rounds⟩ m) =
      Eval.outcome (e.eval ⟨functions, limits, rounds⟩ m) :=
  e.related_reshape_evalAt upToColumn (upToColumn_admits ⟨functions, limits, rounds⟩)
    upToColumn_counts (fun _ g _ => g.body.everywhere_of_forall fun _ => rfl)
    (fun _ e => e.evalWith_unwrap _ _) (fun _ => upToColumn_condition _ _) limits.callDepth
    (e.everywhere_of_forall fun _ => rfl) m

/-- **Parentheses are transparent.** Of expressions that differ only in their parentheses, and under
functions whose bodies differ only in theirs, the same is told, and evaluation comes to the same. -/
theorem Expr.parens_transparent {functions functions' : FunctionTable} {e e' : Expr}
    (hf : functions'.bare = functions.bare) (he : e'.bare = e.bare) :
    (∀ scope, Ty.infer functions' scope e' = Ty.infer functions scope e) ∧
      (∀ param, Ty.usage functions' param e' = Ty.usage functions param e) ∧
      ∀ limits rounds m, Eval.outcome (e'.eval ⟨functions', limits, rounds⟩ m) =
        Eval.outcome (e.eval ⟨functions, limits, rounds⟩ m) := by
  refine ⟨Ty.infer_eq_of_reshape_eq Ty.unchanged_unwrap hf he,
    Ty.usage_eq_of_reshape_eq Ty.unchanged_unwrap hf he, fun limits rounds m => ?_⟩
  rw [← e'.outcome_bare, hf, he, e.outcome_bare]

/-- A body that is in parentheses once, and a condition that is so twice and no boolean. -/
theorem Expr.parens_transparent_condition :
    let next (body : Expr) : FunctionTable := ⟨[⟨"next", ["x"], [.any], .any, body, 1⟩]⟩
    let x : Expr := .variable 3 "x"
    let three : Expr := .number 1 3
    let choice (condition : Expr) : Expr := .call 7 "next"
      [.ifThen 2 condition (.number 3 1) (.otherwise (.number 4 2))]
    ((next (.paren 2 x)).bare = (next x).bare ∧
      (choice (.paren 5 (.paren 6 three))).bare = (choice three).bare) ∧
      ∀ limits rounds m,
        Eval.outcome ((choice (.paren 5 (.paren 6 three))).eval
            ⟨next (.paren 2 x), limits, rounds⟩ m) =
          Eval.outcome ((choice three).eval ⟨next x, limits, rounds⟩ m) := by
  intro next x three choice
  have hf : (next (.paren 2 x)).bare = (next x).bare := rfl
  have he : (choice (.paren 5 (.paren 6 three))).bare = (choice three).bare := rfl
  exact ⟨⟨hf, he⟩, (parens_transparent hf he).2.2⟩

end ExprScript
