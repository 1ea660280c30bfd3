import ExprScript.Proofs.Eval.Calls
import ExprScript.Proofs.Eval.Restore

/-!
# Evaluation misses no expression

The one error of evaluation that is none of the program's own is that an expression is missing. It
arises at the place of that expression only, so a tree without such places, and with calls to bodies
of the same kind, never leads to it.

* `Eval.Whole`: steps that never find an expression missing;
* **`Expr.whole_evalAt`**: evaluation of a complete expression is such a step.
-/

namespace ExprScript

/-- **A step never finds an expression missing.** -/
def Eval.Whole {α : Type} (p : Eval α) : Prop :=
  ∀ m column m', p m ≠ .error (.error ⟨.invalidExpression, column⟩) m'

namespace Eval.Whole

variable {α β : Type}

theorem pure (a : α) : (Pure.pure a : Eval α).Whole := fun _ _ _ => nofun

theorem fail {cause : EvalCause} (column : Nat) (h : cause ≠ .invalidExpression) :
    (Eval.fail cause column : Eval α).Whole := by
  intro m column m' he
  cases he
  exact h rfl

theorem bind {p : Eval α} {f : α → Eval β} (h : p.Whole) (hf : ∀ a, (f a).Whole) :
    (p >>= f).Whole := by
  intro m column m'
  rw [Eval.bind_apply]
  cases hp : p m with
  | ok a m₁ => exact hf a m₁ column m'
  | error halt m₁ =>
    intro he
    cases he
    exact h m column _ hp

theorem inFrame {p : Eval α} (frame : Frame) (h : p.Whole) : (Eval.inFrame frame p).Whole := by
  intro m column m' he
  unfold Eval.inFrame at he
  split at he
  · cases he
  · next hp =>
    cases he
    exact h _ _ _ hp

theorem inCall {p : Eval α} (frame : Frame) (h : p.Whole) : (Eval.inCall frame p).Whole := by
  intro m column m' he
  unfold Eval.inCall at he
  split at he
  · cases he
  · next hp =>
    cases he
    exact h.inFrame frame _ _ _ hp

end Eval.Whole

namespace StepRelation

/-- The steps that never find an expression missing, as a relation that asks nothing of the second
one. -/
def whole : StepRelation where
  Rel p _ := Eval.Whole p
  pure := .pure
  bind := .bind
  fail := .fail
  get _ _ _ := nofun
  modify _ _ _ _ := nofun
  inFrame := .inFrame

/-- Of complete expressions nothing is missing. -/
theorem admits_whole (setting : Setting) : whole.Admits Expr.completeHere setting setting where
  functions := alike_find? setting.functions
  limits := rfl
  missing _ h := by cases h
  loop _ := ⟨rfl, fun _ _ _ => nofun⟩

end StepRelation

open StepRelation

/-- **A complete expression is evaluated without missing any**, if the bodies of functions are
complete. -/
theorem Expr.whole_evalAt {setting : Setting}
    (hf : ∀ f ∈ setting.functions.entries, f.body.complete) {e : Expr} (he : e.complete)
    (calls : Nat) : (e.evalAt setting calls).Whole :=
  e.related_evalAt whole (admits_whole setting) (fun frame _ _ h => Eval.Whole.inCall frame h)
    (fun _ f hfind => hf f (List.mem_of_find?_eq_some hfind)) calls he

end ExprScript
