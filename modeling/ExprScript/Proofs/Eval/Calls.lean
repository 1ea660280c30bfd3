import ExprScript.Proofs.Eval.Parametric

/-!
# What calls respect

A relation that the rules of evaluation respect goes on to evaluation on any number of calls, if it
goes on to steps that count as an open call. The bodies that are called may be reshaped, too.

* `StepRelation.Counts`: relations that go on to steps that count as an open call;
* `related_enterCall`: what calls do, **on any number of calls**;
* **`Expr.related_reshape_evalAt`**: the evaluations of a tree and of its reshaped form;
* **`Expr.related_evalAt`**: two evaluations of one tree.
-/

namespace ExprScript

/-- A relation that goes on to steps that count as an open call. -/
def StepRelation.Counts (Q : StepRelation) : Prop :=
  ∀ (frame : Frame) (p q : Eval Value), Q.Rel p q → Q.Rel (Eval.inCall frame p) (Eval.inCall frame q)

section Calls

variable (Q : StepRelation) {admitted : Expr → Bool} {setting setting' : Setting}
  (hQ : Q.Admits admitted setting setting') (hcount : Q.Counts)
  (hbodies : ∀ name g, setting.functions.find? name = some g → g.body.everywhere admitted)

include hQ hcount hbodies

section Reshaped

variable {f : Expr → Expr}
  (hf : ∀ calls e, (f e).evalWith (setting'.reshape f) (enterCall (setting'.reshape f) calls) =
    e.evalWith (setting'.reshape f) (enterCall (setting'.reshape f) calls))
  (hc : ∀ (e : Expr) v,
    Q.Rel (Eval.condition e.column v) (Eval.condition (e.reshape f).column v))

include hf hc

/-- **Calls of reshaped bodies are related to those of the bodies**, by induction on the calls that may
still be opened. -/
theorem related_enterCall (calls column : Nat) (frame : Frame) {name : String} {g : FunctionDef}
    (hg : setting.functions.find? name = some g) :
    Q.Rel (enterCall setting calls column frame g.body)
      (enterCall (setting'.reshape f) calls column frame (g.body.reshape f)) := by
  have hlimits : (setting'.reshape f).limits = setting.limits := hQ.limits
  induction calls generalizing column frame name g with
  | zero =>
    unfold enterCall
    rw [hlimits]
    exact Q.fail column nofun
  | succ calls ih =>
    have hbody := g.body.related_reshape Q hQ (fun column frame _ _ hg' => ih column frame hg')
      (hf calls) hc (hbodies name g hg)
    unfold enterCall
    rw [hlimits]
    exact Q.bind (Q.checkCalls _ column) fun _ => hcount frame _ _ hbody

/-- **The evaluations of a tree and of its reshaped form are related**, on any number of calls. -/
theorem Expr.related_reshape_evalAt (calls : Nat) (e : Expr) (h : e.everywhere admitted) :
    Q.Rel (e.evalAt setting calls) ((e.reshape f).evalAt (setting'.reshape f) calls) :=
  e.related_reshape Q hQ
    (fun column frame _ _ hg => related_enterCall Q hQ hcount hbodies hf hc calls column frame hg)
    (hf calls) hc h

end Reshaped

/-- **Two evaluations of one tree are related**, on any number of calls. -/
theorem Expr.related_evalAt (calls : Nat) (e : Expr) (h : e.everywhere admitted) :
    Q.Rel (e.evalAt setting calls) (e.evalAt setting' calls) := by
  have hcondition : ∀ (e : Expr) v,
      Q.Rel (Eval.condition e.column v) (Eval.condition (e.reshape id).column v) := by
    intro e v
    rw [Expr.reshape_id]
    exact Q.condition e.column v
  have hrel : Q.Rel (e.evalAt setting calls) ((e.reshape id).evalAt (setting'.reshape id) calls) :=
    e.related_reshape_evalAt Q hQ hcount hbodies (fun _ _ => rfl) hcondition calls h
  rwa [Expr.reshape_id, Setting.reshape, FunctionTable.reshape_id] at hrel

end Calls

end ExprScript
