import ExprScript.Proofs.Eval.Follow

/-!
# Limits that are not met

An evaluation that meets no limit does not depend on the limits: under greater ones, and with more
rounds for its loops, it ends the same.

* `EvalCause.AtLimit`, `Halt.AtLimit`: the errors that limits lead to;
* `EndAlike.eq_of_eq`: runs on frames that end like the same other one;
* **`Expr.eval_of_le`**: evaluation under greater limits.
-/

namespace ExprScript

/-! ## Limits -/

/-- No limit is greater than that of another choice of limits. -/
structure Limits.Within (low high : Limits) : Prop where
  parseDepth : low.parseDepth ≤ high.parseDepth
  callDepth : low.callDepth ≤ high.callDepth
  rangeLength : low.rangeLength ≤ high.rangeLength

instance : LE Limits := ⟨Limits.Within⟩

/-- The causes that are limits. -/
def EvalCause.AtLimit : EvalCause → Prop
  | .stackOverflow _ | .rangeTooLong _ _ => True
  | _ => False

/-- Whether evaluation has met a limit, or the number of rounds. -/
def Halt.AtLimit : Halt → Prop
  | .error e => e.cause.AtLimit
  | .outOfRounds => True

theorem Setting.below_of_le {low high : Setting} (hf : high.functions = low.functions)
    (hl : low.limits ≤ high.limits) (hr : low.rounds ≤ high.rounds) :
    Setting.Below Halt.AtLimit low high where
  functions := hf
  calls := .of_le hl.callDepth fun _ => trivial
  ranges := .of_le hl.rangeLength fun _ _ => trivial
  rounds := .of_le hr trivial

/-! ## Evaluation -/

/-- Two runs that end like a third one end the same. -/
theorem EndAlike.eq_of_eq {α : Type} {r r' : EStateM.Result Halt Machine α}
    {r'' : EStateM.Result Halt (Store Scopes) α} (h : EndAlike Eq r r'') (h' : EndAlike Eq r' r'') :
    r' = r := by
  obtain ⟨m, m', hm, hend⟩ := h.frames h'
  obtain rfl : m' = m := by
    obtain ⟨scopes, callDepth, printRequested, generator⟩ := m
    obtain ⟨hscopes, hcalls, hprint, hgenerator⟩ := hm
    cases m'
    simp_all [Machine.store]
  obtain ⟨a, rfl, rfl⟩ | ⟨halt, rfl, rfl⟩ := hend
  · rfl
  · rfl

/-- **Evaluation does not depend on limits that it does not meet.** -/
theorem Expr.eval_of_le {low high : Setting} (hf : high.functions = low.functions)
    (hl : low.limits ≤ high.limits) (hr : low.rounds ≤ high.rounds) (e : Expr) (m : Machine)
    (h : ∀ halt m', e.eval low m = .error halt m' → ¬ halt.AtLimit) :
    e.eval high m = e.eval low m := by
  have hlow : EndAlike Eq (e.eval low m) (Memory.frames.eval high e m.store) :=
    .of_ends (e.follows_evalAt Memory.keeps_frames (Setting.below_of_le hf hl hr)
      (.of_le hl.callDepth fun _ => trivial) [] m m.store m.alike_store) h
  exact hlow.eq_of_eq (e.evalAt_frames high high.limits.callDepth m)

end ExprScript
