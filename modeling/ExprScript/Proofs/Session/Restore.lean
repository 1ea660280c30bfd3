import ExprScript.Proofs.Eval.Restore
import ExprScript.Session
import Mathlib

/-!
# Runs restore the session

* `Machine.Idle`: no frame and no call is open;
* `Session.restored_eval`: evaluation restores the machine of a session, and changes nothing else;
* `Session.idle_allValues`, `Session.idle_lastValue`: the runners leave the machine idle;
* **`Session.eval_restores`**: all of this in one.
-/

namespace ExprScript

/-- No frame and no call is open. -/
structure Machine.Idle (m : Machine) : Prop where
  scopes : m.scopes = []
  callDepth : m.callDepth = 0

theorem Machine.RestoredBelow.idle {m m' : Machine} (h : m.Restored m') (hm : m.Idle) : m'.Idle := by
  have hs : List.Forall₂ Frame.Moved m.scopes m'.scopes := h.scopes
  rw [hm.scopes, List.forall₂_nil_left_iff] at hs
  exact ⟨hs, h.callDepth.trans hm.callDepth⟩

/-- Whether a run over trees evaluates an expression: one stands in front of the first tree with
errors. -/
def Tree.evaluatesSome : List Tree → Bool
  | [] => false
  | tree :: rest => tree.valid && (tree.root.isSome || evaluatesSome rest)

namespace Session

theorem restored_eval (s : Session) (rounds : Nat) (e : Expr) :
    (s.eval rounds e).2.functions = s.functions ∧ (s.eval rounds e).2.limits = s.limits ∧
      s.machine.Restored (s.eval rounds e).2.machine := by
  have hr : Eval.Restores 0 (e.eval ⟨s.functions, s.limits, rounds⟩) :=
    e.restores_evalAt ⟨s.functions, s.limits, rounds⟩ s.limits.callDepth
  unfold eval
  split
  · next h => exact ⟨rfl, rfl, hr.ok h⟩
  · next h => exact ⟨rfl, rfl, hr.error h⟩

theorem idle_evaluate (s : Session) (rounds : Nat) (e : Expr) :
    (s.evaluate rounds e).2.machine.Idle :=
  (s.reset.restored_eval rounds e).2.2.idle ⟨rfl, rfl⟩

/-- A run of expressions leaves the machine idle, unless it evaluates none and finds it otherwise. -/
theorem idle_allValues {s : Session} {rounds : Nat} {trees : List Tree}
    (h : s.machine.Idle ∨ Tree.evaluatesSome trees) :
    (allValues rounds s trees).2.machine.Idle := by
  induction trees generalizing s with
  | nil => exact h.resolve_right (by simp [Tree.evaluatesSome])
  | cons tree rest ih =>
    obtain ⟨root, diagnostics⟩ := tree
    cases diagnostics with
    | cons d ds => exact h.resolve_right (by simp [Tree.evaluatesSome, Tree.valid])
    | nil =>
      cases root with
      | none => exact ih (by simpa [Tree.evaluatesSome, Tree.valid] using h)
      | some root =>
        have hi := s.idle_evaluate rounds root
        rw [allValues]
        dsimp only [Diagnostics.takeFirst, List.head?_nil]
        cases (s.evaluate rounds root).1.outcome with
        | ok v => exact ih (.inl hi)
        | error halt => cases halt <;> exact hi

theorem idle_lastValue {s : Session} {rounds : Nat} {last : Option Value} {trees : List Tree}
    (h : s.machine.Idle ∨ Tree.evaluatesSome trees) :
    (lastValue rounds last s trees).2.machine.Idle := by
  induction trees generalizing s last with
  | nil => exact h.resolve_right (by simp [Tree.evaluatesSome])
  | cons tree rest ih =>
    obtain ⟨root, diagnostics⟩ := tree
    cases diagnostics with
    | cons d ds => exact h.resolve_right (by simp [Tree.evaluatesSome, Tree.valid])
    | nil =>
      cases root with
      | none => exact ih (by simpa [Tree.evaluatesSome, Tree.valid] using h)
      | some root =>
        have hi := s.idle_evaluate rounds root
        rw [lastValue, Tree.valid, List.isEmpty_nil, if_pos rfl]
        dsimp only
        cases (s.evaluate rounds root).1.outcome with
        | ok v => exact ih (.inl hi)
        | error halt => cases halt <;> exact hi

/-- **Evaluation restores its environment.** Whatever is evaluated in whatever session, and however
it ends, the functions, the limits, the frames and the count of open calls are what they were, the
variables have moved on at most, and a request to show the result stands. So no frame and no call is
open behind a run that has evaluated anything. -/
theorem eval_restores (s : Session) (rounds : Nat) :
    (∀ e, (s.eval rounds e).2.functions = s.functions ∧ (s.eval rounds e).2.limits = s.limits ∧
      s.machine.Restored (s.eval rounds e).2.machine) ∧
    (∀ e, (s.evaluate rounds e).2.machine.Idle) ∧
    ∀ source, Tree.evaluatesSome (s.parse source).1 →
      (s.runLine rounds source).2.machine.Idle ∧ (s.getResult rounds source).2.machine.Idle :=
  ⟨s.restored_eval rounds, s.idle_evaluate rounds, fun _ h =>
    ⟨idle_allValues (.inr h), idle_lastValue (.inr h)⟩⟩

/-- A binding that fails, in a session where a frame is open. -/
theorem eval_restores_undefined :
    Tree.evaluatesSome ((Session.new {} 0).pushFrame.parse "let x = y in x;").1 ∧
    ((Session.new {} 0).pushFrame.runLine 0 "let x = y in x;").2.machine.Idle ∧
    ((Session.new {} 0).pushFrame.getResult 0 "let x = y in x;").2.machine.Idle := by
  have h : Tree.evaluatesSome ((Session.new {} 0).pushFrame.parse "let x = y in x;").1 := by cbv
  exact ⟨h, (eval_restores (Session.new {} 0).pushFrame 0).2.2 "let x = y in x;" h⟩

end Session

end ExprScript
