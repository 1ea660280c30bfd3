import ExprScript.Proofs.Eval.Step
import ExprScript.Proofs.Eval.Variables

/-!
# Evaluation restores the machine

Whatever an expression does, and whether it produces a value or fails, the frames and calls that it
opened are closed again, and the variables that were there before have the values they had. Only the
cursors of vectors may have moved on.

* `Machine.RestoredBelow`, `Machine.Restored`: what may happen to the machine;
* `Eval.Restores`: **a step restores the machine**, on every path, with an instance for every step
  of evaluation;
* **`Expr.restores_evalAt`**: evaluation is such a step, on any number of calls.
-/

namespace ExprScript

/-! ## The machine -/

/-- What may happen to the machine while its innermost `n` frames are in use: the frames below them
stay, with variables that only move on, the count of open calls stays, and a request to show the
result is not taken back. -/
structure Machine.RestoredBelow (n : Nat) (m m' : Machine) : Prop where
  scopes : Scopes.Moved (m.scopes.drop n) (m'.scopes.drop n)
  callDepth : m'.callDepth = m.callDepth
  printRequested : m.printRequested = true → m'.printRequested = true

/-- What may happen to the machine while none of its frames is in use. -/
abbrev Machine.Restored : Machine → Machine → Prop := Machine.RestoredBelow 0

namespace Machine.RestoredBelow

theorem refl (n : Nat) (m : Machine) : RestoredBelow n m m := ⟨.refl _, rfl, id⟩

theorem trans {n : Nat} {m₁ m₂ m₃ : Machine} (h : RestoredBelow n m₁ m₂)
    (h' : RestoredBelow n m₂ m₃) : RestoredBelow n m₁ m₃ :=
  ⟨h.scopes.trans h'.scopes, h'.callDepth.trans h.callDepth,
    fun hp => h'.printRequested (h.printRequested hp)⟩

/-- Frames that are in use may change as they like. -/
theorem below {n : Nat} {m m' : Machine} (h : m.Restored m') : RestoredBelow n m m' :=
  ⟨List.forall₂_drop n h.scopes, h.callDepth, h.printRequested⟩

end Machine.RestoredBelow

namespace Eval

/-! ## Steps that restore the machine -/

/-- The machine behind a step, whether it succeeds or fails. -/
def after {α : Type} (p : Eval α) (m : Machine) : Machine :=
  match p m with
  | .ok _ m' => m'
  | .error _ m' => m'

/-- **A step restores the machine** below the innermost `n` frames, on every path. -/
class Restores {α : Type} (n : Nat) (p : Eval α) : Prop where
  restored : ∀ m : Machine, m.RestoredBelow n (p.after m)

section Steps

variable {α β : Type} {n : Nat}

theorem Restores.ok {p : Eval α} [Restores n p] {m m' : Machine} {a : α} (h : p m = .ok a m') :
    m.RestoredBelow n m' := by
  have hr := Restores.restored (n := n) (p := p) m
  rwa [after, h] at hr

theorem Restores.error {p : Eval α} [Restores n p] {m m' : Machine} {e : Halt}
    (h : p m = .error e m') : m.RestoredBelow n m' := by
  have hr := Restores.restored (n := n) (p := p) m
  rwa [after, h] at hr

theorem Restores.bind_of_ok {p : Eval α} {f : α → Eval β} (hp : Restores n p)
    (hf : ∀ {a m m'}, p m = .ok a m' → m'.RestoredBelow n ((f a).after m')) :
    Restores n (p >>= f) where
  restored m := by
    rw [after, bind_apply]
    cases h : p m with
    | ok a m' => exact (Restores.ok h).trans (hf h)
    | error e m' => exact Restores.error h

theorem Restores.bind {p : Eval α} {f : α → Eval β} (hp : Restores n p)
    (hf : ∀ a, Restores n (f a)) : Restores n (p >>= f) :=
  hp.bind_of_ok fun {a _ m'} _ => (hf a).restored m'

theorem Restores.below {p : Eval α} [Restores 0 p] : Restores n p :=
  ⟨fun m => .below (Restores.restored m)⟩

instance (a : α) : Restores n (pure a : Eval α) := ⟨.refl n⟩

instance (h : Halt) : Restores n (throw h : Eval α) := ⟨.refl n⟩

instance (p : Eval α) (f : α → Eval β) [hp : Restores n p] [hf : ∀ a, Restores n (f a)] :
    Restores n (p >>= f) := hp.bind hf

instance (f : α → β) (p : Eval α) [hp : Restores n p] : Restores n (f <$> p) := by
  rw [map_eq_pure_bind]
  infer_instance

instance (c : Prop) [Decidable c] (p q : Eval α) [Restores n p] [Restores n q] :
    Restores n (if c then p else q) := by
  split <;> infer_instance

instance (cause : EvalCause) (column : Nat) : Restores n (fail cause column : Eval α) :=
  ⟨.refl n⟩

instance (column : Nat) (result : Except EvalCause α) : Restores n (located column result) := by
  unfold located
  split <;> infer_instance

instance : Restores n (get : Eval Machine) := ⟨.refl n⟩

instance : Restores n requestPrint := ⟨fun _ => ⟨.refl _, rfl, fun _ => rfl⟩⟩

instance : Restores n draw where
  restored m := by
    change m.RestoredBelow n { m with generator := m.generator.draw.2 }
    exact ⟨.refl _, rfl, id⟩

instance (name : String) (column : Nat) : Restores n (binding name column) := by
  unfold binding
  refine .bind inferInstance fun m => ?_
  split <;> infer_instance

instance (name : String) (column : Nat) : Restores n (vectorBinding name column) := by
  unfold vectorBinding
  refine .bind inferInstance fun b => ?_
  split <;> infer_instance

instance (column : Nat) (value : Value) : Restores n (condition column value) := by
  unfold condition
  split <;> infer_instance

instance (limit column : Nat) : Restores n (checkCalls limit column) := by
  unfold checkCalls
  infer_instance

theorem after_inFrame (frame : Frame) (step : Eval α) (m : Machine) :
    (inFrame frame step).after m =
      let m' := step.after { m with scopes := frame :: m.scopes }
      { m' with scopes := m'.scopes.tail } := by
  unfold after inFrame
  cases step { m with scopes := frame :: m.scopes } <;> rfl

theorem after_inCall (frame : Frame) (step : Eval α) (m : Machine) :
    (inCall frame step).after m =
      let m' := (inFrame frame step).after { m with callDepth := m.callDepth + 1 }
      { m' with callDepth := m'.callDepth - 1 } := by
  unfold after inCall
  cases inFrame frame step { m with callDepth := m.callDepth + 1 } <;> rfl

/-- What a step does to its own frame is gone with the frame. -/
instance (frame : Frame) (step : Eval α) [Restores 1 step] : Restores 0 (inFrame frame step) where
  restored m := by
    have h := Restores.restored (n := 1) (p := step) { m with scopes := frame :: m.scopes }
    rw [after_inFrame]
    exact ⟨by simpa using h.scopes, h.callDepth, h.printRequested⟩

instance (frame : Frame) (step : Eval α) [Restores 1 step] : Restores 0 (inCall frame step) where
  restored m := by
    have h := Restores.restored (n := 0) (p := inFrame frame step)
      { m with callDepth := m.callDepth + 1 }
    rw [after_inCall]
    refine ⟨h.scopes, ?_, h.printRequested⟩
    dsimp only
    rw [h.callDepth, Nat.add_sub_cancel]

instance restores_mapM (f : α → Eval β) [∀ a, Restores n (f a)] (as : List α) :
    Restores n (as.mapM f) := by
  induction as with
  | nil => rw [List.mapM_nil]; infer_instance
  | cons a as ih => rw [List.mapM_cons]; infer_instance

instance restores_repeatWhile (condition : Eval Bool) (body : Eval String) [Restores n condition]
    [Restores n body] (rounds : Nat) (lines : List String) :
    Restores n (repeatWhile condition body rounds lines) := by
  induction rounds generalizing lines with
  | zero => unfold repeatWhile; infer_instance
  | succ rounds ih => unfold repeatWhile; infer_instance

end Steps

/-! ## Evaluation -/

/-- Only `next` changes the machine: it moves the cursor of the vector that the name means. -/
instance (column : Nat) (name : String) (method : Method) :
    Restores 0 (Eval.method column name method) := by
  refine Restores.bind_of_ok inferInstance fun {r s s'} h => ?_
  obtain ⟨rfl, hf⟩ := vectorBinding_eq_ok h
  obtain ⟨elements, cursor⟩ := r
  cases method with
  | size => exact .refl 0 s'
  | next =>
    dsimp only
    split
    · next element he =>
      refine ⟨Scopes.moved_setCursor hf (.setCursor ?_ ?_), rfl, id⟩
      · exact (List.getElem?_eq_some_iff.mp he).1
      · rintro i rfl
        exact Nat.le_succ i
    · exact .refl 0 s'
  | current =>
    dsimp only
    split <;> exact .refl 0 s'

instance (column : Nat) (name : String) (elements : List Value) (index : Value) :
    Restores 0 (element column name elements index) := by
  unfold element
  refine .bind inferInstance fun position => ?_
  split <;> infer_instance

instance (column : Nat) (f : FunctionDef) (values : List Value) :
    Restores 0 (checkArguments column f values) := by
  unfold checkArguments
  split <;> infer_instance

instance (name : String) (value : Value) : Restores 1 (define name value) where
  restored m := by
    refine ⟨?_, rfl, id⟩
    change Scopes.Moved (m.scopes.drop 1) ((m.scopes.define name value).drop 1)
    unfold Scopes.define
    split
    · next h => rw [h]; exact .nil
    · next h => rw [h]; exact Scopes.Moved.refl _

/-- The rounds of a loop are in frames of their own. -/
instance (var : String) (elements : List Value) (body : Eval Value) [Restores 0 body] :
    Restores 0 (loop var elements body) := by
  have : Restores 1 body := .below
  unfold loop
  infer_instance

end Eval

section Evaluation

open Eval

set_option linter.unusedSectionVars false

variable (setting : Setting) (enter : Enter)
  [∀ column frame body, Restores 0 (enter column frame body)]

mutual

/-- Evaluating an expression restores the machine if calls do. -/
theorem Expr.restores_evalWith : (e : Expr) → Restores 0 (e.evalWith setting enter)
  | .number .. | .string .. | .bool .. | .constant .. | .variable .. | .rand .. | .method ..
  | .error .. => by
    rw [Expr.evalWith]
    infer_instance
  | .unary _ _ e | .paren _ e | .print _ e | .math _ _ e | .index _ _ e => by
    have := e.restores_evalWith
    rw [Expr.evalWith]
    infer_instance
  | .binary _ e₁ _ e₂ | .log _ e₁ e₂ | .range _ e₁ e₂ | .while _ e₁ e₂ => by
    have := e₁.restores_evalWith
    have := e₂.restores_evalWith
    rw [Expr.evalWith]
    infer_instance
  | .ifThen _ condition body rest => by
    have := condition.restores_evalWith
    have := body.restores_evalWith
    have := rest.restores_evalWith
    rw [Expr.evalWith]
    infer_instance
  | .letIn _ bindings => by
    have := bindings.restores_evalWith
    rw [Expr.evalWith]
    infer_instance
  | .call _ name arguments => by
    have := restores_evalAll arguments
    rw [Expr.evalWith]
    split <;> infer_instance
  | .forRange _ _ lower upper body => by
    have := lower.restores_evalWith
    have := upper.restores_evalWith
    have := body.restores_evalWith
    rw [Expr.evalWith]
    infer_instance
  | .forEach _ _ _ _ body => by
    have := body.restores_evalWith
    rw [Expr.evalWith]
    infer_instance
  | .vector _ elements => by
    have := restores_evalAll elements
    rw [Expr.evalWith]
    infer_instance

theorem restores_evalAll : (es : List Expr) → Restores 0 (evalAll setting enter es)
  | [] => by
    rw [evalAll]
    infer_instance
  | e :: rest => by
    have := e.restores_evalWith
    have := restores_evalAll rest
    rw [evalAll]
    infer_instance

theorem Branches.restores_evalWith : (b : Branches) → Restores 0 (b.evalWith setting enter)
  | .elif condition body rest => by
    have := condition.restores_evalWith
    have := body.restores_evalWith
    have := rest.restores_evalWith
    rw [Branches.evalWith]
    infer_instance
  | .otherwise body => by
    have := body.restores_evalWith
    rw [Branches.evalWith]
    infer_instance

/-- Bindings go into the innermost frame, so only the frames below it are restored. -/
theorem Bindings.restores_evalWith : (b : Bindings) → Restores 1 (b.evalWith setting enter)
  | .bind _ name value rest => by
    have := value.restores_evalWith
    have : Restores 1 (value.evalWith setting enter) := .below
    have := rest.restores_evalWith
    rw [Bindings.evalWith]
    infer_instance
  | .body body => by
    have := body.restores_evalWith
    rw [Bindings.evalWith]
    exact .below

end

end Evaluation

/-- Calls restore the machine, however many of them may still be opened. -/
instance restores_enterCall (setting : Setting) (calls column : Nat) (frame : Frame) (body : Expr) :
    Eval.Restores 0 (enterCall setting calls column frame body) := by
  induction calls generalizing column frame body with
  | zero =>
    unfold enterCall
    infer_instance
  | succ calls ih =>
    have := body.restores_evalWith setting (enterCall setting calls)
    have : Eval.Restores 1 (body.evalWith setting (enterCall setting calls)) := .below
    unfold enterCall
    infer_instance

/-- **Evaluation restores the machine**, whatever is evaluated, and however it ends. -/
theorem Expr.restores_evalAt (setting : Setting) (calls : Nat) (e : Expr) :
    Eval.Restores 0 (e.evalAt setting calls) :=
  e.restores_evalWith setting (enterCall setting calls)

end ExprScript
