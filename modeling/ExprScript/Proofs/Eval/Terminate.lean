import ExprScript.Proofs.Eval.Parametric
import ExprScript.Proofs.Eval.Restore

/-!
# Evaluation ends without `while`

What a call does is to be evaluated again, so nothing but the count of open calls stands between a
recursion and its never coming to an end. To say that it does, evaluation is run against a clock,
which counts how many calls are inside of each other and how many rounds a loop takes, and which is
no part of the language: when it runs out, evaluation is given up without a result.

* `enterWithin`, `Expr.evalWithin`: evaluation against a clock;
* `Expr.EndsIn`: **an evaluation ends**, for every clock that is large enough in the same way;
* `Expr.not_endsIn_forever`: one that does not;
* `Expr.whileFree`: expressions without a `while`;
* `StepRelation.sameAt`: steps that end, and end alike, where so many calls are open;
* **`Expr.endsIn_of_whileFree`**: without `while`, every evaluation ends.
-/

namespace ExprScript

/-! ## Clocks -/

section Clocks

variable (setting : Setting)

/-- What happens to the body of a called function when the clock lets so many more calls be inside of
each other. Only the limit on open calls is an error of the program. -/
def enterWithin : Nat → Enter
  | 0 => fun _ _ _ => throw .outOfRounds
  | clock + 1 => fun column frame body => do
    Eval.checkCalls setting.limits.callDepth column
    Eval.inCall frame (body.evalWith setting (enterWithin clock))

end Clocks

namespace Eval

/-- A loop goes on for as many rounds as it may if its condition is always true. -/
theorem repeatWhile_forever {test : Eval Bool} {body : Eval String} {line : String}
    (htest : ∀ m, test m = .ok true m) (hbody : ∀ m, body m = .ok line m) (rounds : Nat)
    (lines : List String) (m : Machine) :
    repeatWhile test body rounds lines m = .error .outOfRounds m := by
  induction rounds generalizing lines with
  | zero => rfl
  | succ rounds ih =>
    rw [repeatWhile, bind_apply, htest]
    dsimp only
    rw [if_pos rfl, bind_apply, hbody]
    exact ih _

/-- Where too many calls are open, nothing comes behind the check. -/
theorem checkCalls_bind_of_le {α : Type} {limit : Nat} {m : Machine} (h : limit ≤ m.callDepth)
    (column : Nat) (f : Unit → Eval α) :
    (checkCalls limit column >>= f) m = .error (.error ⟨.stackOverflow limit, column⟩) m := by
  have hcheck : checkCalls limit column m = .error (.error ⟨.stackOverflow limit, column⟩) m := by
    change (if limit ≤ m.callDepth then fail _ column else pure () : Eval Unit) m = _
    rw [if_pos h]
    rfl
  rw [bind_apply, hcheck]

end Eval

section Ends

variable (functions : FunctionTable) (limits : Limits)

/-- Evaluates an expression against a clock. -/
def Expr.evalWithin (clock : Nat) (e : Expr) : Eval Value :=
  e.evalWith ⟨functions, limits, clock⟩ (enterWithin ⟨functions, limits, clock⟩ clock)

/-- **An evaluation ends** with a value or an error: every clock that is large enough leads to it. -/
def Expr.EndsIn (e : Expr) (m : Machine) (r : EStateM.Result Halt Machine Value) : Prop :=
  (∀ m', r ≠ .error .outOfRounds m') ∧
    ∃ clock, ∀ n, clock ≤ n → e.evalWithin functions limits n m = r

/-- A loop whose condition is always true never ends. -/
theorem Expr.not_endsIn_forever (column c c' : Nat) (x : Float) (m : Machine)
    (r : EStateM.Result Halt Machine Value) :
    ¬ (Expr.while column (.bool c true) (.number c' x)).EndsIn functions limits m r := by
  rintro ⟨hr, clock, h⟩
  apply hr { m with printRequested := true }
  rw [← h clock (Nat.le_refl clock)]
  change (Eval.repeatWhile _ _ clock [] >>= _) { m with printRequested := true } = _
  rw [Eval.bind_apply, Eval.repeatWhile_forever]
  · exact fun _ => rfl
  · exact fun _ => rfl

end Ends

/-! ## Expressions without `while` -/

/-- Whether an expression is no `while`. -/
def Expr.whileFreeHere : Expr → Bool
  | .while .. => false
  | _ => true

/-- There is no `while` in an expression. -/
abbrev Expr.whileFree (e : Expr) : Bool := e.everywhere whileFreeHere

namespace StepRelation

variable {α : Type} {d : Nat}

/-- **Steps that end, and end alike**, where `d` calls are open, which are open again behind them. -/
def sameAt (d : Nat) : StepRelation where
  Rel p q := ∀ m, m.callDepth = d →
    p m = q m ∧ (p.after m).callDepth = d ∧ ∀ m', p m ≠ .error .outOfRounds m'
  pure _ _ hm := ⟨rfl, hm, nofun⟩
  fail _ _ _ hm := ⟨rfl, hm, nofun⟩
  get _ hm := ⟨rfl, hm, nofun⟩
  modify hf m hm := ⟨rfl, (hf m).trans hm, nofun⟩
  bind {α β p q f g} h hf m hm := by
    obtain ⟨heq, hdepth, hend⟩ := h m hm
    rw [Eval.after, Eval.bind_apply, Eval.bind_apply, ← heq]
    unfold Eval.after at hdepth
    cases hp : p m with
    | ok a m₁ =>
      rw [hp] at hdepth
      exact hf a m₁ hdepth
    | error halt m₁ =>
      rw [hp] at hdepth hend
      exact ⟨rfl, hdepth, fun m' he => hend m' (by cases he; rfl)⟩
  inFrame {α p q} frame h m hm := by
    obtain ⟨heq, hdepth, hend⟩ := h { m with scopes := frame :: m.scopes } hm
    rw [Eval.after_inFrame, Eval.inFrame, Eval.inFrame, ← heq]
    refine ⟨rfl, hdepth, fun m' he => ?_⟩
    cases hp : p { m with scopes := frame :: m.scopes } with
    | ok a m₁ =>
      rw [hp] at he
      cases he
    | error halt m₁ =>
      rw [hp] at he hend
      cases he
      exact hend m₁ rfl

/-- A call that is one more than are open. -/
theorem sameAt_inCall {p q : Eval α} (frame : Frame) (h : (sameAt (d + 1)).Rel p q) :
    (sameAt d).Rel (Eval.inCall frame p) (Eval.inCall frame q) := by
  intro m hm
  obtain ⟨heq, hdepth, hend⟩ := (sameAt (d + 1)).inFrame frame h
    { m with callDepth := m.callDepth + 1 } (congrArg (· + 1) hm)
  rw [Eval.after_inCall, Eval.inCall, Eval.inCall, ← heq]
  refine ⟨rfl, ?_, fun m' he => ?_⟩
  · dsimp only
    omega
  · cases hp : Eval.inFrame frame p { m with callDepth := m.callDepth + 1 } with
    | ok a m₁ =>
      rw [hp] at he
      cases he
    | error halt m₁ =>
      rw [hp] at he hend
      cases he
      exact hend m₁ rfl

/-- Where too many calls are open, it does not matter what would come next. -/
theorem sameAt_checkCalls {limit column : Nat} {p q : Eval α}
    (h : d < limit → (sameAt d).Rel p q) :
    (sameAt d).Rel (Eval.checkCalls limit column >>= fun _ => p)
      (Eval.checkCalls limit column >>= fun _ => q) := by
  by_cases hd : d < limit
  · exact (sameAt d).bind ((sameAt d).checkCalls limit column) fun _ => h hd
  · intro m hm
    have hle : limit ≤ m.callDepth := by omega
    rw [Eval.after, Eval.checkCalls_bind_of_le hle, Eval.checkCalls_bind_of_le hle]
    exact ⟨rfl, hm, nofun⟩

/-- Without `while`, nothing is given up, however many rounds a loop would have. -/
theorem admits_sameAt (functions : FunctionTable) (limits : Limits) (rounds rounds' : Nat) :
    (sameAt d).Admits Expr.whileFreeHere ⟨functions, limits, rounds⟩
      ⟨functions, limits, rounds'⟩ where
  functions := alike_find? functions
  limits := rfl
  missing _ _ _ hm := ⟨rfl, hm, nofun⟩
  loop h := by cases h

end StepRelation

/-! ## Recursion ends -/

section Recursion

open StepRelation

variable {functions : FunctionTable} {limits : Limits}
  (hf : ∀ f ∈ functions.entries, f.body.whileFree)

include hf

/-- **The limit on open calls is met before the clock runs out**, by induction on the calls that may
still be opened: each call that is entered opens one. -/
theorem sameAt_enterWithin (rounds rounds' : Nat) {calls clock d : Nat} (hc : calls < clock)
    (hd : limits.callDepth ≤ d + calls) (column : Nat) (frame : Frame) {f : FunctionDef}
    (hmem : f ∈ functions.entries) :
    (sameAt d).Rel (enterWithin ⟨functions, limits, rounds⟩ clock column frame f.body)
      (enterCall ⟨functions, limits, rounds'⟩ calls column frame f.body) := by
  induction calls generalizing clock d column frame f with
  | zero =>
    obtain ⟨clock, rfl⟩ := Nat.exists_eq_succ_of_ne_zero (Nat.ne_of_gt hc)
    intro m hm
    have hle : limits.callDepth ≤ m.callDepth := by omega
    have hrun : enterWithin ⟨functions, limits, rounds⟩ (clock + 1) column frame f.body m =
        .error (.error ⟨.stackOverflow limits.callDepth, column⟩) m :=
      Eval.checkCalls_bind_of_le hle column _
    rw [Eval.after, hrun]
    exact ⟨rfl, hm, nofun⟩
  | succ calls ih =>
    obtain ⟨clock, rfl⟩ := Nat.exists_eq_succ_of_ne_zero (Nat.ne_of_gt (Nat.zero_lt_of_lt hc))
    refine sameAt_checkCalls fun hlt => sameAt_inCall frame ?_
    refine f.body.related_evalWith _ (admits_sameAt functions limits rounds rounds') ?_ (hf f hmem)
    intro column frame name g hg
    exact ih (by omega) (by omega) column frame (List.mem_of_find?_eq_some hg)

/-- **Without `while`, every evaluation ends**: with a value or an error, whatever the limits and the
machine, and however the functions call each other. And the number of rounds that loops would be
allowed does not matter for it. -/
theorem Expr.endsIn_of_whileFree {e : Expr} (he : e.whileFree) (m : Machine) :
    ∃ r, e.EndsIn functions limits m r ∧ ∀ rounds, e.eval ⟨functions, limits, rounds⟩ m = r := by
  have hsame : ∀ n rounds, limits.callDepth < n →
      (sameAt m.callDepth).Rel (e.evalWithin functions limits n)
        (e.eval ⟨functions, limits, rounds⟩) := by
    intro n rounds hn
    refine e.related_evalWith _ (admits_sameAt functions limits n rounds) ?_ he
    intro column frame name f hfind
    exact sameAt_enterWithin hf n rounds hn (Nat.le_add_left _ _) column frame
      (List.mem_of_find?_eq_some hfind)
  refine ⟨e.eval ⟨functions, limits, 0⟩ m, ⟨?_, limits.callDepth + 1, fun n hn => ?_⟩, fun rounds => ?_⟩
  · obtain ⟨heq, -, hend⟩ := hsame _ 0 (Nat.lt_succ_self limits.callDepth) m rfl
    rwa [heq] at hend
  · exact (hsame n 0 hn m rfl).1
  · have h₀ := (hsame _ 0 (Nat.lt_succ_self limits.callDepth) m rfl).1
    have h₁ := (hsame _ rounds (Nat.lt_succ_self limits.callDepth) m rfl).1
    exact h₁.symm.trans h₀

end Recursion

/-- Two functions that call each other without an end, from a loop over a vector and from inside an
argument. -/
theorem Expr.endsIn_of_whileFree_mutual :
    let f : FunctionDef := ⟨"f", ["x"], [.any], .of .string,
      .call 17 "g" [.vector 19 [.variable 20 "x", .variable 23 "x"]], 10⟩
    let g : FunctionDef := ⟨"g", ["v"], [.of .vector], .of .string,
      .forEach 46 "y" "v" 56 (.call 59 "f" [.call 61 "f" [.variable 63 "y"]]), 37⟩
    let e : Expr := .call 69 "f" [.number 71 1]
    let m : Machine := ⟨[], 0, false, .ofSeed 0⟩
    (∀ h ∈ [f, g], h.body.whileFree) ∧ e.whileFree ∧
      ∃ r, e.EndsIn ⟨[f, g]⟩ {} m r ∧ ∀ rounds, e.eval ⟨⟨[f, g]⟩, {}, rounds⟩ m = r := by
  intro f g e m
  have hfree : ∀ h ∈ (⟨[f, g]⟩ : FunctionTable).entries, h.body.whileFree := by
    intro h hm
    rcases List.mem_pair.mp hm with rfl | rfl
    · rfl
    · rfl
  exact ⟨hfree, rfl, endsIn_of_whileFree hfree rfl m⟩

end ExprScript
