import ExprScript.Proofs.Reading.Declaration

/-!
# Loops end by themselves

The loops of the readers are given a number of rounds. Every round but the first one takes a token,
so the rounds that they are given are never used up: more of them make no difference.

* `Reading.EndsWithin`: **a loop ends by itself** within as many rounds as tokens are left, or a few
  more;
* `Reading.LoopsEnd`, **`Reading.loopsEnd`**: every loop of the readers does, whatever is read
  further down.
-/

namespace ExprScript.Reading

variable {α β : Type}

/-- **A loop ends by itself** within as many rounds as tokens are left and `extra` more, so that it
makes no difference how many there are behind those. -/
def EndsWithin (extra : Nat) (loop : Nat → Reading α) : Prop :=
  ∀ c rounds, c.rest.length + extra ≤ rounds → loop rounds c = loop (c.rest.length + extra) c

/-- A loop ends by itself if the last round makes no difference. -/
theorem EndsWithin.of_succ {extra : Nat} {loop : Nat → Reading α}
    (h : ∀ rounds c, c.rest.length + extra ≤ rounds → loop (rounds + 1) c = loop rounds c) :
    EndsWithin extra loop := by
  intro c rounds hr
  induction hr with
  | refl => rfl
  | step hr ih => exact (h _ c hr).trans ih

theorem bind_congr_left {p p' : Reading α} {f : α → Reading β} {c : Cursor} (h : p c = p' c) :
    (p >>= f) c = (p' >>= f) c := by
  rw [bind_apply, bind_apply, h]

theorem bind_congr_apply {p : Reading α} {f g : α → Reading β} {c : Cursor}
    (h : ∀ a c', p c = .ok a c' → f a c' = g a c') : (p >>= f) c = (p >>= g) c := by
  rw [bind_apply, bind_apply]
  cases hp : p c with
  | ok a c' => exact h a c' hp
  | error e c' => rfl

/-- What is done if a token is there may rely on one less being left. -/
theorem ifEat_congr {t : Token} {p p' q : Reading α} {c : Cursor}
    (h : c.next.rest.length < c.rest.length → p c.next = p' c.next) :
    (do if ← eat t then p else q) c = (do if ← eat t then p' else q) c := by
  rw [bind_apply, bind_apply, eat_apply]
  by_cases ht : c.token? = some t
  · simpa [ht] using h (Cursor.length_next_lt ht)
  · simp [ht]

/-- A token that is not there is not taken. -/
theorem ifEat_of_nil {t : Token} {p q : Reading α} {c : Cursor} (h : c.rest.length = 0) :
    (do if ← eat t then p else q) c = q c := by
  have hc : ¬ c.token? = some t := by simp [Cursor.token?, List.length_eq_zero_iff.mp h]
  rw [bind_apply, eat_apply, if_neg hc]
  rfl

section Expressions

variable (deeper : Nat → Reading Expr) [hd : ∀ level, Advances (deeper level)]
include hd

theorem endsWithin_expressions : EndsWithin 0 (expressions deeper) := by
  refine .of_succ fun rounds => ?_
  induction rounds with
  | zero =>
    intro c hc
    refine bind_congr_apply fun e c' he => ifEat_of_nil ?_
    have := (Advances.ok he).length_le
    omega
  | succ rounds ih =>
    intro c hc
    refine bind_congr_apply fun e c' he => ifEat_congr fun hlt => bind_congr_left (ih _ ?_)
    have := (Advances.ok he).length_le
    omega

theorem endsWithin_bindings : EndsWithin 1 (bindings deeper) := by
  refine .of_succ fun rounds => ?_
  induction rounds with
  | zero =>
    intro c hc
    cases hc
  | succ rounds ih =>
    intro c hc
    refine bind_congr_apply fun bind c' hb => ifEat_congr fun hlt => bind_congr_left (ih _ ?_)
    have := (Advances.ok hb).length_le
    omega

theorem endsWithin_branches : EndsWithin 0 (branches deeper) := by
  refine .of_succ fun rounds => ?_
  induction rounds with
  | zero => exact fun c hc => ifEat_of_nil (Nat.le_zero.mp hc)
  | succ rounds ih =>
    intro c hc
    refine ifEat_congr fun hlt => bind_congr_apply fun condition c' hcond =>
      bind_congr_apply fun body c'' hbody => bind_congr_left (ih _ ?_)
    have := (Advances.ok hcond).length_le
    have := (Advances.ok hbody).length_le
    omega

omit hd in
/-- Where an operator comes next, a token does. -/
theorem next_of_operator {level : Nat} {op : BinaryOp} {c c' : Cursor}
    (h : operator? level c = .ok (some op) c') : c' = c ∧ c.next.rest.length < c.rest.length := by
  change EStateM.Result.ok ((c.token?.bind Token.binary?).filter (level ≤ ·.precedence)) c = _ at h
  obtain ⟨hop, rfl⟩ := EStateM.Result.ok.inj h
  cases ht : c.token? with
  | none => simp [ht] at hop
  | some t => exact ⟨rfl, Cursor.length_next_lt ht⟩

theorem endsWithin_chain (level : Nat) (operand : Expr) :
    EndsWithin 0 fun rounds => chain deeper level rounds operand := by
  refine .of_succ fun rounds => ?_
  induction rounds generalizing operand with
  | zero =>
    intro c hc
    change (operator? level >>= _) c = (operator? level >>= fun _ => pure operand) c
    refine bind_congr_apply fun op c' hop => ?_
    cases op with
    | none => rfl
    | some op =>
      have := (next_of_operator hop).2
      omega
  | succ rounds ih =>
    intro c hc
    refine bind_congr_apply fun op c' hop => ?_
    cases op with
    | none => rfl
    | some op =>
      obtain ⟨rfl, hlt⟩ := next_of_operator hop
      refine bind_congr_apply (p := deeper op.rightLevel) (c := c'.next) fun right c'' hr =>
        ih _ _ ?_
      have := (Advances.ok hr).length_le
      omega

end Expressions

theorem endsWithin_parameterNames (seen : List String) : EndsWithin 1 (parameterNames seen) := by
  refine .of_succ fun rounds => ?_
  induction rounds generalizing seen with
  | zero =>
    intro c hc
    cases hc
  | succ rounds ih =>
    intro c hc
    refine bind_congr_apply fun found c₁ hfound => ?_
    cases found with
    | none => rfl
    | some found =>
      have hlength := (Advances.ok hfound).length_le
      have others (c₂ : Cursor) (h : c₂.rest.length ≤ c.rest.length) :
          (do if ← eat (.symbol .comma) then
                return found.1 :: (← parameterNames (found.1 :: seen) (rounds + 1))
              else return [found.1]) c₂ =
          (do if ← eat (.symbol .comma) then
                return found.1 :: (← parameterNames (found.1 :: seen) rounds)
              else return [found.1]) c₂ :=
        ifEat_congr fun hlt => bind_congr_left (ih _ _ (by omega))
      dsimp only
      split
      · exact others (c₁.report _ _) hlength
      · exact others c₁ hlength

/-- **The loops of the readers end by themselves**, given what is read further down. -/
structure LoopsEnd (deeper : Nat → Reading Expr) : Prop where
  expressions : EndsWithin 0 (expressions deeper)
  bindings : EndsWithin 1 (bindings deeper)
  branches : EndsWithin 0 (branches deeper)
  chain (level : Nat) (operand : Expr) :
    EndsWithin 0 fun rounds => chain deeper level rounds operand
  parameterNames (seen : List String) : EndsWithin 1 (parameterNames seen)

/-- **Every loop of the readers ends by itself.** -/
theorem loopsEnd (deeper : Nat → Reading Expr) [∀ level, Advances (deeper level)] :
    LoopsEnd deeper where
  expressions := endsWithin_expressions deeper
  bindings := endsWithin_bindings deeper
  branches := endsWithin_branches deeper
  chain := endsWithin_chain deeper
  parameterNames := endsWithin_parameterNames

end ExprScript.Reading
