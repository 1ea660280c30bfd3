import ExprScript.Eval.Expr

/-!
# Successful steps

What a step of evaluation has done when it succeeds, read off from its result.

* `Eval.bind_eq_ok`: **a run of two steps is one of the first and one of the second**;
* `Eval.binding_eq_ok`, `Eval.vectorBinding_eq_ok`, `Eval.located_eq_ok`: the steps that look things
  up or may fail;
* `Eval.inFrame_eq_ok`, `Eval.inCall_eq_ok`, `Eval.kind_of_loop`: the steps that open frames;
* `Eval.checkArguments_eq_ok`, `Expr.call_eq_ok`: calls that return.
-/

namespace ExprScript

namespace Eval

variable {α β : Type} {m m' : Machine}

theorem bind_apply (p : Eval α) (f : α → Eval β) (m : Machine) :
    (p >>= f) m = match p m with
      | .ok a m' => f a m'
      | .error e m' => .error e m' := by
  show EStateM.bind p f m = _
  unfold EStateM.bind
  cases p m <;> rfl

/-- **A run of two steps is one of the first and one of the second.** -/
theorem bind_eq_ok {p : Eval α} {f : α → Eval β} {b : β} (h : (p >>= f) m = .ok b m') :
    ∃ a m₁, p m = .ok a m₁ ∧ f a m₁ = .ok b m' := by
  rw [bind_apply] at h
  cases hp : p m with
  | ok a m₁ => rw [hp] at h; exact ⟨a, m₁, rfl, h⟩
  | error e m₁ => rw [hp] at h; cases h

theorem binding_eq_ok {name : String} {column : Nat} {b : Binding}
    (h : binding name column m = .ok b m') : m' = m ∧ m.scopes.find? name = some b := by
  obtain ⟨s, m₁, hs, hb⟩ := bind_eq_ok h
  obtain ⟨rfl, rfl⟩ : s = m ∧ m₁ = m := by
    cases hs
    exact ⟨rfl, rfl⟩
  cases hf : m₁.scopes.find? name with
  | none => rw [hf] at hb; cases hb
  | some b' => rw [hf] at hb; cases hb; exact ⟨rfl, rfl⟩

theorem vectorBinding_eq_ok {name : String} {column : Nat} {r : List Value × Option Nat}
    (h : vectorBinding name column m = .ok r m') :
    m' = m ∧ m.scopes.find? name = some ⟨.vector r.1, r.2⟩ := by
  obtain ⟨⟨value, cursor⟩, m₁, hb, hr⟩ := bind_eq_ok h
  obtain ⟨rfl, hf⟩ := binding_eq_ok hb
  cases value with
  | vector elements => cases hr; exact ⟨rfl, hf⟩
  | _ => cases hr

theorem located_eq_ok {column : Nat} {result : Except EvalCause α} {a : α}
    (h : located column result m = .ok a m') : result = .ok a := by
  cases result <;> cases h
  rfl

theorem inFrame_eq_ok {frame : Frame} {step : Eval α} {a : α}
    (h : inFrame frame step m = .ok a m') :
    ∃ m₁, step { m with scopes := frame :: m.scopes } = .ok a m₁ := by
  unfold inFrame at h
  split at h
  · next m₁ hs =>
    cases h
    exact ⟨m₁, hs⟩
  · cases h

theorem inCall_eq_ok {frame : Frame} {step : Eval α} {a : α} (h : inCall frame step m = .ok a m') :
    ∃ m₁ m₂, step m₁ = .ok a m₂ := by
  unfold inCall at h
  split at h
  · next m₂ hs =>
    cases h
    obtain ⟨m₁, hm⟩ := inFrame_eq_ok hs
    exact ⟨_, m₁, hm⟩
  · cases h

/-- Arguments that pass their check are not refused, and nothing else happens. -/
theorem checkArguments_eq_ok {column : Nat} {f : FunctionDef} {values : List Value} {u : Unit}
    (h : checkArguments column f values m = .ok u m') :
    m' = m ∧ mismatch? f.params f.paramTypes values = none := by
  unfold checkArguments at h
  cases hm : mismatch? f.params f.paramTypes values with
  | none =>
    rw [hm] at h
    cases h
    exact ⟨rfl, rfl⟩
  | some found =>
    rw [hm] at h
    cases h

/-- A loop produces a string. -/
theorem kind_of_loop {var : String} {elements : List Value} {body : Eval Value} {v : Value}
    (h : loop var elements body m = .ok v m') : v.kind = .string := by
  unfold loop at h
  obtain ⟨_, _, -, h⟩ := bind_eq_ok h
  obtain ⟨_, _, -, h⟩ := bind_eq_ok h
  cases h
  rfl

end Eval

/-- **A call that returns** has evaluated its arguments, none of which is refused, and has entered the
body of its function. -/
theorem Expr.call_eq_ok {setting : Setting} {enter : Enter} {column : Nat} {name : String}
    {arguments : List Expr} {m m' : Machine} {v : Value}
    (h : (Expr.call column name arguments).evalWith setting enter m = .ok v m') :
    ∃ f values m₁, setting.functions.find? name = some f ∧ arguments.length = f.params.length ∧
      evalAll setting enter arguments m = .ok values m₁ ∧
      Eval.mismatch? f.params f.paramTypes values = none ∧
      enter column (Frame.ofList (f.params.zip values)) f.body m₁ = .ok v m' := by
  rw [Expr.evalWith] at h
  cases hf : setting.functions.find? name with
  | none => rw [hf] at h; cases h
  | some f =>
    rw [hf] at h
    dsimp only at h
    by_cases hn : arguments.length ≠ f.params.length
    · rw [if_pos hn] at h
      cases h
    · rw [if_neg hn] at h
      obtain ⟨values, m₁, hvalues, h⟩ := Eval.bind_eq_ok h
      obtain ⟨_, m₂, hcheck, henter⟩ := Eval.bind_eq_ok h
      obtain ⟨rfl, hnone⟩ := Eval.checkArguments_eq_ok hcheck
      exact ⟨f, values, m₂, rfl, Decidable.not_not.mp hn, hvalues, hnone, henter⟩

end ExprScript
