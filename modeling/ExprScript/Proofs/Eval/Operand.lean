import ExprScript.Proofs.Eval.Restore

/-!
# What expressions need of their operands

An expression that has a value has evaluated its operands before, and those that it works on are of
the kind that it works on. Variables have moved on at most until an operand is evaluated.

* `UnaryOp.kind_of_operand`, `BinaryOp.kinds_of_operands`, `kinds_of_logarithm`,
  `kinds_of_rangeElements` and the like: **operations work on one kind of values**;
* `Expr.Needs`: an expression needs an operand with a property;
* `Expr.needs_unary`, `Expr.needs_left`, `Expr.needs_condition` and the like: what each expression
  needs;
* `Expr.vector_of_index`, `Expr.vector_of_method`: what is needed of variables.
-/

namespace ExprScript

/-! ## Operations -/

theorem UnaryOp.kind_of_operand {op : UnaryOp} {v w : Value} (h : op.apply v = .ok w) :
    v.kind = op.operand := by
  unfold UnaryOp.apply at h
  split at h <;> cases h <;> rfl

theorem BinaryOp.kinds_of_operands {op : BinaryOp} {k : Kind} (hk : op.operand? = some k)
    {a b v : Value} (h : op.apply a b = .ok v) : a.kind = k ∧ b.kind = k := by
  cases op with
  | equality | concat => cases hk
  | arithmetic | comparison | connective =>
    cases hk
    unfold BinaryOp.apply at h
    dsimp only at h
    split at h <;> cases h
    exact ⟨rfl, rfl⟩

theorem BinaryOp.string_of_concat {a b v : Value} (h : BinaryOp.concat.apply a b = .ok v) :
    a.kind = .string ∨ b.kind = .string := by
  unfold BinaryOp.apply at h
  dsimp only at h
  split at h
  · next hstring => simpa using hstring
  · cases h

theorem kind_of_numberArgument {function : String} {v : Value} {x : Float}
    (h : numberArgument function v = .ok x) : v.kind = .number := by
  cases v <;> cases h
  rfl

theorem Computed.bind_eq_ok {α β : Type} {result : Computed α} {f : α → Computed β} {b : β}
    (h : (result >>= f) = .ok b) : ∃ a, result = .ok a ∧ f a = .ok b := by
  cases result with
  | ok a => exact ⟨a, rfl, h⟩
  | error cause => cases h

theorem MathFunction.kind_of_argument {f : MathFunction} {v w : Value} (h : f.call v = .ok w) :
    v.kind = .number := by
  obtain ⟨x, hx, -⟩ := Computed.bind_eq_ok h
  exact kind_of_numberArgument hx

theorem kinds_of_logarithm {base argument v : Value} (h : logarithm base argument = .ok v) :
    base.kind = .number ∧ argument.kind = .number := by
  obtain ⟨b, hb, h⟩ := Computed.bind_eq_ok h
  obtain ⟨x, hx, -⟩ := Computed.bind_eq_ok h
  exact ⟨kind_of_numberArgument hb, kind_of_numberArgument hx⟩

theorem kind_of_rangeBound {bound : Value} {i : Int} (h : rangeBound bound = .ok i) :
    bound.kind = .number := by
  cases bound with
  | number x => rfl
  | _ => cases h

theorem kinds_of_rangeElements {limit : Nat} {lower upper : Value} {elements : List Value}
    (h : rangeElements limit lower upper = .ok elements) :
    lower.kind = .number ∧ upper.kind = .number := by
  obtain ⟨first, hfirst, h⟩ := Computed.bind_eq_ok h
  obtain ⟨last, hlast, -⟩ := Computed.bind_eq_ok h
  exact ⟨kind_of_rangeBound hfirst, kind_of_rangeBound hlast⟩

theorem kind_of_indexOf {index : Value} {i : Nat} (h : indexOf index = .ok i) :
    index.kind = .number := by
  cases index with
  | number x => rfl
  | _ => cases h

theorem Eval.kind_of_condition {column : Nat} {c : Value} {m m' : Machine} {b : Bool}
    (h : Eval.condition column c m = .ok b m') : c.kind = .bool := by
  cases c with
  | bool b => rfl
  | _ => cases h

/-! ## Expressions -/

namespace Expr

open Eval

/-- **An expression needs an operand with a property**: where the expression has a value, the operand
has had one with that property, when variables had moved on at most. -/
def Needs (e operand : Expr) (p : Value → Prop) : Prop :=
  ∀ (setting : Setting) (enter : Enter) [∀ column frame body, Restores 0 (enter column frame body)]
    {m m' : Machine} {v : Value}, e.evalWith setting enter m = .ok v m' →
    ∃ m₁ w m₂, Scopes.Moved m.scopes m₁.scopes ∧ operand.evalWith setting enter m₁ = .ok w m₂ ∧ p w

/-- Variables move on at most while an expression is evaluated. -/
theorem moved_of_evalWith {setting : Setting} {enter : Enter}
    [∀ column frame body, Restores 0 (enter column frame body)] {e : Expr} {m m' : Machine}
    {v : Value} (h : e.evalWith setting enter m = .ok v m') : Scopes.Moved m.scopes m'.scopes := by
  have := e.restores_evalWith setting enter
  exact (Restores.ok (n := 0) h).scopes

theorem Needs.mono {e operand : Expr} {p q : Value → Prop} (h : e.Needs operand p)
    (hpq : ∀ w, p w → q w) : e.Needs operand q := by
  intro setting enter _ m m' v hv
  obtain ⟨m₁, w, m₂, hmoved, hw, hp⟩ := h setting enter hv
  exact ⟨m₁, w, m₂, hmoved, hw, hpq w hp⟩

section Operands

variable (column : Nat)

theorem needs_unary (op : UnaryOp) (operand : Expr) :
    (unary column op operand).Needs operand (·.kind = op.operand) := by
  intro setting enter _ m m' v h
  obtain ⟨w, m₁, hw, h⟩ := bind_eq_ok h
  exact ⟨m, w, m₁, .refl _, hw, op.kind_of_operand (located_eq_ok h)⟩

theorem needs_left (left : Expr) (op : BinaryOp) (right : Expr) :
    (binary column left op right).Needs left fun a => ∀ k, op.operand? = some k → a.kind = k := by
  intro setting enter _ m m' v h
  obtain ⟨a, m₁, ha, h⟩ := bind_eq_ok h
  obtain ⟨b, m₂, hb, h⟩ := bind_eq_ok h
  exact ⟨m, a, m₁, .refl _, ha, fun k hk => (op.kinds_of_operands hk (located_eq_ok h)).1⟩

theorem needs_right (left : Expr) (op : BinaryOp) (right : Expr) :
    (binary column left op right).Needs right fun b => ∀ k, op.operand? = some k → b.kind = k := by
  intro setting enter _ m m' v h
  obtain ⟨a, m₁, ha, h⟩ := bind_eq_ok h
  obtain ⟨b, m₂, hb, h⟩ := bind_eq_ok h
  exact ⟨m₁, b, m₂, moved_of_evalWith ha, hb,
    fun k hk => (op.kinds_of_operands hk (located_eq_ok h)).2⟩

theorem needs_paren (inner : Expr) : (paren column inner).Needs inner fun _ => True := by
  intro setting enter _ m m' v h
  exact ⟨m, v, m', .refl _, h, trivial⟩

theorem needs_print (argument : Expr) : (print column argument).Needs argument fun _ => True := by
  intro setting enter _ m m' v h
  obtain ⟨w, m₁, hw, -⟩ := bind_eq_ok h
  exact ⟨m, w, m₁, .refl _, hw, trivial⟩

theorem needs_math (f : MathFunction) (argument : Expr) :
    (math column f argument).Needs argument (·.kind = .number) := by
  intro setting enter _ m m' v h
  obtain ⟨w, m₁, hw, h⟩ := bind_eq_ok h
  exact ⟨m, w, m₁, .refl _, hw, f.kind_of_argument (located_eq_ok h)⟩

theorem needs_base (base argument : Expr) :
    (log column base argument).Needs base (·.kind = .number) := by
  intro setting enter _ m m' v h
  obtain ⟨b, m₁, hb, h⟩ := bind_eq_ok h
  obtain ⟨x, m₂, hx, h⟩ := bind_eq_ok h
  exact ⟨m, b, m₁, .refl _, hb, (kinds_of_logarithm (located_eq_ok h)).1⟩

theorem needs_argument (base argument : Expr) :
    (log column base argument).Needs argument (·.kind = .number) := by
  intro setting enter _ m m' v h
  obtain ⟨b, m₁, hb, h⟩ := bind_eq_ok h
  obtain ⟨x, m₂, hx, h⟩ := bind_eq_ok h
  exact ⟨m₁, x, m₂, moved_of_evalWith hb, hx, (kinds_of_logarithm (located_eq_ok h)).2⟩

theorem needs_condition (condition body : Expr) (rest : Branches) :
    (ifThen column condition body rest).Needs condition (·.kind = .bool) := by
  intro setting enter _ m m' v h
  obtain ⟨c, m₁, hc, h⟩ := bind_eq_ok h
  obtain ⟨b, m₂, hb, -⟩ := bind_eq_ok h
  exact ⟨m, c, m₁, .refl _, hc, kind_of_condition hb⟩

theorem needs_lower (lower upper : Expr) :
    (range column lower upper).Needs lower (·.kind = .number) := by
  intro setting enter _ m m' v h
  obtain ⟨first, m₁, hfirst, h⟩ := bind_eq_ok h
  obtain ⟨last, m₂, hlast, h⟩ := bind_eq_ok h
  obtain ⟨elements, m₃, helements, -⟩ := bind_eq_ok h
  exact ⟨m, first, m₁, .refl _, hfirst, (kinds_of_rangeElements (located_eq_ok helements)).1⟩

theorem needs_upper (lower upper : Expr) :
    (range column lower upper).Needs upper (·.kind = .number) := by
  intro setting enter _ m m' v h
  obtain ⟨first, m₁, hfirst, h⟩ := bind_eq_ok h
  obtain ⟨last, m₂, hlast, h⟩ := bind_eq_ok h
  obtain ⟨elements, m₃, helements, -⟩ := bind_eq_ok h
  exact ⟨m₁, last, m₂, moved_of_evalWith hfirst, hlast,
    (kinds_of_rangeElements (located_eq_ok helements)).2⟩

/-- A loop over a range computes the range first. -/
theorem needs_range (var : String) (lower upper body : Expr) {operand : Expr} {p : Value → Prop}
    (h : (range column lower upper).Needs operand p) :
    (forRange column var lower upper body).Needs operand p := by
  intro setting enter _ m m' v hloop
  obtain ⟨first, m₁, hfirst, hloop⟩ := bind_eq_ok hloop
  obtain ⟨last, m₂, hlast, hloop⟩ := bind_eq_ok hloop
  obtain ⟨elements, m₃, helements, -⟩ := bind_eq_ok hloop
  have hrange : (range column lower upper).evalWith setting enter m = .ok (.vector elements) m₃ := by
    simp only [evalWith, bind_apply, hfirst, hlast, helements]
    rfl
  exact h setting enter hrange

theorem needs_test (condition body : Expr) :
    (Expr.while column condition body).Needs condition (·.kind = .bool) := by
  intro setting enter _ m m' v h
  obtain ⟨_, m₁, hprint, h⟩ := bind_eq_ok h
  obtain ⟨lines, m₂, hlines, -⟩ := bind_eq_ok h
  have hscopes : Scopes.Moved m.scopes m₁.scopes := (Restores.ok (n := 0) hprint).scopes
  -- a loop that is given up at once has no value, and any other one tests its condition
  cases hr : setting.rounds with
  | zero =>
    rw [hr] at hlines
    cases hlines
  | succ rounds =>
    rw [hr, repeatWhile] at hlines
    obtain ⟨b, m₃, hb, -⟩ := bind_eq_ok hlines
    obtain ⟨c, m₄, hc, hb⟩ := bind_eq_ok hb
    exact ⟨m₁, c, m₄, hscopes, hc, kind_of_condition hb⟩

theorem needs_index (name : String) (index : Expr) :
    (Expr.index column name index).Needs index (·.kind = .number) := by
  intro setting enter _ m m' v h
  obtain ⟨⟨elements, cursor⟩, m₁, hvector, hrest⟩ := bind_eq_ok h
  obtain ⟨rfl, -⟩ := vectorBinding_eq_ok hvector
  obtain ⟨i, m₂, hi, hrest⟩ := bind_eq_ok hrest
  obtain ⟨position, m₃, hposition, -⟩ := bind_eq_ok hrest
  exact ⟨m₁, i, m₂, .refl _, hi, kind_of_indexOf (located_eq_ok hposition)⟩

/-- An index is asked of a vector. -/
theorem vector_of_index {setting : Setting} {enter : Enter} {name : String} {index : Expr}
    {m m' : Machine} {v : Value}
    (h : (Expr.index column name index).evalWith setting enter m = .ok v m') :
    ∃ elements cursor, m.scopes.find? name = some ⟨.vector elements, cursor⟩ := by
  obtain ⟨⟨elements, cursor⟩, m₁, hvector, -⟩ := bind_eq_ok h
  exact ⟨elements, cursor, (vectorBinding_eq_ok hvector).2⟩

/-- A method is asked of a vector. -/
theorem vector_of_method {setting : Setting} {enter : Enter} {name : String} {method : Method}
    {m m' : Machine} {v : Value}
    (h : (Expr.method column name method).evalWith setting enter m = .ok v m') :
    ∃ elements cursor, m.scopes.find? name = some ⟨.vector elements, cursor⟩ := by
  obtain ⟨⟨elements, cursor⟩, m₁, hvector, -⟩ := bind_eq_ok h
  exact ⟨elements, cursor, (vectorBinding_eq_ok hvector).2⟩

end Operands

end Expr

end ExprScript
