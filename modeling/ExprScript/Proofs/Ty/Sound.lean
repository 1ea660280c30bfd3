import ExprScript.Proofs.Eval.Operand
import ExprScript.Proofs.Ty.Table
import Mathlib

/-!
# Inference is sound

When inference tells the kind of an expression, the expression produces values of that kind only.
Bodies run under dynamic scoping and with functions that were declared after them; what is told of
them holds all the same, because it was told without the types of any variables from outside, and a
table of functions only grows.

* `BinaryOp.kind_of_apply`, `Ty.eq_of_ofBinary`: operators produce what inference says;
* `Scopes.Agrees`: variables have the kinds that are told of them;
* `Expr.kind_of_evalWith`: inference is sound if the return types of called functions are;
* `callsAccepted_enterCall`: the return types are, on any number of calls;
* **`Expr.ty_of_evalAt`**: both together.
-/

namespace ExprScript

/-! ## Operations -/

namespace Ty

/-- What is required of an operand does not matter for the kind of a result. -/
theorem eq_of_require {found required result : Ty} {k : Kind}
    (h : found.require required result = .of k) : result = .of k := by
  unfold require at h
  split at h
  · exact h
  · cases h

theorem eq_of_ofNumbers {first second result : Ty} {k : Kind}
    (h : ofNumbers first second result = .of k) : result = .of k :=
  eq_of_require (eq_of_require h)

theorem eq_of_ifBool {condition result : Ty} {k : Kind} (h : ifBool condition result = .of k) :
    result = .of k := by
  unfold ifBool at h
  split at h
  · cases h
  · exact h

theorem kind_of_accepts {v : Value} {k : Kind} (h : (Ty.of k).accepts v.ty) : v.kind = k := by
  have hk : k = v.kind := by simpa [accepts, Value.ty] using h
  exact hk.symm

/-- The kind of a choice is that of both branches. -/
theorem eq_of_unify {a b : Ty} {k : Kind} (h : a.unify b = .of k) : a = .of k ∧ b = .of k := by
  unfold unify at h
  split at h
  · cases h
  · split at h
    · next hab => exact ⟨h, hab ▸ h⟩
    · cases h

end Ty

/-- The kind that an operator produces. -/
def BinaryOp.result : BinaryOp → Kind
  | .arithmetic _ => .number
  | .comparison _ => .bool
  | .equality _ => .bool
  | .connective _ => .bool
  | .concat => .string

theorem BinaryOp.kind_of_apply {op : BinaryOp} {a b v : Value} (h : op.apply a b = .ok v) :
    v.kind = op.result := by
  cases op <;> unfold BinaryOp.apply at h <;> dsimp only at h <;> split at h <;> cases h <;> rfl

theorem Ty.eq_of_ofBinary {op : BinaryOp} {a b : Ty} {k : Kind} (h : ofBinary op a b = .of k) :
    k = op.result := by
  cases op with
  | concat =>
    change ofConcat a b = .of k at h
    unfold ofConcat at h
    split at h
    · cases h
    · split at h <;> cases h
      rfl
  | _ =>
    cases eq_of_require (eq_of_require h)
    rfl

theorem UnaryOp.kind_of_apply {op : UnaryOp} {v w : Value} (h : op.apply v = .ok w) :
    w.kind = op.operand := by
  unfold UnaryOp.apply at h
  split at h <;> cases h <;> rfl

theorem MathFunction.kind_of_call {f : MathFunction} {v w : Value} (h : f.call v = .ok w) :
    w.kind = .number := by
  cases v <;> cases h
  rfl

theorem kind_of_logarithm {base argument v : Value} (h : logarithm base argument = .ok v) :
    v.kind = .number := by
  obtain ⟨b, hb, h⟩ := Computed.bind_eq_ok h
  obtain ⟨x, hx, h⟩ := Computed.bind_eq_ok h
  split at h <;> cases h
  rfl

/-! ## Variables -/

/-- Every variable has the kind that is told of it. -/
def Scopes.Agrees (scope : Ty.Scope) (s : Scopes) : Prop :=
  ∀ name k, Ty.ofName scope name = .of k → ∃ b, s.find? name = some b ∧ b.value.ty = .of k

namespace Scopes.Agrees

variable {scope : Ty.Scope} {s s' : Scopes}

/-- Variables that only move on keep their kinds. -/
theorem moved (h : Agrees scope s) (hm : Scopes.Moved s s') : Agrees scope s' := by
  intro name k hk
  obtain ⟨b, hb, hv⟩ := h name k hk
  obtain ⟨b', hb', hmoved⟩ := hm.find? hb
  exact ⟨b', hb', by rw [hmoved.value, hv]⟩

theorem restored {m m' : Machine} (h : Agrees scope m.scopes) (hm : m.Restored m') :
    Agrees scope m'.scopes :=
  h.moved hm.scopes

/-- A frame without variables hides none. -/
theorem push (h : Agrees scope s) : Agrees scope ([] :: s) := h

theorem define (h : Agrees scope s) {name : String} {ty : Ty} {v : Value}
    (hv : ∀ k, ty = .of k → v.ty = .of k) : Agrees ((name, ty) :: scope) (s.define name v) := by
  intro name' k hk
  rw [Scopes.find?_define]
  rw [Ty.ofName, List.lookup_cons] at hk
  by_cases hn : name' = name
  · rw [if_pos hn]
    rw [hn, beq_self_eq_true] at hk
    exact ⟨_, rfl, hv k hk⟩
  · rw [if_neg hn]
    rw [beq_false_of_ne hn] at hk
    exact h name' k hk

/-- Nothing is told of variables whose type is `any`. -/
theorem of_any (h : ∀ e ∈ scope, e.2 = Ty.any) (s : Scopes) : Agrees scope s := by
  intro name k hk
  unfold Ty.ofName at hk
  cases hl : scope.lookup name with
  | none => rw [hl] at hk; cases hk
  | some ty =>
    rw [hl] at hk
    obtain ⟨before, after, rfl, -⟩ := List.lookup_eq_some_iff.mp hl
    have hty : ty = .any := h (name, ty) (by simp)
    rw [hty] at hk
    cases hk

end Scopes.Agrees

/-! ## Evaluation -/

section Sound

open Eval

variable {setting : Setting} {enter : Enter} {smaller : FunctionTable}

/-- Calls that return do so with values that the return types accept. -/
def CallsAccepted (functions : FunctionTable) (enter : Enter) : Prop :=
  ∀ {name f}, functions.find? name = some f → ∀ {column frame m m' v},
    enter column frame f.body m = .ok v m' → f.returnType.accepts v.ty

variable [∀ column frame body, Restores 0 (enter column frame body)]
  (within : smaller.Within setting.functions) (accepted : CallsAccepted setting.functions enter)

include within accepted

set_option linter.unusedSectionVars false

mutual

theorem Expr.kind_of_evalWith {scope : Ty.Scope} {m m' : Machine} {v : Value} {k : Kind} : (e : Expr) →
    Scopes.Agrees scope m.scopes → e.evalWith setting enter m = .ok v m' →
    Ty.infer smaller scope e = .of k → v.kind = k
  | .number .., _, h, hk | .string .., _, h, hk | .bool .., _, h, hk | .constant .., _, h, hk => by
    cases h
    cases hk
    rfl
  | .variable column name, ha, h, hk => by
    obtain ⟨b, _, hb, hv⟩ := bind_eq_ok h
    obtain ⟨rfl, hf⟩ := binding_eq_ok hb
    obtain ⟨b', hb', hk⟩ := ha name k hk
    cases hv
    cases hf.symm.trans hb'
    cases hk
    rfl
  | .unary _ op operand, _, h, hk => by
    obtain ⟨_, _, -, h⟩ := bind_eq_ok h
    cases Ty.eq_of_require hk
    exact op.kind_of_apply (located_eq_ok h)
  | .binary _ left op right, _, h, hk => by
    obtain ⟨_, _, -, h⟩ := bind_eq_ok h
    obtain ⟨_, _, -, h⟩ := bind_eq_ok h
    rw [Ty.eq_of_ofBinary hk]
    exact op.kind_of_apply (located_eq_ok h)
  | .paren _ inner, ha, h, hk => inner.kind_of_evalWith ha h hk
  | .print _ argument, ha, h, hk => by
    obtain ⟨_, _, hv, h⟩ := bind_eq_ok h
    cases h
    exact argument.kind_of_evalWith ha hv hk
  | .math _ f _, _, h, hk => by
    obtain ⟨_, _, -, h⟩ := bind_eq_ok h
    cases Ty.eq_of_require hk
    exact f.kind_of_call (located_eq_ok h)
  | .log .., _, h, hk => by
    obtain ⟨_, _, -, h⟩ := bind_eq_ok h
    obtain ⟨_, _, -, h⟩ := bind_eq_ok h
    cases Ty.eq_of_ofNumbers hk
    exact kind_of_logarithm (located_eq_ok h)
  | .rand _, _, h, hk => by
    cases h
    cases hk
    rfl
  | .ifThen _ condition body rest, ha, h, hk => by
    obtain ⟨c, m₁, hc, h⟩ := bind_eq_ok h
    obtain ⟨b, m₂, hb, h⟩ := bind_eq_ok h
    have := condition.restores_evalWith setting enter
    have ha := (ha.restored (Restores.ok hc)).restored (Restores.ok hb)
    obtain ⟨hbody, hrest⟩ := Ty.eq_of_unify (Ty.eq_of_ifBool hk)
    cases b with
    | true => exact body.kind_of_evalWith ha h hbody
    | false => exact rest.kind_of_evalWith ha h hrest
  | .letIn _ bindings, ha, h, hk => by
    obtain ⟨m₁, h⟩ := inFrame_eq_ok h
    exact bindings.kind_of_evalWith (m := { m with scopes := [] :: m.scopes }) ha.push h hk
  | .call column name arguments, _, h, hk => by
    obtain ⟨f, values, m₁, hf, -, -, -, h⟩ := Expr.call_eq_ok h
    rw [Ty.infer] at hk
    split at hk
    · split at hk
      · next g hg =>
        cases hf.symm.trans (within name g hg)
        have hs := accepted hf h
        rw [hk] at hs
        exact Ty.kind_of_accepts hs
      · cases hk
    · cases hk
  | .forRange .., _, h, hk => by
    obtain ⟨_, _, -, h⟩ := bind_eq_ok h
    obtain ⟨_, _, -, h⟩ := bind_eq_ok h
    obtain ⟨_, _, -, h⟩ := bind_eq_ok h
    rw [kind_of_loop h]
    rw [Ty.infer] at hk
    split at hk
    · cases hk
    · cases Ty.eq_of_require hk
      rfl
  | .forEach .., _, h, hk => by
    obtain ⟨_, _, -, h⟩ := bind_eq_ok h
    rw [kind_of_loop h]
    cases Ty.eq_of_require hk
    rfl
  | .while .., _, h, hk => by
    obtain ⟨_, _, -, h⟩ := bind_eq_ok h
    obtain ⟨_, _, -, h⟩ := bind_eq_ok h
    cases h
    cases Ty.eq_of_require (Ty.eq_of_require hk)
    rfl
  | .vector _ elements, _, h, hk => by
    obtain ⟨_, _, -, h⟩ := bind_eq_ok h
    cases h
    rw [Ty.infer] at hk
    split at hk <;> cases hk
    rfl
  | .range .., _, h, hk => by
    obtain ⟨_, _, -, h⟩ := bind_eq_ok h
    obtain ⟨_, _, -, h⟩ := bind_eq_ok h
    obtain ⟨_, _, -, h⟩ := bind_eq_ok h
    cases h
    cases Ty.eq_of_ofNumbers hk
    rfl
  | .index .., _, _, hk => by cases Ty.eq_of_require hk
  | .method column name method, _, h, hk => by
    cases method with
    | size =>
      cases hk
      obtain ⟨_, _, -, h⟩ := bind_eq_ok h
      cases h
      rfl
    | _ => cases hk
  | .error _, _, _, hk => by cases hk

theorem Branches.kind_of_evalWith {scope : Ty.Scope} {m m' : Machine} {v : Value} {k : Kind} :
    (b : Branches) → Scopes.Agrees scope m.scopes → b.evalWith setting enter m = .ok v m' →
    Ty.inferBranches smaller scope b = .of k → v.kind = k
  | .elif condition body rest, ha, h, hk => by
    obtain ⟨c, m₁, hc, h⟩ := bind_eq_ok h
    obtain ⟨b, m₂, hb, h⟩ := bind_eq_ok h
    have := condition.restores_evalWith setting enter
    have ha := (ha.restored (Restores.ok hc)).restored (Restores.ok hb)
    obtain ⟨hbody, hrest⟩ := Ty.eq_of_unify (Ty.eq_of_ifBool hk)
    cases b with
    | true => exact body.kind_of_evalWith ha h hbody
    | false => exact rest.kind_of_evalWith ha h hrest
  | .otherwise body, ha, h, hk => body.kind_of_evalWith ha h hk

theorem Bindings.kind_of_evalWith {scope : Ty.Scope} {m m' : Machine} {v : Value} {k : Kind} :
    (b : Bindings) → Scopes.Agrees scope m.scopes → b.evalWith setting enter m = .ok v m' →
    Ty.inferBindings smaller scope b = .of k → v.kind = k
  | .bind _ name value rest, ha, h, hk => by
    obtain ⟨w, m₁, hw, h⟩ := bind_eq_ok h
    rw [Ty.inferBindings] at hk
    split at hk
    · cases hk
    · have := value.restores_evalWith setting enter
      have ha' : Scopes.Agrees ((name, Ty.infer smaller scope value) :: scope)
          (m₁.scopes.define name w) :=
        (ha.restored (Restores.ok hw)).define fun k hk =>
          congrArg Ty.of (value.kind_of_evalWith ha hw hk)
      exact rest.kind_of_evalWith (m := { m₁ with scopes := m₁.scopes.define name w }) ha' h hk
  | .body body, ha, h, hk => body.kind_of_evalWith ha h hk

end

end Sound

/-- **A call that returns does so with a value that the return type accepts**, however many calls may
still be opened: the body was told of under a smaller table, without regard to the arguments. -/
theorem callsAccepted_enterCall (setting : Setting) (typed : setting.functions.Typed) (calls : Nat) :
    CallsAccepted setting.functions (enterCall setting calls) := by
  induction calls with
  | zero =>
    intro name f hf column frame m m' v h
    cases h
  | succ calls ih =>
    intro name f hf column frame m m' v h
    obtain ⟨_, _, -, h⟩ := Eval.bind_eq_ok h
    obtain ⟨m₁, m₂, h⟩ := Eval.inCall_eq_ok h
    obtain ⟨hn, smaller, hw, ht⟩ := typed name f hf
    cases hr : f.returnType with
    | any => rfl
    | never => exact absurd hr hn
    | of k =>
      have ha : Scopes.Agrees (FunctionTable.parameterScope f.params) m₁.scopes :=
        .of_any (by simp [FunctionTable.parameterScope]) _
      have hk := f.body.kind_of_evalWith hw ih ha h (ht.trans hr)
      simp [Ty.accepts, Value.ty, hk]

/-- **Inference is sound.** Under a table that arises from reading source texts, an expression whose
kind is told, by any part of the table and of variables that have the kinds that are told of them,
produces values of that kind only; and a call that returns does so with a value that the return type
of the function accepts. -/
theorem Expr.ty_of_evalAt {table : FunctionTable} (reachable : table.Reachable) (limits : Limits)
    (rounds calls : Nat) :
    (∀ (smaller : FunctionTable) (scope : Ty.Scope) (e : Expr) (m m' : Machine) (v : Value)
      (k : Kind), smaller.Within table → Scopes.Agrees scope m.scopes →
      e.evalAt ⟨table, limits, rounds⟩ calls m = .ok v m' → Ty.infer smaller scope e = .of k →
      v.ty = .of k) ∧
    ∀ (column : Nat) (name : String) (arguments : List Expr) (m m' : Machine) (v : Value),
      (Expr.call column name arguments).evalAt ⟨table, limits, rounds⟩ calls m = .ok v m' →
      ∃ f, table.find? name = some f ∧ f.returnType.accepts v.ty := by
  have accepted : CallsAccepted table (enterCall ⟨table, limits, rounds⟩ calls) :=
    callsAccepted_enterCall ⟨table, limits, rounds⟩ reachable.typed calls
  constructor
  · intro smaller scope e m m' v k hw ha h hk
    exact congrArg Ty.of (e.kind_of_evalWith hw accepted ha h hk)
  · intro column name arguments m m' v h
    obtain ⟨f, values, m₁, hf, -, -, -, h⟩ := Expr.call_eq_ok h
    exact ⟨f, hf, accepted hf h⟩

/-- The table of a function that shouts, and a choice between a call of it and a string, made by a
variable that is told to be a boolean. -/
theorem Expr.ty_of_evalAt_shout :
    let table := (Program.read 10 .empty "function f(x) => x @ \"!\";").2
    let m : Machine := ⟨[[("y", ⟨.bool true, none⟩)]], 0, false, .ofSeed 0⟩
    (∃ v m', (Expr.ifThen 1 (.variable 5 "y") (.call 8 "f" [.variable 10 "y"])
      (.otherwise (.string 18 "no"))).evalAt ⟨table, {}, 0⟩ 1 m = .ok v m' ∧ v.ty = .of .string) ∧
    ∃ v m', (Expr.call 8 "f" [.variable 10 "y"]).evalAt ⟨table, {}, 0⟩ 1 m = .ok v m' ∧
      ∃ f, table.find? "f" = some f ∧ f.returnType.accepts v.ty := by
  intro table m
  have ha : Scopes.Agrees [("y", .of .bool)] m.scopes :=
    Scopes.Agrees.define (s := []) (fun _ _ h => by cases h) fun _ hk => hk
  have hr : table.Reachable := .read _ _ .empty
  have hif : (Expr.ifThen 1 (.variable 5 "y") (.call 8 "f" [.variable 10 "y"])
      (.otherwise (.string 18 "no"))).evalAt ⟨table, {}, 0⟩ 1 m = .ok (.string "true!") m := by
    dsimp only [table, m]
    cbv
  have hcall : (Expr.call 8 "f" [.variable 10 "y"]).evalAt ⟨table, {}, 0⟩ 1 m =
      .ok (.string "true!") m := by
    dsimp only [table, m]
    cbv
  have hk : Ty.infer table [("y", .of .bool)] (.ifThen 1 (.variable 5 "y")
      (.call 8 "f" [.variable 10 "y"]) (.otherwise (.string 18 "no"))) = .of .string := by
    dsimp only [table]
    cbv
  obtain ⟨hkind, haccepts⟩ := ty_of_evalAt hr {} 0 1
  exact ⟨⟨_, _, hif, hkind table _ _ _ _ _ _ (.refl table) ha hif hk⟩, _, _, hcall,
    haccepts _ _ _ _ _ _ hcall⟩

end ExprScript
