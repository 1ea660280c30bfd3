import ExprScript.Proofs.Ty.Table
import Mathlib

/-!
# Inference is monotone

The more is known of variables and functions, the more is told of an expression: a type that is known
stays as it is, or turns out to be impossible, and only `any` becomes some other type. So what was
told of a body when its function was declared holds at every later call.

* `Ty.Le`: **a type says at least as much as another one**, as an order with `never` at the bottom and
  `any` at the top;
* `Ty.guarded_le_guarded`: an operation that asks for something, in that order, and with it
  `Ty.require_le_require`, `Ty.unify_le_unify`, `Ty.ofBinary_le_ofBinary` and the other operations;
* `Ty.Scope.Below`, `Ty.Scope.Refines`: scopes in which more is known of the variables;
* `Ty.infer_le_infer`: inference follows the order, by induction over the tree;
* **`Ty.infer_monotone`**: the same for scopes with the same names;
* **`FunctionTable.Reachable.infer_le_returnType`**: bodies at calls.
-/

namespace ExprScript

namespace Ty

/-! ## The order of types -/

/-- **A type says at least as much as another one.** That there is no value says most, and `any` says
nothing. -/
inductive Le : Ty → Ty → Prop
  | never (ty : Ty) : Le .never ty
  | refl (ty : Ty) : Le ty ty
  | any (ty : Ty) : Le ty .any

instance : PartialOrder Ty where
  le := Le
  le_refl := .refl
  le_trans a b c hab hbc := by
    cases hab with
    | never => exact .never c
    | refl => exact hbc
    | any => cases hbc <;> exact .any a
  le_antisymm a b hab hba := by
    cases hab with
    | never => cases hba <;> rfl
    | refl => rfl
    | any => cases hba <;> rfl

instance : BoundedOrder Ty where
  top := .any
  le_top := .any
  bot := .never
  bot_le := .never

theorem never_le (ty : Ty) : .never ≤ ty := bot_le

theorem le_any (ty : Ty) : ty ≤ .any := le_top

variable {a a' b b' : Ty}

/-- Below a type that says that there is a value of a kind, there is one of this kind or none. -/
theorem eq_of_le_of {k : Kind} (h : a ≤ .of k) : a = .of k ∨ a = .never := by
  cases h with
  | never => exact .inr rfl
  | refl => exact .inl rfl

theorem eq_never_of_le (h : a' ≤ a) (ha : a = .never) : a' = .never := by
  subst ha
  cases h <;> rfl

theorem ne_never_of_le (h : a' ≤ a) : a' ≠ .never → a ≠ .never := mt (eq_never_of_le h)

theorem accepts_comm (a b : Ty) : a.accepts b = b.accepts a := by
  unfold accepts
  rw [Bool.or_comm (decide (a = .any)), decide_eq_decide.mpr (eq_comm (a := a) (b := b))]

/-- What is accepted is so when less is known. -/
theorem accepts_of_le {other : Ty} (h : a' ≤ a) (ha : a' ≠ .never) (hr : other.accepts a') :
    other.accepts a := by
  cases h with
  | never => exact absurd rfl ha
  | refl => exact hr
  | any => simp [accepts]

/-! ## Operations -/

/-- **An operation that asks for something.** If what it asks for is there when more is known, then so
it is when less is. -/
theorem guarded_le_guarded {p p' : Prop} [Decidable p] [Decidable p'] (hp : p' → p) (h : a' ≤ a) :
    (if p' then a' else .never) ≤ if p then a else .never := by
  split
  · next hp' =>
    rw [if_pos (hp hp')]
    exact h
  · exact never_le _

/-- **Something that stops an operation.** If it is there when less is known, then so it is when more
is. -/
theorem refused_le_refused {p p' : Prop} [Decidable p] [Decidable p'] (hp : p → p')
    (h : ¬ p' → a' ≤ a) : (if p' then .never else a') ≤ if p then .never else a := by
  split
  · exact never_le _
  · next hp' =>
    rw [if_neg (mt hp hp')]
    exact h hp'

theorem require_le_require (required : Ty) (ha : a' ≤ a) (hb : b' ≤ b) :
    a'.require required b' ≤ a.require required b := by
  refine guarded_le_guarded (fun h => ?_) hb
  simp only [ne_eq, Bool.and_eq_true, decide_eq_true_eq] at h ⊢
  exact ⟨ne_never_of_le ha h.1, accepts_of_le ha h.1 h.2⟩

theorem unify_le_unify (ha : a' ≤ a) (hb : b' ≤ b) : a'.unify b' ≤ a.unify b := by
  refine refused_le_refused (fun h => ?_) fun h => ?_
  · simp only [Bool.or_eq_true, decide_eq_true_eq] at h ⊢
    exact h.imp (eq_never_of_le ha) (eq_never_of_le hb)
  · simp only [Bool.or_eq_true, decide_eq_true_eq, not_or] at h
    by_cases hab : a = b
    · subst hab
      rw [if_pos rfl]
      -- both branches are as they were, unless nothing was known of them
      cases ha with
      | never => exact absurd rfl h.1
      | refl =>
        cases hb with
        | never => exact absurd rfl h.2
        | refl => rw [if_pos rfl]
        | any => exact le_any _
      | any => exact le_any _
    · rw [if_neg hab]
      exact le_any _

theorem ofConcat_le_ofConcat (ha : a' ≤ a) (hb : b' ≤ b) : ofConcat a' b' ≤ ofConcat a b := by
  refine refused_le_refused (fun h => ?_) fun h => guarded_le_guarded (fun hs => ?_) le_rfl
  · simp only [Bool.or_eq_true, decide_eq_true_eq] at h ⊢
    exact h.imp (eq_never_of_le ha) (eq_never_of_le hb)
  · simp only [Bool.or_eq_true, decide_eq_true_eq, not_or] at h hs ⊢
    rw [accepts_comm a, accepts_comm b]
    rw [accepts_comm a', accepts_comm b'] at hs
    exact hs.imp (accepts_of_le ha h.1) (accepts_of_le hb h.2)

theorem ofBinary_le_ofBinary (op : BinaryOp) (ha : a' ≤ a) (hb : b' ≤ b) :
    ofBinary op a' b' ≤ ofBinary op a b := by
  cases op with
  | concat => exact ofConcat_le_ofConcat ha hb
  | _ => exact require_le_require _ ha (require_le_require _ hb le_rfl)

theorem ofNumbers_le_ofNumbers (ha : a' ≤ a) (hb : b' ≤ b) (result : Ty) :
    ofNumbers a' b' result ≤ ofNumbers a b result :=
  require_le_require _ hb (require_le_require _ ha le_rfl)

theorem ifBool_le_ifBool (ha : a' ≤ a) (hb : b' ≤ b) : ifBool a' b' ≤ ifBool a b :=
  refused_le_refused (eq_never_of_le (require_le_require _ ha le_rfl)) fun _ => hb

/-! ## Scopes -/

namespace Scope

/-- At least as much is known of every variable. -/
def Below (scope' scope : Scope) : Prop := ∀ name, ofName scope' name ≤ ofName scope name

/-- **Scopes with the same names**, in which each type of the first is at or below that of the
second. -/
def Refines (scope' scope : Scope) : Prop :=
  List.Forall₂ (fun x' x => x'.1 = x.1 ∧ x'.2 ≤ x.2) scope' scope

variable {scope scope' : Scope}

theorem Below.cons (h : scope'.Below scope) (name : String) {ty ty' : Ty} (hty : ty' ≤ ty) :
    Below ((name, ty') :: scope') ((name, ty) :: scope) := by
  intro name'
  unfold ofName
  rw [List.lookup_cons, List.lookup_cons]
  split
  · exact hty
  · exact h name'

theorem Refines.below (h : scope'.Refines scope) : scope'.Below scope := by
  induction h with
  | nil => exact fun name => le_rfl
  | @cons x' x rest' rest hx _ ih =>
    obtain ⟨name, ty⟩ := x
    obtain ⟨name', ty'⟩ := x'
    obtain ⟨rfl, hty⟩ := hx
    exact ih.cons name' hty

/-- Of variables without a type nothing less is known. -/
theorem below_of_any (h : ∀ x ∈ scope, x.2 = Ty.any) (scope' : Scope) : scope'.Below scope := by
  intro name
  have hany : ofName scope name = .any := by
    unfold ofName
    cases hl : scope.lookup name with
    | none => rfl
    | some ty =>
      obtain ⟨before, after, rfl, -⟩ := List.lookup_eq_some_iff.mp hl
      exact h (name, ty) (by simp)
  rw [hany]
  exact le_any _

end Scope

/-! ## Expressions -/

section Infer

variable {functions functions' : FunctionTable} (hf : functions.Within functions')

include hf

set_option linter.unusedSectionVars false

mutual

/-- **The more is known, the more is told of an expression.** -/
theorem infer_le_infer {scope scope' : Scope} (hs : scope'.Below scope) : (e : Expr) →
    infer functions' scope' e ≤ infer functions scope e
  | .number .. | .string .. | .bool .. | .constant .. | .rand _ | .error _ => le_rfl
  | .method _ _ m => by cases m <;> exact le_rfl
  | .variable _ name => hs name
  | .unary _ op operand => require_le_require _ (infer_le_infer hs operand) le_rfl
  | .binary _ left op right =>
    ofBinary_le_ofBinary op (infer_le_infer hs left) (infer_le_infer hs right)
  | .paren _ inner => infer_le_infer hs inner
  | .print _ argument => infer_le_infer hs argument
  | .math _ _ argument => require_le_require _ (infer_le_infer hs argument) le_rfl
  | .log _ base argument =>
    ofNumbers_le_ofNumbers (infer_le_infer hs base) (infer_le_infer hs argument) _
  | .ifThen _ condition body rest =>
    ifBool_le_ifBool (infer_le_infer hs condition)
      (unify_le_unify (infer_le_infer hs body) (inferBranches_le_inferBranches hs rest))
  | .letIn _ bindings => inferBindings_le_inferBindings hs bindings
  | .call _ name arguments => by
    refine guarded_le_guarded (inferable_of_le hs arguments) ?_
    cases h : functions.find? name with
    | none => exact le_any _
    | some f => rw [hf name f h]
  | .forRange _ var lower upper body => by
    have hbounds := ofNumbers_le_ofNumbers (infer_le_infer hs lower) (infer_le_infer hs upper)
      (.of .number)
    exact refused_le_refused (eq_never_of_le hbounds) fun _ =>
      require_le_require _ (infer_le_infer (hs.cons var hbounds) body) le_rfl
  | .forEach _ var _ _ body =>
    require_le_require _ (infer_le_infer (hs.cons var le_rfl) body) le_rfl
  | .while _ condition body =>
    require_le_require _ (infer_le_infer hs body)
      (require_le_require _ (infer_le_infer hs condition) le_rfl)
  | .vector _ elements => guarded_le_guarded (inferable_of_le hs elements) le_rfl
  | .range _ lower upper =>
    ofNumbers_le_ofNumbers (infer_le_infer hs lower) (infer_le_infer hs upper) _
  | .index _ _ index => require_le_require _ (infer_le_infer hs index) le_rfl

theorem inferable_of_le {scope scope' : Scope} (hs : scope'.Below scope) : (es : List Expr) →
    inferable functions' scope' es → inferable functions scope es
  | [], _ => rfl
  | e :: rest, h => by
    simp only [inferable, ne_eq, Bool.and_eq_true, decide_eq_true_eq] at h ⊢
    exact ⟨ne_never_of_le (infer_le_infer hs e) h.1, inferable_of_le hs rest h.2⟩

theorem inferBranches_le_inferBranches {scope scope' : Scope} (hs : scope'.Below scope) :
    (b : Branches) → inferBranches functions' scope' b ≤ inferBranches functions scope b
  | .elif condition body rest =>
    ifBool_le_ifBool (infer_le_infer hs condition)
      (unify_le_unify (infer_le_infer hs body) (inferBranches_le_inferBranches hs rest))
  | .otherwise body => infer_le_infer hs body

theorem inferBindings_le_inferBindings {scope scope' : Scope} (hs : scope'.Below scope) :
    (b : Bindings) → inferBindings functions' scope' b ≤ inferBindings functions scope b
  | .bind _ name value rest => by
    have hvalue := infer_le_infer hs value
    exact refused_le_refused (eq_never_of_le hvalue) fun _ =>
      inferBindings_le_inferBindings (hs.cons name hvalue) rest
  | .body body => infer_le_infer hs body

end

end Infer

/-- **Inference is monotone in what is known.** Under a table with further functions, and in a scope
with the same names whose types are at or below those that were known, the type of an expression is
at or below the one that was told of it. So a kind that was told of it is either confirmed, or it
turns out that there is no value; it never becomes another kind. -/
theorem infer_monotone {functions functions' : FunctionTable} (hf : functions.Within functions')
    {scope scope' : Scope} (hs : scope'.Refines scope) (e : Expr) :
    infer functions' scope' e ≤ infer functions scope e ∧
      ∀ k, infer functions scope e = .of k →
        infer functions' scope' e = .of k ∨ infer functions' scope' e = .never := by
  have hle := infer_le_infer hf hs.below e
  exact ⟨hle, fun k hk => eq_of_le_of (hk ▸ hle)⟩

/-- A choice of which nothing is known, and a sum that is taken to be a number. Once it is known that
`y` is a boolean and that `f` returns a string, the choice is a string, and the sum has no value. -/
theorem infer_monotone_shout :
    let table := (Program.read 10 .empty "function f(x) => x @ \"!\";").2
    let call : Expr := .call 8 "f" [.variable 10 "y"]
    let choice : Expr := .ifThen 1 (.variable 5 "y") call (.otherwise (.string 18 "no"))
    let sum : Expr := .binary 13 call (.arithmetic .add) (.number 15 1)
    FunctionTable.Within .empty table ∧ Scope.Refines [("y", .of .bool)] [("y", .any)] ∧
      infer .empty [("y", .any)] choice = .any ∧
      infer table [("y", .of .bool)] choice = .of .string ∧
      infer table [("y", .of .bool)] choice ≤ infer .empty [("y", .any)] choice ∧
      infer .empty [("y", .any)] sum = .of .number ∧
      infer table [("y", .of .bool)] sum = .never ∧
      (infer table [("y", .of .bool)] sum = .of .number ∨
        infer table [("y", .of .bool)] sum = .never) := by
  intro table call choice sum
  have hf : FunctionTable.Within .empty table := FunctionTable.Later.within (.read _ _ .refl)
  have hs : Scope.Refines [("y", .of .bool)] [("y", .any)] := .cons ⟨rfl, le_any _⟩ .nil
  have hnumber : infer .empty [("y", .any)] sum = .of .number := by decide
  refine ⟨hf, hs, by decide, ?_, (infer_monotone hf hs choice).1, hnumber, ?_,
    (infer_monotone hf hs sum).2 _ hnumber⟩
  · dsimp only [table, choice, call]
    cbv
  · dsimp only [table, sum, call]
    cbv

end Ty

/-- **What was told of a body when its function was declared holds at every later call**, under all
functions that were declared since and whatever is known of the variables of the caller. -/
theorem FunctionTable.Reachable.infer_le_returnType {table table' : FunctionTable}
    (reachable : table.Reachable) (later : table.Later table') {name : String} {f : FunctionDef}
    (hf : table.find? name = some f) (scope : Ty.Scope) :
    Ty.infer table' scope f.body ≤ f.returnType := by
  obtain ⟨-, smaller, hw, ht⟩ := reachable.typed name f hf
  have hparams : ∀ x ∈ parameterScope f.params, x.2 = Ty.any := by simp [parameterScope]
  rw [← ht]
  exact Ty.infer_le_infer (hw.trans later.within) (Ty.Scope.below_of_any hparams scope) f.body

end ExprScript
