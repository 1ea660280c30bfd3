import ExprScript.Eval.Expr
import ExprScript.Proofs.Tree.Grouping
import ExprScript.Proofs.Tree.Reshape

/-!
# What all rules of evaluation respect

The rules of evaluation are made of a few primitive steps. A relation that each of these has to
itself, and that goes on to the steps that are made of others, holds between two evaluations of an
expression that differ only in what calls do, if it holds between what the calls do.

Two reasons to stop have a rule of their own: a missing expression, and a loop that is given up. They
are asked about only where an expression has that form.

* `StepRelation`: **a relation between steps that the rules respect**;
* `StepRelation.Alike`: functions that differ at most in what is checked of arguments;
* `StepRelation.Admits`: the missing expressions and the loops that it goes on to;
* `Computed.Valid`: results of operations, none of which is that an expression is missing;
* **`Expr.related_reshape`**: the evaluations of an expression and of its reshaped form are related;
* **`Expr.related_evalWith`**: two evaluations of one expression are related.
-/

namespace ExprScript

/-! ## Operations on values -/

/-- A result that is not that an expression is missing. -/
def Computed.Valid {α : Type} (result : Computed α) : Prop := result ≠ .error .invalidExpression

namespace Computed.Valid

theorem unary (op : UnaryOp) (v : Value) : Computed.Valid (op.apply v) := by
  unfold UnaryOp.apply
  split <;> simp [Computed.Valid]

theorem binary (op : BinaryOp) (left right : Value) : Computed.Valid (op.apply left right) := by
  unfold BinaryOp.apply
  dsimp only
  repeat' split
  all_goals simp [Computed.Valid]

theorem bind {α β : Type} {result : Computed α} {f : α → Computed β} (h : result.Valid)
    (hf : ∀ a, (f a).Valid) : Computed.Valid (result >>= f) := by
  cases result with
  | ok a => exact hf a
  | error cause => exact fun he => h (congrArg Except.error (Except.error.inj he))

theorem ok {α : Type} (a : α) : Computed.Valid (.ok a) := fun h => by cases h

theorem mapM {α β : Type} {f : α → Computed β} (hf : ∀ a, (f a).Valid) (as : List α) :
    Computed.Valid (as.mapM f) := by
  induction as with
  | nil => exact ok []
  | cons a as ih =>
    rw [List.mapM_cons]
    exact (hf a).bind fun b => ih.bind fun bs => ok _

theorem numberArgument (function : String) (v : Value) :
    Computed.Valid (numberArgument function v) := by
  unfold ExprScript.numberArgument
  split <;> simp [Computed.Valid]

theorem math (f : MathFunction) (v : Value) : Computed.Valid (f.call v) :=
  (numberArgument f.name v).bind fun _ => ok _

theorem logarithm (base argument : Value) : Computed.Valid (logarithm base argument) := by
  refine (numberArgument _ base).bind fun b => (numberArgument _ argument).bind fun x => ?_
  split
  · simp [Computed.Valid]
  · exact ok _

theorem rangeBound (bound : Value) : Computed.Valid (rangeBound bound) := by
  unfold ExprScript.rangeBound
  split <;> simp [Computed.Valid]

theorem rangeElement (i : Int) : Computed.Valid (rangeElement i) := by
  unfold ExprScript.rangeElement
  split <;> simp [Computed.Valid]

theorem rangeElements (limit : Nat) (lower upper : Value) :
    Computed.Valid (rangeElements limit lower upper) := by
  refine (rangeBound lower).bind fun first => (rangeBound upper).bind fun last => ?_
  dsimp only
  split
  · simp [Computed.Valid]
  · exact mapM (fun k => rangeElement _) _

theorem indexOf (index : Value) : Computed.Valid (indexOf index) := by
  unfold ExprScript.indexOf
  split <;> simp [Computed.Valid]

end Computed.Valid

/-! ## Relations -/

/-- **A relation between steps that the rules of evaluation respect**: each primitive step is related
to itself, and so are steps that are made of others in the same way. A step may change the machine,
but not the count of open calls, which only calls change. -/
structure StepRelation where
  Rel : {α : Type} → Eval α → Eval α → Prop
  pure {α : Type} (a : α) : Rel (pure a) (pure a)
  bind {α β : Type} {p q : Eval α} {f g : α → Eval β} :
    Rel p q → (∀ a, Rel (f a) (g a)) → Rel (p >>= f) (q >>= g)
  fail {α : Type} {cause : EvalCause} (column : Nat) :
    cause ≠ .invalidExpression → Rel (Eval.fail cause column : Eval α) (Eval.fail cause column)
  get : Rel (α := Machine) get get
  modify {f : Machine → Machine} :
    (∀ m, (f m).callDepth = m.callDepth) → Rel (α := PUnit) (modify f) (modify f)
  inFrame {α : Type} {p q : Eval α} (frame : Frame) :
    Rel p q → Rel (Eval.inFrame frame p) (Eval.inFrame frame q)

namespace StepRelation

open Eval

variable (Q : StepRelation) {α β : Type}

/-- Functions that differ at most in their names and types, with checks of arguments that are
related. -/
structure Alike (f f' : FunctionDef) : Prop where
  params : f'.params = f.params
  body : f'.body = f.body
  check (column : Nat) (values : List Value) :
    Q.Rel (checkArguments column f values) (checkArguments column f' values)

/-- **What a relation goes on to under two settings**, of missing expressions and loops that are given
up: those that a test admits. The settings may differ in the rounds of loops if it admits none. -/
structure Admits (admitted : Expr → Bool) (setting setting' : Setting) : Prop where
  functions (name : String) :
    Option.Rel Q.Alike (setting.functions.find? name) (setting'.functions.find? name)
  limits : setting'.limits = setting.limits
  missing (column : Nat) : admitted (.error column) = true →
    Q.Rel (α := Value) (Eval.fail .invalidExpression column) (Eval.fail .invalidExpression column)
  loop {column : Nat} {test body : Expr} : admitted (.while column test body) = true →
    setting'.rounds = setting.rounds ∧
      Q.Rel (α := List String) (throw .outOfRounds) (throw .outOfRounds)

variable {Q}

theorem located (column : Nat) {result : Computed α} (h : result.Valid) :
    Q.Rel (located column result) (located column result) := by
  cases result with
  | ok a => exact Q.pure a
  | error cause => exact Q.fail column fun he => h (congrArg Except.error he)

theorem ite {c : Prop} [Decidable c] {p q p' q' : Eval α} (h : Q.Rel p q) (h' : Q.Rel p' q') :
    Q.Rel (if c then p else p') (if c then q else q') := by
  split
  · exact h
  · exact h'

theorem requestPrint : Q.Rel requestPrint requestPrint := Q.modify fun _ => rfl

theorem draw : Q.Rel draw draw :=
  Q.bind Q.get fun _ => Q.bind (Q.modify fun _ => rfl) fun _ => Q.pure _

theorem define (name : String) (v : Value) : Q.Rel (define name v) (define name v) :=
  Q.modify fun _ => rfl

theorem binding (name : String) (column : Nat) :
    Q.Rel (binding name column) (binding name column) := by
  refine Q.bind Q.get fun m => ?_
  cases m.scopes.find? name with
  | some b => exact Q.pure b
  | none => exact Q.fail column nofun

theorem vectorBinding (name : String) (column : Nat) :
    Q.Rel (vectorBinding name column) (vectorBinding name column) := by
  refine Q.bind (Q.binding name column) fun b => ?_
  cases b.value with
  | vector elements => exact Q.pure _
  | _ => exact Q.fail column nofun

theorem condition (column : Nat) (v : Value) : Q.Rel (condition column v) (condition column v) := by
  cases v with
  | bool b => exact Q.pure b
  | _ => exact Q.fail column nofun

theorem checkCalls (limit column : Nat) :
    Q.Rel (checkCalls limit column) (checkCalls limit column) :=
  Q.bind Q.get fun _ => ite (Q.fail column nofun) (Q.pure _)

theorem method (column : Nat) (name : String) (m : Method) :
    Q.Rel (method column name m) (method column name m) := by
  refine Q.bind (Q.vectorBinding name column) fun ⟨elements, cursor⟩ => ?_
  cases m with
  | size => exact Q.pure _
  | next =>
    dsimp only
    split
    · exact Q.bind (Q.modify fun _ => rfl) fun _ => Q.pure _
    · exact Q.fail column nofun
  | current =>
    dsimp only
    split
    · exact Q.pure _
    · exact Q.fail column nofun

theorem element (column : Nat) (name : String) (elements : List Value) (index : Value) :
    Q.Rel (element column name elements index) (element column name elements index) := by
  refine Q.bind (Q.located column (.indexOf index)) fun position => ?_
  split
  · exact Q.pure _
  · exact Q.fail column nofun

theorem checkArguments (column : Nat) (f : FunctionDef) (values : List Value) :
    Q.Rel (checkArguments column f values) (checkArguments column f values) := by
  unfold Eval.checkArguments
  split
  · exact Q.fail column nofun
  · exact Q.pure _

theorem Alike.refl (f : FunctionDef) : Q.Alike f f :=
  ⟨rfl, rfl, fun column values => Q.checkArguments column f values⟩

/-- The functions of one table are alike. -/
theorem alike_find? (table : FunctionTable) (name : String) :
    Option.Rel Q.Alike (table.find? name) (table.find? name) := by
  cases table.find? name with
  | none => exact .none
  | some f => exact .some (.refl f)

theorem mapM {f g : α → Eval β} (h : ∀ a, Q.Rel (f a) (g a)) (as : List α) :
    Q.Rel (as.mapM f) (as.mapM g) := by
  induction as with
  | nil =>
    rw [List.mapM_nil, List.mapM_nil]
    exact Q.pure _
  | cons a as ih =>
    rw [List.mapM_cons, List.mapM_cons]
    exact Q.bind (h a) fun _ => Q.bind ih fun _ => Q.pure _

theorem loop {p q : Eval Value} (var : String) (elements : List Value) (h : Q.Rel p q) :
    Q.Rel (loop var elements p) (loop var elements q) := by
  refine Q.bind Q.requestPrint fun _ => Q.bind (Q.mapM (fun element => ?_) elements) fun lines => ?_
  · exact Q.inFrame _ (Q.bind h fun v => Q.pure _)
  · exact Q.pure _

theorem repeatWhile {p q : Eval Bool} {p' q' : Eval String}
    (hend : Q.Rel (α := List String) (throw .outOfRounds) (throw .outOfRounds)) (h : Q.Rel p q)
    (h' : Q.Rel p' q') (rounds : Nat) (lines : List String) :
    Q.Rel (repeatWhile p p' rounds lines) (repeatWhile q q' rounds lines) := by
  induction rounds generalizing lines with
  | zero => exact hend
  | succ rounds ih =>
    unfold Eval.repeatWhile
    refine Q.bind h fun again => Q.ite (Q.bind h' fun line => ih _) (Q.pure _)

end StepRelation

/-! ## Trees -/

/-- A setting with functions whose bodies are reshaped. -/
def Setting.reshape (f : Expr → Expr) (setting : Setting) : Setting :=
  { setting with functions := setting.functions.reshape f }

theorem Setting.find?_reshape (f : Expr → Expr) (setting : Setting) (name : String) :
    (setting.reshape f).functions.find? name =
      (setting.functions.find? name).map (FunctionDef.reshape f) :=
  setting.functions.find?_reshape f name

section Reshaped

set_option linter.unusedSectionVars false

variable (Q : StepRelation) {admitted : Expr → Bool} {f : Expr → Expr} {setting setting' : Setting}
  {enter enter' : Enter} (hQ : Q.Admits admitted setting setting')
  (he : ∀ column frame name g, setting.functions.find? name = some g →
    Q.Rel (enter column frame g.body) (enter' column frame (g.body.reshape f)))
  (hf : ∀ e, (f e).evalWith (setting'.reshape f) enter' = e.evalWith (setting'.reshape f) enter')
  (hc : ∀ (e : Expr) v,
    Q.Rel (Eval.condition e.column v) (Eval.condition (e.reshape f).column v))

include hQ he hf hc

mutual

/-- **The evaluations of an expression and of its reshaped form are related** if what calls do is, and
if the change that is applied to all expressions has no effect on any of them alone. -/
theorem Expr.related_reshape : (e : Expr) → e.everywhere admitted →
    Q.Rel (e.evalWith setting enter) ((e.reshape f).evalWith (setting'.reshape f) enter')
  | .number .., _ | .string .., _ | .bool .., _ | .constant .., _ => by
    rw [Expr.reshape, hf]
    exact Q.pure _
  | .variable column name, _ => by
    rw [Expr.reshape, hf]
    exact Q.bind (Q.binding name column) fun _ => Q.pure _
  | .rand _, _ => by
    rw [Expr.reshape, hf]
    exact Q.bind Q.draw fun _ => Q.pure _
  | .method column name m, _ => by
    rw [Expr.reshape, hf]
    exact Q.method column name m
  | .error column, h => by
    rw [Expr.reshape, hf]
    exact hQ.missing column h
  | .unary column op operand, h => by
    rw [Expr.everywhere, Bool.and_eq_true] at h
    rw [Expr.reshape, hf]
    exact Q.bind (operand.related_reshape h.2) fun v => Q.located column (.unary op v)
  | .binary column left op right, h => by
    simp only [Expr.everywhere, Bool.and_eq_true] at h
    rw [Expr.reshape, hf]
    refine Q.bind (left.related_reshape h.2.1) fun a => ?_
    exact Q.bind (right.related_reshape h.2.2) fun b => Q.located column (.binary op a b)
  | .paren _ inner, h => by
    rw [Expr.everywhere, Bool.and_eq_true] at h
    rw [Expr.reshape, hf]
    exact inner.related_reshape h.2
  | .print _ argument, h => by
    rw [Expr.everywhere, Bool.and_eq_true] at h
    rw [Expr.reshape, hf]
    refine Q.bind (argument.related_reshape h.2) fun v => ?_
    exact Q.bind Q.requestPrint fun _ => Q.pure v
  | .math column g argument, h => by
    rw [Expr.everywhere, Bool.and_eq_true] at h
    rw [Expr.reshape, hf]
    exact Q.bind (argument.related_reshape h.2) fun v => Q.located column (.math g v)
  | .log column base argument, h => by
    simp only [Expr.everywhere, Bool.and_eq_true] at h
    rw [Expr.reshape, hf]
    refine Q.bind (base.related_reshape h.2.1) fun b => ?_
    exact Q.bind (argument.related_reshape h.2.2) fun x => Q.located column (.logarithm b x)
  | .ifThen _ test body rest, h => by
    simp only [Expr.everywhere, Bool.and_eq_true] at h
    rw [Expr.reshape, hf]
    refine Q.bind (test.related_reshape h.2.1) fun c => Q.bind (hc test c) fun b => ?_
    exact Q.ite (body.related_reshape h.2.2.1) (rest.related_reshape h.2.2.2)
  | .letIn _ bindings, h => by
    rw [Expr.everywhere, Bool.and_eq_true] at h
    rw [Expr.reshape, hf]
    exact Q.inFrame [] (bindings.related_reshape h.2)
  | .call column name arguments, h => by
    rw [Expr.everywhere, Bool.and_eq_true] at h
    have halike := hQ.functions name
    rw [Expr.reshape, hf, Expr.evalWith, Expr.evalWith, setting'.find?_reshape f,
      length_reshapeAll]
    generalize hfind : setting.functions.find? name = found at halike
    generalize setting'.functions.find? name = found' at halike
    cases halike with
    | none => exact Q.fail column nofun
    | @some g g' halike =>
      have hcall := Q.bind (related_reshapeAll arguments h.2) fun values =>
        Q.bind (halike.check column values) fun _ =>
          he column (Frame.ofList (g.params.zip values)) name g hfind
      have hparams : (g'.reshape f).params = g.params := halike.params
      have hbody : (g'.reshape f).body = g.body.reshape f := congrArg (Expr.reshape f) halike.body
      rw [Option.map_some]
      dsimp only
      rw [hparams, hbody]
      exact Q.ite (Q.bind (Q.fail column nofun) fun _ => hcall) hcall
  | .forRange column var lower upper body, h => by
    simp only [Expr.everywhere, Bool.and_eq_true] at h
    have hlimits : (setting'.reshape f).limits = setting.limits := hQ.limits
    rw [Expr.reshape, hf, Expr.evalWith, Expr.evalWith, hlimits]
    refine Q.bind (lower.related_reshape h.2.1) fun first => ?_
    refine Q.bind (upper.related_reshape h.2.2.1) fun last => ?_
    refine Q.bind (Q.located column (.rangeElements _ first last)) fun elements => ?_
    exact Q.loop var elements (body.related_reshape h.2.2.2)
  | .forEach _ var vector vectorColumn body, h => by
    rw [Expr.everywhere, Bool.and_eq_true] at h
    rw [Expr.reshape, hf]
    refine Q.bind (Q.vectorBinding vector vectorColumn) fun ⟨elements, _⟩ => ?_
    exact Q.loop var elements (body.related_reshape h.2)
  | .while _ test body, h => by
    simp only [Expr.everywhere, Bool.and_eq_true] at h
    have htest := Q.bind (test.related_reshape h.2.1) fun c => hc test c
    have hline := Q.bind (body.related_reshape h.2.2) fun v => Q.pure v.text
    obtain ⟨hr, hend⟩ := hQ.loop h.1
    have hrounds : (setting'.reshape f).rounds = setting.rounds := hr
    rw [Expr.reshape, hf, Expr.evalWith, Expr.evalWith, hrounds]
    refine Q.bind Q.requestPrint fun _ => ?_
    exact Q.bind (Q.repeatWhile hend htest hline setting.rounds []) fun _ => Q.pure _
  | .vector _ elements, h => by
    rw [Expr.everywhere, Bool.and_eq_true] at h
    rw [Expr.reshape, hf]
    exact Q.bind (related_reshapeAll elements h.2) fun _ => Q.pure _
  | .range column lower upper, h => by
    simp only [Expr.everywhere, Bool.and_eq_true] at h
    have hlimits : (setting'.reshape f).limits = setting.limits := hQ.limits
    rw [Expr.reshape, hf, Expr.evalWith, Expr.evalWith, hlimits]
    refine Q.bind (lower.related_reshape h.2.1) fun first => ?_
    refine Q.bind (upper.related_reshape h.2.2) fun last => ?_
    exact Q.bind (Q.located column (.rangeElements _ first last)) fun _ => Q.pure _
  | .index column name index, h => by
    rw [Expr.everywhere, Bool.and_eq_true] at h
    rw [Expr.reshape, hf]
    refine Q.bind (Q.vectorBinding name column) fun ⟨elements, _⟩ => ?_
    exact Q.bind (index.related_reshape h.2) fun i => Q.element column name elements i

theorem related_reshapeAll : (es : List Expr) → everywhereAll admitted es →
    Q.Rel (evalAll setting enter es) (evalAll (setting'.reshape f) enter' (reshapeAll f es))
  | [], _ => Q.pure _
  | e :: rest, h => by
    rw [everywhereAll, Bool.and_eq_true] at h
    refine Q.bind (e.related_reshape h.1) fun v => ?_
    exact Q.bind (related_reshapeAll rest h.2) fun _ => Q.pure _

theorem Branches.related_reshape : (b : Branches) → b.everywhere admitted →
    Q.Rel (b.evalWith setting enter) ((b.reshape f).evalWith (setting'.reshape f) enter')
  | .elif test body rest, h => by
    simp only [Branches.everywhere, Bool.and_eq_true] at h
    refine Q.bind (test.related_reshape h.1) fun c => Q.bind (hc test c) fun b => ?_
    exact Q.ite (body.related_reshape h.2.1) (rest.related_reshape h.2.2)
  | .otherwise body, h => body.related_reshape h

theorem Bindings.related_reshape : (b : Bindings) → b.everywhere admitted →
    Q.Rel (b.evalWith setting enter) ((b.reshape f).evalWith (setting'.reshape f) enter')
  | .bind _ name value rest, h => by
    rw [Bindings.everywhere, Bool.and_eq_true] at h
    refine Q.bind (value.related_reshape h.1) fun v => ?_
    exact Q.bind (Q.define name v) fun _ => rest.related_reshape h.2
  | .body body, h => body.related_reshape h

end

end Reshaped

/-- **Two evaluations of one expression are related** if what calls do is. -/
theorem Expr.related_evalWith (Q : StepRelation) {admitted : Expr → Bool} {setting setting' : Setting}
    {enter enter' : Enter} (hQ : Q.Admits admitted setting setting')
    (he : ∀ column frame name f, setting.functions.find? name = some f →
      Q.Rel (enter column frame f.body) (enter' column frame f.body))
    (e : Expr) (h : e.everywhere admitted) :
    Q.Rel (e.evalWith setting enter) (e.evalWith setting' enter') := by
  have henter : ∀ column frame name g, setting.functions.find? name = some g →
      Q.Rel (enter column frame g.body) (enter' column frame (g.body.reshape id)) := by
    intro column frame name g hg
    rw [Expr.reshape_id]
    exact he column frame name g hg
  have hcondition : ∀ (e : Expr) v,
      Q.Rel (Eval.condition e.column v) (Eval.condition (e.reshape id).column v) := by
    intro e v
    rw [Expr.reshape_id]
    exact Q.condition e.column v
  have hrel := e.related_reshape Q hQ henter (fun _ => rfl) hcondition h
  rwa [Expr.reshape_id, Setting.reshape, FunctionTable.reshape_id] at hrel

end ExprScript
