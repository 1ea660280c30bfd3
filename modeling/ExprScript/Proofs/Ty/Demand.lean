import ExprScript.Proofs.Eval.Operand
import ExprScript.Proofs.Eval.Unchecked
import ExprScript.Proofs.Program.Declare

/-!
# What is asked of parameters is needed

A function asks of a parameter what its first constraining use asks for. In a body without branches
and loops every use is reached, unless evaluation fails before it. So a call whose arguments are
refused there has been spared a failure, and nothing else.

* `FunctionTable.Asks`: each function asks what its body uses, under a part of the table;
* `Scopes.Refused`: a variable that is not what is asked of it;
* `Expr.straight`: expressions without branches and loops;
* `Expr.Refuses`, `refuses_of_orUse`: **an operand that is not what is asked of it**;
* `Expr.refuses_of_firstUse?`: what the first use asks for is needed, by induction over the tree;
* **`FunctionTable.check_only_filters`**: the check of arguments in a table.
-/

namespace ExprScript

/-! ## Tables -/

/-- **Each function asks of its parameters**, which are different, **what its body uses**, as it is
told under a part of the table. -/
def FunctionTable.Asks (table : FunctionTable) : Prop :=
  ∀ f ∈ table.entries, f.params.Nodup ∧ ∃ smaller : FunctionTable, smaller.Within table ∧
    f.paramTypes = f.params.map fun p => Ty.usage smaller p f.body

theorem FunctionTable.Asks.adds {before after : FunctionTable} {f : FunctionDef} (hb : before.Asks)
    (h : before.Adds after f) : after.Asks := by
  have hw : before.Within after := within_of_append h.entries
  intro g hg
  rw [h.entries, List.mem_append, List.mem_singleton] at hg
  obtain hg | rfl := hg
  · obtain ⟨hnodup, smaller, hsmaller, htypes⟩ := hb g hg
    exact ⟨hnodup, smaller, hsmaller.trans hw, htypes⟩
  · exact ⟨h.nodup, before, hw, h.paramTypes⟩

theorem FunctionTable.Reachable.asks {table : FunctionTable} (h : table.Reachable) : table.Asks := by
  induction h with
  | empty => exact fun f hf => nomatch hf
  | read limit source _ ih => exact Program.read_induction ih fun hb hf _ => hb.adds hf

/-! ## Variables -/

/-- **A variable is not what is asked of it.** -/
def Scopes.Refused (param : String) (ty : Ty) (s : Scopes) : Prop :=
  ∃ b, s.find? param = some b ∧ ty.accepts b.value.ty = false

namespace Scopes.Refused

variable {param : String} {ty : Ty} {s s' : Scopes}

theorem moved (h : Refused param ty s) (hm : Scopes.Moved s s') : Refused param ty s' := by
  obtain ⟨b, hb, hv⟩ := h
  obtain ⟨b', hb', hmoved⟩ := hm.find? hb
  exact ⟨b', hb', by rw [hmoved.value, hv]⟩

/-- Other variables may be bound. -/
theorem define (h : Refused param ty s) {name : String} (hn : name ≠ param) (v : Value) :
    Refused param ty (s.define name v) := by
  obtain ⟨b, hb, hv⟩ := h
  exact ⟨b, by rw [Scopes.find?_define, if_neg hn.symm, hb], hv⟩

/-- A vector is what is asked of vectors. -/
theorem not_vector (h : Refused param (.of .vector) s) {elements : List Value}
    {cursor : Option Nat} : s.find? param ≠ some ⟨.vector elements, cursor⟩ := by
  obtain ⟨b, hb, hv⟩ := h
  rintro he
  cases hb.symm.trans he
  cases hv

end Scopes.Refused

/-! ## Expressions without branches and loops -/

/-- Whether an expression is no branch and no loop. -/
def Expr.straightHere : Expr → Bool
  | .ifThen .. | .forRange .. | .forEach .. | .while .. => false
  | _ => true

/-- **There are no branches and no loops in an expression.** -/
abbrev Expr.straight (e : Expr) : Bool := e.everywhere straightHere

section Refuses

open Eval

variable (setting : Setting) (enter : Enter) (param : String) (ty : Ty)

/-- An expression that has no value where a variable is not what is asked of it. -/
def Expr.Refuses (e : Expr) : Prop :=
  ∀ (m m' : Machine) (v : Value), Scopes.Refused param ty m.scopes →
    e.evalWith setting enter m ≠ .ok v m'

variable {setting enter param ty}

/-- An operand that is the variable itself has its value. -/
theorem Expr.value_of_names {e : Expr} {m m' : Machine} {v : Value} (hn : e.names param)
    (h : e.evalWith setting enter m = .ok v m') :
    ∃ b, m.scopes.find? param = some b ∧ b.value = v := by
  fun_induction Expr.names param e with
  | case1 column name =>
    obtain ⟨b, m₁, hb, h⟩ := bind_eq_ok h
    cases h
    obtain rfl : name = param := of_decide_eq_true hn
    exact ⟨b, (binding_eq_ok hb).2, rfl⟩
  | case2 column inner ih => exact ih hn h
  | case3 => cases hn

theorem mismatch?_nil (params : List String) (values : List Value) :
    mismatch? params [] values = none := by
  cases params <;> rfl

variable [∀ column frame body, Restores 0 (enter column frame body)]

theorem refuses_of_needs {e operand : Expr} {p : Value → Prop} (hneeds : e.Needs operand p)
    (h : operand.Refuses setting enter param ty) : e.Refuses setting enter param ty := by
  intro m m' v hr hv
  obtain ⟨m₁, w, m₂, hmoved, hw, -⟩ := hneeds setting enter hv
  exact h m₁ m₂ w (hr.moved hmoved) hw

/-- **An operand that is not what is asked of it**, or in which something is not. -/
theorem refuses_of_orUse {e operand : Expr} {k : Kind} {inside : Option Ty}
    (hneeds : e.Needs operand (·.kind = k))
    (hinside : inside = some ty → operand.Refuses setting enter param ty)
    (h : Ty.orUse param (.of k) operand inside = some ty) : e.Refuses setting enter param ty := by
  unfold Ty.orUse at h
  split at h
  · next hn =>
    obtain rfl := Option.some.inj h
    intro m m' v hr hv
    obtain ⟨m₁, w, m₂, hmoved, hw, hk⟩ := hneeds setting enter hv
    obtain ⟨b, hb, hrefused⟩ := hr.moved hmoved
    obtain ⟨b', hb', rfl⟩ := Expr.value_of_names hn hw
    cases hb.symm.trans hb'
    simp [Ty.accepts, Value.ty, hk] at hrefused
  · exact refuses_of_needs hneeds (hinside h)

variable {smaller : FunctionTable} (within : smaller.Within setting.functions)

include within

set_option linter.unusedSectionVars false

mutual

/-- **What the first use asks for is needed**, in an expression without branches and loops. -/
theorem Expr.refuses_of_firstUse? : (e : Expr) → e.everywhere Expr.straightHere →
    Ty.firstUse? smaller param e = some ty → e.Refuses setting enter param ty
  | .number .., _, h | .string .., _, h | .bool .., _, h | .constant .., _, h | .variable .., _, h
  | .rand _, _, h | .error _, _, h => by cases h
  | .ifThen .., hs, _ | .forRange .., hs, _ | .forEach .., hs, _ | .while .., hs, _ => by cases hs
  | .paren column inner, hs, h => by
    rw [Expr.everywhere, Bool.and_eq_true] at hs
    exact refuses_of_needs (Expr.needs_paren column inner) (inner.refuses_of_firstUse? hs.2 h)
  | .print column argument, hs, h => by
    rw [Expr.everywhere, Bool.and_eq_true] at hs
    exact refuses_of_needs (Expr.needs_print column argument) (argument.refuses_of_firstUse? hs.2 h)
  | .unary column op operand, hs, h => by
    rw [Expr.everywhere, Bool.and_eq_true] at hs
    exact refuses_of_orUse (Expr.needs_unary column op operand) (operand.refuses_of_firstUse? hs.2) h
  | .math column f argument, hs, h => by
    rw [Expr.everywhere, Bool.and_eq_true] at hs
    exact refuses_of_orUse (Expr.needs_math column f argument) (argument.refuses_of_firstUse? hs.2) h
  | .binary column left op right, hs, h => by
    simp only [Expr.everywhere, Bool.and_eq_true] at hs
    have hl := left.refuses_of_firstUse? hs.2.1
    have hr := right.refuses_of_firstUse? hs.2.2
    have hneeds := Expr.needs_left column left op right
    have hneeds' := Expr.needs_right column left op right
    -- both sides are evaluated before the operator is applied, so either use is reached
    rw [Ty.firstUse?] at h
    split at h
    · next k hk =>
      obtain h | ⟨-, h⟩ := Option.or_eq_some_iff.mp h
      · exact refuses_of_orUse (hneeds.mono fun _ ha => ha k hk) hl h
      · exact refuses_of_orUse (hneeds'.mono fun _ hb => hb k hk) hr h
    · obtain h | ⟨-, h⟩ := Option.or_eq_some_iff.mp h
      · exact refuses_of_needs hneeds (hl h)
      · exact refuses_of_needs hneeds' (hr h)
  | .log column base argument, hs, h => by
    simp only [Expr.everywhere, Bool.and_eq_true] at hs
    obtain h | ⟨-, h⟩ := Option.or_eq_some_iff.mp h
    · exact refuses_of_orUse (Expr.needs_base column base argument)
        (base.refuses_of_firstUse? hs.2.1) h
    · exact refuses_of_orUse (Expr.needs_argument column base argument)
        (argument.refuses_of_firstUse? hs.2.2) h
  | .range column lower upper, hs, h => by
    simp only [Expr.everywhere, Bool.and_eq_true] at hs
    obtain h | ⟨-, h⟩ := Option.or_eq_some_iff.mp h
    · exact refuses_of_orUse (Expr.needs_lower column lower upper)
        (lower.refuses_of_firstUse? hs.2.1) h
    · exact refuses_of_orUse (Expr.needs_upper column lower upper)
        (upper.refuses_of_firstUse? hs.2.2) h
  | .letIn _ bindings, hs, h => by
    rw [Expr.everywhere, Bool.and_eq_true] at hs
    intro m m' v hr hv
    obtain ⟨m₁, hv⟩ := inFrame_eq_ok hv
    exact bindings.refuses_of_firstUse? hs.2 h { m with scopes := [] :: m.scopes } m₁ v hr hv
  | .call column name arguments, hs, h => by
    rw [Expr.everywhere, Bool.and_eq_true] at hs
    intro m m' v hr hv
    obtain ⟨f, values, m₁, hf, hlength, hvalues, hcheck, -⟩ := Expr.call_eq_ok hv
    rw [Ty.firstUse?] at h
    split at h
    · next g hg =>
      -- a name that was known when the body was read has kept its function
      cases hf.symm.trans (within name g hg)
      exact refuses_of_firstUseArguments? arguments hs.2 h m m₁ values f.params hr hvalues
        hlength.symm hcheck
    · -- nothing was asked of arguments then, so only uses inside of them count
      exact refuses_of_firstUseArguments? arguments hs.2 h m m₁ values f.params hr hvalues
        hlength.symm (mismatch?_nil f.params values)
  | .vector _ elements, hs, h => by
    rw [Expr.everywhere, Bool.and_eq_true] at hs
    intro m m' v hr hv
    obtain ⟨values, m₁, hvalues, -⟩ := bind_eq_ok hv
    exact refuses_of_firstUseArguments? elements hs.2 h m m₁ values (elements.map fun _ => "") hr
      hvalues (List.length_map _) (mismatch?_nil _ values)
  | .index column name index, hs, h => by
    rw [Expr.everywhere, Bool.and_eq_true] at hs
    rw [Ty.firstUse?] at h
    split at h
    · next hn =>
      obtain rfl := Option.some.inj h
      intro m m' v hr hv
      obtain ⟨elements, cursor, hvector⟩ := Expr.vector_of_index column hv
      exact hr.not_vector (hn ▸ hvector)
    · exact refuses_of_orUse (Expr.needs_index column name index) (index.refuses_of_firstUse? hs.2) h
  | .method column name method, _, h => by
    rw [Ty.firstUse?] at h
    split at h
    · next hn =>
      obtain rfl := Option.some.inj h
      intro m m' v hr hv
      obtain ⟨elements, cursor, hvector⟩ := Expr.vector_of_method column hv
      exact hr.not_vector (hn ▸ hvector)
    · cases h

/-- Among arguments that all have a value, one is refused. -/
theorem refuses_of_firstUseArguments? {asked : List Ty} : (es : List Expr) →
    everywhereAll Expr.straightHere es → Ty.firstUseArguments? smaller param asked es = some ty →
    ∀ (m m' : Machine) (values : List Value) (params : List String),
      Scopes.Refused param ty m.scopes → evalAll setting enter es m = .ok values m' →
      params.length = es.length → mismatch? params asked values ≠ none
  | [], _, h => by cases h
  | e :: rest, hs, h => by
    rw [everywhereAll, Bool.and_eq_true] at hs
    intro m m' values params hr hv hlength
    obtain ⟨v, m₁, he, hv⟩ := bind_eq_ok hv
    obtain ⟨vs, m₂, hvs, hv⟩ := bind_eq_ok hv
    cases hv
    obtain ⟨first, others, rfl⟩ : ∃ first others, params = first :: others := by
      cases params with
      | nil => cases hlength
      | cons first others => exact ⟨first, others, rfl⟩
    have hinside := e.refuses_of_firstUse? hs.1
    have hlater := hr.moved (Expr.moved_of_evalWith he)
    rw [Ty.firstUseArguments?] at h
    obtain hhere | ⟨-, hthere⟩ := Option.or_eq_some_iff.mp h
    · split at hhere
      · next t ht =>
        obtain ⟨types, rfl⟩ := List.head?_eq_some_iff.mp (Option.filter_eq_some_iff.mp ht).1
        unfold Ty.orUse at hhere
        split at hhere
        · next hn =>
          obtain rfl := Option.some.inj hhere
          obtain ⟨b, hb, hrefused⟩ := hr
          obtain ⟨b', hb', rfl⟩ := Expr.value_of_names hn he
          cases hb.symm.trans hb'
          rw [mismatch?, hrefused]
          exact Option.some_ne_none _
        · exact absurd he (hinside hhere m m₁ v hr)
      · exact absurd he (hinside hhere m m₁ v hr)
    · have hrest := refuses_of_firstUseArguments? rest hs.2 hthere m₁ _ vs others hlater hvs
        (Nat.succ.inj hlength)
      cases asked with
      | nil => exact absurd (mismatch?_nil others vs) hrest
      | cons t types =>
        rw [mismatch?]
        split
        · exact hrest
        · exact Option.some_ne_none _

/-- Bindings of other names do not help. -/
theorem Bindings.refuses_of_firstUse? : (b : Bindings) → b.everywhere Expr.straightHere →
    Ty.firstUseBindings? smaller param b = some ty →
    ∀ (m m' : Machine) (v : Value), Scopes.Refused param ty m.scopes →
      b.evalWith setting enter m ≠ .ok v m'
  | .bind _ name value rest, hs, h => by
    rw [Bindings.everywhere, Bool.and_eq_true] at hs
    intro m m' v hr hv
    obtain ⟨w, m₁, hw, hv⟩ := bind_eq_ok hv
    obtain h | ⟨-, h⟩ := Option.or_eq_some_iff.mp h
    · exact value.refuses_of_firstUse? hs.1 h m m₁ w hr hw
    · split at h
      · cases h
      · next hn =>
        have hr' := (hr.moved (Expr.moved_of_evalWith hw)).define hn w
        exact rest.refuses_of_firstUse? hs.2 h { m₁ with scopes := m₁.scopes.define name w } m' v hr' hv
  | .body body, hs, h => body.refuses_of_firstUse? hs h

end

end Refuses

/-- **A function without branches and loops needs what it asks for.** Evaluating its body in a frame of
arguments of which one would be refused has no value. -/
theorem FunctionDef.refuses_body {table : FunctionTable} (reachable : table.Reachable)
    {f : FunctionDef} (hf : f ∈ table.entries) (hs : f.body.straight) {values : List Value} {i : Nat}
    {v : Value} {ty : Ty} (hv : values[i]? = some v) (hty : f.paramTypes[i]? = some ty)
    (hrefused : ty.accepts v.ty = false) (limits : Limits) (rounds calls : Nat) (m m' : Machine)
    (w : Value) :
    Eval.inFrame (Frame.ofList (f.params.zip values)) (f.body.evalAt ⟨table, limits, rounds⟩ calls) m ≠
      .ok w m' := by
  obtain ⟨hnodup, smaller, hw, htypes⟩ := reachable.asks f hf
  rw [htypes, List.getElem?_map, Option.map_eq_some_iff] at hty
  obtain ⟨param, hparam, rfl⟩ := hty
  have huse : Ty.firstUse? smaller param f.body = some (Ty.usage smaller param f.body) := by
    unfold Ty.usage at hrefused ⊢
    cases hu : Ty.firstUse? smaller param f.body with
    | none =>
      rw [hu] at hrefused
      cases hrefused
    | some ty => rfl
  intro h
  obtain ⟨m₁, h⟩ := Eval.inFrame_eq_ok h
  have hfind : Scopes.find? (Frame.ofList (f.params.zip values) :: m.scopes) param =
      some ⟨v, none⟩ := by
    rw [Scopes.find?_cons, Frame.lookup_ofList hnodup hparam hv]
    rfl
  exact f.body.refuses_of_firstUse? hw hs huse _ m₁ w ⟨_, hfind, hrefused⟩ h

/-- **The check of arguments only filters.** Whatever is evaluated, under whatever functions, and ends
with a value or an error other than that an argument was refused, ends the same, and with the same
machine, if nothing is asked of arguments. And under functions that arise from reading source texts,
a call of one without branches and loops is refused only if the evaluation of its body in a frame of
the arguments has no value, whatever frames there are below. -/
theorem FunctionTable.check_only_filters :
    (∀ (functions : FunctionTable) (limits : Limits) (rounds calls : Nat) (e : Expr) (m : Machine),
      (∀ err m', e.evalAt ⟨functions, limits, rounds⟩ calls m = .error (.error err) m' →
        ¬ err.cause.Refusal) →
      e.evalAt ⟨functions.unchecked, limits, rounds⟩ calls m =
        e.evalAt ⟨functions, limits, rounds⟩ calls m) ∧
    ∀ (table : FunctionTable), table.Reachable → ∀ f ∈ table.entries, f.body.straight →
      ∀ (values : List Value) (i : Nat) (v : Value) (ty : Ty), values[i]? = some v →
        f.paramTypes[i]? = some ty → ty.accepts v.ty = false →
        ∀ (limits : Limits) (rounds calls : Nat) (m m' : Machine) (w : Value),
          Eval.inFrame (Frame.ofList (f.params.zip values))
            (f.body.evalAt ⟨table, limits, rounds⟩ calls) m ≠ .ok w m' :=
  ⟨Expr.evalAt_unchecked, fun _ reachable f hf hs _ _ _ _ hv hty hrefused =>
    f.refuses_body reachable hf hs hv hty hrefused⟩

/-- A function that asks for a boolean because another one does, called with a boolean and with a
string. -/
theorem FunctionTable.check_only_filters_not :
    let table := (Program.read 10 .empty "function g(x) => !x; function f(y) => g((y));").2
    let f : FunctionDef := ⟨"f", ["y"], [.of .bool], .of .bool,
      .call 39 "g" [.paren 41 (.variable 42 "y")], 31⟩
    let m : Machine := ⟨[[("y", ⟨.string "outer", none⟩)]], 0, false, .ofSeed 0⟩
    f ∈ table.entries ∧
      (Expr.call 1 "f" [.bool 3 true]).evalAt ⟨table.unchecked, {}, 0⟩ 2 m = .ok (.bool false) m ∧
      ∀ m' w, Eval.inFrame (Frame.ofList (f.params.zip [.string "a"]))
        (f.body.evalAt ⟨table, {}, 0⟩ 2) m ≠ .ok w m' := by
  intro table f m
  have hr : table.Reachable := .read _ _ .empty
  have hf : table.entries[1]? = some f := by
    dsimp only [table, f]
    cbv
  have hcall : (Expr.call 1 "f" [.bool 3 true]).evalAt ⟨table, {}, 0⟩ 2 m = .ok (.bool false) m := by
    dsimp only [table, m]
    cbv
  obtain ⟨hsame, hneeded⟩ := check_only_filters
  refine ⟨List.mem_of_getElem? hf, ?_, fun m' w => ?_⟩
  · refine (hsame table {} 0 2 _ m fun err m' he => ?_).trans hcall
    cases hcall.symm.trans he
  · exact hneeded table hr f (List.mem_of_getElem? hf) rfl [.string "a"] 0 _ _ rfl rfl rfl {} 0 2 m
      m' w

end ExprScript
