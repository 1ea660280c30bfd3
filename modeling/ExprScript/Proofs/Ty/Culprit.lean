import ExprScript.Proofs.Ty.Sound

/-!
# Where inference finds no value, there is none

When inference says that an expression cannot produce a value, it is right about some part of it: the
part has none, in whatever machine and under whatever functions there will be, as long as variables
have the types that inference gave them there.

* `Expr.parts`, `Occurs`: the expressions in an expression, with the types of variables that they are
  read under; an `elif` is an `if` in a last branch;
* `Hopeless`: **an expression that never has a value**;
* `hopeless_of_needs`, `culprit_of_require`: an operand of the wrong kind;
* `Expr.exists_culprit`: an expression without a value has a hopeless part;
* **`Ty.never_has_culprit`**: so does the body of a declaration that is rejected.
-/

namespace ExprScript

/-! ## Parts of expressions -/

/-- Branches as an expression: an `elif` is an `if`. -/
def Branches.asExpr : Branches → Expr
  | .elif condition body rest => .ifThen condition.column condition body rest
  | .otherwise body => body

theorem Branches.infer_asExpr (functions : FunctionTable) (scope : Ty.Scope) (b : Branches) :
    Ty.infer functions scope b.asExpr = Ty.inferBranches functions scope b := by
  cases b <;> rfl

theorem Branches.evalWith_asExpr (setting : Setting) (enter : Enter) (b : Branches) :
    b.asExpr.evalWith setting enter = b.evalWith setting enter := by
  cases b <;> rfl

section Parts

variable (functions : FunctionTable)

/-- The values of bindings and the body behind them, each with the types of variables that it is read
under. -/
def Bindings.parts (scope : Ty.Scope) : Bindings → List (Ty.Scope × Expr)
  | .bind _ name value rest =>
    (scope, value) :: rest.parts ((name, Ty.infer functions scope value) :: scope)
  | .body e => [(scope, e)]

/-- **The parts of an expression**, each with the types of variables that it is read under. -/
def Expr.parts (scope : Ty.Scope) : Expr → List (Ty.Scope × Expr)
  | .unary _ _ operand => [(scope, operand)]
  | .binary _ left _ right => [(scope, left), (scope, right)]
  | .paren _ inner => [(scope, inner)]
  | .print _ argument => [(scope, argument)]
  | .math _ _ argument => [(scope, argument)]
  | .log _ base argument => [(scope, base), (scope, argument)]
  | .ifThen _ condition body rest => [(scope, condition), (scope, body), (scope, rest.asExpr)]
  | .letIn _ bindings => bindings.parts functions scope
  | .call _ _ arguments => arguments.map (scope, ·)
  | .forRange _ var lower upper body =>
    let element := Ty.ofNumbers (Ty.infer functions scope lower) (Ty.infer functions scope upper)
      (.of .number)
    [(scope, lower), (scope, upper), ((var, element) :: scope, body)]
  | .forEach _ var _ _ body => [((var, .any) :: scope, body)]
  | .while _ condition body => [(scope, condition), (scope, body)]
  | .vector _ elements => elements.map (scope, ·)
  | .range _ lower upper => [(scope, lower), (scope, upper)]
  | .index _ _ position => [(scope, position)]
  | _ => []

/-- **An expression occurs in another one**, under types of variables that inference gave them
there. -/
inductive Occurs : Ty.Scope → Expr → Ty.Scope → Expr → Prop
  | self (scope : Ty.Scope) (e : Expr) : Occurs scope e scope e
  | part {scope scope' scope'' : Ty.Scope} {e e' s : Expr} : (scope', e') ∈ e.parts functions scope →
    Occurs scope' e' scope'' s → Occurs scope e scope'' s

/-- **An expression that never has a value**, under the functions of a table or a later one, whatever
the machine, if variables have the types that are told of them. A variable of which no kind is told
may be anything, or nothing. -/
def Hopeless (scope : Ty.Scope) (e : Expr) : Prop :=
  ∀ (table : FunctionTable), functions.Later table → ∀ (limits : Limits) (rounds calls : Nat)
    (m m' : Machine) (v : Value), Scopes.Agrees scope m.scopes →
    e.evalAt ⟨table, limits, rounds⟩ calls m ≠ .ok v m'

/-- Something in an expression never has a value. -/
def HasCulprit (scope : Ty.Scope) (e : Expr) : Prop :=
  ∃ scope' s, Occurs functions scope e scope' s ∧ Hopeless functions scope' s

end Parts

variable {functions : FunctionTable} {scope scope' : Ty.Scope} {e e' : Expr}

theorem HasCulprit.self (h : Hopeless functions scope e) : HasCulprit functions scope e :=
  ⟨scope, e, .self scope e, h⟩

theorem HasCulprit.part (hpart : (scope', e') ∈ e.parts functions scope)
    (h : HasCulprit functions scope' e') : HasCulprit functions scope e := by
  obtain ⟨scope'', s, hoccurs, hs⟩ := h
  exact ⟨scope'', s, .part hpart hoccurs, hs⟩

/-! ## Operands of the wrong kind -/

namespace Ty

theorem ofName_ne_never (hs : ∀ x ∈ scope, x.2 ≠ never) (name : String) :
    ofName scope name ≠ never := by
  unfold ofName
  cases hl : scope.lookup name with
  | none => exact nofun
  | some ty =>
    obtain ⟨before, after, rfl, -⟩ := List.lookup_eq_some_iff.mp hl
    exact hs (name, ty) (by simp)

/-- Why an operand does not fit. -/
theorem require_eq_never {found result : Ty} {k : Kind} (h : found.require (.of k) result = never) :
    found = never ∨ (∃ k', found = .of k' ∧ k' ≠ k) ∨ result = never := by
  unfold require at h
  split at h
  · exact .inr (.inr h)
  · next hfits =>
    cases found with
    | never => exact .inl rfl
    | any => simp [accepts] at hfits
    | of k' => exact .inr (.inl ⟨k', rfl, fun he => by simp [accepts, he] at hfits⟩)

theorem require_any_eq_never {found result : Ty} (h : found.require .any result = never) :
    found = never ∨ result = never := by
  unfold require at h
  split at h
  · exact .inr h
  · next hfits => exact .inl (by simpa [accepts] using hfits)

theorem unify_eq_never {a b : Ty} (h : a.unify b = never) : a = never ∨ b = never := by
  unfold unify at h
  split at h
  · next hnever => simpa using hnever
  · split at h
    · exact .inl h
    · cases h

theorem ifBool_eq_never {condition result : Ty} (h : ifBool condition result = never) :
    condition.require (.of .bool) .any = never ∨ result = never := by
  unfold ifBool at h
  split at h
  · next hc => exact .inl hc
  · exact .inr h

/-- Why two sides cannot be concatenated. -/
theorem ofConcat_eq_never {a b : Ty} (h : ofConcat a b = never) :
    a = never ∨ b = never ∨ ∃ k k', a = .of k ∧ b = .of k' ∧ k ≠ .string ∧ k' ≠ .string := by
  unfold ofConcat at h
  split at h
  · next hnever => exact (by simpa using hnever : a = never ∨ b = never).imp_right .inl
  split at h
  · cases h
  · next hnever hfits =>
    cases a with
    | never => exact .inl rfl
    | any => simp [accepts] at hfits
    | of k =>
      cases b with
      | never => exact .inr (.inl rfl)
      | any => simp [accepts] at hfits
      | of k' => exact .inr (.inr ⟨k, k', rfl, rfl, by simpa [accepts] using hfits⟩)

/-- Operators that ask for a kind ask for it on both sides. -/
theorem ofBinary_of_operand? {op : BinaryOp} {k : Kind} (hk : op.operand? = some k) (a b : Ty) :
    ofBinary op a b = a.require (.of k) (b.require (.of k) (.of op.result)) := by
  cases op <;> cases hk <;> rfl

end Ty

section Culprit

variable (reachable : functions.Reachable)

include reachable

/-- What inference tells of a part of an expression holds under all later tables. -/
theorem kind_of_evalAt {table : FunctionTable} (hlater : functions.Later table) {limits : Limits}
    {rounds calls : Nat} {m m' : Machine} {v : Value} {k : Kind} (ha : Scopes.Agrees scope m.scopes)
    (h : e.evalAt ⟨table, limits, rounds⟩ calls m = .ok v m')
    (hk : Ty.infer functions scope e = .of k) : v.kind = k :=
  e.kind_of_evalWith hlater.within
    (callsAccepted_enterCall ⟨table, limits, rounds⟩ (hlater.reachable reachable).typed calls) ha h hk

/-- **An expression with an operand of the wrong kind never has a value.** -/
theorem hopeless_of_needs {operand : Expr} {k k' : Kind} (hneeds : e.Needs operand (·.kind = k))
    (hk : Ty.infer functions scope operand = .of k') (hne : k' ≠ k) : Hopeless functions scope e := by
  intro table hlater limits rounds calls m m' v ha h
  obtain ⟨m₁, w, m₂, hmoved, hw, hkind⟩ := hneeds _ _ h
  have hw' : w.kind = k' := kind_of_evalAt reachable hlater (ha.moved hmoved) hw hk
  exact hne (hw'.symm.trans hkind)

/-- **An operand that does not fit** has a culprit in it, or makes its expression one. -/
theorem culprit_of_require {operand : Expr} {k : Kind} {result : Ty}
    (hpart : (scope, operand) ∈ e.parts functions scope) (hneeds : e.Needs operand (·.kind = k))
    (hoperand : Ty.infer functions scope operand = .never → HasCulprit functions scope operand)
    (h : (Ty.infer functions scope operand).require (.of k) result = .never) :
    HasCulprit functions scope e ∨ result = .never := by
  obtain hnever | ⟨k', hk', hne⟩ | hresult := Ty.require_eq_never h
  · exact .inl (.part hpart (hoperand hnever))
  · exact .inl (.self (hopeless_of_needs reachable hneeds hk' hne))
  · exact .inr hresult

/-- Two operands that must be numbers. -/
theorem culprit_of_ofNumbers {first second : Expr} {result : Ty}
    (hfirst : (scope, first) ∈ e.parts functions scope)
    (hsecond : (scope, second) ∈ e.parts functions scope)
    (hneeds : e.Needs first (·.kind = .number)) (hneeds' : e.Needs second (·.kind = .number))
    (ih : Ty.infer functions scope first = .never → HasCulprit functions scope first)
    (ih' : Ty.infer functions scope second = .never → HasCulprit functions scope second)
    (h : Ty.ofNumbers (Ty.infer functions scope first) (Ty.infer functions scope second) result =
      .never) : HasCulprit functions scope e ∨ result = .never := by
  obtain hc | h := culprit_of_require reachable hsecond hneeds' ih' h
  · exact .inl hc
  · exact culprit_of_require reachable hfirst hneeds ih h

/-- A concatenation of which neither side can be a string. -/
theorem hopeless_concat {column : Nat} {left right : Expr} {k k' : Kind}
    (hk : Ty.infer functions scope left = .of k) (hk' : Ty.infer functions scope right = .of k')
    (hne : k ≠ .string) (hne' : k' ≠ .string) :
    Hopeless functions scope (.binary column left .concat right) := by
  intro table hlater limits rounds calls m m' v ha h
  obtain ⟨a, m₁, hleft, h⟩ := Eval.bind_eq_ok h
  obtain ⟨b, m₂, hright, h⟩ := Eval.bind_eq_ok h
  have ha' : Scopes.Agrees scope m₁.scopes := ha.moved (Expr.moved_of_evalWith hleft)
  obtain hstring | hstring := BinaryOp.string_of_concat (Eval.located_eq_ok h)
  · exact hne ((kind_of_evalAt reachable hlater ha hleft hk).symm.trans hstring)
  · exact hne' ((kind_of_evalAt reachable hlater ha' hright hk').symm.trans hstring)

/-! ## The search for a culprit -/

/-- An operation on two operands. -/
theorem culprit_of_ofBinary {column : Nat} {left right : Expr} {op : BinaryOp}
    (hleft : Ty.infer functions scope left = .never → HasCulprit functions scope left)
    (hright : Ty.infer functions scope right = .never → HasCulprit functions scope right)
    (h : Ty.infer functions scope (.binary column left op right) = .never) :
    HasCulprit functions scope (.binary column left op right) := by
  have hl : (scope, left) ∈ (Expr.binary column left op right).parts functions scope :=
    List.mem_cons_self
  have hr : (scope, right) ∈ (Expr.binary column left op right).parts functions scope :=
    List.mem_cons_of_mem _ List.mem_cons_self
  rw [Ty.infer] at h
  cases hk : op.operand? with
  | some k =>
    have hneeds := (Expr.needs_left column left op right).mono fun _ ha => ha k hk
    have hneeds' := (Expr.needs_right column left op right).mono fun _ hb => hb k hk
    rw [Ty.ofBinary_of_operand? hk] at h
    obtain hc | h := culprit_of_require reachable hl hneeds hleft h
    · exact hc
    · exact (culprit_of_require reachable hr hneeds' hright h).resolve_right nofun
  | none =>
    cases op with
    | arithmetic | comparison | connective => cases hk
    | equality op =>
      obtain h | h := Ty.require_any_eq_never h
      · exact .part hl (hleft h)
      · exact .part hr (hright ((Ty.require_any_eq_never h).resolve_right nofun))
    | concat =>
      obtain h | h | ⟨k, k', hk, hk', hne, hne'⟩ := Ty.ofConcat_eq_never h
      · exact .part hl (hleft h)
      · exact .part hr (hright h)
      · exact .self (hopeless_concat reachable hk hk' hne hne')

/-- A choice between two branches. -/
theorem culprit_of_ifThen {column : Nat} {condition body : Expr} {rest : Branches}
    (hcondition : Ty.infer functions scope condition = .never → HasCulprit functions scope condition)
    (hbody : Ty.infer functions scope body = .never → HasCulprit functions scope body)
    (hrest : Ty.inferBranches functions scope rest = .never →
      HasCulprit functions scope rest.asExpr)
    (h : Ty.infer functions scope (.ifThen column condition body rest) = .never) :
    HasCulprit functions scope (.ifThen column condition body rest) := by
  have hparts : (Expr.ifThen column condition body rest).parts functions scope =
      [(scope, condition), (scope, body), (scope, rest.asExpr)] := rfl
  have hneeds := Expr.needs_condition column condition body rest
  rw [Ty.infer] at h
  obtain h | h := Ty.ifBool_eq_never h
  · have hc := culprit_of_require reachable (by simp [hparts]) hneeds hcondition h
    exact hc.resolve_right nofun
  · obtain h | h := Ty.unify_eq_never h
    · exact .part (by simp [hparts]) (hbody h)
    · exact .part (by simp [hparts]) (hrest h)

set_option linter.unusedSectionVars false

mutual

/-- **An expression that cannot have a value has a hopeless part.** -/
theorem Expr.exists_culprit {scope : Ty.Scope} (hs : ∀ x ∈ scope, x.2 ≠ Ty.never) : (e : Expr) →
    Ty.infer functions scope e = .never → HasCulprit functions scope e
  | .number .., h | .string .., h | .bool .., h | .constant .., h | .rand _, h => by cases h
  | .variable _ name, h => absurd h (Ty.ofName_ne_never hs name)
  | .unary column op operand, h =>
    (culprit_of_require reachable List.mem_cons_self (Expr.needs_unary column op operand)
      (operand.exists_culprit hs) h).resolve_right nofun
  | .binary _ left _ right, h =>
    culprit_of_ofBinary reachable (left.exists_culprit hs) (right.exists_culprit hs) h
  | .paren _ inner, h => .part List.mem_cons_self (inner.exists_culprit hs h)
  | .print _ argument, h => .part List.mem_cons_self (argument.exists_culprit hs h)
  | .math column f argument, h =>
    (culprit_of_require reachable List.mem_cons_self (Expr.needs_math column f argument)
      (argument.exists_culprit hs) h).resolve_right nofun
  | .log column base argument, h =>
    (culprit_of_ofNumbers reachable List.mem_cons_self (List.mem_cons_of_mem _ List.mem_cons_self)
      (Expr.needs_base column base argument) (Expr.needs_argument column base argument)
      (base.exists_culprit hs) (argument.exists_culprit hs) h).resolve_right nofun
  | .ifThen _ condition body rest, h =>
    culprit_of_ifThen reachable (condition.exists_culprit hs) (body.exists_culprit hs)
      (rest.exists_culprit hs) h
  | .letIn _ bindings, h => by
    obtain ⟨part, hpart, hc⟩ := bindings.exists_culprit hs h
    exact .part hpart hc
  | .call _ name arguments, h => by
    rw [Ty.infer] at h
    split at h
    · split at h
      · next f hf => exact absurd h (reachable.typed name f hf).1
      · cases h
    · next hn =>
      obtain ⟨argument, hmem, hc⟩ := exists_culprit_all hs arguments (Bool.not_eq_true _ ▸ hn)
      exact .part (List.mem_map_of_mem hmem) hc
  | .forRange column var lower upper body, h => by
    rw [Ty.infer] at h
    split at h
    · next hnever =>
      exact (culprit_of_ofNumbers reachable List.mem_cons_self
        (List.mem_cons_of_mem _ List.mem_cons_self)
        (Expr.needs_range column var lower upper body (Expr.needs_lower column lower upper))
        (Expr.needs_range column var lower upper body (Expr.needs_upper column lower upper))
        (lower.exists_culprit hs) (upper.exists_culprit hs) hnever).resolve_right nofun
    · next hsome =>
      -- the loop itself may have a value, if its range is empty, so the culprit is in the body
      have hbody := (Ty.require_any_eq_never h).resolve_right nofun
      exact .part (List.mem_cons_of_mem _ (List.mem_cons_of_mem _ List.mem_cons_self))
        (body.exists_culprit (List.forall_mem_cons.mpr ⟨hsome, hs⟩) hbody)
  | .forEach _ var _ _ body, h =>
    .part List.mem_cons_self
      (body.exists_culprit (List.forall_mem_cons.mpr ⟨by simp, hs⟩)
        ((Ty.require_any_eq_never h).resolve_right nofun))
  | .while column condition body, h => by
    obtain h | h := Ty.require_any_eq_never h
    · exact .part (List.mem_cons_of_mem _ List.mem_cons_self) (body.exists_culprit hs h)
    · exact (culprit_of_require reachable List.mem_cons_self (Expr.needs_test column condition body)
        (condition.exists_culprit hs) h).resolve_right nofun
  | .vector _ elements, h => by
    rw [Ty.infer] at h
    split at h
    · cases h
    · next hn =>
      obtain ⟨element, hmem, hc⟩ := exists_culprit_all hs elements (Bool.not_eq_true _ ▸ hn)
      exact .part (List.mem_map_of_mem hmem) hc
  | .range column lower upper, h =>
    (culprit_of_ofNumbers reachable List.mem_cons_self (List.mem_cons_of_mem _ List.mem_cons_self)
      (Expr.needs_lower column lower upper) (Expr.needs_upper column lower upper)
      (lower.exists_culprit hs) (upper.exists_culprit hs) h).resolve_right nofun
  | .index column name index, h =>
    (culprit_of_require reachable List.mem_cons_self (Expr.needs_index column name index)
      (index.exists_culprit hs) h).resolve_right nofun
  | .method _ _ method, h => by cases method <;> cases h
  | .error column, _ => .self fun _ _ _ _ _ _ _ _ _ h => nomatch h

theorem exists_culprit_all {scope : Ty.Scope} (hs : ∀ x ∈ scope, x.2 ≠ Ty.never) :
    (es : List Expr) → Ty.inferable functions scope es = false →
    ∃ e ∈ es, HasCulprit functions scope e
  | [], h => by cases h
  | e :: rest, h => by
    rw [Ty.inferable, Bool.and_eq_false_iff] at h
    obtain h | h := h
    · exact ⟨e, List.mem_cons_self, e.exists_culprit hs (by simpa using h)⟩
    · obtain ⟨e', hmem, hc⟩ := exists_culprit_all hs rest h
      exact ⟨e', List.mem_cons_of_mem _ hmem, hc⟩

theorem Branches.exists_culprit {scope : Ty.Scope} (hs : ∀ x ∈ scope, x.2 ≠ Ty.never) :
    (b : Branches) → Ty.inferBranches functions scope b = .never →
    HasCulprit functions scope b.asExpr
  | .elif condition body rest, h =>
    culprit_of_ifThen reachable (condition.exists_culprit hs) (body.exists_culprit hs)
      (rest.exists_culprit hs) h
  | .otherwise body, h => body.exists_culprit hs h

theorem Bindings.exists_culprit {scope : Ty.Scope} (hs : ∀ x ∈ scope, x.2 ≠ Ty.never) :
    (b : Bindings) → Ty.inferBindings functions scope b = .never →
    ∃ part ∈ b.parts functions scope, HasCulprit functions part.1 part.2
  | .bind _ name value rest, h => by
    rw [Ty.inferBindings] at h
    split at h
    · next hnever => exact ⟨_, List.mem_cons_self, value.exists_culprit hs hnever⟩
    · next hsome =>
      obtain ⟨part, hpart, hc⟩ := rest.exists_culprit (List.forall_mem_cons.mpr ⟨hsome, hs⟩) h
      exact ⟨part, List.mem_cons_of_mem _ hpart, hc⟩
  | .body body, h => ⟨_, List.mem_cons_self, body.exists_culprit hs h⟩

end

end Culprit

/-- **Where inference finds no value, there is none.** Under a table that arises from reading source
texts, and with variables each of which can have a value: if an expression is told to have none, then
something in it never has a value, under the functions of this table or any later one, whatever the
limits and the machine, as long as variables have the types that are told of them there. So it is with
the body of a declaration that makes no function. -/
theorem Ty.never_has_culprit {functions : FunctionTable} (reachable : functions.Reachable) :
    (∀ (scope : Ty.Scope) (e : Expr), (∀ x ∈ scope, x.2 ≠ never) →
      infer functions scope e = never →
      ∃ scope' s, Occurs functions scope e scope' s ∧ Hopeless functions scope' s) ∧
    ∀ d : Declaration, d.define? functions = none →
      ∃ scope' s, Occurs functions (FunctionTable.parameterScope d.params) d.body scope' s ∧
        Hopeless functions scope' s := by
  refine ⟨fun scope e hs h => e.exists_culprit reachable hs h, fun d hd => ?_⟩
  have hparams : ∀ x ∈ FunctionTable.parameterScope d.params, x.2 ≠ never := by
    simp [FunctionTable.parameterScope]
  have hnever : infer functions (FunctionTable.parameterScope d.params) d.body = never := by
    unfold Declaration.define? at hd
    dsimp only at hd
    split at hd
    · next h => exact h
    · cases hd
  exact d.body.exists_culprit reachable hparams hnever

/-- The table of a function that shouts, a choice whose last branch adds a number to what it returns,
and a declaration with that choice for its body. -/
theorem Ty.never_has_culprit_shout :
    let table := (Program.read 10 .empty "function f(x) => x @ \"!\";").2
    let e : Expr := .ifThen 1 (.variable 5 "y") (.number 8 1)
      (.otherwise (.binary 20 (.call 15 "f" [.variable 17 "y"]) (.arithmetic .add) (.number 22 1)))
    infer table [("y", .of .bool)] e = never ∧ (Declaration.mk 1 "g" ["y"] e).define? table = none ∧
      (∃ scope' s, Occurs table [("y", .of .bool)] e scope' s ∧ Hopeless table scope' s) ∧
      ∃ scope' s, Occurs table (FunctionTable.parameterScope ["y"]) e scope' s ∧
        Hopeless table scope' s := by
  intro table e
  have hr : table.Reachable := .read _ _ .empty
  have hnever : infer table [("y", .of .bool)] e = never := by
    dsimp only [table, e]
    cbv
  have hd : (Declaration.mk 1 "g" ["y"] e).define? table = none := by
    dsimp only [table, e]
    cbv
  obtain ⟨hexpr, hdeclaration⟩ := never_has_culprit hr
  exact ⟨hnever, hd, hexpr _ e (by simp) hnever, hdeclaration _ hd⟩

end ExprScript
