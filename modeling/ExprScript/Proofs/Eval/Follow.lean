import ExprScript.Proofs.Eval.Memory
import ExprScript.Proofs.Eval.Step
import ExprScript.Proofs.Follow
import ExprScript.Proofs.Tree.Grouping

/-!
# Evaluation does not depend on the memory

A memory that keeps what the frames hold, as far as names tell, leads to the same results, and so do
limits that are not met. Both are shown by one walk over the rules of evaluation: the evaluator on
frames is followed, step by step, by that over the other memory.

* `Memory.Keeps`: **a memory keeps what the frames hold**, from the opening of a scope to its end;
* `Setting.Below`: settings with greater limits;
* `EndAlike`: two runs that end alike;
* `Expr.follows_evalWith`: the evaluators of trees, if what calls do is followed;
* `Expr.follows_evalAt_among`, **`Expr.follows_evalAt`**: the evaluators;
* `Memory.frames`, `Expr.evalAt_frames`: over the frames as a memory, evaluation is what it is on
  frames.
-/

namespace ExprScript

/-! ## Names that are read -/

/-- Whether a test admits the name that an expression itself looks up, if there is one. -/
def Expr.readsHere (among : String → Bool) : Expr → Bool
  | .variable _ name => among name
  | .index _ name _ => among name
  | .method _ name _ => among name
  | .forEach _ _ source _ _ => among source
  | _ => true

/-- **A test admits all names that are looked up in an expression.** -/
abbrev Expr.readsOnly (among : String → Bool) (e : Expr) : Bool := e.everywhere (readsHere among)

theorem Expr.readsOnly_all (e : Expr) : e.readsOnly fun _ => true :=
  e.everywhere_of_forall fun e => by cases e <;> rfl

/-! ## Memories that keep what the frames hold -/

variable {μ : Type}

/-- **A memory keeps what the frames hold.** The relation also knows what the memory was when each
of the scopes was opened that are still open, the innermost first. -/
structure Memory.Keeps (M : Memory μ) (R : List μ → Scopes → μ → Prop) : Prop where
  find? {before : List μ} {s : Scopes} {t : μ} (h : R before s t) (name : String) :
    M.find? t name = s.find? name
  setCursor {before : List μ} {s : Scopes} {t : μ} (h : R before s t) (name : String)
    (position : Nat) : R before (s.setCursor name position) (M.setCursor name position t)
  define {before : List μ} {t₀ : μ} {s : Scopes} {t : μ} (h : R (t₀ :: before) s t) (name : String)
    (v : Value) : R (t₀ :: before) (s.define name v) (M.define name v t)
  opened {before : List μ} {s : Scopes} {t : μ} (h : R before s t)
    (bound : List (String × Value)) :
    R (t :: before) (Frame.ofList bound :: s) (M.opened bound t)
  closed {before : List μ} {t₀ : μ} {s : Scopes} {t : μ} (h : R (t₀ :: before) s t) :
    R before s.tail (M.closed t₀ t)

/-- The position that a cursor moves on to. -/
def Binding.following (cursor : Option Nat) : Nat :=
  match cursor with
  | some i => i + 1
  | none => 0

/-- **A memory keeps what the frames hold under the names that a test admits.** Cursors are moved there
only, one element at a time, and only to elements that there are. -/
structure Memory.KeepsAmong (M : Memory μ) (among : String → Bool)
    (R : List μ → Scopes → μ → Prop) : Prop where
  find? {before : List μ} {s : Scopes} {t : μ} (h : R before s t) {name : String}
    (hn : among name) : M.find? t name = s.find? name
  setCursor {before : List μ} {s : Scopes} {t : μ} (h : R before s t) {name : String}
    (hn : among name) {elements : List Value} {cursor : Option Nat}
    (hb : s.find? name = some ⟨.vector elements, cursor⟩)
    (hp : Binding.following cursor < elements.length) :
    R before (s.setCursor name (Binding.following cursor))
      (M.setCursor name (Binding.following cursor) t)
  define {before : List μ} {t₀ : μ} {s : Scopes} {t : μ} (h : R (t₀ :: before) s t) (name : String)
    (v : Value) : R (t₀ :: before) (s.define name v) (M.define name v t)
  opened {before : List μ} {s : Scopes} {t : μ} (h : R before s t)
    (bound : List (String × Value)) :
    R (t :: before) (Frame.ofList bound :: s) (M.opened bound t)
  closed {before : List μ} {t₀ : μ} {s : Scopes} {t : μ} (h : R (t₀ :: before) s t) :
    R before s.tail (M.closed t₀ t)

theorem Memory.Keeps.among {M : Memory μ} {R : List μ → Scopes → μ → Prop} (hM : M.Keeps R)
    (among : String → Bool) : M.KeepsAmong among R where
  find? h name _ := hM.find? h name
  setCursor h name _ _ _ _ _ := hM.setCursor h name _
  define := hM.define
  opened := hM.opened
  closed := hM.closed

/-- A machine and a store are alike up to their variables, which are related. -/
structure Machine.Alike (R : Scopes → μ → Prop) (m : Machine) (t : Store μ) : Prop where
  memory : R m.scopes t.memory
  callDepth : t.callDepth = m.callDepth
  printRequested : t.printRequested = m.printRequested
  generator : t.generator = m.generator

/-- The limits of a setting are not greater than those of another one. Where one is smaller, the
errors that it leads to are excused. -/
structure Setting.Below (excused : Halt → Prop) (low high : Setting) : Prop where
  functions : high.functions = low.functions
  calls : LimitLe (∀ column, excused (.error ⟨.stackOverflow low.limits.callDepth, column⟩))
    low.limits.callDepth high.limits.callDepth
  ranges : LimitLe
    (∀ length column, excused (.error ⟨.rangeTooLong length low.limits.rangeLength, column⟩))
    low.limits.rangeLength high.limits.rangeLength
  rounds : LimitLe (excused .outOfRounds) low.rounds high.rounds

theorem Setting.Below.refl (excused : Halt → Prop) (setting : Setting) :
    Setting.Below excused setting setting := ⟨rfl, .refl _ _, .refl _ _, .refl _ _⟩

/-- Two runs have the same value, or stop for the same reason, and leave machines that are alike. -/
def EndAlike {α : Type} (R : Scopes → μ → Prop) (r : EStateM.Result Halt Machine α)
    (r' : EStateM.Result Halt (Store μ) α) : Prop :=
  ∃ m t, Machine.Alike R m t ∧
    ((∃ a, r = .ok a m ∧ r' = .ok a t) ∨ ∃ h, r = .error h m ∧ r' = .error h t)

/-- Machines and stores are compared by their variables, and errors must be the same. -/
def alike (R : List μ → Scopes → μ → Prop) (excused : Halt → Prop) (before : List μ) :
    Matching Halt Machine (Store μ) where
  excused := excused
  states := Machine.Alike (R before)
  errors := Eq

/-- Where nothing is excused, runs end alike. -/
theorem EndAlike.of_ends {α : Type} {R : List μ → Scopes → μ → Prop} {excused : Halt → Prop}
    {before : List μ} {r : EStateM.Result Halt Machine α} {r' : EStateM.Result Halt (Store μ) α}
    (h : (alike R excused before).Ends Eq r r') (hx : ∀ halt m, r = .error halt m → ¬ excused halt) :
    EndAlike (R before) r r' := by
  cases h with
  | ok ha hs =>
    cases ha
    exact ⟨_, _, hs, .inl ⟨_, rfl, rfl⟩⟩
  | error he hs =>
    cases he
    exact ⟨_, _, hs, .inr ⟨_, rfl, rfl⟩⟩
  | excused hx' => exact absurd hx' (hx _ _ rfl)

namespace Eval

variable {M : Memory μ} {R : List μ → Scopes → μ → Prop} {excused : Halt → Prop} {before : List μ}

/-! ## Steps without variables -/

section Steps

theorem follows_fail {α β : Type} {S : α → β → Prop} (cause : EvalCause) (column : Nat) :
    (alike R excused before).Follows S (fail cause column) (EvalOver.fail cause column) :=
  .throw rfl

theorem follows_get :
    (alike R excused before).Follows (Machine.Alike (R before)) get get :=
  fun _ _ hs => .ok hs hs

theorem follows_located {α : Type} (column : Nat) (result : Except EvalCause α) :
    (alike R excused before).Follows Eq (located column result)
      (EvalOver.located column result) := by
  cases result with
  | ok a => exact .pure rfl
  | error cause => exact follows_fail cause column

theorem follows_requestPrint :
    (alike R excused before).Follows Eq requestPrint EvalOver.requestPrint :=
  fun _ _ hs => .ok rfl { hs with printRequested := rfl }

theorem follows_draw : (alike R excused before).Follows Eq draw EvalOver.draw := by
  unfold draw EvalOver.draw
  refine follows_get.bind fun m t hs => ?_
  rw [hs.generator]
  generalize m.generator.draw = drawn
  obtain ⟨x, generator⟩ := drawn
  have hmodify : (alike R excused before).Follows Eq
      (modify fun m : Machine => { m with generator := generator })
      (modify fun t : Store μ => { t with generator := generator }) :=
    fun _ _ hs => .ok rfl { hs with generator := rfl }
  exact hmodify.bind_eq fun _ => .pure rfl

theorem follows_condition (column : Nat) (value : Value) :
    (alike R excused before).Follows Eq (condition column value)
      (EvalOver.condition column value) := by
  cases value with
  | bool b => exact .pure rfl
  | _ => exact follows_fail _ column

theorem follows_element (column : Nat) (name : String) (elements : List Value) (index : Value) :
    (alike R excused before).Follows Eq (element column name elements index)
      (EvalOver.element column name elements index) := by
  unfold element EvalOver.element
  refine (follows_located column _).bind_eq fun position => ?_
  cases elements[position]? with
  | some v => exact .pure rfl
  | none => exact follows_fail _ column

theorem follows_checkArguments (column : Nat) (f : FunctionDef) (values : List Value) :
    (alike R excused before).Follows Eq (checkArguments column f values)
      (EvalOver.checkArguments column f values) := by
  unfold checkArguments EvalOver.checkArguments
  cases mismatch? f.params f.paramTypes values with
  | some mismatch => exact follows_fail _ column
  | none => exact .pure rfl

/-- A check for open calls follows one that admits as many, or more if too many are excused. -/
theorem follows_checkCalls {limit limit' : Nat} (column : Nat)
    (h : LimitLe (excused (.error ⟨.stackOverflow limit, column⟩)) limit limit') :
    (alike R excused before).Follows Eq (checkCalls limit column)
      (EvalOver.checkCalls limit' column) := by
  unfold checkCalls EvalOver.checkCalls
  refine follows_get.bind fun m t hs => ?_
  rw [hs.callDepth]
  obtain rfl | ⟨hle, hx⟩ := h
  · exact .ite Iff.rfl (follows_fail _ column) (.pure rfl)
  · by_cases hm : limit ≤ m.callDepth
    · rw [if_pos hm]
      exact .excuse hx
    · rw [if_neg hm, if_neg fun hm' => hm (Nat.le_trans hle hm')]
      exact .pure rfl

/-- A loop follows one that is given up after as many rounds, or after more if giving up is excused. -/
theorem follows_repeatWhile {test : Eval Bool} {test' : EvalOver μ Bool} {body : Eval String}
    {body' : EvalOver μ String} (htest : (alike R excused before).Follows Eq test test')
    (hbody : (alike R excused before).Follows Eq body body') {rounds rounds' : Nat}
    (h : LimitLe (excused .outOfRounds) rounds rounds') (lines : List String) :
    (alike R excused before).Follows Eq (repeatWhile test body rounds lines)
      (EvalOver.repeatWhile test' body' rounds' lines) := by
  induction rounds generalizing rounds' lines with
  | zero =>
    obtain rfl | ⟨-, hx⟩ := h
    · exact .throw rfl
    · exact .excuse hx
  | succ rounds ih =>
    obtain ⟨rounds', rfl, hle⟩ := h.exists_of_succ
    unfold repeatWhile EvalOver.repeatWhile
    refine htest.bind_eq fun again => ?_
    exact .ite Iff.rfl (hbody.bind_eq fun line => ih hle _) (.pure rfl)

/-- The elements of a range are those under a greater limit, unless they are too many. -/
theorem follows_located_rangeElements {limit limit' : Nat} (column : Nat)
    (h : LimitLe (∀ length, excused (.error ⟨.rangeTooLong length limit, column⟩)) limit limit')
    (lower upper : Value) :
    (alike R excused before).Follows Eq (located column (rangeElements limit lower upper))
      (EvalOver.located column (rangeElements limit' lower upper)) := by
  obtain rfl | ⟨hle, hx⟩ := h
  · exact follows_located column _
  unfold rangeElements
  cases rangeBound lower with
  | error cause => exact follows_fail cause column
  | ok first =>
    cases rangeBound upper with
    | error cause => exact follows_fail cause column
    | ok last =>
      change (alike R excused before).Follows Eq
        (located column (if limit < rangeLength first last then _ else _))
        (EvalOver.located column (if limit' < rangeLength first last then _ else _))
      by_cases hlt : limit < rangeLength first last
      · rw [if_pos hlt]
        exact .excuse (hx _)
      · rw [if_neg hlt, if_neg fun hlt' => hlt (Nat.lt_of_le_of_lt hle hlt')]
        exact follows_located column _

end Steps

/-! ## Steps that use variables -/

section Variables

variable {among : String → Bool} (hM : M.KeepsAmong among R)

include hM

theorem follows_define {t₀ : μ} (name : String) (value : Value) :
    (alike R excused (t₀ :: before)).Follows Eq (define name value) (M.bindName name value) :=
  fun _ _ hs => .ok rfl { hs with memory := hM.define hs.memory name value }

theorem follows_binding {name : String} (hn : among name) (column : Nat) :
    (alike R excused before).Follows Eq (binding name column) (M.binding name column) := by
  unfold binding Memory.binding
  refine follows_get.bind fun m t hs => ?_
  rw [hM.find? hs.memory hn]
  cases m.scopes.find? name with
  | some b => exact .pure rfl
  | none => exact follows_fail _ column

theorem follows_vectorBinding {name : String} (hn : among name) (column : Nat) :
    (alike R excused before).Follows Eq (vectorBinding name column)
      (M.vectorBinding name column) := by
  unfold vectorBinding Memory.vectorBinding
  refine (follows_binding hM hn column).bind_eq fun ⟨value, cursor⟩ => ?_
  cases value with
  | vector elements => exact .pure rfl
  | _ => exact follows_fail _ column

omit hM in
/-- The step of a cursor to an element, if there is one, where the memory goes along. -/
theorem ends_moveTo {m : Machine} {t : Store μ} (hs : Machine.Alike (R before) m t) (column : Nat)
    (name : String) (elements : List Value) (position : Nat)
    (hmove : position < elements.length →
      R before (m.scopes.setCursor name position) (M.setCursor name position t.memory)) :
    (alike R excused before).Ends Eq
      ((match elements[position]? with
        | some element => do
          modify fun m : Machine => { m with scopes := m.scopes.setCursor name position }
          return element
        | none => fail (.cursorExhausted name) column) m)
      ((match elements[position]? with
        | some element => do
          modify fun t : Store μ => { t with memory := M.setCursor name position t.memory }
          return element
        | none => EvalOver.fail (.cursorExhausted name) column) t) := by
  cases he : elements[position]? with
  | some element =>
    obtain ⟨hp, -⟩ := List.getElem?_eq_some_iff.mp he
    exact .ok rfl { hs with memory := hmove hp }
  | none => exact .error rfl hs

/-- The vector is still what the name means when its cursor moves on, so the machines are kept in
sight here. -/
theorem follows_method {name : String} (hn : among name) (column : Nat) (m : Method) :
    (alike R excused before).Follows Eq (method column name m) (M.method column name m) := by
  unfold method Memory.method
  intro s t hs
  refine (follows_vectorBinding hM hn column s t hs).bind ?_
  rintro ⟨elements, cursor⟩ _ s' t' hrun rfl hs'
  obtain ⟨rfl, hb⟩ := vectorBinding_eq_ok hrun
  cases m with
  | size => exact .ok rfl hs'
  | next => exact ends_moveTo hs' column name elements _ (hM.setCursor hs'.memory hn hb)
  | current =>
    dsimp only
    cases cursor.bind (elements[·]?) with
    | some element => exact .ok rfl hs'
    | none => exact .error rfl hs'

/-- What a scope is opened and closed around may know what the memory was before. -/
theorem follows_inFrame {α β : Type} {S : α → β → Prop} {step : Eval α} {step' : EvalOver μ β}
    (bound : List (String × Value))
    (h : ∀ t₀, (alike R excused (t₀ :: before)).Follows S step step') :
    (alike R excused before).Follows S (inFrame (Frame.ofList bound) step)
      (M.inScope bound step') := by
  intro m t hs
  have hstep := h t.memory { m with scopes := Frame.ofList bound :: m.scopes }
    { t with memory := M.opened bound t.memory }
    { hs with memory := hM.opened hs.memory bound }
  unfold inFrame Memory.inScope
  generalize step { m with scopes := Frame.ofList bound :: m.scopes } = r at hstep ⊢
  generalize step' { t with memory := M.opened bound t.memory } = r' at hstep ⊢
  cases hstep with
  | ok hr hs' => exact .ok hr { hs' with memory := hM.closed hs'.memory }
  | error he hs' => exact .error he { hs' with memory := hM.closed hs'.memory }
  | excused hx => exact .excused hx

theorem follows_inCall {α β : Type} {S : α → β → Prop} {step : Eval α} {step' : EvalOver μ β}
    (bound : List (String × Value))
    (h : ∀ t₀, (alike R excused (t₀ :: before)).Follows S step step') :
    (alike R excused before).Follows S (inCall (Frame.ofList bound) step)
      (M.inCall bound step') := by
  intro m t hs
  have hstep := follows_inFrame hM bound h { m with callDepth := m.callDepth + 1 }
    { t with callDepth := t.callDepth + 1 } { hs with callDepth := congrArg (· + 1) hs.callDepth }
  unfold inCall Memory.inCall
  generalize inFrame (Frame.ofList bound) step { m with callDepth := m.callDepth + 1 } = r
    at hstep ⊢
  generalize M.inScope bound step' { t with callDepth := t.callDepth + 1 } = r' at hstep ⊢
  cases hstep with
  | ok hr hs' => exact .ok hr { hs' with callDepth := congrArg (· - 1) hs'.callDepth }
  | error he hs' => exact .error he { hs' with callDepth := congrArg (· - 1) hs'.callDepth }
  | excused hx => exact .excused hx

theorem follows_loop {body : Eval Value} {body' : EvalOver μ Value} (var : String)
    (elements : List Value) (h : ∀ before, (alike R excused before).Follows Eq body body') :
    (alike R excused before).Follows Eq (loop var elements body) (M.loop var elements body') := by
  unfold loop Memory.loop
  refine follows_requestPrint.bind_eq fun _ => ?_
  have hline : ∀ element, (alike R excused before).Follows Eq
      (inFrame (Frame.ofList [(var, element)]) do return (← body).text)
      (M.inScope [(var, element)] do return (← body').text) := fun element =>
    follows_inFrame hM _ fun t₀ => (h (t₀ :: before)).bind_eq fun v => .pure rfl
  exact (Matching.Follows.mapM elements hline).bind_eq fun lines => .pure rfl

end Variables

end Eval

/-! ## Trees -/

section Trees

set_option linter.unusedSectionVars false

open Eval

variable {M : Memory μ} {R : List μ → Scopes → μ → Prop} {excused : Halt → Prop}
  {low high : Setting} {enter : Enter} {enter' : Memory.Enter μ}

variable {among : String → Bool} (hM : M.KeepsAmong among R) (hs : Setting.Below excused low high)
  (he : ∀ before column bound name f, low.functions.find? name = some f →
    (alike R excused before).Follows Eq (enter column (Frame.ofList bound) f.body)
      (enter' column bound f.body))

include hM hs he

mutual

/-- **Evaluation of trees on frames is followed by that over another memory**, if what calls do is
followed, and if the memory keeps what the frames hold under all names that are read. -/
theorem Expr.follows_evalWith (before : List μ) : (e : Expr) → e.readsOnly among →
    (alike R excused before).Follows Eq (e.evalWith low enter) (M.evalWith high enter' e)
  | .number _ _, _ | .string _ _, _ | .bool _ _, _ | .constant _ _, _ => by
    rw [Expr.evalWith, Memory.evalWith]
    exact .pure rfl
  | .variable column name, h => by
    rw [Expr.evalWith, Memory.evalWith]
    refine (follows_binding hM h column).bind_eq fun b => ?_
    exact .pure rfl
  | .unary column op operand, h => by
    rw [Expr.readsOnly, Expr.everywhere, Bool.and_eq_true] at h
    rw [Expr.evalWith, Memory.evalWith]
    refine (operand.follows_evalWith before h.2).bind_eq fun v => ?_
    exact follows_located column _
  | .binary column left op right, h => by
    simp only [Expr.readsOnly, Expr.everywhere, Bool.and_eq_true] at h
    rw [Expr.evalWith, Memory.evalWith]
    refine (left.follows_evalWith before h.2.1).bind_eq fun a => ?_
    refine (right.follows_evalWith before h.2.2).bind_eq fun b => ?_
    exact follows_located column _
  | .paren _ inner, h => by
    rw [Expr.readsOnly, Expr.everywhere, Bool.and_eq_true] at h
    rw [Expr.evalWith, Memory.evalWith]
    exact inner.follows_evalWith before h.2
  | .print _ argument, h => by
    rw [Expr.readsOnly, Expr.everywhere, Bool.and_eq_true] at h
    rw [Expr.evalWith, Memory.evalWith]
    refine (argument.follows_evalWith before h.2).bind_eq fun v => ?_
    exact follows_requestPrint.bind_eq fun _ => .pure rfl
  | .math column f argument, h => by
    rw [Expr.readsOnly, Expr.everywhere, Bool.and_eq_true] at h
    rw [Expr.evalWith, Memory.evalWith]
    refine (argument.follows_evalWith before h.2).bind_eq fun v => ?_
    exact follows_located column _
  | .log column base argument, h => by
    simp only [Expr.readsOnly, Expr.everywhere, Bool.and_eq_true] at h
    rw [Expr.evalWith, Memory.evalWith]
    refine (base.follows_evalWith before h.2.1).bind_eq fun b => ?_
    refine (argument.follows_evalWith before h.2.2).bind_eq fun x => ?_
    exact follows_located column _
  | .rand _, _ => by
    rw [Expr.evalWith, Memory.evalWith]
    refine follows_draw.bind_eq fun x => ?_
    exact .pure rfl
  | .ifThen _ test body rest, h => by
    simp only [Expr.readsOnly, Expr.everywhere, Bool.and_eq_true] at h
    rw [Expr.evalWith, Memory.evalWith]
    refine (test.follows_evalWith before h.2.1).bind_eq fun c => ?_
    refine (follows_condition _ c).bind_eq fun b => ?_
    exact .ite Iff.rfl (body.follows_evalWith before h.2.2.1) (rest.follows_evalWith before h.2.2.2)
  | .letIn _ bindings, h => by
    rw [Expr.readsOnly, Expr.everywhere, Bool.and_eq_true] at h
    rw [Expr.evalWith, Memory.evalWith]
    exact follows_inFrame hM [] fun t₀ => bindings.follows_evalWith t₀ before h.2
  | .call column name arguments, h => by
    rw [Expr.readsOnly, Expr.everywhere, Bool.and_eq_true] at h
    rw [Expr.evalWith, Memory.evalWith, hs.functions]
    cases hf : low.functions.find? name with
    | none => exact follows_fail _ column
    | some f =>
      have hcall : (alike R excused before).Follows Eq
          (do let values ← evalAll low enter arguments
              checkArguments column f values
              enter column (Frame.ofList (f.params.zip values)) f.body)
          (do let values ← M.evalAll high enter' arguments
              EvalOver.checkArguments column f values
              enter' column (f.params.zip values) f.body) := by
        refine (follows_evalAll before arguments h.2).bind_eq fun values => ?_
        exact (follows_checkArguments column f values).bind_eq fun _ => he before column _ name f hf
      exact .ite Iff.rfl ((follows_fail _ column).bind_eq fun _ => hcall) hcall
  | .forRange column var lower upper body, h => by
    simp only [Expr.readsOnly, Expr.everywhere, Bool.and_eq_true] at h
    rw [Expr.evalWith, Memory.evalWith]
    refine (lower.follows_evalWith before h.2.1).bind_eq fun first => ?_
    refine (upper.follows_evalWith before h.2.2.1).bind_eq fun last => ?_
    refine (follows_located_rangeElements column
      (hs.ranges.mono fun h length => h length column) first last).bind_eq fun elements => ?_
    exact follows_loop hM var elements fun before => body.follows_evalWith before h.2.2.2
  | .forEach _ var source sourceColumn body, h => by
    rw [Expr.readsOnly, Expr.everywhere, Bool.and_eq_true] at h
    rw [Expr.evalWith, Memory.evalWith]
    refine (follows_vectorBinding hM h.1 sourceColumn).bind_eq fun ⟨elements, cursor⟩ => ?_
    exact follows_loop hM var elements fun before => body.follows_evalWith before h.2
  | .while _ test body, h => by
    simp only [Expr.readsOnly, Expr.everywhere, Bool.and_eq_true] at h
    rw [Expr.evalWith, Memory.evalWith]
    refine follows_requestPrint.bind_eq fun _ => ?_
    have htest : (alike R excused before).Follows Eq
        (do Eval.condition test.column (← test.evalWith low enter))
        (do EvalOver.condition test.column (← M.evalWith high enter' test)) := by
      refine (test.follows_evalWith before h.2.1).bind_eq fun c => ?_
      exact follows_condition _ c
    have hbody : (alike R excused before).Follows Eq
        (do return (← body.evalWith low enter).text)
        (do return (← M.evalWith high enter' body).text) := by
      refine (body.follows_evalWith before h.2.2).bind_eq fun v => ?_
      exact .pure rfl
    refine (follows_repeatWhile htest hbody hs.rounds []).bind_eq fun lines => ?_
    exact .pure rfl
  | .vector _ elements, h => by
    rw [Expr.readsOnly, Expr.everywhere, Bool.and_eq_true] at h
    rw [Expr.evalWith, Memory.evalWith]
    refine (follows_evalAll before elements h.2).bind_eq fun vs => ?_
    exact .pure rfl
  | .range column lower upper, h => by
    simp only [Expr.readsOnly, Expr.everywhere, Bool.and_eq_true] at h
    rw [Expr.evalWith, Memory.evalWith]
    refine (lower.follows_evalWith before h.2.1).bind_eq fun first => ?_
    refine (upper.follows_evalWith before h.2.2).bind_eq fun last => ?_
    refine (follows_located_rangeElements column
      (hs.ranges.mono fun h length => h length column) first last).bind_eq fun elements => ?_
    exact .pure rfl
  | .index column name index, h => by
    rw [Expr.readsOnly, Expr.everywhere, Bool.and_eq_true] at h
    rw [Expr.evalWith, Memory.evalWith]
    refine (follows_vectorBinding hM h.1 column).bind_eq fun ⟨elements, cursor⟩ => ?_
    refine (index.follows_evalWith before h.2).bind_eq fun i => ?_
    exact follows_element column name elements i
  | .method column name m, h => by
    rw [Expr.evalWith, Memory.evalWith]
    exact follows_method hM h column m
  | .error column, _ => by
    rw [Expr.evalWith, Memory.evalWith]
    exact follows_fail _ column

theorem follows_evalAll (before : List μ) : (es : List Expr) →
    everywhereAll (Expr.readsHere among) es →
    (alike R excused before).Follows Eq (evalAll low enter es) (M.evalAll high enter' es)
  | [], _ => by
    rw [evalAll, Memory.evalAll]
    exact .pure rfl
  | e :: rest, h => by
    rw [everywhereAll, Bool.and_eq_true] at h
    rw [evalAll, Memory.evalAll]
    refine (e.follows_evalWith before h.1).bind_eq fun v => ?_
    refine (follows_evalAll before rest h.2).bind_eq fun vs => ?_
    exact .pure rfl

theorem Branches.follows_evalWith (before : List μ) : (b : Branches) →
    b.everywhere (Expr.readsHere among) →
    (alike R excused before).Follows Eq (b.evalWith low enter) (M.evalBranches high enter' b)
  | .elif test body rest, h => by
    simp only [Branches.everywhere, Bool.and_eq_true] at h
    rw [Branches.evalWith, Memory.evalBranches]
    refine (test.follows_evalWith before h.1).bind_eq fun c => ?_
    refine (follows_condition _ c).bind_eq fun b => ?_
    exact .ite Iff.rfl (body.follows_evalWith before h.2.1) (rest.follows_evalWith before h.2.2)
  | .otherwise body, h => by
    rw [Branches.evalWith, Memory.evalBranches]
    exact body.follows_evalWith before h

/-- Bindings go into a scope that has been opened for them. -/
theorem Bindings.follows_evalWith (t₀ : μ) (before : List μ) : (b : Bindings) →
    b.everywhere (Expr.readsHere among) →
    (alike R excused (t₀ :: before)).Follows Eq (b.evalWith low enter)
      (M.evalBindings high enter' b)
  | .bind _ name value rest, h => by
    rw [Bindings.everywhere, Bool.and_eq_true] at h
    rw [Bindings.evalWith, Memory.evalBindings]
    refine (value.follows_evalWith (t₀ :: before) h.1).bind_eq fun v => ?_
    exact (follows_define hM name v).bind_eq fun _ => rest.follows_evalWith t₀ before h.2
  | .body body, h => by
    rw [Bindings.evalWith, Memory.evalBindings]
    exact body.follows_evalWith (t₀ :: before) h

end

end Trees

/-! ## Calls -/

section Calls

variable {M : Memory μ} {R : List μ → Scopes → μ → Prop} {excused : Halt → Prop}
  {low high : Setting}

/-- The names that are read in the bodies of functions are admitted. -/
def FunctionTable.readsOnly (among : String → Bool) (table : FunctionTable) : Bool :=
  table.entries.all fun f => f.body.readsOnly among

theorem FunctionTable.readsOnly_of_find? {among : String → Bool} {table : FunctionTable}
    (h : table.readsOnly among) {name : String} {f : FunctionDef} (hf : table.find? name = some f) :
    f.body.readsOnly among :=
  List.all_eq_true.mp h f (List.mem_of_find?_eq_some hf)

section Among

variable {among : String → Bool} (hM : M.KeepsAmong among R) (hs : Setting.Below excused low high)
  (hfunctions : low.functions.readsOnly among) {calls calls' : Nat} (hc : LimitLe
    (∀ column, excused (.error ⟨.stackOverflow low.limits.callDepth, column⟩)) calls calls')

include hM hs hfunctions hc

/-- Calls are followed, by induction on the calls that may still be opened. -/
theorem follows_enterCall (before : List μ) (column : Nat) (bound : List (String × Value))
    (body : Expr) (h : body.readsOnly among) :
    (alike R excused before).Follows Eq (enterCall low calls column (Frame.ofList bound) body)
      (M.enterCall high calls' column bound body) := by
  induction calls generalizing calls' before column bound body with
  | zero =>
    obtain rfl | ⟨-, hx⟩ := hc
    · unfold enterCall Memory.enterCall
      obtain he | ⟨-, hx⟩ := hs.calls
      · rw [he]
        exact Eval.follows_fail _ column
      · exact .excuse (hx column)
    · exact .excuse (hx column)
  | succ calls ih =>
    obtain ⟨calls', rfl, hle⟩ := hc.exists_of_succ
    unfold enterCall Memory.enterCall
    refine (Eval.follows_checkCalls column
      (hs.calls.mono fun h => h column)).bind_eq fun _ => ?_
    refine Eval.follows_inCall hM bound fun t₀ => body.follows_evalWith hM hs ?_ _ h
    exact fun before column bound name f hf =>
      ih hle before column bound f.body (FunctionTable.readsOnly_of_find? hfunctions hf)

/-- **Evaluation on frames is followed by that over another memory** that keeps what the frames hold
under all names that are read, and under limits that are not smaller. -/
theorem Expr.follows_evalAt_among (before : List μ) (e : Expr) (h : e.readsOnly among) :
    (alike R excused before).Follows Eq (e.evalAt low calls) (M.evalAt high calls' e) :=
  e.follows_evalWith hM hs (fun before column bound _ f hf =>
    follows_enterCall hM hs hfunctions hc before column bound f.body
      (FunctionTable.readsOnly_of_find? hfunctions hf)) before h

end Among

theorem FunctionTable.readsOnly_all (table : FunctionTable) : table.readsOnly fun _ => true :=
  List.all_eq_true.mpr fun f _ => f.body.readsOnly_all

/-- The same for a memory that keeps what the frames hold under all names. -/
theorem Expr.follows_evalAt (hM : M.Keeps R) (hs : Setting.Below excused low high)
    {calls calls' : Nat} (hc : LimitLe
      (∀ column, excused (.error ⟨.stackOverflow low.limits.callDepth, column⟩)) calls calls')
    (before : List μ) (e : Expr) :
    (alike R excused before).Follows Eq (e.evalAt low calls) (M.evalAt high calls' e) :=
  e.follows_evalAt_among (hM.among fun _ => true) hs low.functions.readsOnly_all hc before
    e.readsOnly_all

end Calls

/-! ## The memory of frames -/

/-- The frames as a memory. -/
def Memory.frames : Memory Scopes where
  find? := Scopes.find?
  setCursor := Scopes.setCursor
  define name value s := s.define name value
  opened bound s := Frame.ofList bound :: s
  closed _ s := s.tail

/-- What evaluation over the memory of frames finds in a machine. -/
def Machine.store (m : Machine) : Store Scopes :=
  ⟨m.scopes, m.callDepth, m.printRequested, m.generator⟩

theorem Memory.keeps_frames : Memory.frames.Keeps fun _ => Eq where
  find? h _ := by rw [h]; rfl
  setCursor h _ _ := by rw [h]; rfl
  define h _ _ := by rw [h]; rfl
  opened h _ := by rw [h]; rfl
  closed h := by rw [h]; rfl

theorem Machine.alike_store (m : Machine) : m.Alike Eq m.store := ⟨rfl, rfl, rfl, rfl⟩

/-- **The evaluator is that over the memory of frames.** -/
theorem Expr.evalAt_frames (setting : Setting) (calls : Nat) (e : Expr) (m : Machine) :
    EndAlike Eq (e.evalAt setting calls m) (Memory.frames.evalAt setting calls e m.store) :=
  .of_ends (e.follows_evalAt Memory.keeps_frames (.refl (fun _ => False) setting) (.refl _ _) [] m
    m.store m.alike_store) fun _ _ _ => id

theorem Machine.Alike.store_eq {m : Machine} {t : Store Scopes} (h : m.Alike Eq t) : t = m.store := by
  obtain ⟨hscopes, hcalls, hprint, hgenerator⟩ := h
  rw [Machine.store, hscopes, ← hcalls, ← hprint, ← hgenerator]

/-- Two runs that end like the same one over another memory end with the same value, or for the same
reason. -/
theorem EndAlike.both {α : Type} {R R' : Scopes → μ → Prop} {r r' : EStateM.Result Halt Machine α}
    {r'' : EStateM.Result Halt (Store μ) α} (h : EndAlike R r r'') (h' : EndAlike R' r' r'') :
    ∃ m m' t, Machine.Alike R m t ∧ Machine.Alike R' m' t ∧
      ((∃ a, r = .ok a m ∧ r' = .ok a m') ∨ ∃ halt, r = .error halt m ∧ r' = .error halt m') := by
  obtain ⟨m, t, hm, hend⟩ := h
  obtain ⟨m', t', hm', hend'⟩ := h'
  obtain ⟨a, rfl, rfl⟩ | ⟨halt, rfl, rfl⟩ := hend
  · obtain ⟨a', rfl, ha⟩ | ⟨halt', -, ha⟩ := hend'
    · cases ha
      exact ⟨m, m', t, hm, hm', .inl ⟨a, rfl, rfl⟩⟩
    · cases ha
  · obtain ⟨a', -, ha⟩ | ⟨halt', rfl, ha⟩ := hend'
    · cases ha
    · cases ha
      exact ⟨m, m', t, hm, hm', .inr ⟨halt, rfl, rfl⟩⟩

/-- The same if the other run is one of a machine whose frames are the memory. -/
theorem EndAlike.frames {α : Type} {R : Scopes → Scopes → Prop} {r r' : EStateM.Result Halt Machine α}
    {r'' : EStateM.Result Halt (Store Scopes) α} (h : EndAlike R r r'') (h' : EndAlike Eq r' r'') :
    ∃ m m', Machine.Alike R m m'.store ∧
      ((∃ a, r = .ok a m ∧ r' = .ok a m') ∨ ∃ halt, r = .error halt m ∧ r' = .error halt m') := by
  obtain ⟨m, m', t, hm, hm', hend⟩ := h.both h'
  exact ⟨m, m', hm'.store_eq ▸ hm, hend⟩

end ExprScript
