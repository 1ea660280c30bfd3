import ExprScript.Proofs.Reading.Declaration

/-!
# Readers step by step

A reader is made of a few basic steps and of what it reads further down. Laid out step by step it is
a plan, which can be carried out in other ways than the reader itself, for instance while something
is counted.

* `Plan`, `Plan.run`: what a reader does, with what is read further down left open;
* `Reading.Planned`: **a reader and its plan**, with an instance for every reader;
* `Plan.DeeperBelow`: a plan goes further down only where fewer tokens are left;
* **`Plan.deeperBelow_ofLevel`**: the reader of a level takes a token before it goes further down;
* `Reading.exists_expressionAt_eq`: as many levels as tokens are left and one more are enough.
-/

namespace ExprScript

/-- **What a reader does, step by step**: each step with what is done next. -/
inductive Plan (α : Type) : Type where
  | done (result : α)
  | look (next : Cursor → Plan α)
  | skip (next : Plan α)
  | report (cause : SyntaxCause) (column : Nat) (next : Plan α)
  | unexpected (expected : Expected) (next : Plan α)
  | deeper (level : Nat) (next : Expr → Plan α)

namespace Plan

variable {α β : Type}

/-- A plan behind another one. -/
def bind (f : α → Plan β) : Plan α → Plan β
  | done a => f a
  | look next => look fun c => (next c).bind f
  | skip next => skip (next.bind f)
  | report cause column next => report cause column (next.bind f)
  | unexpected expected next => unexpected expected (next.bind f)
  | deeper level next => deeper level fun e => (next e).bind f

/-- Carries out a plan from a cursor. -/
def run (further : Nat → Reading Expr) : Plan α → Reading α
  | done a, c => .ok a c
  | look next, c => (next c).run further c
  | skip next, c => next.run further c.next
  | report cause column next, c => next.run further (c.report cause column)
  | unexpected expected next, c => next.run further (c.unexpected expected)
  | deeper level next, c =>
    match further level c with
    | .ok e c' => (next e).run further c'
    | .error e c' => .error e c'

theorem run_bind (further : Nat → Reading Expr) (f : α → Plan β) (p : Plan α) :
    (p.bind f).run further = p.run further >>= fun a => (f a).run further := by
  funext c
  rw [Reading.bind_apply]
  induction p generalizing c with
  | done a => rfl
  | look next ih => exact ih c c
  | skip next ih => exact ih _
  | report cause column next ih => exact ih _
  | unexpected expected next ih => exact ih _
  | deeper level next ih =>
    rw [bind, run, run]
    cases further level c with
    | ok e c' => exact ih e c'
    | error e c' => rfl

end Plan

namespace Reading

/-- **A reader and its plan**. They agree whatever is read further down, so the plan goes there where
the reader does. -/
class Planned {α : Type} (p : (Nat → Reading Expr) → Reading α) where
  plan : Plan α
  run_plan (deeper : Nat → Reading Expr) : plan.run deeper = p deeper

/-! ## Steps -/

section Steps

variable {α β : Type}

instance (a : α) : Planned fun _ => (pure a : Reading α) := ⟨.done a, fun _ => rfl⟩

/-- A plan and those of what is done with each result. -/
@[reducible] def Planned.bind {p : (Nat → Reading Expr) → Reading α}
    {f : (Nat → Reading Expr) → α → Reading β} [hp : Planned p]
    (hf : ∀ a, Planned fun deeper => f deeper a) :
    Planned fun deeper => p deeper >>= f deeper where
  plan := hp.plan.bind fun a => (hf a).plan
  run_plan deeper := by
    rw [Plan.run_bind, hp.run_plan]
    exact congrArg _ (funext fun a => (hf a).run_plan deeper)

instance (p : (Nat → Reading Expr) → Reading α) (f : (Nat → Reading Expr) → α → Reading β)
    [Planned p] [hf : ∀ a, Planned fun deeper => f deeper a] :
    Planned fun deeper => p deeper >>= f deeper := .bind hf

instance (f : α → β) (p : (Nat → Reading Expr) → Reading α) [hp : Planned p] :
    Planned fun deeper => f <$> p deeper where
  plan := hp.plan.bind fun a => .done (f a)
  run_plan deeper := by
    rw [Plan.run_bind, hp.run_plan, map_eq_pure_bind]
    rfl

instance (b : Prop) [Decidable b] (p q : (Nat → Reading Expr) → Reading α) [hp : Planned p]
    [hq : Planned q] : Planned fun deeper => if b then p deeper else q deeper where
  plan := if b then hp.plan else hq.plan
  run_plan deeper := by
    split
    · exact hp.run_plan deeper
    · exact hq.run_plan deeper

instance (level : Nat) : Planned fun deeper => deeper level where
  plan := .deeper level .done
  run_plan deeper := by
    funext c
    rw [Plan.run]
    cases deeper level c <;> rfl

instance : Planned fun _ => look? := ⟨.look fun c => .done c.token?, fun _ => rfl⟩

instance : Planned fun _ => column := ⟨.look fun c => .done c.column, fun _ => rfl⟩

instance : Planned fun _ => left := ⟨.look fun c => .done c.rest.length, fun _ => rfl⟩

instance : Planned fun _ => skip := ⟨.skip (.done ()), fun _ => rfl⟩

instance (cause : SyntaxCause) (column : Nat) : Planned fun _ => report cause column :=
  ⟨.report cause column (.done ()), fun _ => rfl⟩

instance (expected : Expected) : Planned fun _ => unexpected expected :=
  ⟨.unexpected expected (.done ()), fun _ => rfl⟩

instance (t : Token) : Planned fun _ => eat t := by unfold eat; infer_instance

instance (t : Token) : Planned fun _ => expect t := by unfold expect; infer_instance

instance (s : Symbol) : Planned fun _ => symbol s :=
  inferInstanceAs (Planned fun _ => (fun _ => ()) <$> expect (.symbol s))

instance (k : Keyword) : Planned fun _ => keyword k :=
  inferInstanceAs (Planned fun _ => (fun _ => ()) <$> expect (.keyword k))

instance : Planned fun _ => identifier? := by
  unfold identifier?
  refine .bind fun column => .bind fun t => ?_
  split <;> infer_instance

instance : Planned fun _ => nameOrEmpty := by
  unfold nameOrEmpty
  refine .bind fun name => ?_
  split <;> infer_instance

end Steps

/-! ## Expressions -/

instance : Planned expression := by unfold expression; infer_instance

instance : Planned argument := by unfold argument; infer_instance

instance : Planned argumentPair := by unfold argumentPair; infer_instance

instance planned_expressions : (rounds : Nat) → Planned fun deeper => expressions deeper rounds
  | 0 => by unfold expressions; infer_instance
  | rounds + 1 => by
    have := planned_expressions rounds
    unfold expressions
    infer_instance

instance (close : Symbol) : Planned fun deeper => expressionsUpTo deeper close := by
  unfold expressionsUpTo; infer_instance

instance (name : String) (column : Nat) : Planned fun deeper => afterName deeper name column := by
  unfold afterName
  refine .bind fun t => ?_
  split <;> infer_instance

instance : Planned fun _ => bindingName := by
  unfold bindingName
  refine .bind fun name => ?_
  split <;> infer_instance

instance : Planned binding := by unfold binding; infer_instance

instance : Planned letBody := by unfold letBody; infer_instance

instance planned_bindings : (rounds : Nat) → Planned fun deeper => bindings deeper rounds
  | 0 => by unfold bindings; infer_instance
  | rounds + 1 => by
    have := planned_bindings rounds
    unfold bindings
    infer_instance

instance : Planned lastBranch := by unfold lastBranch; infer_instance

instance planned_branches : (rounds : Nat) → Planned fun deeper => branches deeper rounds
  | 0 => by unfold branches; infer_instance
  | rounds + 1 => by
    have := planned_branches rounds
    unfold branches
    infer_instance

instance (column : Nat) (var : String) : Planned fun deeper => loopSource deeper column var := by
  unfold loopSource
  refine .bind fun column => .bind fun t => ?_
  split <;> infer_instance

instance (column : Nat) : Planned fun deeper => forLoop deeper column := by
  unfold forLoop; infer_instance

instance : Planned primary := by
  unfold primary
  refine .bind fun column => .bind fun t => ?_
  split <;> infer_instance

instance : Planned unary := by
  unfold unary
  refine .bind fun t => ?_
  split <;> infer_instance

instance (level : Nat) : Planned fun _ => operator? level := by unfold operator?; infer_instance

instance planned_chain (level : Nat) : (rounds : Nat) → (operand : Expr) →
    Planned fun deeper => chain deeper level rounds operand
  | 0, operand => by unfold chain; infer_instance
  | rounds + 1, operand => by
    have := planned_chain level rounds
    unfold chain
    refine .bind fun op => ?_
    cases op <;> infer_instance

instance (level : Nat) : Planned fun deeper => binary deeper level := by
  unfold binary; infer_instance

/-! ## Declarations -/

instance planned_parameterNames : (rounds : Nat) → (seen : List String) →
    Planned fun _ => parameterNames seen rounds
  | 0, seen => by unfold parameterNames; infer_instance
  | rounds + 1, seen => by
    have := planned_parameterNames rounds
    unfold parameterNames
    refine .bind fun found => ?_
    split <;> infer_instance

instance : Planned fun _ => parameters := by unfold parameters; infer_instance

instance (table : FunctionTable) : Planned (declaration table) := by
  unfold declaration; infer_instance

end Reading

namespace Plan

variable {α β : Type}

/-- The plan of the reader of a level. -/
def ofLevel (level : Nat) : Plan Expr :=
  Reading.Planned.plan fun deeper => Reading.binary deeper level

/-- The plan of the reader of declarations. -/
def ofDeclaration (table : FunctionTable) : Plan Declaration :=
  Reading.Planned.plan (Reading.declaration table)

theorem run_ofLevel (deeper : Nat → Reading Expr) (level : Nat) :
    (ofLevel level).run deeper = Reading.binary deeper level :=
  Reading.Planned.run_plan deeper

theorem run_ofDeclaration (deeper : Nat → Reading Expr) (table : FunctionTable) :
    (ofDeclaration table).run deeper = Reading.declaration table deeper :=
  Reading.Planned.run_plan deeper

/-! ## Where a plan goes further down -/

/-- A plan goes further down only where fewer than `n` tokens are left. -/
def DeeperBelow (n : Nat) : Plan α → Cursor → Prop
  | done _, _ => True
  | look next, c => (next c).DeeperBelow n c
  | skip next, c => next.DeeperBelow n c.next
  | report cause column next, c => next.DeeperBelow n (c.report cause column)
  | unexpected expected next, c => next.DeeperBelow n (c.unexpected expected)
  | deeper _ next, c => c.rest.length < n ∧ ∀ e c', c.Ahead c' → (next e).DeeperBelow n c'

/-- What is left gets no longer, so a plan that starts with fewer tokens keeps to that. -/
theorem deeperBelow_of_lt {n : Nat} (p : Plan α) {c : Cursor} (h : c.rest.length < n) :
    p.DeeperBelow n c := by
  induction p generalizing c with
  | done a => trivial
  | look next ih => exact ih c h
  | skip next ih => exact ih (Nat.lt_of_le_of_lt (Cursor.Ahead.next c).length_le h)
  | report cause column next ih => exact ih h
  | unexpected expected next ih =>
    exact ih (Nat.lt_of_le_of_lt (Cursor.Ahead.unexpected c expected).length_le h)
  | deeper level next ih => exact ⟨h, fun e c' ha => ih e (Nat.lt_of_le_of_lt ha.length_le h)⟩

/-- A plan that takes a token first goes further down only behind it. -/
theorem deeperBelow_skip {n : Nat} {c : Cursor} (h : c.next.rest.length < n) (p : Plan α) :
    (skip p).DeeperBelow n c :=
  p.deeperBelow_of_lt h

/-- Two plans in a row, the second from wherever the first one may have led to. -/
theorem DeeperBelow.bind {n : Nat} {p : Plan α} {f : α → Plan β} {c : Cursor}
    (hp : p.DeeperBelow n c) (hf : ∀ a c', c.Ahead c' → (f a).DeeperBelow n c') :
    (p.bind f).DeeperBelow n c := by
  induction p generalizing c with
  | done a => exact hf a c (.refl c)
  | look next ih => exact ih c hp hf
  | skip next ih => exact ih hp fun a c' ha => hf a c' ((Cursor.Ahead.next c).trans ha)
  | report cause column next ih =>
    exact ih hp fun a c' ha => hf a c' ((Cursor.Ahead.report c cause column).trans ha)
  | unexpected expected next ih =>
    exact ih hp fun a c' ha => hf a c' ((Cursor.Ahead.unexpected c expected).trans ha)
  | deeper level next ih =>
    exact ⟨hp.1, fun e c' ha => ih e (hp.2 e c' ha) fun a c'' ha' => hf a c'' (ha.trans ha')⟩

/-- A plan that looks at something first goes on with what is there. -/
theorem deeperBelow_of_look {γ : Type} {n : Nat} {g : Cursor → γ} {f : γ → Plan α} {c : Cursor}
    (h : (f (g c)).DeeperBelow n c) : ((look fun c => done (g c)).bind f).DeeperBelow n c := h

/-- **A plan comes to a result**, if it goes further down only where what is read there does, and to
the same one if that is the same. -/
theorem exists_run_eq {f g : Nat → Reading Expr} [∀ level, Reading.Advances (f level)] {n : Nat}
    (h : ∀ level c, c.rest.length < n → ∃ e c', f level c = .ok e c' ∧ g level c = .ok e c')
    {p : Plan α} {c : Cursor} (hp : p.DeeperBelow n c) :
    ∃ a c', p.run f c = .ok a c' ∧ p.run g c = .ok a c' := by
  induction p generalizing c with
  | done a => exact ⟨a, c, rfl, rfl⟩
  | look next ih => exact ih c hp
  | skip next ih => exact ih hp
  | report cause column next ih => exact ih hp
  | unexpected expected next ih => exact ih hp
  | deeper level next ih =>
    obtain ⟨e, c', hf, hg⟩ := h level c hp.1
    rw [run, run, hf, hg]
    exact ih e (hp.2 e c' (Reading.Advances.ok hf))

/-! ## A token is taken before going further down -/

open Reading

/-- Each branch of a primary that goes further down starts with a token of its own. -/
theorem deeperBelow_primary (c : Cursor) : (Planned.plan primary).DeeperBelow c.rest.length c := by
  obtain ⟨rest, ending, errors⟩ := c
  cases rest with
  | nil => trivial
  | cons lexeme rest =>
    have taken := @deeperBelow_skip Expr _ ⟨lexeme :: rest, ending, errors⟩
      (Nat.lt_succ_self rest.length)
    -- once the token is known, the plan shows its first steps; other tokens are only reported
    obtain ⟨t, column⟩ := lexeme
    cases t with
    | symbol s => cases s <;> first | exact taken _ | trivial
    | keyword k => cases k <;> first | exact taken _ | trivial
    | method m => trivial
    | _ => exact taken _

theorem deeperBelow_unary (c : Cursor) : (Planned.plan unary).DeeperBelow c.rest.length c := by
  obtain ⟨rest, ending, errors⟩ := c
  cases rest with
  | nil => trivial
  | cons lexeme rest =>
    have taken := @deeperBelow_skip Expr _ ⟨lexeme :: rest, ending, errors⟩
      (Nat.lt_succ_self rest.length)
    obtain ⟨t, column⟩ := lexeme
    cases t with
    | symbol s => cases s <;> first | exact taken _ | exact deeperBelow_primary _
    | _ => exact deeperBelow_primary _

theorem deeperBelow_chain {n : Nat} (level rounds : Nat) (operand : Expr) {c : Cursor}
    (h : c.rest.length ≤ n) :
    (Planned.plan fun deeper => chain deeper level rounds operand).DeeperBelow n c := by
  cases rounds with
  | zero => trivial
  | succ rounds =>
    refine deeperBelow_of_look
      (g := fun c => (c.token?.bind Token.binary?).filter (level ≤ ·.precedence)) ?_
    obtain ⟨rest, ending, errors⟩ := c
    cases rest with
    | nil => trivial
    | cons lexeme rest =>
      have taken := @deeperBelow_skip Expr _ ⟨lexeme :: rest, ending, errors⟩ h
      dsimp only
      cases Option.filter _ _ with
      | none => trivial
      | some op => exact taken _

/-- **The reader of a level takes a token before it goes further down.** -/
theorem deeperBelow_ofLevel (level : Nat) (c : Cursor) :
    (ofLevel level).DeeperBelow c.rest.length c :=
  (deeperBelow_unary c).bind fun operand c' ha =>
    deeperBelow_chain level c'.rest.length operand ha.length_le

/-- A declaration starts with its keyword. -/
theorem deeperBelow_ofDeclaration (table : FunctionTable) {c : Cursor} {t : Token}
    (h : c.token? = some t) : (ofDeclaration table).DeeperBelow c.rest.length c :=
  deeperBelow_skip (Cursor.length_next_lt h) _

end Plan

/-- **More levels than tokens are enough** for an expression, and it makes no difference how many
more. -/
theorem Reading.exists_expressionAt_eq {levels levels' : Nat} (level : Nat) {c : Cursor}
    (h : c.rest.length < levels) (h' : c.rest.length < levels') :
    ∃ e c', expressionAt levels level c = .ok e c' ∧ expressionAt levels' level c = .ok e c' := by
  induction levels generalizing levels' level c with
  | zero => exact absurd h (Nat.not_lt_zero _)
  | succ levels ih =>
    obtain ⟨levels', rfl⟩ := Nat.exists_eq_succ_of_ne_zero (Nat.ne_zero_of_lt h')
    rw [expressionAt, expressionAt, ← Plan.run_ofLevel, ← Plan.run_ofLevel]
    exact Plan.exists_run_eq
      (fun level' c' hc => ih level' (Nat.lt_of_lt_of_le hc (Nat.le_of_lt_succ h))
        (Nat.lt_of_lt_of_le hc (Nat.le_of_lt_succ h')))
      (Plan.deeperBelow_ofLevel level c)

end ExprScript
