import ExprScript.Proofs.Reading.Composed

/-!
# Reading moves forward

Whatever a reader finds, it takes lexemes from the front of the statement only, keeps its ending, and
never takes an error back.

* `Cursor.Ahead`: what a cursor keeps of one that it was reached from;
* `Reading.Advances`: **a step moves forward**, whether it succeeds or is broken off, with an
  instance for every reader of expressions.
-/

namespace ExprScript

/-- A cursor that can be reached from another one by reading. -/
structure Cursor.Ahead (c c' : Cursor) : Prop where
  rest : c'.rest <:+ c.rest
  ending : c'.ending = c.ending
  errors : c.errors <:+ c'.errors

namespace Cursor.Ahead

theorem refl (c : Cursor) : c.Ahead c := ⟨List.suffix_refl _, rfl, List.suffix_refl _⟩

theorem trans {c₁ c₂ c₃ : Cursor} (h : c₁.Ahead c₂) (h' : c₂.Ahead c₃) : c₁.Ahead c₃ :=
  ⟨h'.rest.trans h.rest, h'.ending.trans h.ending, h.errors.trans h'.errors⟩

theorem next (c : Cursor) : c.Ahead c.next := ⟨List.tail_suffix _, rfl, List.suffix_refl _⟩

theorem report (c : Cursor) (cause : SyntaxCause) (column : Nat) :
    c.Ahead (c.report cause column) :=
  ⟨List.suffix_refl _, rfl, List.suffix_cons _ _⟩

theorem unexpected (c : Cursor) (expected : Expected) : c.Ahead (c.unexpected expected) := by
  unfold Cursor.unexpected
  split
  · exact (report c _ _).trans (next _)
  · exact report c _ _
  · exact report c _ _

/-- Reading does not make what is left longer. -/
theorem length_le {c c' : Cursor} (h : c.Ahead c') : c'.rest.length ≤ c.rest.length :=
  h.rest.length_le

end Cursor.Ahead

/-- A token that is taken is no longer left. -/
theorem Cursor.length_next_lt {c : Cursor} {t : Token} (h : c.token? = some t) :
    c.next.rest.length < c.rest.length := by
  cases hr : c.rest with
  | nil => simp [Cursor.token?, hr] at h
  | cons lexeme rest => simp [Cursor.next, hr]

namespace Reading

/-- Where a step stops. -/
def stop {α : Type} (p : Reading α) (c : Cursor) : Cursor :=
  match p c with
  | .ok _ c' => c'
  | .error _ c' => c'

/-- **A step moves forward**, whether it succeeds or is broken off. -/
class Advances {α : Type} (p : Reading α) : Prop where
  ahead : ∀ c : Cursor, c.Ahead (p.stop c)

theorem Advances.ok {α : Type} {p : Reading α} [Advances p] {c c' : Cursor} {a : α}
    (h : p c = .ok a c') : c.Ahead c' := by
  have := Advances.ahead (p := p) c
  rwa [stop, h] at this

theorem Advances.error {α : Type} {p : Reading α} [Advances p] {c c' : Cursor} {e : TooDeep}
    (h : p c = .error e c') : c.Ahead c' := by
  have := Advances.ahead (p := p) c
  rwa [stop, h] at this

/-! ## Steps -/

section Steps

variable {α β : Type}

theorem bind_apply (p : Reading α) (f : α → Reading β) (c : Cursor) :
    (p >>= f) c = match p c with
      | .ok a c' => f a c'
      | .error e c' => .error e c' := by
  change EStateM.bind p f c = _
  unfold EStateM.bind
  cases p c <;> rfl

instance (a : α) : Advances (pure a : Reading α) := ⟨Cursor.Ahead.refl⟩

instance (e : TooDeep) : Advances (throw e : Reading α) := ⟨Cursor.Ahead.refl⟩

theorem Advances.bind {p : Reading α} {f : α → Reading β} [Advances p] (hf : ∀ a, Advances (f a)) :
    Advances (p >>= f) where
  ahead c := by
    rw [stop, bind_apply]
    cases h : p c with
    | ok a c' => exact (Advances.ok h).trans ((hf a).ahead c')
    | error e c' => exact Advances.error h

instance (p : Reading α) (f : α → Reading β) [Advances p] [hf : ∀ a, Advances (f a)] :
    Advances (p >>= f) := .bind hf

instance (f : α → β) (p : Reading α) [Advances p] : Advances (f <$> p) where
  ahead c := by
    have h := Advances.ahead (p := p) c
    change c.Ahead (stop (fun c => EStateM.map f p c) c)
    unfold stop EStateM.map at *
    cases hp : p c <;> simpa [hp] using h

instance (b : Prop) [Decidable b] (p q : Reading α) [Advances p] [Advances q] :
    Advances (if b then p else q) := by
  split <;> infer_instance

instance : Advances look? := ⟨Cursor.Ahead.refl⟩

instance : Advances column := ⟨Cursor.Ahead.refl⟩

instance : Advances left := ⟨Cursor.Ahead.refl⟩

instance : Advances skip := ⟨Cursor.Ahead.next⟩

instance (cause : SyntaxCause) (column : Nat) : Advances (report cause column) :=
  ⟨fun c => Cursor.Ahead.report c cause column⟩

instance (expected : Expected) : Advances (unexpected expected) :=
  ⟨fun c => Cursor.Ahead.unexpected c expected⟩

theorem eat_apply (t : Token) (c : Cursor) :
    eat t c = if c.token? = some t then .ok true c.next else .ok false c := by
  change (if c.token? = some t then (do skip; return true) else return false : Reading Bool) c = _
  split <;> rfl

instance (t : Token) : Advances (eat t) := by unfold eat; infer_instance

instance (t : Token) : Advances (expect t) := by unfold expect; infer_instance

instance : Advances identifier? := by
  unfold identifier?
  refine .bind fun column => .bind fun t => ?_
  split <;> infer_instance

instance : Advances nameOrEmpty := by
  unfold nameOrEmpty
  refine .bind fun name => ?_
  split <;> infer_instance

instance (s : Symbol) : Advances (symbol s) :=
  inferInstanceAs (Advances ((fun _ => ()) <$> expect (.symbol s)))

instance (k : Keyword) : Advances (keyword k) :=
  inferInstanceAs (Advances ((fun _ => ()) <$> expect (.keyword k)))

end Steps

/-! ## Expressions -/

section Expressions

variable (deeper : Nat → Reading Expr) [hd : ∀ level, Advances (deeper level)]

include hd in
/-- **Steps that are made of basic ones move forward**, since those do. -/
theorem Composed.advances {α : Type} {p : Reading α} (h : Composed deeper p) : Advances p := by
  induction h with
  | pure a => infer_instance
  | bind _ _ hp hf => exact .bind hf
  | deeper level => exact hd level
  | look => infer_instance
  | column => infer_instance
  | left => infer_instance
  | skip => infer_instance
  | unexpected expected => infer_instance

instance : Advances (expression deeper) := Composed.advances deeper inferInstance

instance : Advances (argument deeper) := Composed.advances deeper inferInstance

instance : Advances (argumentPair deeper) := Composed.advances deeper inferInstance

instance advances_expressions (rounds : Nat) : Advances (expressions deeper rounds) :=
  Composed.advances deeper inferInstance

instance (close : Symbol) : Advances (expressionsUpTo deeper close) :=
  Composed.advances deeper inferInstance

instance (name : String) (column : Nat) : Advances (afterName deeper name column) :=
  Composed.advances deeper inferInstance

instance : Advances bindingName := by
  unfold bindingName
  refine .bind fun name => ?_
  split <;> infer_instance

instance : Advances (binding deeper) := Composed.advances deeper inferInstance

instance : Advances (letBody deeper) := Composed.advances deeper inferInstance

instance advances_bindings (rounds : Nat) : Advances (bindings deeper rounds) :=
  Composed.advances deeper inferInstance

instance : Advances (lastBranch deeper) := Composed.advances deeper inferInstance

instance advances_branches (rounds : Nat) : Advances (branches deeper rounds) :=
  Composed.advances deeper inferInstance

instance (column : Nat) (var : String) : Advances (loopSource deeper column var) :=
  Composed.advances deeper inferInstance

instance (column : Nat) : Advances (forLoop deeper column) := Composed.advances deeper inferInstance

instance : Advances (primary deeper) := Composed.advances deeper inferInstance

instance : Advances (unary deeper) := Composed.advances deeper inferInstance

instance (level : Nat) : Advances (operator? level) := by unfold operator?; infer_instance

instance advances_chain (level rounds : Nat) (operand : Expr) :
    Advances (chain deeper level rounds operand) :=
  Composed.advances deeper inferInstance

instance (level : Nat) : Advances (binary deeper level) := Composed.advances deeper inferInstance

end Expressions

/-- **Reading an expression moves forward.** -/
instance advances_expressionAt (levels level : Nat) : Advances (expressionAt levels level) := by
  induction levels generalizing level with
  | zero => unfold expressionAt; infer_instance
  | succ levels ih => unfold expressionAt; infer_instance

end Reading

end ExprScript
