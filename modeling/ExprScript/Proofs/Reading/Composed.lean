import ExprScript.Grammar.Expression

/-!
# What readers are made of

Every reader of expressions is made of a few basic steps, one after the other, and of the reader that
goes further down. So a property of steps that the basic ones have, and that two steps in a row keep,
is one of every reader.

* `Reading.Composed`: **steps that are made of basic ones**, with an instance for every reader of
  expressions. The property itself is shown by induction on this.
-/

namespace ExprScript.Reading

/-- **A step is made of basic ones**: of looking at what is left, taking a token, reporting the one
that is there, and of what is read further down. -/
class inductive Composed (deeper : Nat → Reading Expr) : {α : Type} → Reading α → Prop
  | pure {α : Type} (a : α) : Composed deeper (pure a : Reading α)
  | bind {α β : Type} {p : Reading α} {f : α → Reading β} : Composed deeper p →
    (∀ a, Composed deeper (f a)) → Composed deeper (p >>= f)
  | look : Composed deeper look?
  | column : Composed deeper column
  | left : Composed deeper left
  | skip : Composed deeper skip
  | unexpected (expected : Expected) : Composed deeper (unexpected expected)
  | deeper (level : Nat) : Composed deeper (deeper level)

attribute [instance] Composed.pure Composed.look Composed.column Composed.left Composed.skip
  Composed.unexpected Composed.deeper

variable (deeper : Nat → Reading Expr)

/-! ## Steps -/

section Steps

variable {α β : Type}

instance (p : Reading α) (f : α → Reading β) [hp : Composed deeper p]
    [hf : ∀ a, Composed deeper (f a)] : Composed deeper (p >>= f) := .bind hp hf

instance (f : α → β) (p : Reading α) [Composed deeper p] : Composed deeper (f <$> p) := by
  rw [map_eq_pure_bind]
  infer_instance

instance (b : Prop) [Decidable b] (p q : Reading α) [Composed deeper p] [Composed deeper q] :
    Composed deeper (if b then p else q) := by
  split <;> infer_instance

instance (t : Token) : Composed deeper (eat t) := by unfold eat; infer_instance

instance (t : Token) : Composed deeper (expect t) := by unfold expect; infer_instance

instance : Composed deeper identifier? := by
  unfold identifier?
  refine .bind inferInstance fun column => .bind inferInstance fun t => ?_
  split <;> infer_instance

instance : Composed deeper nameOrEmpty := by
  unfold nameOrEmpty
  refine .bind inferInstance fun name => ?_
  split <;> infer_instance

instance (s : Symbol) : Composed deeper (symbol s) :=
  inferInstanceAs (Composed deeper ((fun _ => ()) <$> expect (.symbol s)))

instance (k : Keyword) : Composed deeper (keyword k) :=
  inferInstanceAs (Composed deeper ((fun _ => ()) <$> expect (.keyword k)))

end Steps

/-! ## Expressions -/

instance : Composed deeper (expression deeper) := by unfold expression; infer_instance

instance : Composed deeper (argument deeper) := by unfold argument; infer_instance

instance : Composed deeper (argumentPair deeper) := by unfold argumentPair; infer_instance

instance composed_expressions (rounds : Nat) : Composed deeper (expressions deeper rounds) := by
  induction rounds with
  | zero => unfold expressions; infer_instance
  | succ rounds ih => unfold expressions; infer_instance

instance (close : Symbol) : Composed deeper (expressionsUpTo deeper close) := by
  unfold expressionsUpTo; infer_instance

instance (name : String) (column : Nat) : Composed deeper (afterName deeper name column) := by
  unfold afterName
  refine .bind inferInstance fun t => ?_
  split <;> infer_instance

instance : Composed deeper bindingName := by
  unfold bindingName
  refine .bind inferInstance fun name => ?_
  split <;> infer_instance

instance : Composed deeper (binding deeper) := by unfold binding; infer_instance

instance : Composed deeper (letBody deeper) := by unfold letBody; infer_instance

instance composed_bindings (rounds : Nat) : Composed deeper (bindings deeper rounds) := by
  induction rounds with
  | zero => unfold bindings; infer_instance
  | succ rounds ih => unfold bindings; infer_instance

instance : Composed deeper (lastBranch deeper) := by unfold lastBranch; infer_instance

instance composed_branches (rounds : Nat) : Composed deeper (branches deeper rounds) := by
  induction rounds with
  | zero => unfold branches; infer_instance
  | succ rounds ih => unfold branches; infer_instance

instance (column : Nat) (var : String) : Composed deeper (loopSource deeper column var) := by
  unfold loopSource
  refine .bind inferInstance fun column => .bind inferInstance fun t => ?_
  split <;> infer_instance

set_option synthInstance.maxSize 256 in
instance (column : Nat) : Composed deeper (forLoop deeper column) := by
  unfold forLoop; infer_instance

instance : Composed deeper (primary deeper) := by
  unfold primary
  refine .bind inferInstance fun column => .bind inferInstance fun t => ?_
  split <;> infer_instance

instance : Composed deeper (unary deeper) := by
  unfold unary
  refine .bind inferInstance fun t => ?_
  split <;> infer_instance

instance (level : Nat) : Composed deeper (operator? level) := by unfold operator?; infer_instance

instance composed_chain (level rounds : Nat) (operand : Expr) :
    Composed deeper (chain deeper level rounds operand) := by
  induction rounds generalizing operand with
  | zero => unfold chain; infer_instance
  | succ rounds ih =>
    unfold chain
    refine .bind inferInstance fun op => ?_
    split <;> infer_instance

/-- **The reader of a level is made of basic steps** and of what it reads further down. -/
instance (level : Nat) : Composed deeper (binary deeper level) := by unfold binary; infer_instance

end ExprScript.Reading
