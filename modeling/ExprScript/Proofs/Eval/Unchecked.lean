import ExprScript.Proofs.Eval.Calls
import ExprScript.Proofs.Eval.Step

/-!
# Evaluation without checks of arguments

Checking the arguments of calls keeps evaluation from going on, and does nothing else. What ends
without a refused argument ends the same if nothing is asked of arguments.

* `FunctionTable.unchecked`: the same functions, of whose arguments nothing is asked;
* `StepRelation.filtered`: steps that end alike, unless the first one refuses an argument;
* **`Expr.evalAt_unchecked`**: the check of arguments only filters.
-/

namespace ExprScript

/-- The cause that an argument was refused. -/
def EvalCause.Refusal : EvalCause → Prop
  | .argumentType .. => True
  | _ => False

/-- The same function, of whose arguments nothing is asked. -/
def FunctionDef.unchecked (f : FunctionDef) : FunctionDef :=
  { f with paramTypes := f.paramTypes.map fun _ => .any }

/-- **The same functions, of whose arguments nothing is asked.** -/
def FunctionTable.unchecked (table : FunctionTable) : FunctionTable :=
  ⟨table.entries.map FunctionDef.unchecked⟩

theorem FunctionTable.find?_unchecked (table : FunctionTable) (name : String) :
    table.unchecked.find? name = (table.find? name).map FunctionDef.unchecked := by
  rw [find?, unchecked, List.find?_map]
  rfl

/-- Nothing is refused where nothing is asked. -/
theorem mismatch?_any (params : List String) (types : List Ty) (values : List Value) :
    Eval.mismatch? params (types.map fun _ => .any) values = none := by
  induction params generalizing types values with
  | nil => rfl
  | cons param params ih =>
    cases types with
    | nil => rfl
    | cons ty types =>
      cases values with
      | nil => rfl
      | cons v values => exact ih types values

namespace StepRelation

/-- **Steps that end alike, unless the first one refuses an argument.** -/
def filtered : StepRelation where
  Rel p q := ∀ m, q m = p m ∨ ∃ e m', p m = .error (.error e) m' ∧ e.cause.Refusal
  pure _ _ := .inl rfl
  fail _ _ _ := .inl rfl
  get _ := .inl rfl
  modify _ _ := .inl rfl
  bind {α β p q f g} h hf m := by
    rw [Eval.bind_apply, Eval.bind_apply]
    obtain heq | ⟨e, m', he, hr⟩ := h m
    · rw [heq]
      cases p m with
      | ok a m₁ => exact hf a m₁
      | error halt m₁ => exact .inl rfl
    · exact .inr ⟨e, m', by rw [he], hr⟩
  inFrame {α p q} frame h m := by
    rw [Eval.inFrame, Eval.inFrame]
    obtain heq | ⟨e, m', he, hr⟩ := h { m with scopes := frame :: m.scopes }
    · exact .inl (by rw [heq])
    · exact .inr ⟨e, { m' with scopes := m'.scopes.tail }, by rw [he], hr⟩

/-- The call of a function that counts as open. -/
theorem filtered_counts : filtered.Counts := by
  intro frame p q h m
  rw [Eval.inCall, Eval.inCall]
  obtain heq | ⟨e, m', he, hr⟩ := filtered.inFrame frame h { m with callDepth := m.callDepth + 1 }
  · exact .inl (by rw [heq])
  · exact .inr ⟨e, { m' with callDepth := m'.callDepth - 1 }, by rw [he], hr⟩

/-- A function and the one of whose arguments nothing is asked. -/
theorem alike_unchecked (f : FunctionDef) : filtered.Alike f f.unchecked where
  params := rfl
  body := rfl
  check column values m := by
    unfold Eval.checkArguments FunctionDef.unchecked
    rw [mismatch?_any]
    cases Eval.mismatch? f.params f.paramTypes values with
    | none => exact .inl rfl
    | some found => exact .inr ⟨_, m, rfl, trivial⟩

/-- Every expression is admitted. -/
theorem admits_filtered (functions : FunctionTable) (limits : Limits) (rounds : Nat) :
    filtered.Admits (fun _ => true) ⟨functions, limits, rounds⟩
      ⟨functions.unchecked, limits, rounds⟩ where
  functions name := by
    rw [functions.find?_unchecked]
    cases functions.find? name with
    | none => exact .none
    | some f => exact .some (alike_unchecked f)
  limits := rfl
  missing _ _ _ := .inl rfl
  loop _ := ⟨rfl, fun _ => .inl rfl⟩

end StepRelation

open StepRelation

/-- **The check of arguments only filters.** What ends without a refused argument ends the same, with
the same machine, if nothing is asked of arguments. -/
theorem Expr.evalAt_unchecked (functions : FunctionTable) (limits : Limits) (rounds calls : Nat)
    (e : Expr) (m : Machine)
    (h : ∀ err m', e.evalAt ⟨functions, limits, rounds⟩ calls m = .error (.error err) m' →
      ¬ err.cause.Refusal) :
    e.evalAt ⟨functions.unchecked, limits, rounds⟩ calls m =
      e.evalAt ⟨functions, limits, rounds⟩ calls m := by
  have hrel := e.related_evalAt filtered (admits_filtered functions limits rounds) filtered_counts
    (fun _ f _ => f.body.everywhere_of_forall fun _ => rfl) calls (e.everywhere_of_forall fun _ => rfl)
  obtain heq | ⟨err, m', he, hr⟩ := hrel m
  · exact heq
  · exact absurd hr (h err m' he)

end ExprScript
