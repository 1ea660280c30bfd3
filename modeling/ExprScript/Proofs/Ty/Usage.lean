import ExprScript.Ty.Usage

/-!
# What is asked of parameters

* `FunctionTable.Askable`: tables whose functions ask each parameter for something that there is;
* **`Ty.usage_ne_never`**: what a body asks of a parameter under such a table is there, too.
-/

namespace ExprScript

/-- No function of a table asks a parameter for a value that cannot be. -/
def FunctionTable.Askable (table : FunctionTable) : Prop :=
  ∀ f ∈ table.entries, Ty.never ∉ f.paramTypes

namespace Ty

/-- Whether something that there is is asked for, if anything is. -/
def Asked (use : Option Ty) : Prop := use ≠ some .never

theorem asked_none : Asked none := nofun

theorem asked_of (kind : Kind) : Asked (some (.of kind)) := nofun

theorem Asked.or {a b : Option Ty} (ha : Asked a) (hb : Asked b) : Asked (a.or b) := by
  cases a with
  | none => exact hb
  | some ty => exact ha

theorem Asked.ite {c : Prop} [Decidable c] {a b : Option Ty} (ha : Asked a) (hb : Asked b) :
    Asked (if c then a else b) := by
  split
  · exact ha
  · exact hb

theorem asked_orUse {param : String} {ty : Ty} {operand : Expr} {inside : Option Ty}
    (hty : ty ≠ .never) (h : Asked inside) : Asked (orUse param ty operand inside) :=
  Asked.ite (fun he => hty (Option.some.inj he)) h

theorem asked_orUse_of {param : String} {kind : Kind} {operand : Expr} {inside : Option Ty}
    (h : Asked inside) : Asked (orUse param (.of kind) operand inside) :=
  asked_orUse Ty.noConfusion h

variable {functions : FunctionTable} (hf : functions.Askable) (param : String)

include hf

set_option linter.unusedSectionVars false

mutual

theorem asked_firstUse? : (e : Expr) → Asked (firstUse? functions param e)
  | .number .. | .string .. | .bool .. | .constant .. | .variable .. | .rand .. | .error .. =>
    asked_none
  | .paren _ inner => asked_firstUse? inner
  | .print _ argument => asked_firstUse? argument
  | .unary _ op operand => asked_orUse_of (asked_firstUse? operand)
  | .math _ _ argument => asked_orUse_of (asked_firstUse? argument)
  | .binary _ left op right => by
    rw [firstUse?]
    split
    · exact (asked_orUse_of (asked_firstUse? left)).or (asked_orUse_of (asked_firstUse? right))
    · exact (asked_firstUse? left).or (asked_firstUse? right)
  | .log _ e₁ e₂ | .range _ e₁ e₂ =>
    (asked_orUse_of (asked_firstUse? e₁)).or (asked_orUse_of (asked_firstUse? e₂))
  | .ifThen _ condition body rest =>
    (asked_orUse_of (asked_firstUse? condition)).or
      ((asked_firstUse? body).or (asked_firstUseBranches? rest))
  | .letIn _ bindings => asked_firstUseBindings? bindings
  | .call _ name arguments => by
    rw [firstUse?]
    split
    · next f hfind =>
      exact asked_firstUseArguments? f.paramTypes (hf f (List.mem_of_find?_eq_some hfind)) arguments
    · exact asked_firstUseArguments? [] nofun arguments
  | .forRange _ _ lower upper body =>
    ((asked_orUse_of (asked_firstUse? lower)).or (asked_orUse_of (asked_firstUse? upper))).or
      (.ite asked_none (asked_firstUse? body))
  | .forEach _ _ _ _ body => .ite (asked_of _) (.ite asked_none (asked_firstUse? body))
  | .while _ condition body =>
    (asked_orUse_of (asked_firstUse? condition)).or (asked_firstUse? body)
  | .vector _ elements => asked_firstUseArguments? [] nofun elements
  | .index _ _ index => .ite (asked_of _) (asked_orUse_of (asked_firstUse? index))
  | .method .. => .ite (asked_of _) asked_none

theorem asked_firstUseArguments? (asked : List Ty) (ha : Ty.never ∉ asked) : (es : List Expr) →
    Asked (firstUseArguments? functions param asked es)
  | [] => asked_none
  | e :: rest => by
    rw [firstUseArguments?]
    have hrest := asked_firstUseArguments? asked.tail (fun h => ha (List.mem_of_mem_tail h)) rest
    refine Asked.or ?_ hrest
    split
    · next ty hty =>
      have hmem := List.mem_of_mem_head? (Option.eq_some_of_filter_eq_some hty)
      exact asked_orUse (fun he => ha (he ▸ hmem)) (asked_firstUse? e)
    · exact asked_firstUse? e

theorem asked_firstUseBranches? : (b : Branches) → Asked (firstUseBranches? functions param b)
  | .elif condition body rest =>
    (asked_orUse_of (asked_firstUse? condition)).or
      ((asked_firstUse? body).or (asked_firstUseBranches? rest))
  | .otherwise body => asked_firstUse? body

theorem asked_firstUseBindings? : (b : Bindings) → Asked (firstUseBindings? functions param b)
  | .bind _ _ value rest =>
    (asked_firstUse? value).or (.ite asked_none (asked_firstUseBindings? rest))
  | .body body => asked_firstUse? body

end

/-- **What a body asks of a parameter is there.** -/
theorem usage_ne_never (body : Expr) : usage functions param body ≠ .never := by
  have h := asked_firstUse? hf param body
  unfold usage
  cases hu : firstUse? functions param body with
  | none => exact nofun
  | some ty => exact fun he => h (hu.trans (congrArg some he))

end Ty

end ExprScript
