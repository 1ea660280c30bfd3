import ExprScript.Proofs.Eval.Operand
import ExprScript.Proofs.Number.Whole

/-!
# Ranges are exact

The bounds of a range are integers of magnitude at most `maxWhole`. Their difference has less than
64 bits, and all integers between them are doubles, so a range holds exactly what its bounds say.

* `Value.IsInteger`, `Value.Bounds`: a value is an integer, and one that may bound a range;
* `rangeBound_eq_ok_iff`, `rangeElements_of_bounds`: the operations on values;
* `IsRange`, `isRange_rangeElements`: what a range is, and that the operation is one;
* `Expr.rangeValues`, `Expr.evalWith_range`, `Expr.evalWith_forRange`: both expressions with a range
  compute its elements in the same way;
* **`Expr.range_exact`**: when a range has elements, and which.
-/

namespace ExprScript

/-- A value is an integer if it is a number with that value. -/
def Value.IsInteger (v : Value) (i : Int) : Prop :=
  ∃ x, v = .number x ∧ Number.value? x = some (i : ℚ)

/-- A value may bound a range if it is an integer of magnitude at most `2 ^ 53 - 1`. -/
def Value.Bounds (v : Value) (i : Int) : Prop := v.IsInteger i ∧ i.natAbs ≤ 2 ^ 53 - 1

/-! ## Operations -/

theorem rangeBound_eq_ok_iff {bound : Value} {i : Int} : rangeBound bound = .ok i ↔ bound.Bounds i := by
  have hvalue : (bound.asNumber?.bind Number.toWhole?) = some i ↔ bound.Bounds i := by
    rw [Option.bind_eq_some_iff]
    constructor
    · rintro ⟨x, hx, hi⟩
      obtain ⟨hvalue, hle⟩ := Number.toWhole?_eq_some_iff.mp hi
      cases bound <;> cases hx
      exact ⟨⟨x, rfl, hvalue⟩, hle⟩
    · rintro ⟨⟨x, rfl, hvalue⟩, hle⟩
      exact ⟨x, rfl, Number.toWhole?_eq_some_iff.mpr ⟨hvalue, hle⟩⟩
  rw [← hvalue]
  unfold rangeBound
  split
  · next j hj => rw [hj, Except.ok.injEq, Option.some_inj]
  · next hnone => simp [hnone]

/-- A value that is no bound is what is wrong with a range. -/
theorem rangeBound_eq_error {bound : Value} (h : ¬ ∃ i, bound.Bounds i) :
    rangeBound bound = .error (.invalidRangeBound bound) := by
  simp only [← rangeBound_eq_ok_iff, not_exists] at h
  unfold rangeBound at h ⊢
  split
  · next i hi =>
    rw [hi] at h
    exact absurd rfl (h i)
  · rfl

variable {limit : Nat} {first last : Value} {a b : Int}

/-- Counting in 64 bits does not change the length of a range. -/
theorem saturate_of_bounds (ha : first.Bounds a) (hb : last.Bounds b) :
    Number.saturate (b - a) = b - a := by
  have ha' : a.natAbs ≤ maxWhole := ha.2
  have hb' : b.natAbs ≤ maxWhole := hb.2
  exact Number.saturate_eq_self (by omega)

/-- An integer between two bounds has a number. -/
theorem rangeElement_of_bounds (ha : first.Bounds a) (hb : last.Bounds b) {i : Int} (hle : a ≤ i)
    (hlt : i < b) :
    rangeElement i = .ok (.number (Number.ofWhole i)) ∧
      Number.value? (Number.ofWhole i) = some (i : ℚ) := by
  have ha' : a.natAbs ≤ maxWhole := ha.2
  have hb' : b.natAbs ≤ maxWhole := hb.2
  have hi : i.natAbs ≤ maxWhole := by omega
  exact ⟨by rw [rangeElement, Number.ofWhole?_eq_some hi], Number.value?_ofWhole hi⟩

theorem Computed.mapM_eq_ok {α β : Type} {f : α → Computed β} {g : α → β} {as : List α}
    (h : ∀ a ∈ as, f a = .ok (g a)) : as.mapM f = .ok (as.map g) := by
  induction as with
  | nil => rfl
  | cons a as ih =>
    rw [List.mapM_cons, h a List.mem_cons_self, ih fun a' ha' => h a' (List.mem_cons_of_mem a ha')]
    rfl

/-- **The elements of a range between two bounds**, unless they are too many. -/
theorem rangeElements_of_bounds (ha : first.Bounds a) (hb : last.Bounds b) :
    rangeElements limit first last =
      if limit < (b - a).toNat then .error (.rangeTooLong (b - a).toNat limit)
      else .ok ((List.range (b - a).toNat).map fun (k : Nat) => .number (Number.ofWhole (a + k))) := by
  have helements : ((List.range (b - a).toNat).mapM fun (k : Nat) => rangeElement (a + k)) =
      .ok ((List.range (b - a).toNat).map fun (k : Nat) => .number (Number.ofWhole (a + k))) := by
    refine Computed.mapM_eq_ok fun k hk => ?_
    have hk' : k < (b - a).toNat := List.mem_range.mp hk
    exact (rangeElement_of_bounds ha hb (by omega) (by omega)).1
  unfold rangeElements
  rw [rangeBound_eq_ok_iff.mpr ha, rangeBound_eq_ok_iff.mpr hb]
  change (if limit < rangeLength a b then _ else _) = _
  rw [rangeLength, saturate_of_bounds ha hb, helements]

/-- **What the range of two values is**, if it may have `limit` elements at most. The first value is
looked at before the last one, and its length after both. -/
structure IsRange (limit : Nat) (first last : Value) (result : Computed (List Value)) : Prop where
  /-- There are elements if both values are bounds that are not too far from each other. -/
  isOk : (∃ elements, result = .ok elements) ↔
    ∃ a b, first.Bounds a ∧ last.Bounds b ∧ b - a ≤ limit
  /-- The elements are the integers from the lower bound on, in front of the upper one. -/
  elements : ∀ {a b elements}, first.Bounds a → last.Bounds b → result = .ok elements →
    elements.length = (b - a).toNat ∧
      ∀ k (hk : k < elements.length), elements[k].IsInteger (a + k)
  lower : (¬ ∃ a, first.Bounds a) → result = .error (.invalidRangeBound first)
  upper : (∃ a, first.Bounds a) → (¬ ∃ b, last.Bounds b) → result = .error (.invalidRangeBound last)
  /-- The length in the error is the difference of the bounds. -/
  tooLong : ∀ {a b}, first.Bounds a → last.Bounds b → limit < b - a →
    ∃ length : Nat, (length : Int) = b - a ∧ result = .error (.rangeTooLong length limit)

theorem isRange_rangeElements (limit : Nat) (first last : Value) :
    IsRange limit first last (rangeElements limit first last) where
  isOk := by
    constructor
    · rintro ⟨elements, h⟩
      obtain ⟨a, ha, h⟩ := Computed.bind_eq_ok h
      obtain ⟨b, hb, h⟩ := Computed.bind_eq_ok h
      replace ha := rangeBound_eq_ok_iff.mp ha
      replace hb := rangeBound_eq_ok_iff.mp hb
      refine ⟨a, b, ha, hb, ?_⟩
      change (if limit < rangeLength a b then _ else _) = _ at h
      rw [rangeLength, saturate_of_bounds ha hb] at h
      split at h
      · cases h
      · next hle => omega
    · rintro ⟨a, b, ha, hb, hle⟩
      rw [rangeElements_of_bounds ha hb, if_neg (by omega)]
      exact ⟨_, rfl⟩
  elements := by
    intro a b elements ha hb h
    rw [rangeElements_of_bounds ha hb] at h
    split at h
    · cases h
    · cases h
      refine ⟨by rw [List.length_map, List.length_range], fun k hk => ?_⟩
      rw [List.length_map, List.length_range] at hk
      rw [List.getElem_map, List.getElem_range]
      exact ⟨_, rfl, (rangeElement_of_bounds ha hb (by omega) (by omega)).2⟩
  lower := by
    intro h
    rw [rangeElements, rangeBound_eq_error h]
    rfl
  upper := by
    rintro ⟨a, ha⟩ h
    rw [rangeElements, rangeBound_eq_ok_iff.mpr ha, rangeBound_eq_error h]
    rfl
  tooLong := by
    intro a b ha hb hlt
    refine ⟨(b - a).toNat, by omega, ?_⟩
    rw [rangeElements_of_bounds ha hb, if_pos (by omega)]

/-! ## Expressions -/

namespace Expr

variable (setting : Setting) (enter : Enter) (column : Nat) (lower upper : Expr)

/-- The elements of a range: both bounds are evaluated, the lower one first, and then looked at. -/
def rangeValues : Eval (List Value) := do
  let first ← lower.evalWith setting enter
  let last ← upper.evalWith setting enter
  Eval.located column (rangeElements setting.limits.rangeLength first last)

theorem evalWith_range :
    (range column lower upper).evalWith setting enter =
      Value.vector <$> rangeValues setting enter column lower upper := by
  simp only [evalWith, rangeValues, map_eq_pure_bind, bind_assoc]

theorem evalWith_forRange (var : String) (body : Expr) :
    (forRange column var lower upper body).evalWith setting enter =
      rangeValues setting enter column lower upper >>= fun elements =>
        Eval.loop var elements (body.evalWith setting enter) := by
  simp only [evalWith, rangeValues, bind_assoc]

/-- **Ranges are exact up to the edge of the integers that doubles hold.** Vectors and loops compute
the elements of a range in the same way. Both bounds are evaluated, and only then is any of them
looked at: so a bound that fails is reported whatever the other one is. The result is what the two
values say; the difference of bounds is never out of the reach of 64 bits, and no integer between
them fails to become an element. -/
theorem range_exact (setting : Setting) (enter : Enter) (column : Nat) (lower upper : Expr) :
    let values := rangeValues setting enter column lower upper
    (range column lower upper).evalWith setting enter = Value.vector <$> values ∧
    (∀ var body, (forRange column var lower upper body).evalWith setting enter =
      values >>= fun elements => Eval.loop var elements (body.evalWith setting enter)) ∧
    (∀ m m₁ halt, lower.evalWith setting enter m = .error halt m₁ → values m = .error halt m₁) ∧
    ∀ m m₁ first, lower.evalWith setting enter m = .ok first m₁ →
      (∀ m₂ halt, upper.evalWith setting enter m₁ = .error halt m₂ → values m = .error halt m₂) ∧
      ∀ m₂ last, upper.evalWith setting enter m₁ = .ok last m₂ →
        (∃ result, IsRange setting.limits.rangeLength first last result ∧
          values m = Eval.located column result m₂) ∧
        ∀ a b, first.Bounds a → last.Bounds b → Number.saturate (b - a) = b - a ∧
          ∀ i, a ≤ i → i < b →
            ∃ x, rangeElement i = .ok (.number x) ∧ Number.value? x = some (i : ℚ) := by
  refine ⟨evalWith_range .., fun _ _ => evalWith_forRange .., fun m m₁ halt hlower => ?_,
    fun m m₁ first hlower => ⟨fun m₂ halt hupper => ?_, fun m₂ last hupper => ?_⟩⟩
  · rw [rangeValues, Eval.bind_apply, hlower]
  · rw [rangeValues, Eval.bind_apply, hlower]
    dsimp only
    rw [Eval.bind_apply, hupper]
  · refine ⟨⟨_, isRange_rangeElements _ first last, ?_⟩, fun a b ha hb =>
      ⟨saturate_of_bounds ha hb, fun i hle hlt => ⟨_, rangeElement_of_bounds ha hb hle hlt⟩⟩⟩
    rw [rangeValues, Eval.bind_apply, hlower]
    dsimp only
    rw [Eval.bind_apply, hupper]

/-- The last range of two elements. -/
theorem range_exact_edge :
    let setting : Setting := ⟨.empty, {}, 0⟩
    let lower := Expr.number 7 (Number.ofWhole 9007199254740989)
    let upper := Expr.number 25 (Number.ofWhole 9007199254740991)
    let m : Machine := ⟨[], 0, false, .ofSeed 0⟩
    ∃ x y, (range 1 lower upper).evalWith setting (enterCall setting 0) m =
        .ok (.vector [.number x, .number y]) m ∧
      Number.value? x = some 9007199254740989 ∧ Number.value? y = some 9007199254740990 := by
  intro setting lower upper m
  have hlower : lower.evalWith setting (enterCall setting 0) m =
      .ok (.number (Number.ofWhole 9007199254740989)) m := rfl
  have hupper : upper.evalWith setting (enterCall setting 0) m =
      .ok (.number (Number.ofWhole 9007199254740991)) m := rfl
  have ha : (Value.number (Number.ofWhole 9007199254740989)).Bounds 9007199254740989 :=
    ⟨⟨_, rfl, Number.value?_ofWhole (by decide)⟩, by decide⟩
  have hb : (Value.number (Number.ofWhole 9007199254740991)).Bounds 9007199254740991 :=
    ⟨⟨_, rfl, Number.value?_ofWhole (by decide)⟩, by decide⟩
  obtain ⟨hrange, -, -, hvalues⟩ := range_exact setting (enterCall setting 0) 1 lower upper
  obtain ⟨⟨result, hresult, hm⟩, -⟩ := (hvalues m m _ hlower).2 m _ hupper
  obtain ⟨elements, rfl⟩ := hresult.isOk.mpr ⟨_, _, ha, hb, by decide⟩
  obtain ⟨hlength, helements⟩ := hresult.elements ha hb rfl
  obtain ⟨v, w, rfl⟩ := List.length_eq_two.mp hlength
  obtain ⟨x, rfl, hx⟩ := helements 0 Nat.zero_lt_two
  obtain ⟨y, rfl, hy⟩ := helements 1 Nat.one_lt_two
  refine ⟨x, y, ?_, hx, hy⟩
  rw [hrange, map_eq_pure_bind, Eval.bind_apply, hm]
  rfl

end Expr

end ExprScript
