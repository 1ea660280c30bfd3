import ExprScript.Number.Exact
import Mathlib

/-!
# The exact values of doubles

A double is one word of a sign, an exponent and a fraction, and every finite one is a rational
number. `Exact` is read off the word; it has that value.

* `Number.value?`: the rational number that a double is, as its logical model has it;
* `Exact.value`, `Exact.map_value_ofFloat?`: **reading the word gives the value of the double**;
* `Exact.magnitude?_eq_some_iff`: the magnitude is there if the value is an integer.
-/

namespace ExprScript

open Float.Model UnpackedFloat

namespace Number

/-- The rational number that the parts of a double make, unless it is infinite or no number. -/
def unpackedValue? : UnpackedFloat → Option ℚ
  | .finite sign mantissa exponent _ => some (sign.apply mantissa * 2 ^ exponent)
  | .zero _ => some 0
  | .infinity _ | .notANumber => none

/-- The rational number that a double is, unless it is infinite or no number. -/
def value? (x : Float) : Option ℚ := unpackedValue? x.toModel.unpack

end Number

namespace Exact

/-- The rational number that an exact value is. -/
def value (x : Exact) : ℚ := (if x.negative then -1 else 1) * (x.mantissa * 2 ^ x.exponent)

/-! ## The parts of a word -/

theorem toNat_unpackMantissa (b : UInt64) :
    (@unpackMantissa Format.binary64 b.toBitVec).toNat = (b &&& 0xFFFFFFFFFFFFF).toNat := by
  rw [UInt64.toNat_and]
  simp only [unpackMantissa, BitVec.toNat_cast, BitVec.extractLsb_toNat]
  change b.toNat >>> 0 % 2 ^ 52 = b.toNat &&& (2 ^ 52 - 1)
  rw [Nat.and_two_pow_sub_one_eq_mod, Nat.shiftRight_zero]

/-- The mantissa of a normal double has a bit in front of its fraction. -/
theorem toNat_one_append (fraction : BitVec 52) :
    (1#1 ++ fraction).toNat = leastNormal + fraction.toNat := by
  rw [BitVec.toNat_append]
  exact (Nat.two_pow_add_eq_or_of_lt fraction.isLt 1).symm

theorem toNat_unpackExponent (b : UInt64) :
    (@unpackExponent Format.binary64 b.toBitVec).toNat = ((b >>> 52) &&& 0x7FF).toNat := by
  rw [UInt64.toNat_and, UInt64.toNat_shiftRight]
  simp only [unpackExponent, BitVec.toNat_cast, BitVec.extractLsb_toNat]
  change b.toNat >>> 52 % 2 ^ 11 = b.toNat >>> 52 &&& (2 ^ 11 - 1)
  rw [Nat.and_two_pow_sub_one_eq_mod]

theorem toNat_unpackSign (b : UInt64) :
    (@unpackSign Format.binary64 b.toBitVec).toNat = (b >>> 63).toNat := by
  rw [UInt64.toNat_shiftRight]
  simp only [unpackSign, BitVec.toNat_cast, BitVec.extractLsb_toNat]
  change b.toNat >>> 63 % 2 ^ 1 = b.toNat >>> 63
  have hb : b.toNat < 2 ^ 64 := b.toNat_lt
  rw [Nat.shiftRight_eq_div_pow]
  omega

theorem ofBitVec_unpackSign (b : UInt64) :
    Sign.ofBitVec (@unpackSign Format.binary64 b.toBitVec) =
      if b >>> 63 == 1 then .negative else .positive := by
  have hsign := toNat_unpackSign b
  generalize @unpackSign Format.binary64 b.toBitVec = sign at hsign ⊢
  have hb : b >>> 63 = 1 ↔ sign ≠ 0#1 := by
    rw [← UInt64.toNat_inj, ← hsign, ne_eq, ← BitVec.toNat_inj]
    have := sign.isLt
    change sign.toNat = 1 ↔ ¬ sign.toNat = 0
    omega
  unfold Sign.ofBitVec
  by_cases h : sign = 0#1 <;> simp [hb, h]

/-! ## The value of a word -/

theorem cast_apply (negative : Bool) (m : Nat) :
    (((if negative then Sign.negative else Sign.positive).apply m : Int) : ℚ) =
      (if negative then -1 else 1) * m := by
  cases negative <;> simp [Sign.apply]

/-- **Reading the word of a double gives its value**, if there is one. -/
theorem map_value_ofFloat? (x : Float) : (ofFloat? x).map value = Number.value? x := by
  unfold ofFloat?
  change _ = Number.unpackedValue? (UnpackedFloat.unpack Format.binary64 x.toBits.toBitVec)
  generalize x.toBits = b
  have hones : @unpackExponent Format.binary64 b.toBitVec = -1#11 ↔
      ((b >>> 52) &&& 0x7FF).toNat = 2047 := by
    rw [← toNat_unpackExponent, ← BitVec.toNat_inj]
    rfl
  have hzero : @unpackExponent Format.binary64 b.toBitVec = 0#11 ↔
      ((b >>> 52) &&& 0x7FF).toNat = 0 := by
    rw [← toNat_unpackExponent, ← BitVec.toNat_inj]
    rfl
  unfold UnpackedFloat.unpack
  dsimp only
  rw [ofBitVec_unpackSign, toNat_unpackExponent, ← toNat_unpackMantissa]
  by_cases hinf : ((b >>> 52) &&& 0x7FF).toNat = 2047
  · rw [if_pos hinf, if_pos (hones.mpr hinf)]
    split <;> rfl
  rw [if_neg hinf, if_neg (mt hones.mp hinf)]
  by_cases hsub : ((b >>> 52) &&& 0x7FF).toNat = 0
  · rw [if_pos hsub, if_pos (hzero.mpr hsub)]
    by_cases hf : @unpackMantissa Format.binary64 b.toBitVec = 0#52
    · rw [dif_pos hf, hf]
      simp [value, Number.unpackedValue?]
    · rw [dif_neg hf, Number.unpackedValue?, cast_apply, mul_assoc, hsub]
      rfl
  · rw [if_neg hsub, if_neg (mt hzero.mp hsub), Number.unpackedValue?, cast_apply, mul_assoc,
      toNat_one_append]
    have hexponent : minExponent + ((((b >>> 52) &&& 0x7FF).toNat - 1 : Nat) : Int) =
        ((b >>> 52) &&& 0x7FF).toNat - (Format.binary64.exponentBias + (52 : Nat) : Int) := by
      change -1074 + _ = _ - ((1023 : Int) + 52)
      omega
    rw [Option.map_some, value, hexponent]

/-! ## Integers -/

/-- The magnitude of an exact value is there if it is a natural number. -/
theorem magnitude?_eq_some_iff {x : Exact} {n : Nat} :
    x.magnitude? = some n ↔ (x.mantissa * 2 ^ x.exponent : ℚ) = n := by
  unfold magnitude?
  by_cases he : 0 ≤ x.exponent
  · obtain ⟨k, hk⟩ := Int.eq_ofNat_of_zero_le he
    rw [if_pos he, hk, Int.toNat_natCast, zpow_natCast, Nat.shiftLeft_eq, Option.some_inj]
    exact_mod_cast Iff.rfl
  · obtain ⟨k, hk⟩ : ∃ k : Nat, x.exponent = -(k : Int) := ⟨(-x.exponent).toNat, by omega⟩
    have hparts : (x.mantissa * 2 ^ x.exponent : ℚ) = n ↔ x.mantissa = n * 2 ^ k := by
      rw [hk, zpow_neg, zpow_natCast, ← div_eq_mul_inv, div_eq_iff (by positivity)]
      exact_mod_cast Iff.rfl
    rw [if_neg he, hparts, hk, neg_neg, Int.toNat_natCast]
    simp only [Nat.one_shiftLeft]
    have hk' : 0 < 2 ^ k := Nat.two_pow_pos k
    constructor
    · intro h
      split at h
      · next hdvd =>
        cases h
        exact (Nat.div_mul_cancel (Nat.dvd_of_mod_eq_zero hdvd)).symm
      · cases h
    · intro h
      rw [h, if_pos (Nat.mul_mod_left n _), Nat.mul_div_cancel n hk']

/-- An exact value is an integer if it has the magnitude and the sign of one. -/
theorem value_eq_intCast_iff {x : Exact} {i : Int} :
    x.value = i ↔ ∃ n, x.magnitude? = some n ∧ (if x.negative then -(n : Int) else n) = i := by
  simp only [magnitude?_eq_some_iff, value]
  have hq : (0 : ℚ) ≤ x.mantissa * 2 ^ x.exponent := by positivity
  generalize (x.mantissa * 2 ^ x.exponent : ℚ) = q at hq
  constructor
  · intro h
    cases hn : x.negative with
    | false =>
      rw [hn, if_neg Bool.false_ne_true, one_mul] at h
      rw [h] at hq
      obtain ⟨n, rfl⟩ := Int.eq_ofNat_of_zero_le (Int.cast_nonneg_iff.mp hq)
      exact ⟨n, by rw [h]; rfl, rfl⟩
    | true =>
      rw [hn, if_pos rfl, neg_one_mul, neg_eq_iff_eq_neg] at h
      rw [h, ← Int.cast_neg] at hq
      obtain ⟨n, hi⟩ := Int.eq_ofNat_of_zero_le (Int.cast_nonneg_iff.mp hq)
      exact ⟨n, by rw [h, ← Int.cast_neg, hi]; rfl, by rw [if_pos rfl]; omega⟩
  · rintro ⟨n, rfl, rfl⟩
    split <;> push_cast <;> ring

end Exact

end ExprScript
