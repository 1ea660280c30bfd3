import ExprScript.Number.Whole
import ExprScript.Proofs.Number.Exact

/-!
# Whole numbers are exact

Integers of magnitude at most `maxWhole` have at most 53 bits, so converting one to a double drops
no bit: the rounding and the packing of its mantissa keep its value.

* `round_eq`, `unpack_pack`: converting, packing and unpacking drop no bit;
* `toWhole?_eq_some_iff`: **a number stands for an integer if that is its value**, and the integer is
  of magnitude at most `maxWhole`;
* `value?_ofWhole`: **the number of such an integer is that integer**;
* `ofWhole?_eq_some`, `saturate_eq_self`: neither the check on the magnitude nor the width of
  64 bits ever matters for them.
-/

namespace ExprScript.Number

open Float.Model UnpackedFloat

/-- The integer that a number stands for is its value. -/
theorem toWhole?_eq_some_iff {x : Float} {i : Int} :
    toWhole? x = some i ↔ value? x = some (i : ℚ) ∧ i.natAbs ≤ maxWhole := by
  unfold toWhole?
  rw [← Exact.map_value_ofFloat?]
  cases Exact.ofFloat? x with
  | none => simp
  | some e =>
    simp only [Option.map_some, Option.some_inj, Exact.value_eq_intCast_iff, Option.bind_eq_bind,
      Option.bind_some]
    constructor
    · intro h
      obtain ⟨n, hn, h⟩ := Option.bind_eq_some_iff.mp h
      split at h
      · cases h
      · next hle =>
        obtain rfl := Option.some.inj h
        refine ⟨⟨n, hn, rfl⟩, ?_⟩
        split <;> omega
    · rintro ⟨⟨n, hn, rfl⟩, hle⟩
      have hn' : ¬ maxWhole < n := by split at hle <;> omega
      rw [hn, Option.bind_some, if_neg hn']

/-! ## Rounding and packing -/

/-- A mantissa of 53 bits keeps its exponent, which is not below that of subnormals. -/
theorem targetExponent_eq {m : Nat} (hm : m.log2 = 52) {e : Int} (he : -1074 ≤ e) :
    Format.binary64.targetExponent (totalExponent m e) = e := by
  rw [Format.targetExponent, totalExponent, hm]
  change max (52 + 1 + e - 53) (-1074) = e
  omega

/-- A mantissa of 53 bits is not rounded. -/
theorem roundWithAccuracy_eq (sign : Sign) {m : Nat} (hm : m.log2 = 52) (hpos : 0 < m) {e : Int}
    (he : -1074 ≤ e) :
    roundWithAccuracy Format.binary64 sign m e .exact = .finite sign m e hpos := by
  have hshift : shiftToTargetExponent Format.binary64 m e .exact = (⟨m, false, false⟩, e) := by
    rw [shiftToTargetExponent, targetExponent_eq hm he, shiftToExponent, Int.sub_self]
    exact congrArg (Prod.mk _) (Int.add_zero e)
  have hround : ExtendedMantissa.roundedMantissa ⟨m, false, false⟩ = m := rfl
  rw [roundWithAccuracy, hshift]
  dsimp only
  rw [hround, hshift]
  exact dif_neg (Nat.ne_of_gt hpos)

/-- An integer of at most 53 bits that is shifted until it has 53. -/
theorem log2_mul_two_pow {n : Nat} (hn : 0 < n) (hlog : n.log2 ≤ 52) :
    (n * 2 ^ (52 - n.log2)).log2 = 52 := by
  obtain ⟨hlow, hhigh⟩ := (Nat.log2_eq_iff (Nat.ne_of_gt hn)).mp rfl
  have hpow : 0 < 2 ^ (52 - n.log2) := Nat.two_pow_pos _
  refine (Nat.log2_eq_iff (Nat.ne_of_gt (Nat.mul_pos hn hpow))).mpr ⟨?_, ?_⟩
  · calc 2 ^ 52 = 2 ^ n.log2 * 2 ^ (52 - n.log2) := by
          rw [← Nat.pow_add, Nat.add_sub_cancel' hlog]
      _ ≤ n * 2 ^ (52 - n.log2) := Nat.mul_le_mul_right _ hlow
  · calc n * 2 ^ (52 - n.log2) < 2 ^ (n.log2 + 1) * 2 ^ (52 - n.log2) :=
          Nat.mul_lt_mul_of_pos_right hhigh hpow
      _ = 2 ^ (52 + 1) := by
          rw [← Nat.pow_add]
          congr 1
          omega

/-- A positive integer of at most 53 bits is not rounded. -/
theorem round_eq (sign : Sign) {n : Nat} (hn : 0 < n) (hlog : n.log2 ≤ 52) :
    UnpackedFloat.round Format.binary64 sign n 0 =
      .finite sign (n * 2 ^ (52 - n.log2)) (n.log2 - 52)
        (Nat.mul_pos hn (Nat.two_pow_pos _)) := by
  have htarget : Format.binary64.targetExponent (totalExponent n 0) = (n.log2 : Int) - 52 := by
    rw [Format.targetExponent, totalExponent]
    change max ((n.log2 : Int) + 1 + 0 - 53) (-1074) = _
    omega
  have hshift : decreaseExponent n 0 ((n.log2 : Int) - 52) =
      (n * 2 ^ (52 - n.log2), (n.log2 : Int) - 52) := by
    have hamount : (0 - ((n.log2 : Int) - 52)).toNat = 52 - n.log2 := by omega
    rw [decreaseExponent, hamount, Nat.shiftLeft_eq]
    congr 1
    omega
  rw [UnpackedFloat.round, htarget, hshift]
  exact roundWithAccuracy_eq sign (log2_mul_two_pow hn hlog) _ (by omega)

/-- The parts of a word whose exponent is neither the least nor the greatest one. -/
theorem unpack_packComponents (sign : Sign) {exponent : BitVec 11} (mantissa : BitVec 52)
    (hzero : exponent ≠ 0#11) (hones : exponent ≠ -1#11) :
    UnpackedFloat.unpack Format.binary64 (packComponents Format.binary64 sign exponent mantissa) =
      .finite sign (1#1 ++ mantissa).toNat (exponent.toNat - 1075)
        (by rw [Exact.toNat_one_append]; exact Nat.add_pos_left (by decide) _) := by
  have hsign : unpackSign (packComponents Format.binary64 sign exponent mantissa) = sign.toBitVec := by
    change (sign.toBitVec ++ exponent ++ mantissa).extractLsb' 63 1 = sign.toBitVec
    rw [BitVec.extractLsb'_append_eq_of_le (by decide), BitVec.extractLsb'_append_eq_of_le (by decide)]
    cases sign <;> rfl
  have hsign' : Sign.ofBitVec sign.toBitVec = sign := by cases sign <;> rfl
  unfold UnpackedFloat.unpack
  simp only [unpackMantissa_packComponents, unpackExponent_packComponents, hsign, hsign', if_neg hones,
    if_neg hzero]
  rfl

/-- Packing a mantissa of 53 bits drops its first one and adds the bias to the exponent. -/
theorem pack_eq (sign : Sign) {m : Nat} (hm : m.log2 = 52) (hpos : 0 < m) {e : Int} (he : e ≤ 971) :
    UnpackedFloat.pack Format.binary64 (.finite sign m e hpos) =
      packComponents Format.binary64 sign (BitVec.ofNat 11 (e + 1075).toNat) (BitVec.ofNat 52 m) := by
  have hbiased : (e + Format.binary64.exponentBias + (52 : Nat)).toNat = (e + 1075).toNat := by
    change (e + (1023 : Int) + 52).toNat = _
    omega
  have hfinite : ¬ 2 ^ 11 ≤ (e + 1075).toNat + 1 := by omega
  rw [UnpackedFloat.pack]
  dsimp only
  rw [hbiased, if_neg hfinite, if_pos (by rw [hm]; rfl)]

/-- Packing keeps a mantissa of 53 bits and an exponent in the range of finite doubles. -/
theorem unpack_pack (sign : Sign) {m : Nat} (hm : m.log2 = 52) (hpos : 0 < m) {e : Int}
    (hlow : -1074 ≤ e) (hhigh : e ≤ 971) :
    (Float.Model.pack (.finite sign m e hpos)).unpack = .finite sign m e hpos := by
  obtain ⟨hleast, hgreatest⟩ := (Nat.log2_eq_iff (Nat.ne_of_gt hpos)).mp hm
  have hexponent : (BitVec.ofNat 11 (e + 1075).toNat).toNat = (e + 1075).toNat := by
    rw [BitVec.toNat_ofNat]
    exact Nat.mod_eq_of_lt (by omega)
  have hzero : BitVec.ofNat 11 (e + 1075).toNat ≠ 0#11 := by
    rw [ne_eq, ← BitVec.toNat_inj, hexponent]
    change ¬ _ = 0
    omega
  have hones : BitVec.ofNat 11 (e + 1075).toNat ≠ -1#11 := by
    rw [ne_eq, ← BitVec.toNat_inj, hexponent]
    change ¬ _ = 2047
    omega
  have hmantissa : (1#1 ++ BitVec.ofNat 52 m).toNat = m := by
    rw [Exact.toNat_one_append, BitVec.toNat_ofNat]
    change 2 ^ 52 + m % 2 ^ 52 = m
    omega
  change UnpackedFloat.unpack Format.binary64 (UnpackedFloat.pack Format.binary64 _) = _
  rw [pack_eq sign hm hpos hhigh, unpack_packComponents sign _ hzero hones]
  congr 1
  rw [hexponent]
  omega

/-! ## Numbers of integers -/

theorem log2_le_of_le_maxWhole {n : Nat} (h : n ≤ maxWhole) : n.log2 ≤ 52 := by
  obtain rfl | hn := Nat.eq_zero_or_pos n
  · decide
  · have hlt : n < 2 ^ 53 := Nat.lt_of_le_of_lt h (by decide)
    exact Nat.le_of_lt_succ ((Nat.log2_lt (Nat.ne_of_gt hn)).mpr hlt)

/-- The parts of the number of a positive integer. -/
theorem unpack_ofCount {n : Nat} (hn : 0 < n) (h : n ≤ maxWhole) :
    (ofCount n).toModel.unpack =
      .finite .positive (n * 2 ^ (52 - n.log2)) (n.log2 - 52)
        (Nat.mul_pos hn (Nat.two_pow_pos _)) := by
  have hlog := log2_le_of_le_maxWhole h
  have hword : n.toUInt64.toNat = n :=
    Nat.mod_eq_of_lt (Nat.lt_of_le_of_lt h (by decide : maxWhole < 2 ^ 64))
  have hsign : compare (n : Int) 0 = .gt := Int.compare_eq_gt.mpr (Int.natCast_pos.mpr hn)
  have hround : UnpackedFloat.ofUInt64 Format.binary64 n.toUInt64 =
      .finite .positive (n * 2 ^ (52 - n.log2)) (n.log2 - 52)
        (Nat.mul_pos hn (Nat.two_pow_pos _)) := by
    rw [UnpackedFloat.ofUInt64, UnpackedFloat.ofNat, UnpackedFloat.ofInt, hword, UnpackedFloat.normalize, hsign]
    exact round_eq .positive hn hlog
  change (Float.Model.pack (UnpackedFloat.ofUInt64 Format.binary64 n.toUInt64)).unpack = _
  rw [hround]
  exact unpack_pack .positive (log2_mul_two_pow hn hlog) _ (by omega) (by omega)

/-- Shifting a mantissa does not change the value. -/
theorem value_shifted (sign : Sign) {n k : Nat} (hk : k ≤ 52) :
    ((sign.apply (n * 2 ^ (52 - k) : Nat) : Int) : ℚ) * 2 ^ ((k : Int) - 52) = (sign.apply n : Int) := by
  have hpow : (2 : ℚ) ^ (52 - k) * 2 ^ ((k : Int) - 52) = 1 := by
    rw [← zpow_natCast, ← zpow_add₀ two_ne_zero, Nat.cast_sub hk]
    simp
  cases sign <;> simp [Sign.apply, mul_assoc, hpow]

/-- **The number of an integer is that integer**, if its magnitude is at most `maxWhole`. -/
theorem value?_ofWhole {i : Int} (h : i.natAbs ≤ maxWhole) : value? (ofWhole i) = some (i : ℚ) := by
  have hlog := log2_le_of_le_maxWhole h
  unfold ofWhole
  obtain hneg | rfl | hpos := lt_trichotomy i 0
  · rw [if_pos hneg]
    have hn : 0 < i.natAbs := by omega
    have hunpack : (-ofCount i.natAbs).toModel.unpack =
        .finite .negative (i.natAbs * 2 ^ (52 - i.natAbs.log2)) (i.natAbs.log2 - 52)
          (Nat.mul_pos hn (Nat.two_pow_pos _)) := by
      change (Float.Model.pack (ofCount i.natAbs).toModel.unpack.neg).unpack = _
      rw [unpack_ofCount hn h]
      exact unpack_pack .negative (log2_mul_two_pow hn hlog) _ (by omega) (by omega)
    rw [value?, hunpack, unpackedValue?, value_shifted _ hlog]
    have hi : Sign.negative.apply i.natAbs = i := by
      change -(i.natAbs : Int) = i
      omega
    rw [hi]
  · rfl
  · rw [if_neg (by omega), value?, unpack_ofCount (by omega) h, unpackedValue?, value_shifted _ hlog]
    have hi : Sign.positive.apply i.natAbs = i := by
      change (i.natAbs : Int) = i
      omega
    rw [hi]

/-- The check on the magnitude passes. -/
theorem ofWhole?_eq_some {i : Int} (h : i.natAbs ≤ maxWhole) : ofWhole? i = some (ofWhole i) :=
  if_neg (Nat.not_lt.mpr h)

/-- The integers whose magnitude is at most twice `maxWhole` have less than 64 bits. -/
theorem saturate_eq_self {i : Int} (h : i.natAbs ≤ 2 * maxWhole) : saturate i = i := by
  have hmax : Int64.maxValue.toInt = 2 ^ 63 - 1 := rfl
  have hmin : Int64.minValue.toInt = -2 ^ 63 := rfl
  have hle : i.natAbs ≤ 2 * (2 ^ 53 - 1) := h
  rw [saturate, hmax, hmin]
  omega

end ExprScript.Number
