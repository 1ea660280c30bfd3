/-!
# Exact values of numbers

A finite number of the language is a double, that is `± m · 2^q` with a natural `m < 2^53`. Every
rule about the digits, the remainder or the integrality of a number is stated on this form.

* `Exact`, `Exact.ofFloat?`: the form, and the form of a given double;
* `Exact.toFloat`: the double of an exact value that has one;
* `Exact.magnitude?`: the magnitude of an integer;
* `maxWhole`: the largest magnitude up to which integers and doubles correspond one to one.
-/

namespace ExprScript

/-- The exact value `± mantissa · 2 ^ exponent` of a finite double. -/
structure Exact where
  negative : Bool
  mantissa : Nat
  exponent : Int
  deriving Repr, DecidableEq

namespace Exact

/-- The least exponent of a double. -/
def minExponent : Int := -1074

/-- The mantissa of a power of two that is no subnormal. -/
def leastNormal : Nat := 1 <<< 52

/-- The exact value of a finite double, and nothing for NaN and the infinities. -/
def ofFloat? (x : Float) : Option Exact :=
  let bits := x.toBits
  let negative := bits >>> 63 == 1
  let scale := ((bits >>> 52) &&& 0x7FF).toNat
  let fraction := (bits &&& 0xFFFFFFFFFFFFF).toNat
  if scale = 0x7FF then none
  else if scale = 0 then some ⟨negative, fraction, minExponent⟩
  else some ⟨negative, leastNormal + fraction, minExponent + (scale - 1 : Nat)⟩

/-- The double `2 ^ q`, for `q` between the least exponent and `1023`. -/
def twoPow (q : Int) : Float :=
  if -1022 ≤ q then Float.ofBits ((q + 1023).toNat.toUInt64 <<< 52)
  else Float.ofBits (1 <<< (q - minExponent).toNat.toUInt64)

/-- The double of an exact value whose mantissa is below `2 ^ 53`: both factors are doubles, so
their product is rounded only if the value itself is no double. -/
def toFloat (x : Exact) : Float :=
  let size := x.mantissa.toUInt64.toFloat * twoPow x.exponent
  if x.negative then -size else size

/-- The magnitude of an exact value, if it is an integer. -/
def magnitude? (x : Exact) : Option Nat :=
  if 0 ≤ x.exponent then some (x.mantissa <<< x.exponent.toNat)
  else
    let parts := 1 <<< (-x.exponent).toNat
    if x.mantissa % parts = 0 then some (x.mantissa / parts) else none

end Exact

/-- The largest magnitude up to which integers and doubles correspond one to one: every integer up
to it and its neighbour above are doubles. -/
def maxWhole : Nat := (1 <<< 53) - 1

end ExprScript
