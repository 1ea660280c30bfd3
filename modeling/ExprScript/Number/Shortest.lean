import ExprScript.Number.Exact

/-!
# The fewest digits that read back

The reals that round to a double form an interval around it. A decimal in that interval reads back
as the double; among these the one with the fewest digits is shown, and among those of one length
the nearest.

* `Decimal`: `digits · 10 ^ exponent`;
* `Exact.unit`, `Exact.under`: the value's own grid `2 ^ q`, measured on a decimal grid;
* `Exact.readsBack`: the test whether a decimal lies in the interval;
* `Exact.onGrid?`: the better neighbour of the value on the grid `10 ^ k`, if one reads back;
* `Exact.search`: the neighbour on the coarsest grid that has one;
* `Exact.shortest`: **the shortest decimal that reads back**.
-/

namespace ExprScript

/-- The decimal `digits · 10 ^ exponent`. -/
structure Decimal where
  digits : Nat
  exponent : Int
  deriving Repr, DecidableEq

namespace Exact

/-- The numerator of `2 ^ q / 10 ^ k`, where `q` is the exponent of the value. -/
def unit (x : Exact) (k : Int) : Nat := Nat.pow 10 (-k).toNat <<< x.exponent.toNat

/-- The denominator of `2 ^ q / 10 ^ k`, where `q` is the exponent of the value. -/
def under (x : Exact) (k : Int) : Nat := Nat.pow 10 k.toNat <<< (-x.exponent).toNat

/-- The gap below a power of two is half the gap above it. -/
def narrowBelow (x : Exact) : Bool :=
  x.mantissa = leastNormal && minExponent < x.exponent

/-- Whether a decimal rounds to the magnitude of `x`. The ends of the interval, half a gap away on
each side, belong to it when the mantissa is even. -/
def readsBack (x : Exact) (d : Decimal) : Bool :=
  let unit := x.unit d.exponent
  let low := (if x.narrowBelow then 4 * x.mantissa - 1 else 4 * x.mantissa - 2) * unit
  let high := (4 * x.mantissa + 2) * unit
  let here := 4 * d.digits * x.under d.exponent
  (low < here && here < high) || (x.mantissa % 2 = 0 && (here = low || here = high))

/-- The neighbour of the magnitude of `x` on the grid `10 ^ k` that reads back; of two the nearer,
and the upper one if both are equally near. -/
def onGrid? (x : Exact) (k : Int) : Option Decimal :=
  let scaled := x.mantissa * x.unit k
  let under := x.under k
  let floor : Decimal := ⟨scaled / under, k⟩
  let ceiling : Decimal := ⟨scaled / under + 1, k⟩
  match x.readsBack floor, x.readsBack ceiling with
  | true, true => some (if 2 * (scaled % under) < under then floor else ceiling)
  | true, false => some floor
  | false, true => some ceiling
  | false, false => none

/-- A power of ten above every decimal that rounds to the magnitude of `x`; `30103 / 100000` is just
above the decimal logarithm of two. -/
def coarsest (x : Exact) : Int :=
  Int.fdiv ((x.mantissa.log2 + x.exponent + 1) * 30103) 100000 + 1

/-- The shortest decimal that reads back as the magnitude of `x`, on the grids from the coarsest
down. Seventeen digits always suffice; the exact value stands behind the search. -/
def search (x : Exact) : Decimal :=
  let found := (List.range 20).findSome? fun (i : Nat) => x.onGrid? (x.coarsest - i)
  found.getD
    (if 0 ≤ x.exponent then ⟨x.mantissa <<< x.exponent.toNat, 0⟩
     else ⟨x.mantissa * Nat.pow 5 (-x.exponent).toNat, x.exponent⟩)

/-- The shortest decimal that reads back as the magnitude of `x`. For an integer up to `maxWhole` it
is the integer itself, zeros at its end aside: no other integer reads back, and a decimal with fewer
digits would be one. -/
def shortest (x : Exact) : Decimal :=
  match x.magnitude?.filter (· ≤ maxWhole) with
  | some n => ⟨n, 0⟩
  | none => x.search

end Exact

end ExprScript
