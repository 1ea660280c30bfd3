import ExprScript.Number.Exact

/-!
# Whole numbers

Indices and range bounds are numbers that stand for an integer without any doubt, which are the
integers of magnitude at most `maxWhole`.

* `toWhole?`, `toIndex?`: the integer a number stands for, and the natural number;
* `ofWhole?`, `ofCount`: the number of an integer, and the nearest number of a count;
* `saturate`: the integer of 64 bits that is nearest to an integer.
-/

namespace ExprScript.Number

/-- The integer a number stands for: it must be finite, integral and of magnitude at most
`maxWhole`. -/
def toWhole? (x : Float) : Option Int := do
  let value ← Exact.ofFloat? x
  let size ← value.magnitude?
  if maxWhole < size then none
  else some (if value.negative then -(size : Int) else size)

/-- The natural number a number stands for. -/
def toIndex? (x : Float) : Option Nat := do
  let i ← toWhole? x
  if i < 0 then none else some i.toNat

/-- The number nearest to a count of at most 64 bits. -/
def ofCount (n : Nat) : Float := n.toUInt64.toFloat

/-- The number of an integer of magnitude at most `maxWhole`. -/
def ofWhole (i : Int) : Float :=
  if i < 0 then -(ofCount i.natAbs) else ofCount i.natAbs

/-- The number of an integer, unless its magnitude is too large to be sure of it. -/
def ofWhole? (i : Int) : Option Float :=
  if maxWhole < i.natAbs then none else some (ofWhole i)

/-- The signed integer of 64 bits nearest to an integer. -/
def saturate (i : Int) : Int := max Int64.minValue.toInt (min i Int64.maxValue.toInt)

end ExprScript.Number
