import ExprScript.Number.Exact

/-!
# The remainder of a division

`Number.remainder a b` is `a - b · n` for the integer `n` nearest to `a / b` on the side of zero. It
is computed without rounding: both numbers are written over the smaller of their two exponents,
where the remainder is one of natural numbers. The result is always a double, and it has the sign
of `a`.
-/

namespace ExprScript

/-- The mantissa of the magnitude of `x` over an exponent that is at most its own. -/
def Exact.mantissaAt (x : Exact) (q : Int) : Nat :=
  x.mantissa <<< (x.exponent - q).toNat

/-- The remainder of two exact values, the second not zero. -/
def Exact.remainder (a b : Exact) : Exact :=
  let q := min a.exponent b.exponent
  ⟨a.negative, a.mantissaAt q % b.mantissaAt q, q⟩

/-- The remainder of a division that truncates. There is none of an infinity, nor of a division by
zero; an infinite divisor leaves the number as it is. -/
def Number.remainder (a b : Float) : Float :=
  match Exact.ofFloat? a, Exact.ofFloat? b with
  | some x, some y => if y.mantissa = 0 then 0.0 / 0.0 else (x.remainder y).toFloat
  | some _, none => if b.isNaN then b else a
  | none, _ => 0.0 / 0.0

end ExprScript
