import ExprScript.Number.Shortest

/-!
# Numerals

How numbers are read and shown. A numeral is `digits` or `digits.digits`, in requests with an
optional sign. Numbers are shown positionally, never with an exponent, and without a fraction when
they are integral.

* `ofDigits`, `ofNumeral`: reading;
* `Decimal.text`, `text`: showing.
-/

namespace ExprScript

/-- The positional notation of a decimal. -/
def Decimal.text (d : Decimal) : String :=
  let shown := Nat.toDigits 10 d.digits
  if 0 ≤ d.exponent then
    String.ofList (shown ++ List.replicate d.exponent.toNat '0')
  else
    let places := (-d.exponent).toNat
    let padded := List.replicate (places + 1 - shown.length) '0' ++ shown
    let whole := padded.length - places
    String.ofList (padded.take whole ++ '.' :: padded.drop whole)

namespace Number

/-- The value of a sequence of decimal digits. -/
def ofDigits (digits : List Char) : Nat :=
  digits.foldl (fun n c => 10 * n + (c.toNat - '0'.toNat)) 0

/-- The double nearest to `whole.fraction`, with ties to even. -/
def ofNumeral (whole fraction : List Char) : Float :=
  Float.ofScientific (ofDigits (whole ++ fraction)) true fraction.length

/-- The text of a number: the fewest digits that read back, written positionally, with the sign of
negative zero kept. -/
def text (x : Float) : String :=
  match Exact.ofFloat? x with
  | none => if x.isNaN then "NaN" else if x < 0.0 then "-inf" else "inf"
  | some value =>
    let sign := if value.negative then "-" else ""
    if value.mantissa = 0 then sign ++ "0" else sign ++ value.shortest.text

end Number

end ExprScript
