import FormulaField.Number.Nearest

/-!
Decimal fractions: a natural number times a power of ten. They are what a numeral denotes exactly,
before it is rounded to a binary64 value, and what is written out for one.
-/

namespace FormulaField

/-- The number `digits * 10 ^ exponent`. -/
structure Decimal where
  digits : Nat
  exponent : Int
  deriving DecidableEq

namespace Decimal

/-- The nearest binary64 value. Beyond a power of ten of 400 on either side the answer is infinity
or zero, and the power is not computed. -/
def toFloat (d : Decimal) : Float :=
  if d.digits = 0 then Float.ofBits 0
  else if 400 < d.exponent then infinity
  else if d.exponent + (d.digits.log2 + 1 : Nat) < -400 then Float.ofBits 0
  else nearest (d.digits * Nat.pow 10 d.exponent.toNat) (Nat.pow 10 (-d.exponent).toNat)

/-- The digits behind the point, `places` of them, without the zeros at the end. -/
def fractionText (places part : Nat) : List Char :=
  let digits := Nat.toDigits 10 part
  let padded := List.replicate (places - digits.length) '0' ++ digits
  (padded.reverse.dropWhile (· == '0')).reverse

/-- The positional text: the whole part, and a point with the fraction if there is one. No exponent
is ever written. -/
def text (d : Decimal) : List Char :=
  let whole := d.digits * Nat.pow 10 d.exponent.toNat
  let places := (-d.exponent).toNat
  let scale := Nat.pow 10 places
  match fractionText places (whole % scale) with
  | [] => Nat.toDigits 10 (whole / scale)
  | fraction => Nat.toDigits 10 (whole / scale) ++ '.' :: fraction

end Decimal

end FormulaField
