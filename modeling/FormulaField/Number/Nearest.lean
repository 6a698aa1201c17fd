/-!
The binary64 value nearest to a quotient of natural numbers. The quotient is placed on the grid of
its binade, `2 ^ unitExponent`, rounded to a whole number of grid steps with a half going to the even
neighbour, and the step count is then laid out as bits. Consecutive bit patterns are consecutive
values, so a count that rounds up into the next binade needs no special case, and everything from
the infinite pattern upward is infinity.
-/

namespace FormulaField

/-- Positive infinity. -/
def infinity : Float := Float.ofBits 0x7FF0000000000000

/-- The value that is not a number. -/
def notANumber : Float := Float.ofBits 0x7FF8000000000000

/-- The whole number nearest to `num / den`; a half goes to the even neighbour. -/
def roundHalfEven (num den : Nat) : Nat :=
  let low := num / den
  let twice := 2 * (num % den)
  if twice < den then low
  else if den < twice then low + 1
  else if low % 2 = 0 then low else low + 1

/-- The greatest `e` with `2 ^ e ≤ num / den`, for positive `num` and `den`. -/
def floorLog2 (num den : Nat) : Int :=
  let guess : Int := (num.log2 : Int) - (den.log2 : Int)
  if num * Nat.pow 2 (-guess).toNat < den * Nat.pow 2 guess.toNat then guess - 1 else guess

/-- The exponent of the grid on which `num / den` is rounded: 53 significant bits, and never finer
than the least positive value. -/
def unitExponent (num den : Nat) : Int := max (floorLog2 num den - 52) (-1074)

/-- `num / den` rounded to the nearest binary64 value, ties to even, for a positive `den`. -/
def nearest (num den : Nat) : Float :=
  if num = 0 then Float.ofBits 0
  else
    let unit := unitExponent num den
    let steps := roundHalfEven (num * Nat.pow 2 (-unit).toNat) (den * Nat.pow 2 unit.toNat)
    Float.ofBits (min ((unit + 1074).toNat * Nat.pow 2 52 + steps) 0x7FF0000000000000).toUInt64

end FormulaField
