import FormulaField.Number.Numeral

/-!
The text of a binary64 value: the fewest digits that read back as the same value, and of those the
nearest to it, written positionally. The search runs over the decimal grids of one, two, up to
seventeen digits. On each grid only the two neighbours of the value can be nearest, and the first
grid on which one of them reads back is taken. Should none do, the exact value is written, which has
finitely many digits because a power of two divides a power of ten.
-/

namespace FormulaField

/-- The quotient of naturals that a finite magnitude is. -/
structure Quotient where
  num : Nat
  den : Nat

/-- The bits of the fraction field. -/
def fractionBits (x : Float) : Nat := x.toBits.toNat % Nat.pow 2 52

/-- The bits of the exponent field. -/
def exponentBits (x : Float) : Nat := x.toBits.toNat / Nat.pow 2 52 % Nat.pow 2 11

/-- Tells whether the sign bit is set, which also holds of the negative zero. -/
def isNegative (x : Float) : Bool := x.toBits.toNat / Nat.pow 2 63 == 1

/-- The magnitude of a finite value is `significand x * 2 ^ scale x`. -/
def significand (x : Float) : Nat :=
  if exponentBits x = 0 then fractionBits x else Nat.pow 2 52 + fractionBits x

/-- The magnitude of a finite value is `significand x * 2 ^ scale x`. -/
def scale (x : Float) : Int :=
  if exponentBits x = 0 then -1074 else (exponentBits x : Int) - 1075

/-- The exact magnitude of a finite value. -/
def magnitude (x : Float) : Quotient :=
  ⟨significand x * Nat.pow 2 (scale x).toNat, Nat.pow 2 (-scale x).toNat⟩

/-- The exact magnitude of a finite value as a decimal fraction. -/
def exactDecimal (x : Float) : Decimal :=
  if 0 ≤ scale x then ⟨significand x * Nat.pow 2 (scale x).toNat, 0⟩
  else ⟨significand x * Nat.pow 5 (-scale x).toNat, scale x⟩

/-- Tells whether the text of `d` reads back as `x`. -/
def readsBack (x : Float) (d : Decimal) : Bool :=
  (Numeral.read? d.text).map Decimal.toFloat = some x

/-- The neighbour of `q` on the grid `10 ^ exponent` that reads back as `x`; the nearer one if both
do, and the upper one if they are equally near. -/
def onGrid? (x : Float) (q : Quotient) (exponent : Int) : Option Decimal :=
  let num := q.num * Nat.pow 10 (-exponent).toNat
  let step := q.den * Nat.pow 10 exponent.toNat
  let below : Decimal := ⟨num / step, exponent⟩
  let above : Decimal := ⟨num / step + 1, exponent⟩
  let nearer := if 2 * (num % step) < step then below else above
  let farther := if 2 * (num % step) < step then above else below
  if readsBack x nearer then some nearer
  else if readsBack x farther then some farther
  else none

/-- The number of digits before the point, or minus the number of zeros right behind it. -/
def pointPosition (q : Quotient) : Int :=
  ((Nat.toDigits 10 (q.num * Nat.pow 10 400 / q.den)).length : Int) - 400

/-- The fewest digits that read back as the positive finite `x`. -/
def shortest (x : Float) : Decimal :=
  let q := magnitude x
  ((List.range 17).findSome? fun n => onGrid? x q (pointPosition q - (n + 1 : Nat))).getD
    (exactDecimal x)

/-- The positional text of a positive finite value, or of zero. -/
def magnitudeText (x : Float) : List Char :=
  if significand x = 0 then ['0'] else (shortest x).text

/-- The text of a value, with a name of the caller's choice for infinity. The sign of zero shows,
that of NaN does not. -/
def numberText (infinityName : List Char) (x : Float) : List Char :=
  if x.isNaN then ['N', 'a', 'N']
  else
    let sign := if isNegative x then ['-'] else []
    sign ++ if x.isInf then infinityName else magnitudeText x.abs

end FormulaField
