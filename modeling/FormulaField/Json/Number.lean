import FormulaField.Json.Basic

/-!
The value of a JSON number. Its leading digits are gathered into a whole number of 64 bits, the other
digits only move the point, and the power of ten is applied by one multiplication or division. Each
of these steps is rounded, so the result may differ from the nearest value in the last place. A
number beyond the finite range is refused.
-/

namespace FormulaField.Json

/-- The greatest number of 64 bits. -/
def maxWord : Nat := UInt64.size - 1

/-- Adds digits to a number as long as it fits 64 bits, and gives the digits that are left. -/
def gather (n : Nat) : List Char → Nat × List Char
  | [] => (n, [])
  | c :: rest =>
    let more := 10 * n + (c.toNat - '0'.toNat)
    if more ≤ maxWord then gather more rest else (n, c :: rest)

/-- The power of ten as a binary64 value. -/
def powerOfTen (exponent : Nat) : Float := (Decimal.mk 1 exponent).toFloat

/-- `x * 10 ^ exponent` for a magnitude `x`, `none` if it is not finite. A negative exponent beyond
the range of the powers is worked off in steps of 308. -/
def scaleByTen? (x : Float) (exponent : Int) : Option Float :=
  if 0 ≤ exponent then
    if exponent ≤ 308 then
      let scaled := x * powerOfTen exponent.toNat
      if scaled.isInf then none else some scaled
    else if x == Float.ofBits 0 then some x else none
  else if -308 ≤ exponent then some (x / powerOfTen (-exponent).toNat)
  else if x == Float.ofBits 0 then some x
  else scaleByTen? (x / powerOfTen 308) (exponent + 308)
termination_by (-exponent).toNat

/-- The magnitude of a JSON number, `none` if it is beyond the finite range. -/
def magnitude? (n : Numeral) : Option Float :=
  let fraction := n.fraction.getD []
  let (leading, dropped) := gather 0 n.whole
  let (significand, ignored) := gather leading fraction
  let kept := fraction.length - ignored.length
  scaleByTen? (Float.ofNat significand)
    ((n.exponent.map Exponent.value).getD 0 + dropped.length - kept)

/-- The value of a JSON number as a float. -/
def float? : Json → Option Float
  | .number negative n => (magnitude? n).map fun x => if negative then -x else x
  | _ => none

/-- The value of a JSON number as a whole number from zero up to `limit`. It must be written without
a sign, a point or an exponent. -/
def natural? (limit : Nat) : Json → Option Nat
  | .number false ⟨whole, none, none⟩ =>
    let n := Nat.ofDigitChars 10 whole 0
    if n ≤ limit then some n else none
  | _ => none

end FormulaField.Json
