import FormulaField.Number.Nearest

/-!
Numerals in base two, eight and sixteen: `0b101`, `0o17`, `0x1F`, with the mark in either case. The
value is gathered from the left, and every step of it is rounded to a binary64 value; up to 53
significant bits all steps are exact.
-/

namespace FormulaField

/-- The bases that have a mark of their own. -/
inductive Radix where
  | binary | octal | hexadecimal
  deriving DecidableEq

namespace Radix

/-- The number of digits in the base. -/
def base : Radix → Nat
  | .binary => 2
  | .octal => 8
  | .hexadecimal => 16

/-- The base that a mark stands for. -/
def ofMark? : Char → Option Radix
  | 'b' | 'B' => some .binary
  | 'o' | 'O' => some .octal
  | 'x' | 'X' => some .hexadecimal
  | _ => none

/-- The value of a digit, its letters in either case; `none` for what is no digit of the base. -/
def digit? (r : Radix) (c : Char) : Option Nat :=
  let value :=
    if '0' ≤ c ∧ c ≤ '9' then some (c.toNat - '0'.toNat)
    else if 'a' ≤ c ∧ c ≤ 'f' then some (c.toNat - 'a'.toNat + 10)
    else if 'A' ≤ c ∧ c ≤ 'F' then some (c.toNat - 'A'.toNat + 10)
    else none
  value.filter (· < r.base)

/-- Tells whether `c` is a digit of the base. -/
def isDigit (r : Radix) (c : Char) : Bool := (r.digit? c).isSome

/-- The base and the remaining text, if the text begins with a zero and a mark. -/
def strip? : List Char → Option (Radix × List Char)
  | '0' :: mark :: rest => (ofMark? mark).map (·, rest)
  | _ => none

/-- The natural number that a run of digits denotes; `none` if it holds anything else. -/
def natural? (r : Radix) (digits : List Char) : Option Nat :=
  digits.foldlM (fun n c => (r.digit? c).map (r.base * n + ·)) 0

/-- The value of a run of digits, rounded after every digit; `none` if the run is empty or holds
anything else. -/
def value? (r : Radix) (digits : List Char) : Option Float :=
  if digits = [] then none
  else digits.foldlM
    (fun sum c => (r.digit? c).map fun d => sum * Float.ofNat r.base + Float.ofNat d)
    (Float.ofBits 0)

end Radix

end FormulaField
