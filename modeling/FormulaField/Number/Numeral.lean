import FormulaField.Number.Decimal

/-!
Decimal numerals as they are written: digits, perhaps a point with more digits, perhaps an exponent
of ten. `Numeral.scan` takes the longest numeral at the head of a text, so a mark without digits
after it is left alone, and `Numeral.text` gives back the characters that were taken. At least one
digit must stand before or after the point; a point with digits on one side only is allowed.
-/

namespace FormulaField

/-- The exponent of a numeral: its mark `e` or `E`, perhaps a sign, and its digits. -/
structure Exponent where
  mark : Char
  sign : Option Char
  digits : List Char

/-- A decimal numeral. `fraction` holds the digits after the point, if there is a point. -/
structure Numeral where
  whole : List Char
  fraction : Option (List Char)
  exponent : Option Exponent

/-- Splits a sign off the head of a text. -/
def takeSign : List Char → Option Char × List Char
  | '+' :: cs => (some '+', cs)
  | '-' :: cs => (some '-', cs)
  | cs => (none, cs)

namespace Exponent

/-- The characters of an exponent. -/
def text (e : Exponent) : List Char := e.mark :: (e.sign.toList ++ e.digits)

/-- The exponent as a number. -/
def value (e : Exponent) : Int :=
  let magnitude : Int := Nat.ofDigitChars 10 e.digits 0
  if e.sign = some '-' then -magnitude else magnitude

/-- The exponent at the head of a text, and what follows it; `none` unless a digit follows the mark
and its sign. -/
def scan? : List Char → Option (Exponent × List Char)
  | [] => none
  | mark :: cs =>
    if mark = 'e' ∨ mark = 'E' then
      let signed := takeSign cs
      let digits := signed.2.takeWhile Char.isDigit
      if digits = [] then none
      else some (⟨mark, signed.1, digits⟩, signed.2.dropWhile Char.isDigit)
    else none

end Exponent

namespace Numeral

/-- The characters of a numeral. -/
def text (n : Numeral) : List Char :=
  n.whole ++ (n.fraction.map ('.' :: ·)).getD [] ++ (n.exponent.map Exponent.text).getD []

/-- Tells whether there is a digit before or after the point. -/
def hasDigits (n : Numeral) : Bool := !n.whole.isEmpty || !(n.fraction.getD []).isEmpty

/-- What the numeral denotes. -/
def value (n : Numeral) : Decimal :=
  let fraction := n.fraction.getD []
  { digits := Nat.ofDigitChars 10 (n.whole ++ fraction) 0
    exponent := (n.exponent.map Exponent.value).getD 0 - fraction.length }

/-- The fraction at the head of a text, if a point stands there, and what follows it. -/
def scanFraction : List Char → Option (List Char) × List Char
  | '.' :: cs => (some (cs.takeWhile Char.isDigit), cs.dropWhile Char.isDigit)
  | cs => (none, cs)

/-- The longest numeral at the head of a text, and what follows it. -/
def scan (cs : List Char) : Numeral × List Char :=
  let whole := cs.takeWhile Char.isDigit
  let fraction := scanFraction (cs.dropWhile Char.isDigit)
  match Exponent.scan? fraction.2 with
  | some (exponent, rest) => (⟨whole, fraction.1, some exponent⟩, rest)
  | none => (⟨whole, fraction.1, none⟩, fraction.2)

/-- Reads a text that is one numeral from end to end. -/
def read? (cs : List Char) : Option Decimal :=
  match scan cs with
  | (n, []) => if n.hasDigits then some n.value else none
  | _ => none

end Numeral

end FormulaField
