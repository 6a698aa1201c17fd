import FormulaField.Number.Numeral
import FormulaField.Number.Radix

/-!
The values of number texts. A text is a number if it is one of the words `Infinity` and `NaN`, a
numeral with the mark of its base, or a plain number: a decimal numeral or a name of infinity or
NaN in any case, with a sign before it or without.
-/

namespace FormulaField

/-- The word for infinity in a formula. -/
def infinityWord : List Char := ['I', 'n', 'f', 'i', 'n', 'i', 't', 'y']

/-- The word for what is not a number in a formula. -/
def nanWord : List Char := ['N', 'a', 'N']

/-- Reads a sign and then a magnitude; a minus sign negates the rounded magnitude, so that `-0` is
the negative zero. -/
def readSigned? (magnitude? : List Char → Option Float) (cs : List Char) : Option Float :=
  match takeSign cs with
  | (some '-', rest) => (magnitude? rest).map fun x => -x
  | (_, rest) => magnitude? rest

/-- The magnitude that a decimal numeral denotes. -/
def decimalMagnitude? (cs : List Char) : Option Float := (Numeral.read? cs).map Decimal.toFloat

/-- The magnitude of a decimal numeral, or of a name of infinity or NaN in any case. -/
def plainMagnitude? (cs : List Char) : Option Float :=
  let name := cs.map Char.toLower
  if name = ['i', 'n', 'f'] ∨ name = infinityWord.map Char.toLower then some infinity
  else if name = nanWord.map Char.toLower then some notANumber
  else decimalMagnitude? cs

/-- The value of a number text, `none` for any other text. -/
def literalValue? (text : String) : Option Float :=
  let cs := text.toList
  if cs = infinityWord then some infinity
  else if cs = nanWord then some notANumber
  else match Radix.strip? cs with
    | some (radix, digits) => radix.value? digits
    | none => readSigned? plainMagnitude? cs

end FormulaField
