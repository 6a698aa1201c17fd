import FormulaField.Number.Literal
import FormulaField.Text.Blank

/-!
Numbers as a user types them into the field. Blanks around the text do not count, nothing at all
counts as zero, and a text that is no number gives NaN. Unlike the numbers inside a formula, a typed
number may have a sign of its own, and the only names are those of the infinities. Whether a text is a
decimal numeral is found out by counting digits, before it is read as one.
-/

namespace FormulaField

/-- The characters dropped around a typed number: blanks and the byte order mark. -/
def isPadding (c : Char) : Bool := Text.isBlank c || c == '\uFEFF'

/-- Tells whether a text begins with a zero and the mark of a base. -/
def beginsWithMark : List Char → Bool
  | '0' :: mark :: _ => ['x', 'X', 'o', 'O', 'b', 'B'].contains mark
  | _ => false

/-- The number of digits at the head of a text, and what follows them. -/
def countDigits (cs : List Char) : Nat × List Char :=
  ((cs.takeWhile Char.isDigit).length, cs.dropWhile Char.isDigit)

/-- The number of digits behind the point at the head of a text, if there is a point, and what follows
them. -/
def countFraction : List Char → Nat × List Char
  | '.' :: cs => countDigits cs
  | cs => (0, cs)

/-- Tells whether a text is over, or is an exponent from end to end. -/
def endsNumeral : List Char → Bool
  | [] => true
  | mark :: cs =>
    if mark = 'e' ∨ mark = 'E' then
      let digits := countDigits (takeSign cs).2
      if digits.1 = 0 then false else digits.2.isEmpty
    else false

/-- Tells whether a text is a decimal numeral, with a sign before it or without. -/
def isSignedDecimal (cs : List Char) : Bool :=
  let whole := countDigits (takeSign cs).2
  let fraction := countFraction whole.2
  if whole.1 + fraction.1 = 0 then false else endsNumeral fraction.2

/-- The number that the user typed, NaN if it is none. -/
def typedNumber (text : String) : Float :=
  let cs := Text.trimBy isPadding text.toList
  if cs = [] then Float.ofBits 0
  else if cs = infinityWord ∨ cs = '+' :: infinityWord then infinity
  else if cs = '-' :: infinityWord then -infinity
  else if beginsWithMark cs then (literalValue? (String.ofList cs)).getD notANumber
  else if isSignedDecimal cs then (readSigned? plainMagnitude? cs).getD notANumber
  else notANumber

/-- Tells whether the text may be committed as a number. The empty text may, since it is zero. -/
def isTypedNumber (text : String) : Bool := !(typedNumber text).isNaN

end FormulaField
