import FormulaField.Token.Basic

/-!
The limits of the expression reader, and what can be wrong with a formula. An error that points at a
token carries its text and its place.
-/

namespace FormulaField

/-- Signs and parentheses may be nested this deep. -/
def maxDepth : Nat := 256

/-- An expression may have this many operations. -/
def maxOperations : Nat := 4096

/-- What a reading may need at most: levels of signs and parentheses, and operations. -/
structure Limits where
  depth : Nat := maxDepth
  operations : Nat := maxOperations

/-- What the reader was waiting for when it met another token. -/
inductive Expected where
  | operand | closing
  deriving DecidableEq

/-- Why a formula is no expression. -/
inductive ParseError where
  | unexpected (expected : Expected) (found : String) (span : Span)
  | unexpectedEnd
  | invalidNumber (text : String)
  | empty
  | trailing (found : String) (span : Span)
  | tooDeep
  | tooLong
  deriving DecidableEq

/-- The text of a place. -/
def Span.describe (s : Span) : String :=
  "Span \x7b start: " ++ toString s.start ++ ", end: " ++ toString s.stop ++ " \x7d"

/-- The text of what was expected. -/
def Expected.describe : Expected → String
  | operand => "number or '('"
  | closing => "')'"

/-- The text of an error. -/
def ParseError.message : ParseError → String
  | unexpected expected found span =>
    "Unexpected token: expected " ++ expected.describe ++ ", found '" ++ found ++ "' at position "
      ++ span.describe
  | unexpectedEnd => "Unexpected end of expression"
  | invalidNumber text => "Invalid number: " ++ text
  | empty => "Empty expression"
  | trailing found span =>
    "Unexpected '" ++ found ++ "' after complete expression at position " ++ span.describe
  | tooDeep => "Expression nested deeper than " ++ toString maxDepth ++ " levels"
  | tooLong => "Expression has more than " ++ toString maxOperations ++ " operators"

end FormulaField
