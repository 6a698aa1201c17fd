import FormulaField.Operator

/-!
Tokens: the pieces of a formula's text with the place where they stand. Places are counted in bytes
of the UTF-8 encoding.
-/

namespace FormulaField

/-- The bytes from `start` up to but not including `stop`. -/
structure Span where
  start : Nat
  stop : Nat
  deriving DecidableEq

/-- What a token is. `stray` is whatever no formula can contain, and `finish` marks the end of the
text. -/
inductive TokenKind where
  | number
  | operator (o : Operator)
  | stray
  | finish
  deriving DecidableEq

/-- A token with its place and its text. -/
structure Token where
  kind : TokenKind
  span : Span
  text : String
  deriving DecidableEq

/-- The number of bytes that the characters take up. -/
def byteLength (cs : List Char) : Nat := cs.foldr (fun c n => c.utf8Size + n) 0

end FormulaField
