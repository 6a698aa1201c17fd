/-!
The operator characters of a formula: five arithmetic signs and two parentheses. They are what the
operator keys type, and they are tokens of their own wherever they stand in a formula.
-/

namespace FormulaField

/-- An operator character. -/
inductive Operator where
  | plus | minus | star | slash | caret | leftParen | rightParen
  deriving DecidableEq

namespace Operator

/-- All operators, in the order of their keys. -/
def all : List Operator := [plus, minus, star, slash, caret, leftParen, rightParen]

/-- The character of an operator. -/
def char : Operator → Char
  | plus => '+'
  | minus => '-'
  | star => '*'
  | slash => '/'
  | caret => '^'
  | leftParen => '('
  | rightParen => ')'

/-- The operator that a character is, if it is one. -/
def ofChar? : Char → Option Operator
  | '+' => some plus
  | '-' => some minus
  | '*' => some star
  | '/' => some slash
  | '^' => some caret
  | '(' => some leftParen
  | ')' => some rightParen
  | _ => none

theorem ofChar?_char (o : Operator) : ofChar? o.char = some o := by cases o <;> rfl

theorem mem_all (o : Operator) : o ∈ all := by cases o <;> decide

end Operator

end FormulaField
