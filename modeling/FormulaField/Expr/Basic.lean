import FormulaField.Number.Shortest

/-!
Arithmetic expressions and their values. A parenthesis pair of the source is a node of its own: it
changes neither the value nor the grouped text, which writes a pair around every operation anyway.
-/

namespace FormulaField

/-- A sign before an operand. -/
inductive Sign where
  | plus | minus
  deriving DecidableEq

/-- An operation on two operands. -/
inductive Operation where
  | add | sub | mul | div | pow
  deriving DecidableEq

namespace Sign

/-- The operand with the sign before it. -/
def apply : Sign → Float → Float
  | plus, x => x
  | minus, x => -x

/-- The character of a sign. -/
def symbol : Sign → String
  | plus => "+"
  | minus => "-"

end Sign

namespace Operation

/-- The result of an operation in binary64 arithmetic, where division by zero gives an infinity or
NaN. -/
def apply : Operation → Float → Float → Float
  | add, x, y => x + y
  | sub, x, y => x - y
  | mul, x, y => x * y
  | div, x, y => x / y
  | pow, x, y => Float.pow x y

/-- The character of an operation. -/
def symbol : Operation → String
  | add => "+"
  | sub => "-"
  | mul => "*"
  | div => "/"
  | pow => "^"

end Operation

/-- An arithmetic expression. -/
inductive Expr where
  | number (value : Float)
  | signed (sign : Sign) (operand : Expr)
  | binary (left : Expr) (operation : Operation) (right : Expr)
  | paren (inner : Expr)

namespace Expr

/-- The value of an expression. -/
def eval : Expr → Float
  | number x => x
  | signed sign e => sign.apply e.eval
  | binary left operation right => operation.apply left.eval right.eval
  | paren e => e.eval

/-- The text of a number in a grouped expression. -/
def numberDisplay (x : Float) : String := String.ofList (numberText ['i', 'n', 'f'] x)

/-- The expression with parentheses around every operation. -/
def grouped : Expr → String
  | number x => numberDisplay x
  | signed sign e => "(" ++ sign.symbol ++ e.grouped ++ ")"
  | binary left operation right =>
    "(" ++ left.grouped ++ " " ++ operation.symbol ++ " " ++ right.grouped ++ ")"
  | paren e => e.grouped

/-- Equality of expressions in which numbers are compared as numbers: zeros of either sign are
equal, and NaN differs from itself. -/
def beq : Expr → Expr → Bool
  | number x, number y => x == y
  | signed s e, signed t f => s == t && e.beq f
  | binary a o b, binary c p d => a.beq c && o == p && b.beq d
  | paren e, paren f => e.beq f
  | _, _ => false

instance : BEq Expr := ⟨beq⟩

end Expr

end FormulaField
