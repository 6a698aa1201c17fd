import FormulaField.Expr.Parse
import FormulaField.Formula.Tag

/-!
Formulas: sequences of pieces in reading order. Nothing is required of the sequence; whether it makes
sense shows when it is evaluated, and only then.
-/

namespace FormulaField

/-- A formula. -/
structure Formula where
  pieces : List Piece := []
  deriving BEq

namespace Formula

/-- The last piece. -/
def last? (f : Formula) : Option Piece := f.pieces.getLast?

/-- Tells whether a tag with this id is in the formula. -/
def hasTag (f : Formula) (id : String) : Bool := f.pieces.any fun p => (p.tagWithId? id).isSome

/-- Adds a piece at the end. -/
def append (f : Formula) (piece : Piece) : Formula := ⟨f.pieces ++ [piece]⟩

/-- Takes the first tag with this id out of a sequence. -/
def takeTag? (id : String) : List Piece → Option (Tag × List Piece)
  | [] => none
  | piece :: rest =>
    match piece.tagWithId? id with
    | some t => some (t, rest)
    | none => (takeTag? id rest).map fun (t, rest) => (t, piece :: rest)

/-- Removes the first tag with this id, and gives it. -/
def removeTag (f : Formula) (id : String) : Option Tag × Formula :=
  match takeTag? id f.pieces with
  | some (t, rest) => (some t, ⟨rest⟩)
  | none => (none, f)

/-- Removes the last piece, and gives it. -/
def popLast (f : Formula) : Option Piece × Formula := (f.last?, ⟨f.pieces.dropLast⟩)

/-- Chooses an option for every tag with this id, and tells whether there is one. -/
def chooseOption (f : Formula) (id option : String) : Bool × Formula :=
  (f.hasTag id, ⟨f.pieces.map (Piece.withOption id option)⟩)

/-- The text that is evaluated: the texts of the pieces with nothing between them. -/
def expression (f : Formula) : String := String.ofList (f.pieces.flatMap Piece.text)

/-- The value of the formula, or why it has none. -/
def evaluate (f : Formula) : Except ParseError Float := FormulaField.calculate f.expression

/-- The value of the formula, if it has one. -/
def calculate (f : Formula) : Option Float := f.evaluate.toOption

/-- The written form of a formula. -/
def document (f : Formula) : Document := .list (f.pieces.map Piece.document)

end Formula

/-- The written form of an expression. -/
def Expr.document : Expr → Document
  | .number x => .record [("Number", .ofFloat x)]
  | .signed sign e =>
    let op := match sign with
      | .plus => "Plus"
      | .minus => "Neg"
    .record [("UnaryOp", .record [("op", .text op), ("operand", e.document)])]
  | .binary left operation right =>
    let op := match operation with
      | .add => "Add"
      | .sub => "Sub"
      | .mul => "Mul"
      | .div => "Div"
      | .pow => "Pow"
    .record [("BinaryOp",
      .record [("left", left.document), ("op", .text op), ("right", right.document)])]
  | .paren e => .record [("Paren", e.document)]

end FormulaField
