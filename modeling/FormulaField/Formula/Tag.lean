import FormulaField.Json.Document
import FormulaField.Number.Literal
import FormulaField.Number.Shortest

/-!
Tags and the other pieces of a formula. A tag stands for a number under a name. Its value is fixed
when it is made; its name grows by a suffix whenever one of its options is chosen. Equality of tags
compares values as numbers: zeros of either sign are equal, and NaN differs from itself.
-/

namespace FormulaField

/-- A named number, with the options that can be chosen for it. -/
structure Tag where
  id : String
  name : String
  value : Float
  options : List String
  deriving BEq

/-- A piece of a formula: a text that stands for itself, or a tag. -/
inductive Piece where
  | literal (text : String)
  | tag (tag : Tag)
  deriving BEq

/-- The text of a number inside a formula. -/
def valueText (x : Float) : List Char := numberText infinityWord x

namespace Tag

/-- The tag with an option as a suffix of its name. -/
def withOption (t : Tag) (option : String) : Tag := { t with name := t.name ++ " (" ++ option ++ ")" }

/-- The written form of a tag, which leaves out an empty list of options. -/
def document (t : Tag) : Document :=
  let options := if t.options.isEmpty then [] else [("options", .list (t.options.map .text))]
  .record ([("id", .text t.id), ("name", .text t.name), ("value", .ofFloat t.value)] ++ options)

end Tag

namespace Piece

/-- The tag that a piece is, if its id is `id`. -/
def tagWithId? (id : String) : Piece → Option Tag
  | literal _ => none
  | tag t => if t.id = id then some t else none

/-- What a piece contributes to the expression: a tag gives its value, never its name. -/
def text : Piece → List Char
  | literal s => s.toList
  | tag t => valueText t.value

/-- The piece after an option was chosen for the tag `id`. -/
def withOption (id option : String) : Piece → Piece
  | literal s => literal s
  | tag t => if t.id = id then tag (t.withOption option) else tag t

/-- The written form of a piece. -/
def document : Piece → Document
  | literal s => .record [("kind", .text "literal"), ("value", .text s)]
  | tag t => .record [("kind", .text "tag_ref"), ("value", t.document)]

end Piece

end FormulaField
