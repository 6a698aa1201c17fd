/-!
Documents that are written as JSON: the form in which expressions, formulas and suggestions leave the
library. A number that is not finite has no written form and becomes null.
-/

namespace FormulaField

/-- A document, ready to be written. The fields of a record are in the order of writing. -/
inductive Document where
  | null
  | number (x : Float)
  | text (s : String)
  | list (items : List Document)
  | record (fields : List (String × Document))

/-- The document of a number. -/
def Document.ofFloat (x : Float) : Document := if x.isFinite then .number x else .null

end FormulaField
