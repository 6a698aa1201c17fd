import FormulaField.Json.Number

/-!
Reading records from JSON. A record is written as an object, or as an array of its fields in their
order, where fields may be missing at the end. A field may be given once only. A field that the
record does not have is ignored or refused, as the record wants it.
-/

namespace FormulaField.Json

/-- What becomes of the fields that a record does not have. -/
inductive Unknown where
  | ignored | refused
  deriving DecidableEq

/-- The text of a string. -/
def text? : Json → Option String
  | .string text => text
  | _ => none

/-- The items of an array, each read by `item?`. -/
def list? {α : Type} (item? : Json → Option α) : Json → Option (List α)
  | .array items => items.mapM item?
  | _ => none

/-- The value of the only field with a name, `none` inside if there is no such field. -/
def field? (name : String) (fields : List (String × Json)) : Option (Option Json) :=
  match fields.filter (·.1 == name) with
  | [] => some none
  | [(_, value)] => some (some value)
  | _ => none

/-- The values of the named fields of a record. -/
def fields? (unknown : Unknown) (names : List String) : Json → Option (List (Option Json))
  | .array items =>
    if items.length ≤ names.length then
      some (items.map some ++ List.replicate (names.length - items.length) none)
    else none
  | .object fields => do
    let fields ← fields.mapM fun (name, value) => name.map (·, value)
    if unknown = .refused && fields.any (fun field => !names.contains field.1) then none
    else names.mapM (field? · fields)
  | _ => none

/-- Keeps of every repeated field the last one only, as in a value that is read before its meaning
is known. -/
def lastFields : List (Option String × Json) → List (Option String × Json)
  | [] => []
  | field :: rest =>
    if rest.any (·.1 == field.1) then lastFields rest else field :: lastFields rest

/-- A value whose fields are unique on its outermost level. -/
def settled : Json → Json
  | .object fields => .object (lastFields fields)
  | other => other

end FormulaField.Json
