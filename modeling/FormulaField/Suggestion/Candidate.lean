import FormulaField.Json.Document
import FormulaField.Json.Record

/-!
What the suggestion service is asked and what it answers: requests, candidates for tags, and the ways
in which a fetch can fail.
-/

namespace FormulaField

/-- A tag that the service offers. Its value may be missing. -/
structure Candidate where
  id : String
  name : String
  value : Option Float

/-- A fetch that is to be made. Requests are numbered in the order in which they are issued. -/
structure Request where
  seq : Nat
  query : String
  deriving DecidableEq

/-- Why a fetch brought no candidates. -/
inductive FetchError where
  | status (code : Nat)
  | transport (detail : String)
  | decode (detail : String)

/-- The text of an error. -/
def FetchError.message : FetchError → String
  | status code => "Suggestion service responded with status " ++ toString code
  | transport detail => "Failed to reach suggestion service: " ++ detail
  | decode detail => "Malformed suggestion response: " ++ detail

namespace Candidate

/-- The written form of a candidate, which leaves out a missing value. -/
def document (c : Candidate) : Document :=
  let value := match c.value with
    | some x => [("value", .ofFloat x)]
    | none => []
  .record ([("id", .text c.id), ("name", .text c.name)] ++ value)

/-- Reads the value of a candidate, which may be missing or null. -/
def value? : Option Json → Option (Option Float)
  | none | some .null => some none
  | some value => value.float?.map some

/-- Reads a candidate. -/
def ofJson? (json : Json) : Option Candidate := do
  match ← json.fields? .ignored ["id", "name", "value"] with
  | [some id, some name, value] => return ⟨← id.text?, ← name.text?, ← value? value⟩
  | _ => none

/-- Reads the answer of the service, a list of candidates. -/
def listOfText? (text : String) : Option (List Candidate) :=
  (Json.read? text).bind (Json.list? ofJson?)

end Candidate

/-- Reads a request. -/
def Request.ofText? (text : String) : Option Request := do
  match ← (← Json.read? text).fields? .ignored ["seq", "query"] with
  | [some seq, some query] => return ⟨← seq.natural? Json.maxWord, ← query.text?⟩
  | _ => none

end FormulaField
