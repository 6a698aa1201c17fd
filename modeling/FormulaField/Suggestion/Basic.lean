import FormulaField.Suggestion.Cache
import FormulaField.Text.Blank

/-!
The list of suggestions under the field. Every change of the query replaces the request that is
waited for, so an answer is shown only if it belongs to the latest request and to the text that is
in the field when it comes. A late answer still goes into the cache. For a query of blanks nothing
is shown, though its answer is fetched.
-/

namespace FormulaField

/-- What is on display. `empty` means that nothing matched or that the fetch failed. -/
inductive View where
  | hidden
  | loading
  | ready (candidates : List Candidate)
  | empty

/-- The answer to a fetch. -/
abbrev FetchResult := Except FetchError (List Candidate)

namespace View

/-- The display of an answer. -/
def ofCandidates : List Candidate → View
  | [] => empty
  | candidates => ready candidates

/-- The display that follows from the answer to a fetch. -/
def ofResult : FetchResult → View
  | .ok candidates => ofCandidates candidates
  | .error _ => empty

/-- The candidates on display. -/
def candidates : View → List Candidate
  | ready candidates => candidates
  | _ => []

/-- The written form of a display. -/
def document : View → Document
  | hidden => .record [("state", .text "hidden")]
  | loading => .record [("state", .text "loading")]
  | ready candidates =>
    .record [("state", .text "ready"), ("candidates", .list (candidates.map Candidate.document))]
  | empty => .record [("state", .text "empty")]

end View

/-- The display with the request that is waited for, the number of requests issued, and the cache. -/
structure Suggestions where
  cache : Cache
  pending : Option Request := none
  issued : Nat := 0
  view : View := .hidden

namespace Suggestions

/-- No request yet, and a cache that keeps answers for so many milliseconds. -/
def ofMilliseconds (timeToLive : Nat) : Suggestions := { cache := .ofMilliseconds timeToLive }

/-- Hides the display and waits for nothing. -/
def dismiss (s : Suggestions) : Suggestions := { s with pending := none, view := .hidden }

/-- The display of something that belongs to `query`: nothing for a query of blanks. -/
def shown (query : String) (view : View) : View := if Text.isAllBlank query then .hidden else view

/-- Reacts to a new query. The answer is the request that has to be fetched; there is none for the
empty query and for one with a fresh answer in the cache. -/
def changeQuery (s : Suggestions) (query : String) (now : Float) : Option Request × Suggestions :=
  if query = "" then (none, s.dismiss)
  else
    match s.cache.get? query now with
    | some candidates =>
      (none, { s with pending := none, view := shown query (.ofCandidates candidates) })
    | none =>
      let request : Request := ⟨s.issued + 1, query⟩
      (some request,
        { s with pending := some request, issued := s.issued + 1, view := shown query .loading })

/-- Takes in the answer to a request while `current` is in the field, and tells whether the display
follows it. -/
def deliver (s : Suggestions) (request : Request) (result : FetchResult) (current : String)
    (now : Float) : Bool × Suggestions :=
  let s := match result with
    | .ok candidates => { s with cache := s.cache.insert request.query candidates now }
    | .error _ => s
  if s.pending = some request ∧ request.query = current then
    (true, { s with pending := none, view := shown current (View.ofResult result) })
  else (false, s)

end Suggestions

end FormulaField
