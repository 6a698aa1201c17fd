import FormulaField.Suggestion.Candidate

/-!
Answers of the suggestion service, kept by query for a limited time. Times are readings of a clock in
milliseconds. An answer is fresh as long as its age is less than the time to live.
-/

namespace FormulaField

/-- An answer and the time at which it came. -/
structure CacheEntry where
  query : String
  fetchedAt : Float
  candidates : List Candidate

/-- At most one answer for every query. -/
structure Cache where
  timeToLive : Float
  entries : List CacheEntry := []

namespace Cache

/-- An empty cache that keeps answers for so many milliseconds. -/
def ofMilliseconds (n : Nat) : Cache := ⟨Float.ofNat n, []⟩

/-- Tells whether an answer is still fresh. -/
def isFresh (c : Cache) (now : Float) (entry : CacheEntry) : Bool :=
  now - entry.fetchedAt < c.timeToLive

/-- The fresh answer to a query. -/
def get? (c : Cache) (query : String) (now : Float) : Option (List Candidate) :=
  ((c.entries.find? (·.query == query)).filter (c.isFresh now)).map CacheEntry.candidates

/-- Keeps an answer, in place of an earlier one to the same query, and drops what is no longer
fresh. -/
def insert (c : Cache) (query : String) (candidates : List Candidate) (now : Float) : Cache :=
  let kept := c.entries.filter fun entry => c.isFresh now entry && entry.query != query
  { c with entries := ⟨query, now, candidates⟩ :: kept }

/-- The number of answers kept. -/
def size (c : Cache) : Nat := c.entries.length

end Cache

end FormulaField
