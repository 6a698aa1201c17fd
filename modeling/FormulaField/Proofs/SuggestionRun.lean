import FormulaField.Suggestion.Basic

/-!
Runs of the suggestions. An event is a change of the query, the answer to a fetch, or a dismissal;
answers may come in any order, more than once, or to requests that were never made, and the times may
be any numbers. A run leaves a log of its events and of what each was answered by. The two events that
can do different things are told here case by case, and nothing later looks into them again.
-/

namespace FormulaField

/-- Something that happens to the suggestions. -/
inductive Event where
  | query (text : String) (now : Float)
  | deliver (request : Request) (result : FetchResult) (current : String) (now : Float)
  | dismiss

/-- What an event is answered by: the request to be fetched, or whether the display was updated. -/
inductive Outcome where
  | request (request : Option Request)
  | updated (updated : Bool)
  | done

/-- An event with its outcome. -/
abbrev LogEntry := Event × Outcome

/-! ### Displays -/

namespace View

variable {candidates shown : List Candidate}

theorem ofCandidates_eq_ready (h : ofCandidates candidates = ready shown) :
    candidates = shown ∧ shown ≠ [] := by
  cases candidates with
  | nil => cases h
  | cons c cs =>
    cases h
    exact ⟨rfl, List.cons_ne_nil c cs⟩

theorem ofCandidates_eq_empty (h : ofCandidates candidates = empty) : candidates = [] := by
  cases candidates with
  | nil => rfl
  | cons c cs => cases h

theorem ofCandidates_ne (candidates : List Candidate) :
    ofCandidates candidates ≠ hidden ∧ ofCandidates candidates ≠ loading := by
  cases candidates <;> simp [ofCandidates]

theorem ofResult_ne (result : FetchResult) :
    ofResult result ≠ hidden ∧ ofResult result ≠ loading := by
  cases result with
  | ok candidates => exact ofCandidates_ne candidates
  | error e => simp [ofResult]

end View

/-! ### The cache -/

namespace Cache

/-- The cache after an answer: a successful one is kept, whatever becomes of the display. -/
def afterAnswer (c : Cache) (request : Request) (result : FetchResult) (now : Float) : Cache :=
  match result with
  | .ok candidates => c.insert request.query candidates now
  | .error _ => c

variable {c : Cache} {entry : CacheEntry}

/-- What is kept after an answer was kept before, or is that answer. -/
theorem mem_afterAnswer {request : Request} {result : FetchResult} {now : Float}
    (h : entry ∈ (c.afterAnswer request result now).entries) : entry ∈ c.entries ∨
      ∃ candidates, result = .ok candidates ∧ entry = ⟨request.query, now, candidates⟩ := by
  cases result with
  | ok candidates =>
    rcases List.mem_cons.mp h with rfl | h
    · exact Or.inr ⟨candidates, rfl, rfl⟩
    · exact Or.inl (List.mem_filter.mp h).1
  | error e => exact Or.inl h

theorem exists_of_get?_eq_some {query : String} {now : Float} {candidates : List Candidate}
    (h : c.get? query now = some candidates) :
    ∃ entry ∈ c.entries, entry.query = query ∧ entry.candidates = candidates := by
  obtain ⟨entry, hfound, rfl⟩ := Option.map_eq_some_iff.mp h
  have hfind := (Option.filter_eq_some_iff.mp hfound).1
  exact ⟨entry, List.mem_of_find?_eq_some hfind, by simpa using List.find?_some hfind, rfl⟩

end Cache

namespace Suggestions

section
variable {query : String} {view shown' : View}

theorem shown_eq_hidden_iff (h : view ≠ .hidden) :
    shown query view = .hidden ↔ Text.isAllBlank query = true := by
  unfold shown
  split <;> simp_all

theorem shown_eq_iff (h : shown' ≠ .hidden) :
    shown query view = shown' ↔ view = shown' ∧ Text.isAllBlank query = false := by
  unfold shown
  split
  · next hblank => simp [hblank, h.symm]
  · next hblank => simp [hblank]

end

/-! ### One event -/

section
variable {s : Suggestions} {request : Request} {current : String}

/-- A change of the query waits for nothing and hides the display, or shows a fresh answer, or waits
for a request of its own. -/
theorem changeQuery_cases (s : Suggestions) (query : String) (now : Float) :
    (query = "" ∧ s.changeQuery query now = (none, s.dismiss)) ∨
    (∃ candidates, query ≠ "" ∧ s.cache.get? query now = some candidates ∧
      s.changeQuery query now =
        (none, { s with pending := none, view := shown query (.ofCandidates candidates) })) ∨
    (query ≠ "" ∧ s.cache.get? query now = none ∧
      s.changeQuery query now = (some ⟨s.issued + 1, query⟩,
        { s with
          pending := some ⟨s.issued + 1, query⟩
          issued := s.issued + 1
          view := shown query .loading })) := by
  unfold changeQuery
  by_cases hquery : query = ""
  · exact Or.inl ⟨hquery, if_pos hquery⟩
  · rw [if_neg hquery]
    cases s.cache.get? query now with
    | some candidates => exact Or.inr (Or.inl ⟨candidates, hquery, rfl, rfl⟩)
    | none => exact Or.inr (Or.inr ⟨hquery, rfl, rfl⟩)

theorem deliver_of_current (h : s.pending = some request ∧ request.query = current)
    (result : FetchResult) (now : Float) : s.deliver request result current now = (true,
      { s with
        cache := s.cache.afterAnswer request result now
        pending := none
        view := shown current (.ofResult result) }) := by
  cases result <;> exact if_pos h

theorem deliver_of_stale (h : ¬(s.pending = some request ∧ request.query = current))
    (result : FetchResult) (now : Float) : s.deliver request result current now =
      (false, { s with cache := s.cache.afterAnswer request result now }) := by
  cases result <;> exact if_neg h

theorem deliver_eq_true_iff (result : FetchResult) (now : Float) :
    (s.deliver request result current now).1 = true ↔
      s.pending = some request ∧ request.query = current := by
  by_cases h : s.pending = some request ∧ request.query = current
  · rw [deliver_of_current h]
    exact iff_of_true rfl h
  · rw [deliver_of_stale h]
    exact iff_of_false Bool.false_ne_true h

end

/-! ### Runs -/

/-- Carries out an event. -/
def perform (s : Suggestions) : Event → Outcome × Suggestions
  | .query text now =>
    let (request, s) := s.changeQuery text now
    (.request request, s)
  | .deliver request result current now =>
    let (updated, s) := s.deliver request result current now
    (.updated updated, s)
  | .dismiss => (.done, s.dismiss)

/-- The suggestions after some events. -/
def run (s : Suggestions) : List Event → Suggestions
  | [] => s
  | event :: rest => (s.perform event).2.run rest

/-- The log of some events. -/
def log (s : Suggestions) : List Event → List LogEntry
  | [] => []
  | event :: rest => (event, (s.perform event).1) :: (s.perform event).2.log rest

end Suggestions

end FormulaField
