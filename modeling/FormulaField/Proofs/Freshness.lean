import FormulaField.Proofs.Delivery
import FormulaField.Proofs.FloatDifference

/-!
When an answer is reused. As long as the clock does not run backwards, an answer that is no longer fresh
never becomes fresh again, though ages are rounded; so what the cache drops is nothing that it would
still hand out. It answers like the list of all answers that ever came, newest first, and a query is
fetched exactly if no fresh answer to it has come.
-/

namespace FormulaField

/-! ### The clock -/

/-- One reading of the clock is not after another, and both are finite. -/
def InOrder (t now : Float) : Prop :=
  t.isFinite = true ∧ now.isFinite = true ∧ rational t ≤ rational now

/-- Finite readings of a clock that does not run backwards. -/
def Chronological (times : List Float) : Prop :=
  (∀ t ∈ times, t.isFinite = true) ∧ times.Pairwise fun t t' => rational t ≤ rational t'

theorem rational_le_iff {t now : Float} : rational t ≤ rational now ↔ units t ≤ units now := by
  have hpos : (0 : ℚ) < unitsOfOne := Nat.cast_pos.mpr unitsOfOne_pos
  rw [rational, rational, div_le_div_iff_of_pos_right hpos]
  exact_mod_cast Iff.rfl

theorem chronological_iff {times : List Float} : Chronological times ↔
    (∀ t ∈ times, t.isFinite = true) ∧ times.Pairwise fun t t' => units t ≤ units t' := by
  simp only [Chronological, rational_le_iff]

instance (times : List Float) : Decidable (Chronological times) :=
  decidable_of_iff' _ chronological_iff

theorem Chronological.inOrder {times : List Float} {t now : Float}
    (h : Chronological (times ++ [now])) (ht : t ∈ times) : InOrder t now := by
  obtain ⟨hfinite, hordered⟩ := h
  refine ⟨hfinite t (List.mem_append_left _ ht), hfinite now (by simp), ?_⟩
  exact (List.pairwise_append.mp hordered).2.2 t ht now (by simp)

theorem Chronological.init {times later : List Float} (h : Chronological (times ++ later)) :
    Chronological times :=
  ⟨fun t ht => h.1 t (List.mem_append_left _ ht), (List.pairwise_append.mp h.2).1⟩

namespace Cache

section
variable {c : Cache} {entry : CacheEntry} {entries : List CacheEntry} {query : String} {now : Float}

/-- What is fresh now was fresh before. -/
theorem isFresh_of_later {n : Nat} {earlier : Float} (hc : c.timeToLive = Float.ofNat n)
    (hearlier : InOrder earlier now) (hentry : entry.fetchedAt.isFinite = true)
    (h : c.isFresh now entry = true) : c.isFresh earlier entry = true := by
  have hle := rational_le_iff.mp hearlier.2.2
  simp only [isFresh, hc, decide_eq_true_eq] at h ⊢
  exact sub_lt_of_units_le hearlier.1 hentry hearlier.2.1 hentry (isNaN_ofNat n) (by omega) h

/-- What came later is fresh for longer. -/
theorem isFresh_of_newer {n : Nat} {t t' : Float} (horder : InOrder t t') (hnow : now.isFinite = true)
    (h : now - t < Float.ofNat n) : now - t' < Float.ofNat n := by
  have hle := rational_le_iff.mp horder.2.2
  exact sub_lt_of_units_le hnow horder.2.1 hnow horder.1 (isNaN_ofNat n) (by omega) h

/-! ### Looking up -/

/-- The cache with other entries. -/
def holding (c : Cache) (entries : List CacheEntry) : Cache := { c with entries := entries }

theorem get?_holding : (c.holding entries).get? query now =
    ((entries.find? (·.query == query)).filter (c.isFresh now)).map CacheEntry.candidates := rfl

/-- The answer to a query is the first entry for it, if that one is fresh. -/
theorem get?_cons : (c.holding (entry :: entries)).get? query now =
    if entry.query = query then if c.isFresh now entry then some entry.candidates else none
    else (c.holding entries).get? query now := by
  rw [get?_holding, get?_holding]
  by_cases hquery : entry.query = query
  · cases hfresh : c.isFresh now entry <;> simp [hquery, hfresh]
  · rw [List.find?_cons_of_neg (by simpa using hquery), if_neg hquery]

theorem get?_eq_none (h : ∀ entry ∈ entries, entry.query ≠ query) :
    (c.holding entries).get? query now = none := by
  have hfind : entries.find? (·.query == query) = none := by simpa using h
  simp [get?_holding, hfind]

/-- In a list with the newest answer first, nothing is found only if no answer is fresh. -/
theorem get?_eq_none_iff {n : Nat} (hc : c.timeToLive = Float.ofNat n) (hnow : now.isFinite = true)
    (hordered : entries.Pairwise fun e e' => InOrder e'.fetchedAt e.fetchedAt) :
    (c.holding entries).get? query now = none ↔
      ∀ e ∈ entries, e.query = query → ¬now - e.fetchedAt < Float.ofNat n := by
  induction entries with
  | nil => simp [get?_holding]
  | cons entry rest ih =>
    obtain ⟨holder, hrest⟩ := List.pairwise_cons.mp hordered
    rw [get?_cons, List.forall_mem_cons, ← ih hrest]
    by_cases hquery : entry.query = query
    · have hfresh : c.isFresh now entry = true ↔ now - entry.fetchedAt < Float.ofNat n := by
        simp [isFresh, hc]
      by_cases hnew : now - entry.fetchedAt < Float.ofNat n
      · simp [hquery, hfresh.mpr hnew, hnew]
      · -- Older answers are no fresher.
        have hold : (c.holding rest).get? query now = none := by
          rw [ih hrest]
          exact fun e he _ h => hnew (isFresh_of_newer (holder e he) hnow h)
        simp [hquery, mt hfresh.mp hnew, hnew, hold]
    · simp [hquery]

/-- Dropping what is no longer fresh, and one query, changes the answer to no other query. -/
theorem get?_filter {dropped : String} {p : CacheEntry → Bool} (hne : query ≠ dropped)
    (hdistinct : (entries.map CacheEntry.query).Nodup)
    (hkept : ∀ entry ∈ entries, c.isFresh now entry = true → p entry = true) :
    (c.holding (entries.filter fun entry => p entry && entry.query != dropped)).get? query now =
      (c.holding entries).get? query now := by
  induction entries with
  | nil => rfl
  | cons entry rest ih =>
    obtain ⟨hnew, hrest⟩ := List.nodup_cons.mp hdistinct
    have ih := ih hrest fun e he => hkept e (List.mem_cons_of_mem entry he)
    rw [get?_cons]
    by_cases hquery : entry.query = query
    · have hother : entry.query != dropped := by simpa [hquery] using hne
      rw [if_pos hquery]
      cases hp : p entry with
      | true => rw [List.filter_cons_of_pos (by simp [hp, hother]), get?_cons, if_pos hquery]
      | false =>
        -- It is not fresh now, and there is no other entry for this query.
        have hstale : ¬c.isFresh now entry = true := fun hfresh => by
          simp [hkept entry List.mem_cons_self hfresh] at hp
        rw [List.filter_cons_of_neg (by simp [hp]), if_neg hstale]
        refine get?_eq_none fun e he heq => hnew ?_
        rw [hquery, ← heq]
        exact List.mem_map_of_mem (List.mem_filter.mp he).1
    · rw [if_neg hquery, ← ih, List.filter_cons]
      split
      · rw [get?_cons, if_neg hquery]
      · rfl

end

/-! ### What is kept -/

/-- The cache answers like the list of all the answers that came, newest first. -/
structure Keeps (answers : List CacheEntry) (c : Cache) : Prop where
  subset : ∀ entry ∈ c.entries, entry ∈ answers
  distinct : (c.entries.map CacheEntry.query).Nodup
  same : ∀ query now, (∀ entry ∈ answers, InOrder entry.fetchedAt now) →
    c.get? query now = (c.holding answers).get? query now

namespace Keeps

variable {answers : List CacheEntry} {c : Cache} {n : Nat}

/-- One more answer is kept, and others are dropped only if they are of no use. -/
theorem insert (h : Keeps answers c) (hc : c.timeToLive = Float.ofNat n) (entry : CacheEntry)
    (htimes : ∀ e ∈ answers, InOrder e.fetchedAt entry.fetchedAt) :
    Keeps (entry :: answers) (c.insert entry.query entry.candidates entry.fetchedAt) := by
  have hentries : (c.insert entry.query entry.candidates entry.fetchedAt).entries = entry ::
      c.entries.filter fun e => c.isFresh entry.fetchedAt e && e.query != entry.query := rfl
  refine ⟨?_, ?_, ?_⟩
  · intro e he
    rw [hentries] at he
    rcases List.mem_cons.mp he with rfl | he
    · exact List.mem_cons_self
    · exact List.mem_cons_of_mem _ (h.subset e (List.mem_filter.mp he).1)
  · rw [hentries, List.map_cons, List.nodup_cons]
    refine ⟨?_, h.distinct.sublist (List.filter_sublist.map _)⟩
    intro hmem
    obtain ⟨e, he, hquery⟩ := List.mem_map.mp hmem
    simp [hquery] at he
  · intro query now hnow
    have hinsert : c.insert entry.query entry.candidates entry.fetchedAt = c.holding (entry ::
        c.entries.filter fun e => c.isFresh entry.fetchedAt e && e.query != entry.query) := rfl
    have hholding : ∀ es es', (c.holding es).holding es' = c.holding es' := fun _ _ => rfl
    rw [hinsert, hholding, get?_cons, get?_cons]
    by_cases hquery : entry.query = query
    · rw [if_pos hquery, if_pos hquery]
    · rw [if_neg hquery, if_neg hquery, ← h.same query now fun e he => hnow e (by simp [he])]
      refine get?_filter (Ne.symm hquery) h.distinct fun e he hfresh => ?_
      exact isFresh_of_later hc (hnow entry (by simp)) (htimes e (h.subset e he)).1 hfresh

end Keeps

end Cache

/-! ### Runs -/

namespace Event

/-- The time of an event. -/
def time? : Event → Option Float
  | query _ now | deliver _ _ _ now => some now
  | dismiss => none

/-- The answer that an event brings, if it is a successful one. -/
def answer? : Event → Option CacheEntry
  | deliver request (.ok candidates) _ now => some ⟨request.query, now, candidates⟩
  | query _ _ | deliver _ (.error _) _ _ | dismiss => none

variable {event : Event} {entry : CacheEntry}

theorem answer?_eq_some_iff : event.answer? = some entry ↔ ∃ request current,
    event = deliver request (.ok entry.candidates) current entry.fetchedAt ∧
      request.query = entry.query := by
  constructor
  · intro h
    rcases event with _ | ⟨request, _ | candidates, current, now⟩ | _ <;> cases h
    exact ⟨request, current, rfl, rfl⟩
  · rintro ⟨request, current, rfl, hquery⟩
    rw [answer?, hquery]

theorem time?_of_answer? (h : event.answer? = some entry) : event.time? = some entry.fetchedAt := by
  obtain ⟨request, current, rfl, -⟩ := answer?_eq_some_iff.mp h
  rfl

end Event

/-- The answers that came, newest first. -/
def answers (events : List Event) : List CacheEntry := (events.filterMap Event.answer?).reverse

/-- The times of some events. -/
def times (events : List Event) : List Float := events.filterMap Event.time?

theorem answers_concat (events : List Event) (event : Event) :
    answers (events ++ [event]) = event.answer?.toList ++ answers events := by
  cases h : event.answer? <;> simp [answers, h]

theorem mem_answers {events : List Event} {entry : CacheEntry} :
    entry ∈ answers events ↔ ∃ event ∈ events, event.answer? = some entry := by
  simp [answers]

open LogEntry

namespace Suggestions

section
variable {s : Suggestions} {events : List Event} {event : Event}

theorem run_concat : s.run (events ++ [event]) = ((s.run events).perform event).2 := by
  induction events generalizing s with
  | nil => rfl
  | cons e rest ih => exact ih

theorem log_concat :
    s.log (events ++ [event]) = s.log events ++ [(event, ((s.run events).perform event).1)] := by
  induction events generalizing s with
  | nil => rfl
  | cons e rest ih => exact congrArg _ ih

/-- An event brings at most one answer into the cache, and counts the request that it hands out. -/
theorem perform_spec (s : Suggestions) (event : Event) :
    ((s.perform event).2.cache = match event.answer? with
      | some entry => s.cache.insert entry.query entry.candidates entry.fetchedAt
      | none => s.cache) ∧
    (s.perform event).2.issued =
      ((issued? (event, (s.perform event).1)).map Request.seq).getD s.issued := by
  rcases event with ⟨text, now⟩ | ⟨request, result, current, now⟩ | _
  · simp only [perform]
    rcases changeQuery_cases s text now with ⟨-, heq⟩ | ⟨_, -, -, heq⟩ | ⟨-, -, heq⟩ <;> rw [heq] <;>
      exact ⟨rfl, rfl⟩
  · simp only [perform]
    by_cases hcurrent : s.pending = some request ∧ request.query = current
    · rw [deliver_of_current hcurrent]
      cases result <;> exact ⟨rfl, rfl⟩
    · rw [deliver_of_stale hcurrent]
      cases result <;> exact ⟨rfl, rfl⟩
  · exact ⟨rfl, rfl⟩

end

/-- The number of the last request that was issued, or zero. -/
def lastSeq (log : List LogEntry) : Nat := ((requests log).getLast?.map Request.seq).getD 0

/-- The requests are counted as they are issued. -/
theorem issued_run (timeToLive : Nat) (events : List Event) :
    ((ofMilliseconds timeToLive).run events).issued =
      lastSeq ((ofMilliseconds timeToLive).log events) := by
  induction events using List.reverseRecOn with
  | nil => rfl
  | append_singleton events event ih =>
    rw [run_concat, log_concat, (perform_spec _ event).2, lastSeq, requests_concat]
    cases hissued : issued? (event, (((ofMilliseconds timeToLive).run events).perform event).1) with
    | none => simpa [lastSeq] using ih
    | some request => simp

theorem inOrder_of_mem_answers {events : List Event} {entry : CacheEntry} {now : Float}
    (htimes : Chronological (times events ++ [now])) (hentry : entry ∈ answers events) :
    InOrder entry.fetchedAt now := by
  obtain ⟨event, hevent, hanswer⟩ := mem_answers.mp hentry
  exact htimes.inOrder (List.mem_filterMap.mpr ⟨event, hevent, Event.time?_of_answer? hanswer⟩)

/-- The answers come in the order of their times. -/
theorem answers_ordered {events : List Event} (htimes : Chronological (times events)) :
    (answers events).Pairwise fun e e' => InOrder e'.fetchedAt e.fetchedAt := by
  induction events using List.reverseRecOn with
  | nil => exact List.Pairwise.nil
  | append_singleton events event ih =>
    rw [times, List.filterMap_append] at htimes
    rw [answers_concat]
    cases hanswer : event.answer? with
    | none => exact ih htimes.init
    | some entry =>
      rw [List.filterMap_cons_some (Event.time?_of_answer? hanswer), List.filterMap_nil] at htimes
      exact List.pairwise_cons.mpr
        ⟨fun e he => inOrder_of_mem_answers htimes he, ih htimes.init⟩

/-- The cache answers like the list of all answers. -/
theorem keeps_run (timeToLive : Nat) {events : List Event} (htimes : Chronological (times events)) :
    ((ofMilliseconds timeToLive).run events).cache.timeToLive = Float.ofNat timeToLive ∧
    Cache.Keeps (answers events) ((ofMilliseconds timeToLive).run events).cache := by
  induction events using List.reverseRecOn with
  | nil => exact ⟨rfl, ⟨nofun, List.nodup_nil, fun _ _ _ => rfl⟩⟩
  | append_singleton events event ih =>
    rw [times, List.filterMap_append] at htimes
    obtain ⟨hlive, hkeeps⟩ := ih htimes.init
    rw [run_concat, (perform_spec _ event).1, answers_concat]
    cases hanswer : event.answer? with
    | none => exact ⟨hlive, hkeeps⟩
    | some entry =>
      rw [List.filterMap_cons_some (Event.time?_of_answer? hanswer), List.filterMap_nil] at htimes
      exact ⟨hlive, hkeeps.insert hlive entry fun e he => inOrder_of_mem_answers htimes he⟩

/-- What is found is the latest answer to the query. -/
theorem exists_latest {c : Cache} {events : List Event} {query : String} {now : Float}
    {candidates : List Candidate}
    (h : (c.holding (answers events)).get? query now = some candidates) :
    ∃ before request current t after,
      events = before ++ .deliver request (.ok candidates) current t :: after ∧
      request.query = query ∧ now - t < c.timeToLive ∧
      ∀ event ∈ after, ∀ entry, event.answer? = some entry → entry.query ≠ query := by
  induction events using List.reverseRecOn with
  | nil => cases h
  | append_singleton events event ih =>
    have hearlier : (c.holding (answers events)).get? query now = some candidates →
        (∀ entry, event.answer? = some entry → entry.query ≠ query) →
        ∃ before request current t after,
          events ++ [event] = before ++ .deliver request (.ok candidates) current t :: after ∧
          request.query = query ∧ now - t < c.timeToLive ∧
          ∀ event ∈ after, ∀ entry, event.answer? = some entry → entry.query ≠ query := by
      intro hfound hother
      obtain ⟨before, request, current, t, after, rfl, hquery, hfresh, hafter⟩ := ih hfound
      refine ⟨before, request, current, t, after ++ [event], by simp, hquery, hfresh, ?_⟩
      intro e he
      rcases List.mem_append.mp he with he | he
      · exact hafter e he
      · rw [List.mem_singleton.mp he]
        exact hother
    rw [answers_concat] at h
    cases hanswer : event.answer? with
    | none =>
      rw [hanswer] at h
      exact hearlier h (by simp [hanswer])
    | some entry =>
      rw [hanswer, Option.toList_some, List.singleton_append, Cache.get?_cons] at h
      by_cases hquery : entry.query = query
      · rw [if_pos hquery] at h
        obtain ⟨request, current, rfl, hrequest⟩ := Event.answer?_eq_some_iff.mp hanswer
        split at h
        · next hfresh =>
          cases h
          refine ⟨events, request, current, entry.fetchedAt, [], rfl, hrequest.trans hquery, ?_, ?_⟩
          · simpa [Cache.isFresh] using hfresh
          · simp
        · cases h
      · rw [if_neg hquery] at h
        refine hearlier h fun e he => ?_
        rw [hanswer] at he
        cases he
        exact hquery

/-- A query is fetched exactly if no fresh answer to it has come, and an answer that is reused is the
latest one. An answer is fresh if its age is less than the time to live, the age being the difference of
two floats; the exact age is less then, too, and the other way round if the age is a float itself and
the time to live is not too large. The cache answers as if it never dropped anything. -/
theorem fetched_iff_not_fresh (timeToLive : Nat) (events : List Event) (query : String) (now : Float)
    (hquery : query ≠ "") (htimes : Chronological (times events ++ [now])) :
    let s := (ofMilliseconds timeToLive).run events
    let log := (ofMilliseconds timeToLive).log events
    let fresh : Float → Prop := fun t => now - t < Float.ofNat timeToLive
    ((s.changeQuery query now).1 = none ↔ ∃ request candidates current t,
      .deliver request (.ok candidates) current t ∈ events ∧ request.query = query ∧ fresh t) ∧
    ((s.changeQuery query now).1 = none → ∃ before request candidates current t after,
      events = before ++ .deliver request (.ok candidates) current t :: after ∧
      request.query = query ∧ fresh t ∧
      (∀ r cs current t, .deliver r (.ok cs) current t ∈ after → r.query ≠ query) ∧
      (s.changeQuery query now).2.view =
        if Text.isAllBlank query then .hidden
        else if candidates = [] then .empty else .ready candidates) ∧
    ((s.changeQuery query now).1 ≠ none →
      (s.changeQuery query now).1 = some ⟨lastSeq log + 1, query⟩) ∧
    s.cache.get? query now = (s.cache.holding (answers events)).get? query now ∧
    (∀ t, t.isFinite = true → fresh t → rational now - rational t < timeToLive) ∧
    (∀ t, t.isFinite = true → (∃ age, rational age = rational now - rational t) →
      timeToLive ≤ 2 ^ 53 → (fresh t ↔ rational now - rational t < timeToLive)) := by
  intro s log fresh
  have hnow : now.isFinite = true := htimes.1 now (by simp)
  obtain ⟨hlive, hkeeps⟩ := keeps_run timeToLive htimes.init
  have hsame : s.cache.get? query now = (s.cache.holding (answers events)).get? query now :=
    hkeeps.same query now fun e he => inOrder_of_mem_answers htimes he
  have hreused : (s.changeQuery query now).1 = none ↔ s.cache.get? query now ≠ none := by
    rcases changeQuery_cases s query now with ⟨h, -⟩ | ⟨_, -, hget, heq⟩ | ⟨-, hget, heq⟩
    · exact absurd h hquery
    · simp [heq, hget]
    · simp [heq, hget]
  refine ⟨?_, ?_, ?_, hsame, ?_, ?_⟩
  · rw [hreused, hsame, Ne, Cache.get?_eq_none_iff hlive hnow (answers_ordered htimes.init)]
    push Not
    constructor
    · rintro ⟨entry, hentry, hentryQuery, hfresh⟩
      obtain ⟨event, hevent, hanswer⟩ := mem_answers.mp hentry
      obtain ⟨request, current, rfl, hrequest⟩ := Event.answer?_eq_some_iff.mp hanswer
      exact ⟨request, entry.candidates, current, entry.fetchedAt, hevent,
        hrequest.trans hentryQuery, hfresh⟩
    · rintro ⟨request, candidates, current, t, hevent, hrequest, hfresh⟩
      exact ⟨⟨request.query, t, candidates⟩, mem_answers.mpr ⟨_, hevent, rfl⟩, hrequest, hfresh⟩
  · intro hnone
    rcases changeQuery_cases s query now with ⟨h, -⟩ | ⟨candidates, -, hget, heq⟩ | ⟨-, -, heq⟩
    · exact absurd h hquery
    · obtain ⟨before, request, current, t, after, hevents, hrequest, hfresh, hafter⟩ :=
        exists_latest (hsame ▸ hget)
      rw [hlive] at hfresh
      refine ⟨before, request, candidates, current, t, after, hevents, hrequest, hfresh, ?_, ?_⟩
      · intro r cs current t hmem
        exact hafter _ hmem ⟨r.query, t, cs⟩ rfl
      · rw [heq]
        cases candidates <;> rfl
    · rw [heq] at hnone
      cases hnone
  · intro hsome
    rcases changeQuery_cases s query now with ⟨h, -⟩ | ⟨_, -, -, heq⟩ | ⟨-, -, heq⟩
    · exact absurd h hquery
    · rw [heq] at hsome
      exact absurd rfl hsome
    · rw [heq, issued_run]
  · intro t ht hfresh
    exact rational_sub_lt hnow ht hfresh
  · rintro t ht ⟨age, hage⟩ hsmall
    exact sub_lt_iff_rational hnow ht hage hsmall

/-- An answer is reused for less than a minute, and fetched again after a minute. -/
theorem reused_within_minute :
    let events : List Event := [.query "rev" (Float.ofBits 0),
      .deliver ⟨1, "rev"⟩ (.ok [⟨"a", "Revenue", none⟩]) "rev" (Float.ofBits 0)]
    let s := (ofMilliseconds 60000).run events
    let soon := Float.ofNat 59999
    let late := Float.ofNat 60000
    Chronological (times events ++ [soon]) ∧ Chronological (times events ++ [late]) ∧
    (s.changeQuery "rev" soon).1 = none ∧ (s.changeQuery "rev" late).1 = some ⟨2, "rev"⟩ := by
  intro events s soon late
  have hsoon : Chronological (times events ++ [soon]) := by decide +kernel
  have hlate : Chronological (times events ++ [late]) := by decide +kernel
  have h := fetched_iff_not_fresh 60000 events "rev" soon (by decide) hsoon
  have h' := fetched_iff_not_fresh 60000 events "rev" late (by decide) hlate
  have hstale : ¬late - Float.ofBits 0 < Float.ofNat 60000 := by decide +kernel
  refine ⟨hsoon, hlate, h.1.mpr ?_, h'.2.2.1 fun hnone => ?_⟩
  · refine ⟨⟨1, "rev"⟩, [⟨"a", "Revenue", none⟩], "rev", Float.ofBits 0, ?_, rfl, by decide +kernel⟩
    exact List.mem_cons_of_mem _ List.mem_cons_self
  · obtain ⟨request, candidates, current, t, hevent, -, hfresh⟩ := h'.1.mp hnone
    rcases List.mem_cons.mp hevent with hevent | hevent
    · cases hevent
    · cases List.mem_singleton.mp hevent
      exact hstale hfresh

/-- An age of less than a minute is rounded to a minute, and the query is fetched again. -/
theorem rounded_age_fetched :
    let t := Float.ofBits 0x3fb999999999999a
    let now := Float.ofBits 0x40ed4c0333333333
    let events : List Event := [.query "rev" t, .deliver ⟨1, "rev"⟩ (.ok []) "rev" t]
    let s := (ofMilliseconds 60000).run events
    Chronological (times events ++ [now]) ∧
    ¬((s.changeQuery "rev" now).1 = none ↔ ∃ request candidates current t,
      .deliver request (.ok candidates) current t ∈ events ∧ request.query = "rev" ∧
        rational now - rational t < (60000 : Nat)) := by
  intro t now events s
  have hage : rational now - rational t < (60000 : Nat) := by
    rw [rational_sub_lt_iff]
    decide +kernel
  have hfetched : (s.changeQuery "rev" now).1 = some ⟨2, "rev"⟩ := by decide +kernel
  refine ⟨by decide +kernel, fun hiff => ?_⟩
  have hnone := hiff.mpr
    ⟨⟨1, "rev"⟩, [], "rev", t, List.mem_cons_of_mem _ List.mem_cons_self, rfl, hage⟩
  rw [hfetched] at hnone
  cases hnone

end Suggestions

end FormulaField
