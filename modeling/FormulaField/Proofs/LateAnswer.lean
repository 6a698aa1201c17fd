import Mathlib.Data.List.Perm.Subperm
import FormulaField.Proofs.Freshness

/-!
What becomes of an answer that comes late. The display goes by the numbers of the requests: only the
answer to the newest request of all is ever put on it. The cache goes by arrival: it holds for every
query the answer that came last, whichever request that was for. So where the answers to one query come
in the order of their requests, the newest of them is found; but if an older request is answered after a
newer one, its answer takes the place of the newer one's.
-/

namespace FormulaField

open LogEntry

namespace Event

/-- The request that an event is the answer to. -/
def answered? : Event → Option Request
  | deliver request _ _ _ => some request
  | query _ _ | dismiss => none

/-- The request and the answer, if the event is a successful answer to this query. -/
def answerTo? (query : String) : Event → Option (Request × List Candidate)
  | deliver request (.ok candidates) _ _ =>
    if request.query = query then some (request, candidates) else none
  | deliver _ (.error _) _ _ | Event.query _ _ | dismiss => none

variable {event : Event} {query : String} {request : Request} {candidates : List Candidate}

theorem answerTo?_eq_some_iff : event.answerTo? query = some (request, candidates) ↔
    ∃ current now, event = deliver request (.ok candidates) current now ∧ request.query = query := by
  constructor
  · intro h
    rcases event with _ | ⟨r, _ | cs, current, now⟩ | _
    · cases h
    · cases h
    · obtain ⟨hquery, hpair⟩ := Option.ite_none_right_eq_some.mp h
      cases hpair
      exact ⟨current, now, rfl, hquery⟩
    · cases h
  · rintro ⟨current, now, rfl, hquery⟩
    exact if_pos hquery

/-- What a successful answer is to one query, it is to no other. -/
theorem answerTo?_of_answer? {entry : CacheEntry} (h : event.answer? = some entry) :
    (∃ request, event.answerTo? entry.query = some (request, entry.candidates)) ∧
    ∀ query, query ≠ entry.query → event.answerTo? query = none := by
  obtain ⟨request, current, rfl, hquery⟩ := answer?_eq_some_iff.mp h
  refine ⟨⟨request, if_pos hquery⟩, fun query hne => if_neg ?_⟩
  rw [hquery]
  exact hne.symm

theorem answerTo?_of_answer?_eq_none (h : event.answer? = none) (query : String) :
    event.answerTo? query = none := by
  rcases event with _ | ⟨r, _ | cs, current, now⟩ | _
  · rfl
  · rfl
  · cases h
  · rfl

end Event

/-- The successful answers to a query, with their requests, in the order in which they came. -/
def answersTo (query : String) (events : List Event) : List (Request × List Candidate) :=
  events.filterMap (Event.answerTo? query)

theorem answersTo_concat (query : String) (events : List Event) (event : Event) :
    answersTo query (events ++ [event]) =
      answersTo query events ++ (event.answerTo? query).toList := by
  cases h : event.answerTo? query <;> simp [answersTo, h]

/-! ### Faithful answers -/

/-- The requests that were answered, in order, whether the answer was a success or not. -/
def answered (log : List LogEntry) : List Request := log.filterMap fun entry => entry.1.answered?

/-- Every answer is to one of the requests that wait for it, `waiting` or issued before the answer, and
no request is answered twice. -/
def faithful : List Request → List LogEntry → Bool
  | _, [] => true
  | waiting, entry :: rest =>
    match entry.1.answered? with
    | some request => waiting.contains request && faithful (waiting.erase request) rest
    | none => faithful (waiting ++ (issued? entry).toList) rest

theorem requests_cons (entry : LogEntry) (rest : List LogEntry) :
    requests (entry :: rest) = (issued? entry).toList ++ requests rest := by
  cases h : issued? entry <;> simp [requests, h]

/-- Faithful answers are to requests that were issued, and there are no more of them. -/
theorem answered_subperm {waiting : List Request} {log : List LogEntry}
    (h : faithful waiting log = true) :
    (answered log).Subperm (waiting ++ requests log) := by
  induction log generalizing waiting with
  | nil => exact List.nil_subperm
  | cons entry rest ih =>
    rw [requests_cons]
    simp only [faithful] at h
    cases hanswered : entry.1.answered? with
    | some request =>
      rw [hanswered, Bool.and_eq_true, List.contains_iff_mem] at h
      have hcons : answered (entry :: rest) = request :: answered rest :=
        List.filterMap_cons_some hanswered
      have hperm : waiting.Perm (request :: waiting.erase request) := List.perm_cons_erase h.1
      have hrest : (request :: answered rest).Subperm (waiting ++ requests rest) :=
        ((List.subperm_cons request).mpr (ih h.2)).trans
          (hperm.symm.append_right (requests rest)).subperm
      rw [hcons]
      refine hrest.trans (List.Sublist.subperm ?_)
      exact (List.Sublist.refl waiting).append (List.sublist_append_right _ _)
    | none =>
      rw [hanswered] at h
      have hcons : answered (entry :: rest) = answered rest := List.filterMap_cons_none hanswered
      rw [hcons, ← List.append_assoc]
      exact ih h

theorem answersTo_sublist (query : String) (events : List Event) (s : Suggestions) :
    ((answersTo query events).map Prod.fst).Sublist (answered (s.log events)) := by
  induction events generalizing s with
  | nil => exact List.Sublist.refl []
  | cons event rest ih =>
    have hrest := ih (s.perform event).2
    cases hanswer : event.answerTo? query with
    | none =>
      rw [answersTo, List.filterMap_cons_none hanswer]
      refine hrest.trans ?_
      exact (List.sublist_cons_self _ _).filterMap _
    | some answer =>
      obtain ⟨request, candidates⟩ := answer
      obtain ⟨current, now, rfl, -⟩ := Event.answerTo?_eq_some_iff.mp hanswer
      rw [answersTo, List.filterMap_cons_some hanswer]
      exact hrest.cons_cons request

namespace Suggestions

section
variable {timeToLive : Nat} {events : List Event}

/-- Only requests that were issued have answers, and none has two. -/
theorem answersTo_of_faithful (h : faithful [] ((ofMilliseconds timeToLive).log events) = true)
    (query : String) :
    (∀ answer ∈ answersTo query events,
      answer.1 ∈ requests ((ofMilliseconds timeToLive).log events)) ∧
    (answersTo query events).Pairwise fun a b => a.1.seq ≠ b.1.seq := by
  let log := (ofMilliseconds timeToLive).log events
  have htracks : Tracks log ((ofMilliseconds timeToLive).run events) :=
    (Tracks.start timeToLive).run events
  have hanswered : (answered log).Subperm (requests log) := answered_subperm h
  have hsublist := answersTo_sublist query events (ofMilliseconds timeToLive)
  constructor
  · intro answer hanswer
    exact hanswered.subset (hsublist.subset (List.mem_map_of_mem hanswer))
  · have hrequests : ((requests log).map Request.seq).Nodup :=
      List.pairwise_map.mpr (htracks.increasing.imp fun h => Nat.ne_of_lt h)
    obtain ⟨l, hperm, hsub⟩ := hanswered
    have hnodup : ((answered log).map Request.seq).Nodup :=
      (hperm.map Request.seq).nodup_iff.mp (hrequests.sublist (hsub.map Request.seq))
    have hseqs := hnodup.sublist (hsublist.map Request.seq)
    rw [List.map_map] at hseqs
    exact List.pairwise_map.mp hseqs

/-! ### What the cache holds -/

/-- The cache holds for every query the answer that came last, and no other. -/
theorem cache_run (timeToLive : Nat) (events : List Event) :
    (((ofMilliseconds timeToLive).run events).cache.entries.map CacheEntry.query).Nodup ∧
    ∀ entry ∈ ((ofMilliseconds timeToLive).run events).cache.entries, ∃ earlier request,
      answersTo entry.query events = earlier ++ [(request, entry.candidates)] := by
  induction events using List.reverseRecOn with
  | nil => exact ⟨List.nodup_nil, nofun⟩
  | append_singleton events event ih =>
    obtain ⟨hdistinct, hlast⟩ := ih
    rw [run_concat, (perform_spec _ event).1]
    cases hanswer : event.answer? with
    | none =>
      refine ⟨hdistinct, fun entry hentry => ?_⟩
      rw [answersTo_concat, Event.answerTo?_of_answer?_eq_none hanswer, Option.toList_none,
        List.append_nil]
      exact hlast entry hentry
    | some new =>
      obtain ⟨⟨request, hnew⟩, hother⟩ := Event.answerTo?_of_answer? hanswer
      refine ⟨?_, fun entry hentry => ?_⟩
      · refine List.nodup_cons.mpr ⟨?_, hdistinct.sublist (List.filter_sublist.map _)⟩
        intro hmem
        obtain ⟨entry, hentry, hquery⟩ := List.mem_map.mp hmem
        simp [hquery] at hentry
      · rw [answersTo_concat]
        rcases List.mem_cons.mp hentry with rfl | hentry
        · exact ⟨answersTo new.query events, request, by rw [hnew]; rfl⟩
        · obtain ⟨hentry, hkept⟩ := List.mem_filter.mp hentry
          have hquery : entry.query ≠ new.query := by
            simpa using (Bool.and_eq_true_iff.mp hkept).2
          rw [hother entry.query hquery, Option.toList_none, List.append_nil]
          exact hlast entry hentry

/-- The request that is waited for is the newest. -/
theorem seq_of_pending {request : Request}
    (h : ((ofMilliseconds timeToLive).run events).pending = some request) :
    request.seq = ((ofMilliseconds timeToLive).run events).issued := by
  induction events using List.reverseRecOn with
  | nil => cases h
  | append_singleton events event ih =>
    rw [run_concat] at h ⊢
    generalize (ofMilliseconds timeToLive).run events = s at h ih ⊢
    cases event with
    | query text now =>
      simp only [perform] at h ⊢
      rcases changeQuery_cases s text now with ⟨-, heq⟩ | ⟨_, -, -, heq⟩ | ⟨-, -, heq⟩ <;>
        rw [heq] at h ⊢ <;> cases h
      rfl
    | deliver r result current now =>
      simp only [perform] at h ⊢
      by_cases hcurrent : s.pending = some r ∧ r.query = current
      · rw [deliver_of_current hcurrent] at h
        cases h
      · rw [deliver_of_stale hcurrent] at h ⊢
        exact ih h
    | dismiss => cases h

/-- A query that is not fetched shows the answer that came last. -/
theorem last_answer_of_reused {query : String} {now : Float} (hquery : query ≠ "")
    (hnone : (((ofMilliseconds timeToLive).run events).changeQuery query now).1 = none) :
    ∃ entry ∈ ((ofMilliseconds timeToLive).run events).cache.entries, ∃ earlier request,
      entry.query = query ∧ answersTo query events = earlier ++ [(request, entry.candidates)] ∧
      (((ofMilliseconds timeToLive).run events).changeQuery query now).2.view =
        shown query (.ofCandidates entry.candidates) := by
  rcases changeQuery_cases ((ofMilliseconds timeToLive).run events) query now with
    ⟨h, -⟩ | ⟨candidates, -, hget, heq⟩ | ⟨-, -, heq⟩
  · exact absurd h hquery
  · obtain ⟨entry, hentry, rfl, rfl⟩ := Cache.exists_of_get?_eq_some hget
    obtain ⟨earlier, request, hanswers⟩ := (cache_run timeToLive events).2 entry hentry
    exact ⟨entry, hentry, earlier, request, rfl, hanswers, by rw [heq]⟩
  · rw [heq] at hnone
    cases hnone

/-- Only the newest request of all is ever answered on the display. -/
theorem seq_le_of_deliver {request : Request} {result : FetchResult} {current : String}
    {now : Float} (h : (((ofMilliseconds timeToLive).run events).deliver request result
      current now).1 = true) :
    ∀ r ∈ requests ((ofMilliseconds timeToLive).log events), r.seq ≤ request.seq := by
  have htracks : Tracks ((ofMilliseconds timeToLive).log events)
      ((ofMilliseconds timeToLive).run events) := (Tracks.start timeToLive).run events
  obtain ⟨hpending, -⟩ := (deliver_eq_true_iff result now).mp h
  rw [seq_of_pending hpending]
  exact htracks.bounded

end

/-- A late answer never takes the place of a newer one on the display, where only the newest request of
all is answered. In the cache the answer that came last counts: what it holds for a query, and shows
when the query is typed again, is the answer to the last request for it that was answered, and so the
answer to the newest of these if they were answered in their order. -/
theorem cached_answer_came_last (timeToLive : Nat) (events : List Event)
    (hfaithful : faithful [] ((ofMilliseconds timeToLive).log events) = true) :
    let s := (ofMilliseconds timeToLive).run events
    let log := (ofMilliseconds timeToLive).log events
    (s.cache.entries.map CacheEntry.query).Nodup ∧
    (∀ entry ∈ s.cache.entries, ∃ earlier request,
      answersTo entry.query events = earlier ++ [(request, entry.candidates)] ∧
      request ∈ requests log ∧ (∀ answer ∈ earlier, answer.1.seq ≠ request.seq) ∧
      ((answersTo entry.query events).Pairwise (fun a b => a.1.seq ≤ b.1.seq) →
        ∀ answer ∈ answersTo entry.query events, answer.1.seq ≤ request.seq)) ∧
    (∀ query now, query ≠ "" → (s.changeQuery query now).1 = none →
      ∃ earlier request candidates,
        answersTo query events = earlier ++ [(request, candidates)] ∧
        (s.changeQuery query now).2.view = shown query (.ofCandidates candidates)) ∧
    (∀ request result current now, (s.deliver request result current now).1 = true →
      request ∈ requests log ∧ ∀ r ∈ requests log, r.seq ≤ request.seq) := by
  intro s log
  obtain ⟨hdistinct, hlast⟩ := cache_run timeToLive events
  refine ⟨hdistinct, fun entry hentry => ?_, ?_, ?_⟩
  · obtain ⟨earlier, request, hanswers⟩ := hlast entry hentry
    obtain ⟨hissued, hseqs⟩ := answersTo_of_faithful hfaithful entry.query
    rw [hanswers] at hissued hseqs ⊢
    refine ⟨earlier, request, rfl, hissued (request, entry.candidates) (by simp), ?_, ?_⟩
    · intro answer hanswer
      exact (List.pairwise_append.mp hseqs).2.2 answer hanswer _ List.mem_cons_self
    · intro hinOrder answer hanswer
      rcases List.mem_append.mp hanswer with hanswer | hanswer
      · exact (List.pairwise_append.mp hinOrder).2.2 answer hanswer _ List.mem_cons_self
      · rw [List.mem_singleton.mp hanswer]
  · intro query now hquery hnone
    obtain ⟨entry, -, earlier, request, -, hanswers, hview⟩ := last_answer_of_reused hquery hnone
    exact ⟨earlier, request, entry.candidates, hanswers, hview⟩
  · intro request result current now hupdated
    have htracks : Tracks log s := (Tracks.start timeToLive).run events
    obtain ⟨hpending, -⟩ := (deliver_eq_true_iff result now).mp hupdated
    exact ⟨((htracks.pending request).mp hpending).1.mem, seq_le_of_deliver hupdated⟩

/-- Two requests for one query, answered in their order: the newer answer is found again. -/
theorem newer_answer_kept :
    let t := Float.ofBits 0
    let events : List Event := [.query "re" t, .query "r" t, .query "re" t,
      .deliver ⟨1, "re"⟩ (.ok [⟨"a", "Old", none⟩]) "re" t,
      .deliver ⟨3, "re"⟩ (.ok [⟨"b", "New", none⟩]) "re" t]
    let s := (ofMilliseconds 60000).run events
    faithful [] ((ofMilliseconds 60000).log events) = true ∧
    (s.changeQuery "re" t).1 = none ∧
    (s.changeQuery "re" t).2.view = .ready [⟨"b", "New", none⟩] := by
  intro t events s
  have hfaithful : faithful [] ((ofMilliseconds 60000).log events) = true := by decide +kernel
  have hnone : (s.changeQuery "re" t).1 = none := by decide +kernel
  obtain ⟨-, -, hretyped, -⟩ := cached_answer_came_last 60000 events hfaithful
  obtain ⟨earlier, request, candidates, hanswers, hview⟩ := hretyped "re" t (by decide) hnone
  have hlast := congrArg List.getLast? hanswers
  rw [List.getLast?_concat] at hlast
  cases hlast
  exact ⟨hfaithful, hnone, hview⟩

/-- Two requests for one query, answered the other way round: the answer to the older request takes the
place of the newer one, and is shown when the query is typed again. -/
theorem older_answer_kept :
    let t := Float.ofBits 0
    let events : List Event := [.query "re" t, .query "r" t, .query "re" t,
      .deliver ⟨3, "re"⟩ (.ok [⟨"b", "New", none⟩]) "re" t,
      .deliver ⟨1, "re"⟩ (.ok [⟨"a", "Old", none⟩]) "re" t]
    let s := (ofMilliseconds 60000).run events
    faithful [] ((ofMilliseconds 60000).log events) = true ∧
    (¬∀ entry ∈ s.cache.entries, ∃ answer ∈ answersTo entry.query events,
      answer.2 = entry.candidates ∧
      ∀ other ∈ answersTo entry.query events, other.1.seq ≤ answer.1.seq) ∧
    (s.changeQuery "re" t).2.view = .ready [⟨"a", "Old", none⟩] := by
  intro t events s
  have hnone : (s.changeQuery "re" t).1 = none := by decide +kernel
  obtain ⟨entry, hentry, earlier, request, hquery, hanswers, hview⟩ :=
    last_answer_of_reused (by decide) hnone
  have hlast := congrArg List.getLast? hanswers
  rw [List.getLast?_concat] at hlast
  obtain ⟨-, hcandidates⟩ := Prod.mk.inj (Option.some.inj hlast)
  refine ⟨by decide +kernel, fun hnewest => ?_, by rw [hview, ← hcandidates]; rfl⟩
  obtain ⟨answer, hanswer, hheld, hseq⟩ := hnewest entry hentry
  rw [hquery] at hanswer hseq
  rw [← hcandidates] at hheld
  rcases List.mem_cons.mp hanswer with rfl | hanswer
  · simp at hheld
  · rw [List.mem_singleton.mp hanswer] at hseq
    exact absurd (hseq _ List.mem_cons_self) (by decide)

end Suggestions

end FormulaField
