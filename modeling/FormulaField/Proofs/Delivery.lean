import FormulaField.Proofs.SuggestionRun

/-!
Which answers reach the display. An answer updates it exactly if its request is the last thing that was
asked for, is still unanswered, and is a request for the text that is in the field; so it does not
matter in which order answers come, how often, and whether anybody asked for them. What a run keeps is
`Tracks`: the request that is waited for can be read off the log.
-/

namespace FormulaField

/-- The event is the answer to a fetch. -/
def Event.isDelivery : Event → Bool
  | .deliver _ _ _ _ => true
  | .query _ _ | .dismiss => false

namespace LogEntry

/-- The request that the event handed out. -/
def issued? : LogEntry → Option Request
  | (_, .request request) => request
  | (_, .updated _) | (_, .done) => none

/-- The event is the answer to this request, and it has updated the display. -/
def updatesFor (request : Request) : LogEntry → Bool
  | (.deliver r _ _ _, .updated updated) => updated && r == request
  | _ => false

end LogEntry

open LogEntry

/-- The requests that were handed out, in order. -/
def requests (log : List LogEntry) : List Request := log.filterMap issued?

/-- A change of the query handed out this request, and only answers have come since. -/
def LastIssued (log : List LogEntry) (request : Request) : Prop :=
  ∃ before text now after, log = before ++ (.query text now, .request (some request)) :: after ∧
    ∀ entry ∈ after, entry.1.isDelivery = true

/-- An answer to this request is waited for: it was issued last, and none has updated the display. -/
def Awaited (log : List LogEntry) (request : Request) : Prop :=
  LastIssued log request ∧ log.countP (updatesFor request) = 0

section
variable {log : List LogEntry} {entry : LogEntry} {request : Request}

theorem LastIssued.mem (h : LastIssued log request) : request ∈ requests log := by
  obtain ⟨before, text, now, after, rfl, -⟩ := h
  exact List.mem_filterMap.mpr ⟨_, List.mem_append_right before List.mem_cons_self, rfl⟩

theorem requests_concat : requests (log ++ [entry]) = requests log ++ (issued? entry).toList := by
  cases hentry : issued? entry <;> simp [requests, List.filterMap_append, hentry]

theorem lastIssued_nil : ¬LastIssued [] request := by
  rintro ⟨before, _, _, after, h, -⟩
  simp at h

theorem lastIssued_concat : LastIssued (log ++ [entry]) request ↔
    (entry.1.isDelivery = true ∧ LastIssued log request) ∨
    ∃ text now, entry = (.query text now, .request (some request)) := by
  constructor
  · rintro ⟨before, text, now, after, h, hafter⟩
    rcases List.eq_nil_or_concat after with rfl | ⟨earlier, last, rfl⟩
    · obtain ⟨-, hentry⟩ := List.append_inj' h rfl
      exact Or.inr ⟨text, now, List.head_eq_of_cons_eq hentry⟩
    · rw [List.concat_eq_append] at h hafter
      rw [← List.cons_append, ← List.append_assoc] at h
      obtain ⟨hlog, hentry⟩ := List.append_inj' h rfl
      cases List.head_eq_of_cons_eq hentry
      refine Or.inl ⟨hafter entry (by simp), before, text, now, earlier, hlog, ?_⟩
      intro e he
      exact hafter e (List.mem_append_left _ he)
  · rintro (⟨hdelivery, before, text, now, after, rfl, hafter⟩ | ⟨text, now, rfl⟩)
    · refine ⟨before, text, now, after ++ [entry], by simp, ?_⟩
      intro e he
      rcases List.mem_append.mp he with he | he
      · exact hafter e he
      · rw [List.mem_singleton] at he
        rw [he]
        exact hdelivery
    · exact ⟨log, text, now, [], rfl, by simp⟩

/-- An event that hands nothing out and updates nothing: an answer leaves alone what is awaited, and
any other event ends it. -/
theorem awaited_concat_of_quiet (hissued : issued? entry = none)
    (hupdate : updatesFor request entry = false) :
    Awaited (log ++ [entry]) request ↔ entry.1.isDelivery = true ∧ Awaited log request := by
  have hquery : ¬∃ text now, entry = (.query text now, .request (some request)) := by
    rintro ⟨text, now, rfl⟩
    cases hissued
  have hcount : (log ++ [entry]).countP (updatesFor request) = log.countP (updatesFor request) := by
    simp [hupdate]
  rw [Awaited, Awaited, lastIssued_concat, or_iff_left hquery, hcount, and_assoc]

/-- A change of the query that hands out a request not answered before. -/
theorem awaited_concat_of_issue {text : String} {now : Float} {issued : Request}
    (hnew : log.countP (updatesFor issued) = 0) :
    Awaited (log ++ [(.query text now, .request (some issued))]) request ↔ issued = request := by
  rw [Awaited, lastIssued_concat]
  constructor
  · rintro ⟨⟨hdelivery, -⟩ | ⟨_, _, hentry⟩, -⟩
    · cases hdelivery
    · cases hentry
      rfl
  · rintro rfl
    refine ⟨Or.inr ⟨text, now, rfl⟩, ?_⟩
    simp [hnew, updatesFor]

/-- An answer that updates the display for `answered`, where nothing else was awaited. -/
theorem not_awaited_concat_of_update {answered : Request} {result : FetchResult} {current : String}
    {now : Float} (hsingle : Awaited log request → request = answered) :
    ¬Awaited (log ++ [(.deliver answered result current now, .updated true)]) request := by
  rintro ⟨hlast, hcount⟩
  rw [List.countP_append, Nat.add_eq_zero_iff] at hcount
  rcases lastIssued_concat.mp hlast with ⟨-, hlast⟩ | ⟨_, _, hentry⟩
  · rw [hsingle ⟨hlast, hcount.1⟩] at hcount
    simp [updatesFor] at hcount
  · cases hentry

end

namespace Suggestions

/-- What the log tells about the state. The request that is waited for is the one that is awaited by
the log, every request updates the display once at most and only after it was issued, and the numbers
of the requests grow up to the number issued. -/
structure Tracks (log : List LogEntry) (s : Suggestions) : Prop where
  pending : ∀ request, s.pending = some request ↔ Awaited log request
  once : ∀ request, log.countP (updatesFor request) ≤ 1
  known : ∀ request, log.countP (updatesFor request) ≠ 0 → request ∈ requests log
  bounded : ∀ request ∈ requests log, request.seq ≤ s.issued
  increasing : (requests log).Pairwise fun r r' => r.seq < r'.seq

namespace Tracks

variable {log : List LogEntry} {s s' : Suggestions} {entry : LogEntry}

theorem start (timeToLive : Nat) : Tracks [] (ofMilliseconds timeToLive) where
  pending _ := iff_of_false nofun fun h => lastIssued_nil h.1
  once _ := Nat.zero_le 1
  known _ h := absurd rfl h
  bounded _ h := nomatch h
  increasing := List.Pairwise.nil

/-- An event that issues new numbers only, and that updates the display only for the request that is
waited for, keeps the log in order. -/
theorem concat (h : Tracks log s) (hissued : ∀ request, issued? entry = some request →
      request.seq = s.issued + 1)
    (hcount : s'.issued = s.issued + (issued? entry).toList.length)
    (hupdate : ∀ request, updatesFor request entry = true → s.pending = some request)
    (hpending : ∀ request, s'.pending = some request ↔ Awaited (log ++ [entry]) request) :
    Tracks (log ++ [entry]) s' := by
  have hadd : ∀ request, (log ++ [entry]).countP (updatesFor request) =
      log.countP (updatesFor request) + if updatesFor request entry = true then 1 else 0 := by
    intro request
    rw [List.countP_append, List.countP_singleton]
  refine ⟨hpending, ?_, ?_, ?_, ?_⟩
  · intro request
    rw [hadd]
    split
    · next hentry =>
      obtain ⟨-, hzero⟩ := (h.pending request).mp (hupdate request hentry)
      omega
    · exact h.once request
  · intro request hne
    rw [requests_concat]
    refine List.mem_append_left _ ?_
    rw [hadd] at hne
    split at hne
    · next hentry => exact ((h.pending request).mp (hupdate request hentry)).1.mem
    · exact h.known request hne
  · intro request hmem
    rw [requests_concat] at hmem
    rcases List.mem_append.mp hmem with hmem | hmem
    · have hle := h.bounded request hmem
      omega
    · have hentry := Option.mem_toList.mp hmem
      have hseq := hissued request hentry
      rw [hcount, hentry]
      exact Nat.le_of_eq hseq
  · rw [requests_concat, List.pairwise_append]
    refine ⟨h.increasing, ?_, ?_⟩
    · cases issued? entry <;> simp
    · intro r hr r' hr'
      have hle := h.bounded r hr
      have hseq := hissued r' (Option.mem_toList.mp hr')
      omega

/-- Every event keeps the log in order. -/
theorem step (h : Tracks log s) (event : Event) :
    Tracks (log ++ [(event, (s.perform event).1)]) (s.perform event).2 := by
  cases event with
  | query text now =>
    simp only [perform]
    rcases changeQuery_cases s text now with ⟨-, heq⟩ | ⟨_, -, -, heq⟩ | ⟨-, -, heq⟩ <;> rw [heq]
    · refine h.concat nofun rfl nofun fun request => ?_
      rw [awaited_concat_of_quiet rfl rfl]
      exact iff_of_false nofun fun hawaited => nomatch hawaited.1
    · refine h.concat nofun rfl nofun fun request => ?_
      rw [awaited_concat_of_quiet rfl rfl]
      exact iff_of_false nofun fun hawaited => nomatch hawaited.1
    · have hnew : log.countP (updatesFor ⟨s.issued + 1, text⟩) = 0 := by
        refine Nat.eq_zero_of_not_pos fun hpos => ?_
        have hle : s.issued + 1 ≤ s.issued := h.bounded _ (h.known _ (Nat.ne_of_gt hpos))
        omega
      refine h.concat ?_ rfl nofun fun request => ?_
      · rintro request hrequest
        cases hrequest
        rfl
      · rw [awaited_concat_of_issue hnew, Option.some.injEq]
  | deliver request result current now =>
    simp only [perform]
    by_cases hcurrent : s.pending = some request ∧ request.query = current
    · rw [deliver_of_current hcurrent]
      refine h.concat nofun rfl ?_ fun r => ?_
      · intro r hupdate
        have hr : request = r := by simpa [updatesFor] using hupdate
        rw [← hr]
        exact hcurrent.1
      · refine iff_of_false nofun (not_awaited_concat_of_update fun hawaited => ?_)
        have hr := (h.pending r).mpr hawaited
        rw [hcurrent.1] at hr
        exact (Option.some.inj hr).symm
    · rw [deliver_of_stale hcurrent]
      refine h.concat nofun rfl nofun fun r => ?_
      rw [awaited_concat_of_quiet rfl rfl, ← h.pending]
      exact (and_iff_right rfl).symm
  | dismiss =>
    refine h.concat nofun rfl nofun fun request => ?_
    rw [awaited_concat_of_quiet rfl rfl]
    exact iff_of_false nofun fun hawaited => nomatch hawaited.1

/-- A run keeps the log in order. -/
theorem run (h : Tracks log s) (events : List Event) :
    Tracks (log ++ s.log events) (s.run events) := by
  induction events generalizing log s with
  | nil =>
    rw [Suggestions.log, List.append_nil]
    exact h
  | cons event rest ih =>
    have hrest := ih (h.step event)
    rw [List.append_assoc] at hrest
    exact hrest

end Tracks

/-- After any events at all, an answer updates the display exactly if its request is the last thing
that was asked for, no answer to it has updated the display before, and it is a request for the text in
the field. So every request updates the display once at most; an answer that does not leaves what is
shown and what is waited for alone; a failure is never kept; and the numbers of the requests grow. -/
theorem deliver_updates_iff (timeToLive : Nat) (events : List Event) :
    let s := (ofMilliseconds timeToLive).run events
    let log := (ofMilliseconds timeToLive).log events
    (∀ request result current now, (s.deliver request result current now).1 = true ↔
      LastIssued log request ∧ (∀ entry ∈ log, updatesFor request entry = false) ∧
        current = request.query) ∧
    (∀ request, log.countP (updatesFor request) ≤ 1) ∧
    (∀ request result current now, (s.deliver request result current now).1 = false →
      (s.deliver request result current now).2.view = s.view ∧
      (s.deliver request result current now).2.pending = s.pending) ∧
    (∀ request error current now,
      (s.deliver request (.error error) current now).2.cache = s.cache) ∧
    (requests log).Pairwise (fun r r' => r.seq < r'.seq) := by
  intro s log
  have h : Tracks log s := (Tracks.start timeToLive).run events
  refine ⟨?_, h.once, ?_, ?_, h.increasing⟩
  · intro request result current now
    have hcount : log.countP (updatesFor request) = 0 ↔
        ∀ entry ∈ log, updatesFor request entry = false := by
      simp [List.countP_eq_zero]
    rw [deliver_eq_true_iff, h.pending, Awaited, hcount, and_assoc, eq_comm (a := current)]
  · intro request result current now hfalse
    have hstale : ¬(s.pending = some request ∧ request.query = current) := by
      rw [← deliver_eq_true_iff result now, hfalse]
      exact Bool.false_ne_true
    rw [deliver_of_stale hstale]
    exact ⟨rfl, rfl⟩
  · intro request error current now
    by_cases hcurrent : s.pending = some request ∧ request.query = current
    · rw [deliver_of_current hcurrent]
      rfl
    · rw [deliver_of_stale hcurrent]
      rfl

/-- The answer for `r` comes after the user has typed on; the answer for `re` is still awaited. -/
theorem late_answer_ignored :
    let s := (ofMilliseconds 60000).run [.query "r" (Float.ofBits 0), .query "re" (Float.ofBits 0)]
    (s.deliver ⟨1, "r"⟩ (.ok []) "re" (Float.ofBits 0)).1 = false ∧
    (s.deliver ⟨1, "r"⟩ (.ok []) "re" (Float.ofBits 0)).2.pending = some ⟨2, "re"⟩ ∧
    LastIssued ((ofMilliseconds 60000).log
      [.query "r" (Float.ofBits 0), .query "re" (Float.ofBits 0)]) ⟨2, "re"⟩ := by
  have h := deliver_updates_iff 60000 [.query "r" (Float.ofBits 0), .query "re" (Float.ofBits 0)]
  have hlate := h.2.2.1 ⟨1, "r"⟩ (.ok []) "re" (Float.ofBits 0) (by decide)
  have hlast := (h.1 ⟨2, "re"⟩ (.ok []) "re" (Float.ofBits 0)).mp (by decide)
  exact ⟨by decide, hlate.2, hlast.1⟩

end Suggestions

end FormulaField
