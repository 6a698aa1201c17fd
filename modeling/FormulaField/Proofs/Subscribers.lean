import FormulaField.Proofs.Notices

/-!
Subscribers come and go while the formula changes. A log keeps every call of a store with its answer,
and the store can be read off it: the handles given out are the numbers from zero on, and the
subscribers are those of them that no call has taken away, in the order in which they came. So a change
that is announced reaches each of them once. What one subscriber hears in all is told without the
others: the formulas of the announced changes from its subscription on, up to its end.
-/

namespace FormulaField

/-- A call of a store. -/
inductive StoreCall where
  | subscribe
  | unsubscribe (handle : Nat)
  | change (c : Change)

/-- What a call is answered by: the handle of the new subscriber, or whether one was removed. -/
inductive StoreAnswer where
  | handle (handle : Nat)
  | removed (removed : Bool)
  | done

/-- A call with its answer. -/
abbrev StoreEntry := StoreCall × StoreAnswer

namespace StoreEntry

/-- The handle that the call gave out. -/
def handle? : StoreEntry → Option Nat
  | (_, .handle h) => some h
  | (_, .removed _) | (_, .done) => none

/-- The call has removed this subscriber. -/
def removes (handle : Nat) : StoreEntry → Bool
  | (.unsubscribe h, .removed removed) => removed && h == handle
  | _ => false

end StoreEntry

open StoreEntry

/-- The handles that were given out, in order. -/
def handles (log : List StoreEntry) : List Nat := log.filterMap handle?

/-- The subscriber with this handle was removed. -/
def wasRemoved (log : List StoreEntry) (handle : Nat) : Bool := log.any (removes handle)

/-- The handles that were given out and not removed, in order. -/
def subscribed (log : List StoreEntry) : List Nat := (handles log).filter fun h => !wasRemoved log h

/-- The formulas that some calls announce, from the formula `f` on. Who has subscribed does not
matter. -/
def announced (f : Formula) : List StoreCall → List Formula
  | [] => []
  | .change c :: rest => (if c.wakes f then [c.next f] else []) ++ announced (c.next f) rest
  | .subscribe :: rest | .unsubscribe _ :: rest => announced f rest

section
variable {log : List StoreEntry} {entry : StoreEntry} {h : Nat}

theorem handles_concat : handles (log ++ [entry]) = handles log ++ entry.handle?.toList := by
  cases hentry : entry.handle? <;> simp [handles, List.filterMap_append, hentry]

theorem wasRemoved_concat :
    wasRemoved (log ++ [entry]) h = (wasRemoved log h || entry.removes h) := by
  simp [wasRemoved]

theorem mem_subscribed : h ∈ subscribed log ↔ h ∈ handles log ∧ wasRemoved log h = false := by
  simp [subscribed]

/-- A call that gives out no handle can only take subscribers away. -/
theorem subscribed_concat (hhandle : entry.handle? = none) :
    subscribed (log ++ [entry]) = (subscribed log).filter fun h => !entry.removes h := by
  rw [subscribed, handles_concat, hhandle, subscribed, List.filter_filter]
  simp [wasRemoved_concat, Bool.and_comm]

/-- A call that gives out a new handle adds a subscriber at the end. -/
theorem subscribed_concat_handle (hhandle : entry.handle? = some h)
    (hremoves : ∀ k, entry.removes k = false) (hnew : wasRemoved log h = false) :
    subscribed (log ++ [entry]) = subscribed log ++ [h] := by
  rw [subscribed, handles_concat, hhandle, subscribed]
  simp [wasRemoved_concat, hremoves, hnew]

end

namespace Store

/-! ### Runs -/

/-- Carries out a call. -/
def act (s : Store) : StoreCall → Reply Store StoreAnswer
  | .subscribe => ⟨.handle s.subscribe.1, s.subscribe.2, []⟩
  | .unsubscribe h => ⟨.removed (s.unsubscribe h).1, (s.unsubscribe h).2, []⟩
  | .change c => { s.perform c with value := .done }

/-- The store after some calls. -/
def run (s : Store) : List StoreCall → Store
  | [] => s
  | call :: rest => (s.act call).state.run rest

/-- The log of some calls. -/
def log (s : Store) : List StoreCall → List StoreEntry
  | [] => []
  | call :: rest => (call, (s.act call).value) :: (s.act call).state.log rest

/-- The notices that some calls send, in order. -/
def sent (s : Store) : List StoreCall → List Notice
  | [] => []
  | call :: rest => (s.act call).notices ++ (s.act call).state.sent rest

section
variable {s : Store} {calls : List StoreCall} {h : Nat}

theorem run_append (s : Store) (calls more : List StoreCall) :
    s.run (calls ++ more) = (s.run calls).run more := by
  induction calls generalizing s with
  | nil => rfl
  | cons call rest ih => exact ih (s.act call).state

theorem sent_append (s : Store) (calls more : List StoreCall) :
    s.sent (calls ++ more) = s.sent calls ++ (s.run calls).sent more := by
  induction calls generalizing s with
  | nil => rfl
  | cons call rest ih =>
    rw [List.cons_append, sent, ih, sent, List.append_assoc]
    rfl

/-! ### The log tells who has subscribed -/

/-- What the log tells of the store. -/
structure Registers (log : List StoreEntry) (s : Store) : Prop where
  issued : handles log = List.range s.issued
  subscribers : s.subscribers = subscribed log
  removed : ∀ h, wasRemoved log h = true → h ∈ handles log

namespace Registers

variable {log : List StoreEntry}

theorem new (f : Formula) : Registers [] { formula := f } where
  issued := rfl
  subscribers := rfl
  removed _ h := nomatch h

theorem nodup_handles (h : Registers log s) : (handles log).Nodup := by
  rw [h.issued]
  exact List.nodup_range

theorem nodup (h : Registers log s) : s.subscribers.Nodup := by
  rw [h.subscribers]
  exact h.nodup_handles.filter _

theorem lt_issued (h : Registers log s) {handle : Nat} (hmem : handle ∈ s.subscribers) :
    handle < s.issued := by
  rw [h.subscribers, mem_subscribed, h.issued] at hmem
  exact List.mem_range.mp hmem.1

/-- The next handle is new. -/
theorem not_removed (h : Registers log s) : wasRemoved log s.issued = false := by
  cases hremoved : wasRemoved log s.issued with
  | false => rfl
  | true =>
    have hmem := h.removed _ hremoved
    rw [h.issued] at hmem
    exact absurd (List.mem_range.mp hmem) (Nat.lt_irrefl _)

theorem mem_iff (h : Registers log s) {handle : Nat} : handle ∈ s.subscribers ↔
    handle ∈ handles log ∧ wasRemoved log handle = false := by
  rw [h.subscribers, mem_subscribed]

theorem subscribe (h : Registers log s) :
    Registers (log ++ [(.subscribe, (s.act .subscribe).value)]) (s.act .subscribe).state := by
  refine ⟨?_, ?_, ?_⟩
  · rw [handles_concat, h.issued]
    exact List.range_succ.symm
  · rw [subscribed_concat_handle rfl (fun _ => rfl) h.not_removed, ← h.subscribers]
    rfl
  · intro k hk
    rw [wasRemoved_concat, Bool.or_eq_true] at hk
    rw [handles_concat]
    exact List.mem_append_left _ (h.removed k (hk.resolve_right Bool.false_ne_true))

theorem unsubscribe (h : Registers log s) (handle : Nat) :
    Registers (log ++ [(.unsubscribe handle, (s.act (.unsubscribe handle)).value)])
      (s.act (.unsubscribe handle)).state := by
  have hremoves : ∀ k, removes k (.unsubscribe handle, (s.act (.unsubscribe handle)).value) =
      (s.subscribers.contains handle && handle == k) := fun _ => rfl
  have hhandles : handles (log ++ [(.unsubscribe handle, (s.act (.unsubscribe handle)).value)]) =
      handles log := handles_concat.trans (List.append_nil _)
  refine ⟨hhandles.trans h.issued, ?_, ?_⟩
  · rw [subscribed_concat rfl, ← h.subscribers]
    change s.subscribers.filter (· != handle) = _
    refine List.filter_congr fun k hk => ?_
    rw [hremoves, bne, BEq.comm]
    -- the call finds nobody to remove only if `handle` is not among the subscribers
    by_cases heq : handle = k
    · simp [heq, hk]
    · simp [heq]
  · intro k hk
    rw [hhandles]
    rw [wasRemoved_concat, hremoves, Bool.or_eq_true, Bool.and_eq_true] at hk
    rcases hk with hk | ⟨hmem, heq⟩
    · exact h.removed k hk
    · rw [← beq_iff_eq.mp heq]
      exact (h.mem_iff.mp (List.contains_iff_mem.mp hmem)).1

theorem change (h : Registers log s) (c : Change) :
    Registers (log ++ [(.change c, (s.act (.change c)).value)]) (s.act (.change c)).state := by
  have hstate : (s.act (.change c)).state = { s with formula := c.next s.formula } := by
    change (s.perform c).state = _
    rw [perform_eq]
    rfl
  have hhandles : handles (log ++ [(.change c, (s.act (.change c)).value)]) = handles log :=
    handles_concat.trans (List.append_nil _)
  rw [hstate]
  refine ⟨hhandles.trans h.issued, ?_, ?_⟩
  · rw [subscribed_concat rfl, ← h.subscribers]
    exact (List.filter_eq_self.mpr fun _ _ => rfl).symm
  · intro k hk
    rw [wasRemoved_concat, Bool.or_eq_true] at hk
    rw [hhandles]
    exact h.removed k (hk.resolve_right Bool.false_ne_true)

/-- Every call keeps the log true. -/
theorem step (h : Registers log s) (call : StoreCall) :
    Registers (log ++ [(call, (s.act call).value)]) (s.act call).state := by
  cases call with
  | subscribe => exact h.subscribe
  | unsubscribe handle => exact h.unsubscribe handle
  | change c => exact h.change c

/-- So does a run. -/
theorem run (h : Registers log s) (calls : List StoreCall) :
    Registers (log ++ s.log calls) (s.run calls) := by
  induction calls generalizing log s with
  | nil =>
    rw [Store.log, List.append_nil]
    exact h
  | cons call rest ih =>
    have hrest := ih (h.step call)
    rw [List.append_assoc] at hrest
    exact hrest

end Registers

/-! ### What one subscriber hears -/

theorem issued_le_act (s : Store) (call : StoreCall) : s.issued ≤ (s.act call).state.issued := by
  cases call with
  | subscribe => exact Nat.le_succ _
  | unsubscribe handle => exact Nat.le_refl _
  | change c =>
    change s.issued ≤ (s.perform c).state.issued
    rw [perform_eq]
    exact Nat.le_refl _

theorem issued_le_run (s : Store) (calls : List StoreCall) : s.issued ≤ (s.run calls).issued := by
  induction calls generalizing s with
  | nil => exact Nat.le_refl _
  | cons call rest ih => exact Nat.le_trans (issued_le_act s call) (ih _)

/-- Other subscribers may come and go, this one stays, or stays away. -/
theorem count_act {call : StoreCall} (hsubscribe : call = .subscribe → s.issued ≠ h)
    (hunsubscribe : call = .unsubscribe h → h ∉ s.subscribers) :
    (s.act call).state.subscribers.count h = s.subscribers.count h := by
  cases call with
  | subscribe =>
    change (s.subscribers ++ [s.issued]).count h = _
    simp [hsubscribe rfl]
  | unsubscribe handle =>
    change (s.subscribers.filter (· != handle)).count h = _
    by_cases heq : h = handle
    · subst heq
      have hmem : h ∉ s.subscribers := hunsubscribe rfl
      rw [List.count_eq_zero.mpr hmem, List.count_eq_zero]
      simp
    · exact List.count_filter (by simpa using heq)
  | change c =>
    change (s.perform c).state.subscribers.count h = _
    rw [perform_eq]
    rfl

/-- A subscriber who is there all the time hears of everything that is announced, and one who is not
there hears nothing. -/
theorem heard_sent (hissued : h < s.issued ∨ (s.run calls).issued ≤ h)
    (hunsubscribe : .unsubscribe h ∈ calls → h ∉ s.subscribers) :
    heard h (s.sent calls) =
      (announced s.formula calls).flatMap (List.replicate (s.subscribers.count h)) := by
  induction calls generalizing s with
  | nil => rfl
  | cons call rest ih =>
    have hle := issued_le_act s call
    have hrun := issued_le_run (s.act call).state rest
    have hsubscribe : call = .subscribe → s.issued ≠ h := by
      rintro rfl
      have hnext : (s.act .subscribe).state.issued = s.issued + 1 := rfl
      rw [run] at hissued
      omega
    have hcount : (s.act call).state.subscribers.count h = s.subscribers.count h :=
      count_act hsubscribe fun hcall => hunsubscribe (by rw [hcall]; exact List.mem_cons_self)
    have hrest : heard h ((s.act call).state.sent rest) =
        (announced (s.act call).state.formula rest).flatMap
          (List.replicate (s.subscribers.count h)) := by
      rw [← hcount]
      refine ih ?_ fun hmem => ?_
      · rw [run] at hissued
        omega
      · rw [← List.count_eq_zero, hcount, List.count_eq_zero]
        exact hunsubscribe (List.mem_cons_of_mem _ hmem)
    rw [sent, heard_append, hrest]
    cases call with
    | subscribe => rfl
    | unsubscribe handle => rfl
    | change c =>
      have hstate : (s.act (.change c)).state.formula = c.next s.formula := by
        change (s.perform c).state.formula = _
        rw [perform_eq]
        rfl
      rw [hstate, announced, List.flatMap_append]
      congr 1
      change heard h (s.perform c).notices = _
      rw [perform_eq, Store.change]
      split
      · rw [heard_subscribers]
        simp
      · rfl

theorem heard_absent (hmem : h ∉ s.subscribers) (hissued : h < s.issued ∨ (s.run calls).issued ≤ h) :
    heard h (s.sent calls) = [] := by
  rw [heard_sent hissued fun _ => hmem, List.count_eq_zero.mpr hmem]
  simp

theorem heard_present (hcount : s.subscribers.count h = 1) (hissued : h < s.issued)
    (hunsubscribe : .unsubscribe h ∉ calls) :
    heard h (s.sent calls) = announced s.formula calls := by
  have hone : (List.replicate 1 : Formula → List Formula) = fun f => [f] := rfl
  rw [heard_sent (Or.inl hissued) fun hmem => absurd hmem hunsubscribe, hcount, hone,
    List.flatMap_singleton']

/-- What a subscriber hears before it is there, while it is there, and after its end. -/
theorem heard_during {before during rest : List StoreCall}
    (hbefore : Registers (s.log before) (s.run before)) (hnew : h ∉ s.subscribers)
    (hhandle : (s.run before).issued = h) (hduring : .unsubscribe h ∉ during)
    (hrest : rest = [] ∨ ∃ more, rest = .unsubscribe h :: more) :
    heard h (s.sent (before ++ .subscribe :: (during ++ rest))) =
      announced (s.run before).formula during := by
  obtain ⟨t, ht⟩ : ∃ t, t = (s.run before).subscribe.2 := ⟨_, rfl⟩
  have hissued : h < t.issued := by
    rw [ht, ← hhandle]
    exact Nat.lt_succ_self _
  have hcount : t.subscribers.count h = 1 := by
    have habsent : h ∉ (s.run before).subscribers := fun hmem =>
      Nat.ne_of_lt (hbefore.lt_issued hmem) hhandle.symm
    rw [ht]
    change ((s.run before).subscribers ++ [(s.run before).issued]).count h = 1
    rw [hhandle, List.count_append, List.count_eq_zero.mpr habsent]
    simp
  have hend : heard h ((t.run during).sent rest) = [] := by
    have hstill : h < (t.run during).issued := Nat.lt_of_lt_of_le hissued (issued_le_run t during)
    rcases hrest with rfl | ⟨more, rfl⟩
    · rfl
    · refine heard_absent (s := ((t.run during).unsubscribe h).2) ?_ (Or.inl hstill)
      change h ∉ (t.run during).subscribers.filter (· != h)
      simp
  have hsent : s.sent (before ++ .subscribe :: (during ++ rest)) =
      s.sent before ++ (t.sent during ++ (t.run during).sent rest) := by
    rw [sent_append, sent, act, List.nil_append, sent_append, ht]
  rw [hsent, heard_append, heard_append, heard_absent hnew (Or.inr (Nat.le_of_eq hhandle)),
    heard_present hcount hissued hduring, hend, ht, List.nil_append, List.append_nil]
  rfl

/-- Whatever is done with a store from its beginning, no handle is given out twice, and a handle can be
given back exactly if it was given out and was not given back before. An announced change calls each
present subscriber once, in the order of subscription, with the formula as it is afterwards. So one
subscriber hears exactly of the changes announced between its own subscription and its end, whoever
else comes and goes. -/
theorem subscriber_hears_announced (f : Formula) (calls : List StoreCall) :
    let new : Store := { formula := f }
    let s := new.run calls
    let log := new.log calls
    (handles log).Nodup ∧ (subscribed log).Nodup ∧
    (∀ h, (s.unsubscribe h).1 = true ↔
      h ∈ handles log ∧ ∀ entry ∈ log, entry.removes h = false) ∧
    (∀ c, (s.perform c).notices = if c.wakes s.formula
      then (subscribed log).map fun h => ⟨h, (s.perform c).state.formula⟩ else []) ∧
    (∀ before during rest, calls = before ++ .subscribe :: (during ++ rest) →
      let h := (new.run before).subscribe.1
      .unsubscribe h ∉ during → (rest = [] ∨ ∃ more, rest = .unsubscribe h :: more) →
      heard h (new.sent calls) = announced (new.run before).formula during) := by
  intro new s log
  have hregisters : Registers log s := (Registers.new f).run calls
  refine ⟨hregisters.nodup_handles, hregisters.subscribers ▸ hregisters.nodup, ?_, ?_, ?_⟩
  · intro h
    have hunsubscribe : (s.unsubscribe h).1 = true ↔ h ∈ s.subscribers := List.contains_iff_mem
    rw [hunsubscribe, hregisters.mem_iff, wasRemoved, List.any_eq_false]
    simp
  · intro c
    rw [perform_eq, Store.change, ← hregisters.subscribers]
  · rintro before during rest rfl h hduring hrest
    exact heard_during ((Registers.new f).run before) List.not_mem_nil rfl hduring hrest

/-- Of three subscribers the first leaves before the second change, and the last comes after the first
change. -/
theorem first_leaves_last_comes :
    let first : Formula := ⟨[.literal "1"]⟩
    let second : Formula := ⟨[.literal "1", .literal "2"]⟩
    let calls : List StoreCall := [.subscribe, .subscribe, .change (.append (.literal "1")),
      .unsubscribe 0, .subscribe, .change (.append (.literal "2"))]
    let notices := sent { formula := {} } calls
    heard 0 notices = [first] ∧ heard 1 notices = [first, second] ∧ heard 2 notices = [second] := by
  intro first second calls notices
  obtain ⟨-, -, -, -, h⟩ := subscriber_hears_announced {} calls
  refine ⟨?_, ?_, ?_⟩
  · exact h [] [.subscribe, .change (.append (.literal "1"))]
      [.unsubscribe 0, .subscribe, .change (.append (.literal "2"))] rfl (by simp)
      (Or.inr ⟨_, rfl⟩)
  · exact h [.subscribe] [.change (.append (.literal "1")), .unsubscribe 0, .subscribe,
      .change (.append (.literal "2"))] [] rfl (by simp [run, act, subscribe]) (Or.inl rfl)
  · exact h [.subscribe, .subscribe, .change (.append (.literal "1")), .unsubscribe 0]
      [.change (.append (.literal "2"))] [] rfl (by simp) (Or.inl rfl)

end

end Store

end FormulaField
