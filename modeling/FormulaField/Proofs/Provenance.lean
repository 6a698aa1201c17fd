import Mathlib.Data.List.Induction
import FormulaField.Proofs.FieldRun

/-!
Where the list on display comes from. In every editor that can be reached, the candidates shown came
as the answer to a request for the very text that is in the field, at whatever time and whether or not
anybody was still waiting for them; and where the display says that there are none, either that was an
answer for this text, or a fetch for this text failed and the text has been in the field ever since.
The invariant carries the whole cache: each answer kept there came for the text that it is kept under.
-/

namespace FormulaField

open Suggestions

/-- One of the actions brings these candidates in answer to a request for this text. -/
def Answered (actions : List Action) (text : String) (candidates : List Candidate) : Prop :=
  ∃ now request, .call now (.receive request (.ok candidates)) ∈ actions ∧ request.query = text

namespace Editor

/-- One of the actions puts the failure of a fetch for this text on display, and the text has been in
the field ever since. -/
def FailedSince (start : Editor) (actions : List Action) (text : String) : Prop :=
  ∃ before now request error rest,
    actions = before ++ .call now (.receive request (.error error)) :: rest ∧ request.query = text ∧
    ((start.after before).perform now (.receive request (.error error))).value = .updated true ∧
    ∀ later, later <+: rest →
      (start.after (before ++ .call now (.receive request (.error error)) :: later)).buffer = text

section
variable {start : Editor} {actions : List Action} {action : Action} {text : String}
  {candidates : List Candidate}

theorem answered_concat (h : Answered actions text candidates) :
    Answered (actions ++ [action]) text candidates := by
  obtain ⟨now, request, hmem, hquery⟩ := h
  exact ⟨now, request, List.mem_append_left _ hmem, hquery⟩

theorem answered_last {now : Float} {request : Request} (hquery : request.query = text) :
    Answered (actions ++ [.call now (.receive request (.ok candidates))]) text candidates :=
  ⟨now, request, List.mem_append_right _ (List.mem_singleton_self _), hquery⟩

/-- An action that leaves the text in the field leaves the failure in force. -/
theorem failedSince_concat (h : FailedSince start actions text)
    (hbuffer : (start.after (actions ++ [action])).buffer = text) :
    FailedSince start (actions ++ [action]) text := by
  obtain ⟨before, now, request, error, rest, rfl, hquery, hupdated, hsince⟩ := h
  refine ⟨before, now, request, error, rest ++ [action], by simp, hquery, hupdated, ?_⟩
  intro later hlater
  rcases List.prefix_concat_iff.mp hlater with rfl | hlater
  · rw [List.append_assoc, List.cons_append] at hbuffer
    exact hbuffer
  · exact hsince later hlater

theorem failedSince_last {now : Float} {request : Request} {error : FetchError}
    (hquery : request.query = text)
    (hupdated : ((start.after actions).perform now (.receive request (.error error))).value =
      .updated true)
    (hbuffer : (start.after (actions ++ [.call now (.receive request (.error error))])).buffer = text) :
    FailedSince start (actions ++ [.call now (.receive request (.error error))]) text := by
  refine ⟨actions, now, request, error, [], rfl, hquery, hupdated, ?_⟩
  intro later hlater
  rw [List.prefix_nil.mp hlater]
  exact hbuffer

end

/-- All that is kept or shown after some actions has come with one of them, for its own text. -/
structure Sourced (start : Editor) (actions : List Action) : Prop where
  cached : ∀ entry ∈ (start.after actions).suggestions.cache.entries,
    Answered actions entry.query entry.candidates
  ready : ∀ candidates, (start.after actions).suggestions.view = .ready candidates →
    candidates ≠ [] ∧ Answered actions (start.after actions).buffer candidates
  empty : (start.after actions).suggestions.view = .empty →
    Answered actions (start.after actions).buffer [] ∨
      FailedSince start actions (start.after actions).buffer

namespace Sourced

variable {start : Editor} {actions : List Action} {action : Action}

theorem nil (config : Config) (fallback : Fallback) : Sourced (new config fallback) [] where
  cached _ h := nomatch h
  ready _ h := nomatch h
  empty h := nomatch h

/-- An action that changes neither the field nor the display. -/
theorem of_same (h : Sourced start actions)
    (hbuffer : (start.after (actions ++ [action])).buffer = (start.after actions).buffer)
    (hview : (start.after (actions ++ [action])).suggestions.view =
      (start.after actions).suggestions.view)
    (hcached : ∀ entry ∈ (start.after (actions ++ [action])).suggestions.cache.entries,
      Answered (actions ++ [action]) entry.query entry.candidates) :
    Sourced start (actions ++ [action]) where
  cached := hcached
  ready candidates hready := by
    rw [hview] at hready
    obtain ⟨hne, hanswered⟩ := h.ready candidates hready
    rw [hbuffer]
    exact ⟨hne, answered_concat hanswered⟩
  empty hempty := by
    rw [hview] at hempty
    rcases h.empty hempty with hanswered | hfailed
    · rw [hbuffer]
      exact Or.inl (answered_concat hanswered)
    · rw [← hbuffer] at hfailed
      exact Or.inr (failedSince_concat hfailed rfl)

/-- A change of the query shows something only from the cache, where it is kept under that query. -/
theorem of_typed (h : Sourced start actions) {now : Float} {request? : Option Request}
    (hquery : (start.after actions).suggestions.changeQuery
      (start.after (actions ++ [action])).buffer now =
        (request?, (start.after (actions ++ [action])).suggestions)) :
    Sourced start (actions ++ [action]) := by
  rcases changeQuery_cases (start.after actions).suggestions
      (start.after (actions ++ [action])).buffer now with
    ⟨-, heq⟩ | ⟨candidates, -, hhit, heq⟩ | ⟨-, -, heq⟩ <;>
    rw [heq] at hquery <;>
    have hstate := (Prod.mk.inj hquery).2.symm
  · refine ⟨?_, ?_, ?_⟩ <;> rw [hstate]
    · intro entry hentry
      exact answered_concat (h.cached entry hentry)
    · exact fun _ hready => nomatch hready
    · exact fun hempty => nomatch hempty
  · obtain ⟨entry, hentry, hkey, hcandidates⟩ := Cache.exists_of_get?_eq_some hhit
    have hanswered := h.cached entry hentry
    rw [hkey, hcandidates] at hanswered
    refine ⟨?_, ?_, ?_⟩ <;> rw [hstate]
    · intro other hother
      exact answered_concat (h.cached other hother)
    · intro shown hready
      obtain ⟨hready, -⟩ := (shown_eq_iff (by simp)).mp hready
      obtain ⟨rfl, hne⟩ := View.ofCandidates_eq_ready hready
      exact ⟨hne, answered_concat hanswered⟩
    · intro hempty
      obtain ⟨hempty, -⟩ := (shown_eq_iff (by simp)).mp hempty
      rw [View.ofCandidates_eq_empty hempty] at hanswered
      exact Or.inl (answered_concat hanswered)
  · refine ⟨?_, ?_, ?_⟩ <;> rw [hstate]
    · intro entry hentry
      exact answered_concat (h.cached entry hentry)
    · intro _ hready
      cases ((shown_eq_iff (by simp)).mp hready).1
    · intro hempty
      cases ((shown_eq_iff (by simp)).mp hempty).1

/-- An answer is kept under its own text, and shown if that is the text in the field. -/
theorem of_received (h : Sourced start actions) {now : Float} {request : Request}
    {result : FetchResult} (haction : action = .call now (.receive request result))
    (hbuffer : (start.after (actions ++ [action])).buffer = (start.after actions).buffer)
    (hanswer : ((start.after actions).act action).value = .updated
      ((start.after actions).suggestions.deliver request result (start.after actions).buffer now).1)
    (hstate : (start.after (actions ++ [action])).suggestions =
      ((start.after actions).suggestions.deliver request result (start.after actions).buffer now).2) :
    Sourced start (actions ++ [action]) := by
  have hcached : ∀ entry ∈ ((start.after actions).suggestions.cache.afterAnswer
      request result now).entries,
      Answered (actions ++ [action]) entry.query entry.candidates := by
    intro entry hentry
    rcases Cache.mem_afterAnswer hentry with hentry | ⟨candidates, rfl, rfl⟩
    · exact answered_concat (h.cached entry hentry)
    · rw [haction]
      exact answered_last rfl
  by_cases hcurrent : (start.after actions).suggestions.pending = some request ∧
      request.query = (start.after actions).buffer
  · rw [deliver_of_current hcurrent] at hanswer hstate
    have hquery := hcurrent.2.trans hbuffer.symm
    subst haction
    refine ⟨?_, ?_, ?_⟩
    · rw [hstate]
      exact hcached
    · intro shown hready
      rw [hstate, shown_eq_iff (by simp)] at hready
      cases result with
      | ok candidates =>
        obtain ⟨rfl, hne⟩ := View.ofCandidates_eq_ready hready.1
        exact ⟨hne, answered_last hquery⟩
      | error e => cases hready.1
    · intro hempty
      rw [hstate, shown_eq_iff (by simp)] at hempty
      cases result with
      | ok candidates =>
        obtain rfl := View.ofCandidates_eq_empty hempty.1
        exact Or.inl (answered_last hquery)
      | error e => exact Or.inr (failedSince_last hquery hanswer rfl)
  · rw [deliver_of_stale hcurrent] at hstate
    refine h.of_same hbuffer ?_ ?_ <;> rw [hstate]
    exact hcached

/-- Every action keeps what is shown accounted for. -/
theorem step (h : Sourced start actions) (action : Action) :
    Sourced start (actions ++ [action]) := by
  have hstep := fieldStep_act (start.after actions) action
  have hrun : start.after (actions ++ [action]) = ((start.after actions).act action).state :=
    after_concat
  cases hstep with
  | unchanged hbuffer hstate _ =>
    rw [← hrun] at hbuffer hstate
    refine h.of_same hbuffer (by rw [hstate]) ?_
    rw [hstate]
    intro entry hentry
    exact answered_concat (h.cached entry hentry)
  | typed now hquery =>
    rw [← hrun] at hquery
    exact h.of_typed hquery
  | received haction hbuffer hanswer hstate =>
    rw [← hrun] at hbuffer hstate
    exact h.of_received haction hbuffer hanswer hstate

/-- All that an editor shows after any actions is accounted for. -/
theorem after (h : Sourced start []) (actions : List Action) : Sourced start actions := by
  induction actions using List.reverseRecOn with
  | nil => exact h
  | append_singleton actions action ih => exact ih.step action

end Sourced

/-- In every editor that can be reached, the candidates on display are some, and have come in answer to
a request for exactly the text in the field; and if the display says that there are none, such an
answer has come without candidates, or a fetch for exactly this text failed, its failure was put on
display, and the text has not changed since. -/
theorem shown_for_text_in_field (config : Config) (fallback : Fallback) (actions : List Action) :
    let e := (new config fallback).after actions
    (∀ candidates, e.suggestions.view = .ready candidates →
      candidates ≠ [] ∧ Answered actions e.buffer candidates) ∧
    (e.suggestions.view = .empty →
      Answered actions e.buffer [] ∨ FailedSince (new config fallback) actions e.buffer) := by
  intro e
  have h := (Sourced.nil config fallback).after actions
  exact ⟨h.ready, h.empty⟩

/-- A late answer for `r` is shown once the user has gone back to `r`, and a failed fetch for `r` shows
that there is nothing, whatever the formula is made into meanwhile. -/
theorem late_answer_and_failure_shown :
    let late : List Action :=
      [.call (Float.ofBits 0) (.input "r"), .call (Float.ofBits 0) (.input "e"),
        .call (Float.ofBits 0) (.receive ⟨1, "r"⟩ (.ok [⟨"1", "Revenue", none⟩])),
        .call (Float.ofBits 0) (.key .backspace)]
    let failed : List Action :=
      [.call (Float.ofBits 0) (.input "r"), .store { formula := ⟨[.literal "1"]⟩ },
        .call (Float.ofBits 0) (.receive ⟨1, "r"⟩ (.error (.status 500)))]
    let e := (new {} (.sequence [])).after late
    let e' := (new {} (.sequence [])).after failed
    (e.suggestions.view = .ready [⟨"1", "Revenue", none⟩] ∧
      Answered late e.buffer [⟨"1", "Revenue", none⟩]) ∧
    (e'.suggestions.view = .empty ∧
      (Answered failed e'.buffer [] ∨
        FailedSince (new {} (.sequence [])) failed e'.buffer)) := by
  intro late failed e e'
  have hready : e.suggestions.view = .ready [⟨"1", "Revenue", none⟩] := by rfl
  have hempty : e'.suggestions.view = .empty := by rfl
  have hlate := shown_for_text_in_field {} (.sequence []) late
  have hfailed := shown_for_text_in_field {} (.sequence []) failed
  exact ⟨⟨hready, (hlate.1 _ hready).2⟩, hempty, hfailed.2 hempty⟩

end Editor

end FormulaField
