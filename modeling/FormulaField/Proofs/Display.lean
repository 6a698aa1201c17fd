import Mathlib.Data.List.Induction
import FormulaField.Proofs.FieldRun
import FormulaField.Proofs.TypedNumber

/-!
The display keeps step with the field. In every editor that can be reached, suggestions are hidden
exactly while nothing but blanks is in the field, they are loading exactly while a request is waited
for and something is in the field, and that request is for the text in the field and is the last one
handed out. No request is lost on the way: those handed out are numbered 1, 2, 3 and so on, up to the
number issued.
-/

namespace FormulaField

open Suggestions Text

theorem trimBy_eq_nil_iff {drop : Char → Bool} {cs : List Char} :
    trimBy drop cs = [] ↔ ∀ c ∈ cs, drop c = true := by
  constructor
  · intro htrim
    obtain ⟨pre, post, hcs, hpre, hpost⟩ := exists_eq_trimBy drop cs
    rw [htrim, List.nil_append] at hcs
    intro c hc
    rw [hcs] at hc
    rcases List.mem_append.mp hc with hc | hc
    · exact hpre c hc
    · exact hpost c hc
  · intro hall
    have hdrop : cs.dropWhile drop = [] := List.dropWhile_eq_nil_iff.mpr hall
    rw [trimBy, hdrop]
    rfl

theorem trim_eq_nil_iff (text : String) :
    trimBy isBlank text.toList = [] ↔ isAllBlank text = true := by
  rw [trimBy_eq_nil_iff, isAllBlank, List.all_eq_true]

namespace Editor

/-- The suggestions fit the field, where `requests` have been handed out so far. -/
structure InStep (requests : List Request) (e : Editor) : Prop where
  hidden : e.suggestions.view = .hidden ↔ isAllBlank e.buffer = true
  loading : e.suggestions.view = .loading ↔
    (∃ request, e.suggestions.pending = some request) ∧ isAllBlank e.buffer = false
  pending : ∀ request, e.suggestions.pending = some request →
    request.query = e.buffer ∧ requests.getLast? = some request
  numbered : requests.map Request.seq = List.range' 1 e.suggestions.issued

namespace InStep

variable {requests : List Request} {e e' : Editor}

theorem start (config : Config) (fallback : Fallback) : InStep [] (new config fallback) where
  hidden := iff_of_true rfl rfl
  loading := iff_of_false nofun fun h => nomatch h.1
  pending _ h := nomatch h
  numbered := rfl

/-- Only the field, the display, the request waited for and the number of requests matter. -/
theorem congr (h : InStep requests e) (hbuffer : e'.buffer = e.buffer)
    (hview : e'.suggestions.view = e.suggestions.view)
    (hpending : e'.suggestions.pending = e.suggestions.pending)
    (hissued : e'.suggestions.issued = e.suggestions.issued) : InStep requests e' where
  hidden := by
    rw [hview, hbuffer]
    exact h.hidden
  loading := by
    rw [hview, hpending, hbuffer]
    exact h.loading
  pending := by
    rw [hpending, hbuffer]
    exact h.pending
  numbered := by
    rw [hissued]
    exact h.numbered

/-- A display for which nothing is waited: it is hidden over blanks, and never loading. -/
theorem of_settled (h : InStep requests e) {view : View} (hview : view ≠ .hidden ∧ view ≠ .loading)
    (hpending : e'.suggestions.pending = none) (hissued : e'.suggestions.issued = e.suggestions.issued)
    (hshown : e'.suggestions.view = shown e'.buffer view) : InStep requests e' where
  hidden := by rw [hshown, shown_eq_hidden_iff hview.1]
  loading := by
    rw [hshown, shown_eq_iff (by simp), hpending]
    exact iff_of_false (fun h => hview.2 h.1) fun h => nomatch h.1
  pending request hrequest := by
    rw [hpending] at hrequest
    cases hrequest
  numbered := by
    rw [hissued]
    exact h.numbered

/-- A change of the query keeps the display in step, whether it asks for an answer or not. -/
theorem of_typed (h : InStep requests e) {now : Float} {request? : Option Request}
    (hquery : e.suggestions.changeQuery e'.buffer now = (request?, e'.suggestions)) :
    InStep (requests ++ request?.toList) e' := by
  rcases changeQuery_cases e.suggestions e'.buffer now with
    ⟨hempty, heq⟩ | ⟨candidates, -, -, heq⟩ | ⟨-, -, heq⟩ <;>
    rw [heq] at hquery <;>
    obtain ⟨rfl, hstate⟩ := Prod.mk.inj hquery
  · have hblank : isAllBlank e'.buffer = true := by
      rw [hempty]
      rfl
    rw [Option.toList_none, List.append_nil]
    refine h.of_settled (View.ofCandidates_ne []) ?_ ?_ ?_ <;> rw [← hstate]
    · rfl
    · rfl
    · rw [shown, if_pos hblank]
      rfl
  · rw [Option.toList_none, List.append_nil]
    refine h.of_settled (View.ofCandidates_ne candidates) ?_ ?_ ?_ <;> rw [← hstate]
  · refine ⟨?_, ?_, ?_, ?_⟩ <;> rw [← hstate]
    · exact shown_eq_hidden_iff (by simp)
    · rw [shown_eq_iff (by simp)]
      simp
    · intro request hrequest
      cases hrequest
      exact ⟨rfl, by simp⟩
    · simp [h.numbered, List.range'_concat, Nat.add_comm]

/-- An answer keeps the display in step, whether it is the one that was waited for or not. -/
theorem of_received (h : InStep requests e) {request : Request} {result : FetchResult} {now : Float}
    (hbuffer : e'.buffer = e.buffer)
    (hstate : e'.suggestions = (e.suggestions.deliver request result e.buffer now).2) :
    InStep requests e' := by
  by_cases hcurrent : e.suggestions.pending = some request ∧ request.query = e.buffer
  · rw [deliver_of_current hcurrent] at hstate
    refine h.of_settled (View.ofResult_ne result) ?_ ?_ ?_ <;> rw [hstate]
    rw [hbuffer]
  · rw [deliver_of_stale hcurrent] at hstate
    refine h.congr hbuffer ?_ ?_ ?_ <;> rw [hstate]

/-- Every action keeps the display in step with the field. -/
theorem step (h : InStep requests e) (action : Action) :
    InStep (requests ++ (e.act action).value.request?.toList) (e.act action).state := by
  cases fieldStep_act e action with
  | unchanged hbuffer hstate hnone =>
    rw [hnone, Option.toList_none, List.append_nil]
    refine h.congr hbuffer ?_ ?_ ?_ <;> rw [hstate]
  | typed _ hquery => exact h.of_typed hquery
  | received _ hbuffer hanswer hstate =>
    rw [hanswer, Answer.request?, Option.toList_none, List.append_nil]
    exact h.of_received hbuffer hstate

/-- Any use of the editor keeps the display in step with the field. -/
theorem after (h : InStep [] e) (actions : List Action) :
    InStep (e.handedOut actions) (e.after actions) := by
  induction actions using List.reverseRecOn with
  | nil => exact h
  | append_singleton actions action ih =>
    rw [handedOut_concat, after_concat]
    exact ih.step action

end InStep

/-- In every editor that can be reached, suggestions are hidden exactly while the field is blank; a
request that is waited for is for the text in the field and is the last that was handed out, and every
request issued was handed out; suggestions are loading exactly while a request is waited for and the
field is not blank, and its answer, good or bad, ends that. -/
theorem suggestions_match_field (config : Config) (fallback : Fallback) (actions : List Action) :
    let e := (new config fallback).after actions
    let requests := (new config fallback).handedOut actions
    (e.suggestions.view = .hidden ↔ trimBy isBlank e.buffer.toList = []) ∧
    (∀ request, e.suggestions.pending = some request →
      request.query = e.buffer ∧ requests.getLast? = some request) ∧
    requests.map Request.seq = List.range' 1 e.suggestions.issued ∧
    (e.suggestions.view = .loading ↔
      (∃ request, e.suggestions.pending = some request) ∧ trimBy isBlank e.buffer.toList ≠ []) ∧
    (∀ request result now, e.suggestions.pending = some request →
      (e.receive request result now).value = true ∧
      (e.receive request result now).state.suggestions.view ≠ .loading) := by
  intro e requests
  have h : InStep requests e := (InStep.start config fallback).after actions
  refine ⟨?_, h.pending, h.numbered, ?_, ?_⟩
  · rw [trim_eq_nil_iff]
    exact h.hidden
  · rw [ne_eq, trim_eq_nil_iff, Bool.not_eq_true]
    exact h.loading
  · intro request result now hpending
    have hcurrent := And.intro hpending (h.pending request hpending).1
    have hdelivered := deliver_of_current hcurrent result now
    constructor
    · exact congrArg Prod.fst hdelivered
    · change (e.suggestions.deliver request result e.buffer now).2.view ≠ .loading
      rw [hdelivered, ne_eq, shown_eq_iff (by simp)]
      exact fun hloading => (View.ofResult_ne result).2 hloading.1

/-- A failed fetch ends the loading for what was typed last. -/
theorem failure_ends_loading :
    let e := (new {} (.sequence [])).after
      [.call (Float.ofBits 0) (.input "r"), .call (Float.ofBits 0) (.input "e")]
    e.suggestions.pending = some ⟨2, "re"⟩ ∧
    (e.receive ⟨2, "re"⟩ (.error (.status 500)) (Float.ofBits 0)).value = true ∧
    (e.receive ⟨2, "re"⟩ (.error (.status 500)) (Float.ofBits 0)).state.suggestions.view ≠
      .loading := by
  intro e
  have hpending : e.suggestions.pending = some ⟨2, "re"⟩ := by decide
  have h := suggestions_match_field {} (.sequence [])
    [.call (Float.ofBits 0) (.input "r"), .call (Float.ofBits 0) (.input "e")]
  exact ⟨hpending, h.2.2.2.2 ⟨2, "re"⟩ (.error (.status 500)) (Float.ofBits 0) hpending⟩

end Editor

end FormulaField
