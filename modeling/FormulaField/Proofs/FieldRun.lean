import FormulaField.Proofs.Run
import FormulaField.Proofs.SuggestionRun

/-!
The field and the suggestions while the editor is in use. Besides calling the editor, a host can work
on the store of the formula directly. Whatever happens to the formula, to the field and the suggestions
it is one of three things: both are left alone, or a text is put into the buffer and the suggestions
are told of it, or they are handed an answer together with the buffer. `FieldStep` lists the three,
and what is said of the suggestions in any reachable editor follows from it.
-/

namespace FormulaField

/-- The request that an answer hands out to be fetched. -/
def Answer.request? : Answer → Option Request
  | .request r => r
  | .outcome o => o.request
  | .updated _ | .accepted _ | .found _ | .removed _ | .result _ | .done => none

/-- What a host does with an editor: a call at some time, or work on the store, which leaves it with
any formula and any listeners. -/
inductive Action where
  | call (now : Float) (call : Call)
  | store (store : Store)

namespace Editor

/-! ### An editor in use -/

/-- Carries out an action. -/
def act (e : Editor) : Action → Reply Editor Answer
  | .call now call => e.perform now call
  | .store store => quiet .done { e with store := store }

/-- The editor after some actions. -/
def after (e : Editor) : List Action → Editor
  | [] => e
  | action :: rest => (e.act action).state.after rest

/-- The answers to some actions. -/
def answers (e : Editor) : List Action → List Answer
  | [] => []
  | action :: rest => (e.act action).value :: (e.act action).state.answers rest

/-- The requests that some actions hand out, in order. -/
def handedOut (e : Editor) (actions : List Action) : List Request :=
  (e.answers actions).filterMap Answer.request?

section
variable {e : Editor} {actions : List Action} {action : Action}

/-- Without work on the store, this is a run of calls. -/
theorem after_map_call (e : Editor) (calls : List (Float × Call)) :
    e.after (calls.map fun c => .call c.1 c.2) = e.run calls := by
  induction calls generalizing e with
  | nil => rfl
  | cons c rest ih => exact ih (e.perform c.1 c.2).state

theorem after_concat : e.after (actions ++ [action]) = ((e.after actions).act action).state := by
  induction actions generalizing e with
  | nil => rfl
  | cons a rest ih =>
    rw [List.cons_append, after, after]
    exact ih

theorem answers_concat :
    e.answers (actions ++ [action]) = e.answers actions ++ [((e.after actions).act action).value] := by
  induction actions generalizing e with
  | nil => rfl
  | cons a rest ih =>
    rw [List.cons_append, answers, ih, answers, after]
    rfl

theorem handedOut_concat :
    e.handedOut (actions ++ [action]) =
      e.handedOut actions ++ ((e.after actions).act action).value.request?.toList := by
  rw [handedOut, handedOut, answers_concat, List.filterMap_append]
  cases h : ((e.after actions).act action).value.request? <;> simp [h]

end

/-! ### One action -/

/-- What an action has done to the field and the suggestions, for its reply `r`. -/
inductive FieldStep (e : Editor) (action : Action) (r : Reply Editor Answer) : Prop
  | unchanged : r.state.buffer = e.buffer → r.state.suggestions = e.suggestions →
      r.value.request? = none → FieldStep e action r
  | typed (now : Float) : e.suggestions.changeQuery r.state.buffer now =
      (r.value.request?, r.state.suggestions) → FieldStep e action r
  | received {now : Float} {request : Request} {result : FetchResult} :
      action = .call now (.receive request result) → r.state.buffer = e.buffer →
      r.value = .updated (e.suggestions.deliver request result e.buffer now).1 →
      r.state.suggestions = (e.suggestions.deliver request result e.buffer now).2 →
      FieldStep e action r

section
variable (e : Editor) (now : Float)

/-- Adding the buffer to the formula leaves the field and the suggestions alone. -/
theorem field_commitNumber : e.commitNumber.state.buffer = e.buffer ∧
    e.commitNumber.state.suggestions = e.suggestions := by
  unfold commitNumber
  split <;> exact ⟨rfl, rfl⟩

theorem field_deleteLast : e.deleteLast.state.buffer = e.buffer ∧
    e.deleteLast.state.suggestions = e.suggestions := by
  unfold deleteLast
  cases e.store.formula.last? with
  | none => exact ⟨rfl, rfl⟩
  | some p => cases p <;> exact ⟨rfl, rfl⟩

/-- A text that is put into the buffer is a change of the query. -/
theorem changeQuery_setBuffer (text : String) : e.suggestions.changeQuery text now =
    ((e.setBuffer text now).value, (e.setBuffer text now).state.suggestions) := rfl

/-- So is the empty text after a commit. -/
theorem changeQuery_commitNumber : e.suggestions.changeQuery "" now =
    ((e.commitNumber.state.setBuffer "" now).value,
      (e.commitNumber.state.setBuffer "" now).state.suggestions) := by
  rw [← (field_commitNumber e).2]
  exact changeQuery_setBuffer _ now ""

theorem fieldStep_input (text : String) :
    FieldStep e (.call now (.input text)) (e.perform now (.input text)) := by
  by_cases htext : text = ""
  · have hinput : e.input text now = quiet none e := if_pos htext
    simp only [perform, hinput]
    exact .unchanged rfl rfl rfl
  · have hinput : e.input text now = e.setBuffer (e.buffer ++ text) now := if_neg htext
    simp only [perform, hinput]
    exact .typed now (changeQuery_setBuffer e now _)

theorem fieldStep_setInput (text : String) :
    FieldStep e (.call now (.setInput text)) (e.perform now (.setInput text)) := by
  by_cases htext : text = e.buffer
  · have hinput : e.setInput text now = quiet none e := if_pos htext
    simp only [perform, hinput]
    exact .unchanged rfl rfl rfl
  · have hinput : e.setInput text now = e.setBuffer text now := if_neg htext
    simp only [perform, hinput]
    exact .typed now (changeQuery_setBuffer e now text)

theorem fieldStep_backspace :
    FieldStep e (.call now (.key .backspace)) (e.perform now (.key .backspace)) := by
  simp only [perform, key, backspace]
  split
  · exact .unchanged (field_deleteLast e).1 (field_deleteLast e).2 rfl
  · -- which text is left does not matter, and it is costly to compute with
    generalize String.ofList e.buffer.toList.dropLast = text
    exact .typed now (changeQuery_setBuffer e now text)

theorem fieldStep_operator (o : Operator) :
    FieldStep e (.call now (.key (.operator o))) (e.perform now (.key (.operator o))) := by
  simp only [perform, key, typeOperator]
  split
  · exact .unchanged rfl rfl rfl
  · exact .typed now (changeQuery_commitNumber e now)

theorem fieldStep_enter :
    FieldStep e (.call now (.key .enter)) (e.perform now (.key .enter)) := by
  simp only [perform, key, enter]
  split
  · exact .unchanged rfl rfl rfl
  · split
    · exact .typed now (changeQuery_commitNumber e now)
    · exact .unchanged rfl rfl rfl

/-- Every call does one of the three things. -/
theorem fieldStep_perform (call : Call) : FieldStep e (.call now call) (e.perform now call) := by
  cases call with
  | input text => exact fieldStep_input e now text
  | setInput text => exact fieldStep_setInput e now text
  | key k =>
    cases k with
    | backspace => exact fieldStep_backspace e now
    | operator o => exact fieldStep_operator e now o
    | enter => exact fieldStep_enter e now
    | other => exact .unchanged rfl rfl rfl
  | receive request result => exact .received rfl rfl rfl rfl
  | accept candidate => exact .typed now rfl
  | chooseOption id option => exact .unchanged rfl rfl rfl
  | removeTag id => exact .unchanged rfl rfl rfl
  | calculate => exact .unchanged rfl rfl rfl
  | clear => exact .typed now rfl

/-- So does every action; work on the store touches neither the field nor the suggestions. -/
theorem fieldStep_act (action : Action) : FieldStep e action (e.act action) := by
  cases action with
  | call now call => exact fieldStep_perform e now call
  | store store => exact .unchanged rfl rfl rfl

end

end Editor

end FormulaField
