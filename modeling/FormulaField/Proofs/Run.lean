import FormulaField.Editor.Basic

/-!
Runs of the editor. A run is a sequence of calls, each at its own time, from an editor that is new;
the times may be any numbers in any order. `nextFormula` tells what a call makes of the formula:
time, network answers and suggestions have no part in it.
-/

namespace FormulaField

/-- A call of the editor with its arguments. -/
inductive Call where
  | input (text : String)
  | setInput (text : String)
  | key (k : Key)
  | receive (request : Request) (result : FetchResult)
  | accept (candidate : Candidate)
  | chooseOption (id option : String)
  | removeTag (id : String)
  | calculate
  | clear

/-- What a call answers. -/
inductive Answer where
  | request (request : Option Request)
  | outcome (outcome : KeyOutcome)
  | updated (updated : Bool)
  | accepted (tag : Tag)
  | found (found : Bool)
  | removed (tag : Option Tag)
  | result (result : Option Float)
  | done

namespace Editor

/-- Carries out a call at a time. -/
def perform (e : Editor) (now : Float) : Call → Reply Editor Answer
  | .input text => (e.input text now).andThen fun r e => quiet (.request r) e
  | .setInput text => (e.setInput text now).andThen fun r e => quiet (.request r) e
  | .key k => (e.key k now).andThen fun r e => quiet (.outcome r) e
  | .receive request result =>
    (e.receive request result now).andThen fun r e => quiet (.updated r) e
  | .accept candidate => (e.accept candidate now).andThen fun r e => quiet (.accepted r) e
  | .chooseOption id option => (e.chooseOption id option).andThen fun r e => quiet (.found r) e
  | .removeTag id => (e.removeTag id).andThen fun r e => quiet (.removed r) e
  | .calculate => e.calculate.andThen fun r e => quiet (.result r) e
  | .clear => (e.clear now).andThen fun _ e => quiet .done e

/-- The editor after some calls. -/
def run (e : Editor) : List (Float × Call) → Editor
  | [] => e
  | (now, call) :: rest => (e.perform now call).state.run rest

theorem run_append {e : Editor} (calls rest : List (Float × Call)) :
    e.run (calls ++ rest) = (e.run calls).run rest := by
  induction calls generalizing e with
  | nil => rfl
  | cons c calls ih => exact ih

/-! ### The formula after a call -/

/-- What a commit of the buffer adds to the formula. -/
def committed (e : Editor) : List Piece :=
  if e.buffer ≠ "" ∧ isTypedNumber e.buffer = true then [.literal e.buffer] else []

/-- The formula without its last piece; a tag takes the first tag of its id with it instead. -/
def withoutLast (f : Formula) : Formula :=
  match f.last? with
  | none => f
  | some (.tag t) => (f.removeTag t.id).2
  | some (.literal _) => f.popLast.2

/-- The tag that a candidate becomes. -/
def tagOf (e : Editor) (c : Candidate) : Tag :=
  ⟨freshId e.store.formula c.id, c.name, (e.valueOf c).1, e.config.tagOptions⟩

/-- The formula after a call. -/
def nextFormula (e : Editor) : Call → Formula
  | .key .backspace => if e.buffer = "" then withoutLast e.store.formula else e.store.formula
  | .key (.operator o) =>
    ⟨e.store.formula.pieces ++ e.committed ++ [.literal (String.singleton o.char)]⟩
  | .key .enter => ⟨e.store.formula.pieces ++ e.committed⟩
  | .accept c => e.store.formula.append (.tag (e.tagOf c))
  | .chooseOption id option => (e.store.formula.chooseOption id option).2
  | .removeTag id => (e.store.formula.removeTag id).2
  | .clear => {}
  | .input _ | .setInput _ | .key .other | .receive _ _ | .calculate => e.store.formula

section
variable (e : Editor) (now : Float)

theorem store_input (text : String) : (e.input text now).state.store = e.store := by
  unfold input
  split <;> rfl

theorem store_setInput (text : String) : (e.setInput text now).state.store = e.store := by
  unfold setInput
  split <;> rfl

theorem formula_deleteLast :
    e.deleteLast.state.store.formula = withoutLast e.store.formula := by
  unfold deleteLast withoutLast
  cases e.store.formula.last? with
  | none => rfl
  | some p => cases p <;> rfl

theorem formula_backspace :
    (e.backspace now).state.store.formula = e.nextFormula (.key .backspace) := by
  unfold backspace
  simp only [nextFormula]
  split
  · exact formula_deleteLast e
  · rfl

theorem formula_commitNumber (h : e.buffer ≠ "") :
    e.commitNumber.state.store.formula = ⟨e.store.formula.pieces ++ e.committed⟩ := by
  unfold commitNumber committed
  by_cases hnumber : isTypedNumber e.buffer = true
  · rw [if_pos hnumber, if_pos ⟨h, hnumber⟩]
    rfl
  · rw [if_neg hnumber, if_neg fun h => hnumber h.2, List.append_nil]
    rfl

theorem formula_typeOperator (o : Operator) :
    (e.typeOperator o now).state.store.formula = e.nextFormula (.key (.operator o)) := by
  unfold typeOperator
  simp only [nextFormula]
  split
  · next hbuffer =>
    have hnone : e.committed = [] := if_neg fun h => h.1 hbuffer
    rw [hnone, List.append_nil]
    rfl
  · next hbuffer =>
    have hcommit := formula_commitNumber e hbuffer
    change (e.commitNumber.state.store.formula.append _) = _
    rw [hcommit]
    rfl

theorem formula_enter : (e.enter now).state.store.formula = e.nextFormula (.key .enter) := by
  unfold enter
  simp only [nextFormula]
  split
  · next hbuffer =>
    have hnone : e.committed = [] := if_neg fun h => h.1 hbuffer
    rw [hnone, List.append_nil]
    rfl
  · next hbuffer =>
    split
    · exact formula_commitNumber e hbuffer
    · next hnumber =>
      have hnone : e.committed = [] := if_neg fun h => hnumber h.2
      rw [hnone, List.append_nil]
      rfl

/-- What a call makes of the formula. -/
theorem formula_perform (call : Call) :
    (e.perform now call).state.store.formula = e.nextFormula call := by
  cases call with
  | input text => exact congrArg Store.formula (store_input e now text)
  | setInput text => exact congrArg Store.formula (store_setInput e now text)
  | key k =>
    cases k with
    | backspace => exact formula_backspace e now
    | operator o => exact formula_typeOperator e now o
    | enter => exact formula_enter e now
    | other => rfl
  | receive request result => rfl
  | accept candidate => rfl
  | chooseOption id option => rfl
  | removeTag id => rfl
  | calculate => rfl
  | clear => rfl

end

end Editor

end FormulaField
