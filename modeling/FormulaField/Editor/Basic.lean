import FormulaField.Editor.Config
import FormulaField.Editor.Fallback
import FormulaField.Editor.Key
import FormulaField.Formula.Store
import FormulaField.Number.Typed
import FormulaField.Suggestion.Basic

/-!
The editor behind the field: it turns text and keys into changes of the formula. What is typed
gathers in a buffer, and the buffer is the query for suggestions. An operator key or Enter commits
the buffer to the formula if it is a number; a suggestion that is accepted becomes a tag. Committed
pieces are deleted from the end, with Backspace in an empty buffer. Every call that can ask for
suggestions takes the present time.
-/

namespace FormulaField

/-- The state of the editor. `result` is the value of the last calculation, if it had one. -/
structure Editor where
  store : Store := {}
  buffer : String := ""
  suggestions : Suggestions
  result : Option Float := none
  config : Config
  fallback : Fallback

/-- What a key has done: whether the field must not act on it as well, and the request that has to be
fetched. -/
structure KeyOutcome where
  preventDefault : Bool
  request : Option Request

namespace Editor

/-- An editor with nothing in it. -/
def new (config : Config) (fallback : Fallback) : Editor where
  suggestions := .ofMilliseconds config.cacheTtlMs.toNat
  config := config
  fallback := fallback

/-- A reply that changes no formula. -/
def quiet {α : Type} (value : α) (e : Editor) : Reply Editor α := ⟨value, e, []⟩

/-- Carries out a change of the formula. -/
def onStore {α : Type} (e : Editor) (change : Store → Reply Store α) : Reply Editor α :=
  let r := change e.store
  ⟨r.value, { e with store := r.state }, r.notices⟩

/-! ### Typing -/

/-- Puts a text into the buffer and asks for suggestions to it. -/
def setBuffer (e : Editor) (text : String) (now : Float) : Reply Editor (Option Request) :=
  let (request, suggestions) := e.suggestions.changeQuery text now
  quiet request { e with buffer := text, suggestions := suggestions }

/-- Adds typed text to the buffer. -/
def input (e : Editor) (text : String) (now : Float) : Reply Editor (Option Request) :=
  if text = "" then quiet none e else e.setBuffer (e.buffer ++ text) now

/-- Replaces the buffer by what stands in the field. -/
def setInput (e : Editor) (text : String) (now : Float) : Reply Editor (Option Request) :=
  if text = e.buffer then quiet none e else e.setBuffer text now

/-! ### Keys -/

/-- Adds the buffer to the formula if it is a number. -/
def commitNumber (e : Editor) : Reply Editor Unit :=
  if isTypedNumber e.buffer then e.onStore (·.append (.literal e.buffer)) else quiet () e

/-- Removes the last piece of the formula. A tag is removed by its id. -/
def deleteLast (e : Editor) : Reply Editor Unit :=
  match e.store.formula.last? with
  | none => quiet () e
  | some (.tag t) => (e.onStore (·.removeTag t.id)).andThen fun _ e => quiet () e
  | some (.literal _) => (e.onStore Store.popLast).andThen fun _ e => quiet () e

/-- Backspace shortens the buffer, and deletes from the formula once the buffer is empty. -/
def backspace (e : Editor) (now : Float) : Reply Editor KeyOutcome :=
  if e.buffer = "" then e.deleteLast.andThen fun _ e => quiet ⟨false, none⟩ e
  else
    (e.setBuffer (String.ofList e.buffer.toList.dropLast) now).andThen
      fun request e => quiet ⟨true, request⟩ e

/-- An operator key commits the buffer, or drops it if it is no number, and adds the operator. -/
def typeOperator (e : Editor) (o : Operator) (now : Float) : Reply Editor KeyOutcome :=
  let cleared : Reply Editor (Option Request) :=
    if e.buffer = "" then quiet none e else e.commitNumber.andThen fun _ e => e.setBuffer "" now
  cleared.andThen fun request e =>
    (e.onStore (·.append (.literal (String.singleton o.char)))).andThen
      fun _ e => quiet ⟨true, request⟩ e

/-- Enter commits the buffer if it is a number. -/
def enter (e : Editor) (now : Float) : Reply Editor KeyOutcome :=
  if e.buffer = "" then quiet ⟨false, none⟩ e
  else if isTypedNumber e.buffer then
    (e.commitNumber.andThen fun _ e => e.setBuffer "" now).andThen
      fun request e => quiet ⟨true, request⟩ e
  else quiet ⟨true, none⟩ e

/-- Acts on a key. -/
def key (e : Editor) (k : Key) (now : Float) : Reply Editor KeyOutcome :=
  match k with
  | .backspace => e.backspace now
  | .operator o => e.typeOperator o now
  | .enter => e.enter now
  | .other => quiet ⟨false, none⟩ e

/-! ### Suggestions and tags -/

/-- Takes in the answer to a request, and tells whether it is on display now. -/
def receive (e : Editor) (request : Request) (result : FetchResult) (now : Float) :
    Reply Editor Bool :=
  let (updated, suggestions) := e.suggestions.deliver request result e.buffer now
  quiet updated { e with suggestions := suggestions }

/-- The id `id`, or the first of `id#2`, `id#3` and so on that no tag of the formula has. -/
def freshId (f : Formula) (id : String) : String :=
  if f.hasTag id then
    (((List.range (f.pieces.length + 1)).map fun n => id ++ "#" ++ toString (n + 2)).find?
      fun candidate => !f.hasTag candidate).getD id
  else id

/-- The value of a candidate, made up if it has none. -/
def valueOf (e : Editor) (c : Candidate) : Float × Fallback :=
  match c.value with
  | some x => (x, e.fallback)
  | none => e.fallback.next

/-- Adds a tag for a candidate, and clears the text that was searched for. -/
def accept (e : Editor) (c : Candidate) (now : Float) : Reply Editor Tag :=
  let (value, fallback) := e.valueOf c
  let t : Tag := ⟨freshId e.store.formula c.id, c.name, value, e.config.tagOptions⟩
  ({ e with fallback := fallback }.onStore (·.append (.tag t))).andThen fun _ e =>
    (e.setBuffer "" now).andThen fun _ e =>
      quiet t { e with suggestions := e.suggestions.dismiss }

/-- Chooses an option for a tag, and tells whether the tag is there. -/
def chooseOption (e : Editor) (id option : String) : Reply Editor Bool :=
  e.onStore (·.chooseOption id option)

/-- Removes a tag, and gives it. -/
def removeTag (e : Editor) (id : String) : Reply Editor (Option Tag) := e.onStore (·.removeTag id)

/-! ### The whole formula -/

/-- Evaluates the formula. A failure clears the result of the last time. -/
def calculate (e : Editor) : Reply Editor (Option Float) :=
  let result := e.store.formula.calculate
  quiet result { e with result := result }

/-- Empties the formula, the buffer and the result. -/
def clear (e : Editor) (now : Float) : Reply Editor Unit :=
  (e.onStore (·.replaceAll [])).andThen fun _ e =>
    (e.setBuffer "" now).andThen fun _ e => quiet () { e with result := none }

end Editor

end FormulaField
