import FormulaField.Proofs.Run
import FormulaField.Proofs.Subscribers

/-!
What the network answers, and when anything happens, makes no difference to the formula. Two editors
may be at odds about everything that concerns suggestions: what is on display, what is waited for and
what is kept in the cache. `Alike` asks for nothing but the rest to be the same. Every call of the user
keeps them alike, each at its own time, and an answer from the network keeps an editor like it was. So
two runs in which the user does the same look the same to the user and to the subscribers after every
step.
-/

namespace FormulaField

/-- Something that happens to an editor: a call at some time, or a call of its store. -/
inductive Interaction where
  | call (now : Float) (call : Call)
  | store (call : StoreCall)

/-- What the user does in an interaction, whenever it is. An answer to a request is not the user's. -/
def Interaction.byUser? : Interaction → Option (Call ⊕ StoreCall)
  | .call _ (.receive _ _) => none
  | .call _ c => some (.inl c)
  | .store c => some (.inr c)

/-- All that the user does, in order. -/
def userInputs (interactions : List Interaction) : List (Call ⊕ StoreCall) :=
  interactions.filterMap Interaction.byUser?

/-- The answer of a call, but for the request that it hands out to be fetched. -/
def Answer.withoutRequest : Answer → Answer
  | .request _ => .request none
  | .outcome o => .outcome { o with request := none }
  | answer => answer

/-- What can be seen after an interaction: the formula, the buffer, the result, the answer, and all
notices that were sent so far. -/
structure Observation where
  formula : Formula
  buffer : String
  result : Option Float
  answer : Answer ⊕ StoreAnswer
  notices : List Notice

namespace Editor

/-- Carries out an interaction. -/
def interact (e : Editor) : Interaction → Reply Editor (Answer ⊕ StoreAnswer)
  | .call now call =>
    let r := e.perform now call
    ⟨.inl r.value.withoutRequest, r.state, r.notices⟩
  | .store call =>
    let r := e.store.act call
    ⟨.inr r.value, { e with store := r.state }, r.notices⟩

/-- What can be seen after each thing that the user does, where `told` are the notices so far. -/
def observations (told : List Notice) (e : Editor) : List Interaction → List Observation
  | [] => []
  | i :: rest =>
    let r := e.interact i
    let told := told ++ r.notices
    let later := r.state.observations told rest
    match i.byUser? with
    | none => later
    | some _ => ⟨r.state.store.formula, r.state.buffer, r.state.result, r.value, told⟩ :: later

/-! ### Editors that differ in their suggestions -/

/-- Two editors that are the same but for their suggestions. -/
structure Alike (e e' : Editor) : Prop where
  store : e.store = e'.store
  buffer : e.buffer = e'.buffer
  result : e.result = e'.result
  config : e.config = e'.config
  fallback : e.fallback = e'.fallback

theorem Alike.refl (e : Editor) : Alike e e := ⟨rfl, rfl, rfl, rfl, rfl⟩

theorem Alike.symm {e e' : Editor} (h : Alike e e') : Alike e' e :=
  ⟨h.store.symm, h.buffer.symm, h.result.symm, h.config.symm, h.fallback.symm⟩

theorem Alike.trans {e₁ e₂ e₃ : Editor} (h : Alike e₁ e₂) (h' : Alike e₂ e₃) : Alike e₁ e₃ where
  store := h.store.trans h'.store
  buffer := h.buffer.trans h'.buffer
  result := h.result.trans h'.result
  config := h.config.trans h'.config
  fallback := h.fallback.trans h'.fallback

/-- Two replies with values in the relation `same`, with editors that are alike, and with the same
notices. -/
structure Match {α : Type} (same : α → α → Prop) (r r' : Reply Editor α) : Prop where
  value : same r.value r'.value
  state : Alike r.state r'.state
  notices : r.notices = r'.notices

section
variable {α β : Type} {same : α → α → Prop} {same' : β → β → Prop} {e e' : Editor}

theorem Match.andThen {r r' : Reply Editor α} {f f' : α → Editor → Reply Editor β}
    (h : Match same r r')
    (hf : ∀ a a' e e', same a a' → Alike e e' → Match same' (f a e) (f' a' e')) :
    Match same' (r.andThen f) (r'.andThen f') := by
  have hnext := hf _ _ _ _ h.value h.state
  refine ⟨hnext.value, hnext.state, ?_⟩
  change r.notices ++ _ = r'.notices ++ _
  rw [h.notices, hnext.notices]

theorem match_quiet {a a' : α} (ha : same a a') (h : Alike e e') :
    Match same (quiet a e) (quiet a' e') :=
  ⟨ha, h, rfl⟩

/-- Another value in place of that of the reply. -/
theorem Match.map {r r' : Reply Editor α} {g g' : α → β} (h : Match same r r')
    (hg : ∀ a a', same a a' → same' (g a) (g' a')) :
    Match same' (r.andThen fun a e => quiet (g a) e) (r'.andThen fun a e => quiet (g' a) e) :=
  h.andThen fun a a' _ _ ha h => match_quiet (hg a a' ha) h

/-- A change of the store is the same in both. -/
theorem match_onStore (h : Alike e e') (change : Store → Reply Store α) :
    Match Eq (e.onStore change) (e'.onStore change) := by
  unfold onStore
  rw [h.store]
  exact ⟨rfl, ⟨rfl, h.buffer, h.result, h.config, h.fallback⟩, rfl⟩

/-- A text that is put into the buffer may be asked for by one and not by the other. -/
theorem match_setBuffer (h : Alike e e') (text : String) (now now' : Float) :
    Match (fun _ _ => True) (e.setBuffer text now) (e'.setBuffer text now') :=
  ⟨trivial, ⟨h.store, rfl, h.result, h.config, h.fallback⟩, rfl⟩

end

/-! ### The calls of the user -/

section
variable {e e' : Editor} (h : Alike e e') (now now' : Float)
include h

theorem match_input (text : String) :
    Match (fun _ _ => True) (e.input text now) (e'.input text now') := by
  unfold input
  rw [h.buffer]
  split
  · exact match_quiet trivial h
  · exact match_setBuffer h _ now now'

theorem match_setInput (text : String) :
    Match (fun _ _ => True) (e.setInput text now) (e'.setInput text now') := by
  unfold setInput
  rw [h.buffer]
  split
  · exact match_quiet trivial h
  · exact match_setBuffer h text now now'

theorem match_commitNumber : Match Eq e.commitNumber e'.commitNumber := by
  unfold commitNumber
  rw [h.buffer]
  split
  · exact match_onStore h _
  · exact match_quiet rfl h

theorem match_deleteLast : Match Eq e.deleteLast e'.deleteLast := by
  unfold deleteLast
  rw [h.store]
  split
  · exact match_quiet rfl h
  · exact (match_onStore h _).map fun _ _ _ => rfl
  · exact (match_onStore h _).map fun _ _ _ => rfl

/-- The buffer and the formula decide whether the field must not act on a key as well. -/
theorem match_backspace :
    Match (fun o o' => o.preventDefault = o'.preventDefault) (e.backspace now)
      (e'.backspace now') := by
  unfold backspace
  rw [h.buffer]
  split
  · exact (match_deleteLast h).map fun _ _ _ => rfl
  · exact (match_setBuffer h _ now now').map fun _ _ _ => rfl

theorem match_typeOperator (o : Operator) :
    Match (fun o o' => o.preventDefault = o'.preventDefault) (e.typeOperator o now)
      (e'.typeOperator o now') := by
  unfold typeOperator
  refine Match.andThen (?_ : Match (fun _ _ => True) _ _) fun _ _ _ _ _ h => ?_
  · rw [h.buffer]
    split
    · exact match_quiet trivial h
    · exact (match_commitNumber h).andThen fun _ _ _ _ _ h => match_setBuffer h "" now now'
  · exact (match_onStore h _).map fun _ _ _ => rfl

theorem match_enter :
    Match (fun o o' => o.preventDefault = o'.preventDefault) (e.enter now) (e'.enter now') := by
  unfold enter
  rw [h.buffer]
  split
  · exact match_quiet rfl h
  · split
    · have hcleared := (match_commitNumber h).andThen fun _ _ _ _ _ h =>
        match_setBuffer h "" now now'
      exact hcleared.map fun _ _ _ => rfl
    · exact match_quiet rfl h

theorem match_key (k : Key) :
    Match (fun o o' => o.preventDefault = o'.preventDefault) (e.key k now) (e'.key k now') := by
  cases k with
  | backspace => exact match_backspace h now now'
  | operator o => exact match_typeOperator h now now' o
  | enter => exact match_enter h now now'
  | other => exact match_quiet rfl h

/-- A tag is made of the candidate, the formula, the settings and the values to fall back on. -/
theorem match_accept (c : Candidate) : Match Eq (e.accept c now) (e'.accept c now') := by
  have hvalue : e.valueOf c = e'.valueOf c := by
    unfold valueOf
    rw [h.fallback]
  have hfilled : Alike { e with fallback := (e'.valueOf c).2 }
      { e' with fallback := (e'.valueOf c).2 } :=
    ⟨h.store, h.buffer, h.result, h.config, rfl⟩
  simp only [accept, hvalue]
  rw [h.store, h.config] at hfilled ⊢
  refine (match_onStore hfilled _).andThen fun _ _ _ _ _ h => ?_
  refine (match_setBuffer h "" now now').andThen fun _ _ _ _ _ h => ?_
  exact match_quiet rfl ⟨h.store, h.buffer, h.result, h.config, h.fallback⟩

theorem match_calculate : Match Eq e.calculate e'.calculate := by
  unfold calculate
  rw [h.store]
  exact match_quiet rfl ⟨rfl, h.buffer, rfl, h.config, h.fallback⟩

theorem match_clear : Match Eq (e.clear now) (e'.clear now') := by
  unfold clear
  refine (match_onStore h _).andThen fun _ _ _ _ _ h => ?_
  refine (match_setBuffer h "" now now').andThen fun _ _ _ _ _ h => ?_
  exact match_quiet rfl ⟨h.store, h.buffer, rfl, h.config, h.fallback⟩

/-- A call of the user does the same to both, and is answered the same but for a request. -/
theorem match_perform {call : Call} (huser : ∀ request result, call ≠ .receive request result) :
    Match (fun a a' => a.withoutRequest = a'.withoutRequest) (e.perform now call)
      (e'.perform now' call) := by
  cases call <;> simp only [perform]
  case input text => exact (match_input h now now' text).map fun _ _ _ => rfl
  case setInput text => exact (match_setInput h now now' text).map fun _ _ _ => rfl
  case key k =>
    refine (match_key h now now' k).map fun o o' ho => ?_
    simp only [Answer.withoutRequest, ho]
  case receive request result => exact absurd rfl (huser request result)
  case accept c => exact (match_accept h now now' c).map fun _ _ ht => by rw [ht]
  case chooseOption id option =>
    exact (match_onStore h (·.chooseOption id option)).map fun _ _ hfound => by rw [hfound]
  case removeTag id =>
    exact (match_onStore h (·.removeTag id)).map fun _ _ hremoved => by rw [hremoved]
  case calculate => exact (match_calculate h).map fun _ _ hresult => by rw [hresult]
  case clear => exact (match_clear h now now').map fun _ _ _ => rfl

/-- So is a call of the store. -/
theorem match_act (call : StoreCall) :
    Match Eq (e.interact (.store call)) (e'.interact (.store call)) := by
  unfold interact
  rw [h.store]
  exact ⟨rfl, ⟨rfl, h.buffer, h.result, h.config, h.fallback⟩, rfl⟩

end

/-! ### Two runs -/

section
variable {e e' : Editor} {i i' : Interaction} {told : List Notice}

/-- An answer from the network leaves an editor like it was, and is not announced. -/
theorem alike_of_network (e : Editor) (hi : i.byUser? = none) :
    Alike e (e.interact i).state ∧ (e.interact i).notices = [] := by
  cases i with
  | store call => cases hi
  | call now call =>
    cases call
    case receive request result => exact ⟨⟨rfl, rfl, rfl, rfl, rfl⟩, rfl⟩
    all_goals cases hi

/-- The same done by the user, at different times, to editors that are alike. -/
theorem match_interact (h : Alike e e') {u : Call ⊕ StoreCall} (hi : i.byUser? = some u)
    (hi' : i'.byUser? = some u) : Match Eq (e.interact i) (e'.interact i') := by
  have hcall : ∀ {now call}, (Interaction.call now call).byUser? = some u →
      u = .inl call ∧ ∀ request result, call ≠ .receive request result := by
    intro now call hu
    cases call <;> cases hu <;> exact ⟨rfl, nofun⟩
  cases i with
  | store call =>
    cases hi
    cases i' with
    | store call' =>
      cases hi'
      exact match_act h call
    | call now call' => cases (hcall hi').1
  | call now call =>
    obtain ⟨rfl, huser⟩ := hcall hi
    cases i' with
    | store call' => cases hi'
    | call now' call' =>
      obtain ⟨hsame, -⟩ := hcall hi'
      cases hsame
      obtain ⟨hvalue, hstate, hnotices⟩ := match_perform h now now' huser
      exact ⟨congrArg Sum.inl hvalue, hstate, hnotices⟩

theorem observations_of_network (hi : i.byUser? = none) (rest : List Interaction) :
    e.observations told (i :: rest) = (e.interact i).state.observations told rest := by
  rw [observations, hi, (alike_of_network e hi).2, List.append_nil]

theorem observations_of_user {u : Call ⊕ StoreCall} (hi : i.byUser? = some u)
    (rest : List Interaction) : e.observations told (i :: rest) =
      let r := e.interact i
      ⟨r.state.store.formula, r.state.buffer, r.state.result, r.value, told ++ r.notices⟩ ::
        r.state.observations (told ++ r.notices) rest := by
  rw [observations, hi]

/-- Answers from the network may be left out. -/
theorem exists_alike_observations (e : Editor) (told : List Notice) (rest : List Interaction)
    {before : List Interaction} (hbefore : ∀ i ∈ before, i.byUser? = none) : ∃ e', Alike e e' ∧
      e.observations told (before ++ rest) = e'.observations told rest := by
  induction before generalizing e with
  | nil => exact ⟨e, .refl e, rfl⟩
  | cons i before ih =>
    have hi : i.byUser? = none := hbefore i List.mem_cons_self
    obtain ⟨e', halike, heq⟩ := ih (e.interact i).state fun j hj =>
      hbefore j (List.mem_cons_of_mem i hj)
    refine ⟨e', (alike_of_network e hi).1.trans halike, ?_⟩
    rw [List.cons_append, observations_of_network hi, heq]

theorem observations_congr (h : Alike e e') {xs ys : List Interaction}
    (hinputs : userInputs xs = userInputs ys) : e.observations told xs = e'.observations told ys := by
  induction xs generalizing e e' ys told with
  | nil =>
    have hnetwork : ∀ i ∈ ys, i.byUser? = none := List.filterMap_eq_nil_iff.mp hinputs.symm
    obtain ⟨e'', -, heq⟩ := exists_alike_observations e' told [] hnetwork
    rw [List.append_nil] at heq
    rw [heq]
    rfl
  | cons x xs ih =>
    cases hx : x.byUser? with
    | none =>
      rw [userInputs, List.filterMap_cons_none hx] at hinputs
      rw [observations_of_network hx]
      exact ih ((alike_of_network e hx).1.symm.trans h) hinputs
    | some u =>
      rw [userInputs, List.filterMap_cons_some hx] at hinputs
      obtain ⟨before, y, ys, rfl, hbefore, hy, hrest⟩ := List.filterMap_eq_cons_iff.mp hinputs.symm
      obtain ⟨e'', halike, heq⟩ := exists_alike_observations e' told (y :: ys) hbefore
      obtain ⟨hvalue, hstate, hnotices⟩ := match_interact (h.trans halike) hx hy
      rw [heq, observations_of_user hx, observations_of_user hy]
      simp only [hvalue, hstate.store, hstate.buffer, hstate.result, hnotices]
      rw [ih hstate hrest.symm]

/-- There is one observation for each thing that the user does. -/
theorem length_observations (e : Editor) (told : List Notice) (xs : List Interaction) :
    (e.observations told xs).length = (userInputs xs).length := by
  induction xs generalizing e told with
  | nil => rfl
  | cons x xs ih =>
    cases hx : x.byUser? with
    | none =>
      have hskip : userInputs (x :: xs) = userInputs xs := List.filterMap_cons_none hx
      rw [observations_of_network hx, ih, hskip]
    | some u =>
      have htake : userInputs (x :: xs) = u :: userInputs xs := List.filterMap_cons_some hx
      rw [observations_of_user hx, htake, List.length_cons, List.length_cons, ih]

end

/-- Two editors are made with the same settings and the same values to fall back on, and the user does
the same with both, each thing at any time. Whatever answers come from the network, to whatever
requests, when and how often, and in each case other ones: after each thing that the user does, the two
have the same formula, buffer and result, have sent the same notices, and have answered the same but
for the requests to be fetched. -/
theorem observations_of_same_inputs (config : Config) (fallback : Fallback)
    (xs ys : List Interaction) (hinputs : userInputs xs = userInputs ys) :
    ((new config fallback).observations [] xs).length = (userInputs xs).length ∧
    (new config fallback).observations [] xs = (new config fallback).observations [] ys :=
  ⟨length_observations _ _ _, observations_congr (.refl _) hinputs⟩

/-- A candidate is accepted while it is on display, and in another run without any answer from the
network and at a time that is no number. -/
theorem accepted_with_and_without_answer :
    let revenue : Candidate := ⟨"1", "Revenue", none⟩
    let answered : List Interaction := [.store .subscribe, .call (Float.ofBits 0) (.input "rev"),
      .call (Float.ofBits 0) (.receive ⟨1, "rev"⟩ (.ok [revenue])),
      .call (Float.ofBits 0) (.accept revenue)]
    let lost : List Interaction := [.store .subscribe, .call Float.nan (.input "rev"),
      .call Float.nan (.accept revenue)]
    let e := new {} (.sequence [])
    userInputs answered = userInputs lost ∧ e.observations [] answered = e.observations [] lost := by
  intro revenue answered lost e
  have hinputs : userInputs answered = userInputs lost := rfl
  exact ⟨hinputs, (observations_of_same_inputs {} (.sequence []) answered lost hinputs).2⟩

end Editor

end FormulaField
