import Mathlib.Data.List.Induction
import FormulaField.Proofs.TagRemoval

/-!
What becomes of a tag. Every tag in the formula was made by the acceptance of a candidate and has been
there ever since, and all that has happened to it are the options that were chosen for its id in the
meantime: each is a suffix of the name, in the order of the choices. An id that has gone and comes back
is a new tag, without the suffixes of the old one. To choose an option changes the name of one tag and
nothing that is evaluated.
-/

namespace FormulaField

/-! ### Suffixes -/

/-- The option that a call chooses for the tag with this id. -/
def Call.optionFor? (id : String) : Call → Option String
  | .chooseOption target option => if target = id then some option else none
  | .input _ | .setInput _ | .key _ | .receive _ _ | .accept _ | .removeTag _ | .calculate
  | .clear => none

/-- The options that some calls choose for the tag with this id, in order. -/
def optionsFor (id : String) (calls : List (Float × Call)) : List String :=
  calls.filterMap fun c => c.2.optionFor? id

/-- A tag with options as suffixes of its name. -/
def Tag.withOptions (t : Tag) (options : List String) : Tag :=
  { t with name := t.name ++ String.join (options.map fun option => " (" ++ option ++ ")") }

section
variable {t : Tag}

theorem Tag.withOptions_nil : t.withOptions [] = t := by
  simp [Tag.withOptions]

theorem Tag.withOptions_singleton (option : String) :
    t.withOptions [option] = t.withOption option := by
  simp [Tag.withOptions, Tag.withOption, String.append_assoc]

theorem Tag.withOptions_append (options more : List String) :
    (t.withOptions options).withOptions more = t.withOptions (options ++ more) := by
  simp [Tag.withOptions, String.append_assoc]

theorem optionsFor_concat (id : String) (calls : List (Float × Call)) (now : Float) (call : Call) :
    optionsFor id (calls ++ [(now, call)]) = optionsFor id calls ++ (call.optionFor? id).toList := by
  rw [optionsFor, List.filterMap_append, optionsFor]
  cases h : call.optionFor? id <;> simp [h]

end

/-! ### Choosing an option -/

namespace Formula

section
variable {f : Formula} {id : String}

theorem mem_tagIds : id ∈ f.tagIds ↔ ∃ t, .tag t ∈ f.pieces ∧ t.id = id := by
  rw [tagIds, List.mem_filterMap]
  constructor
  · rintro ⟨p, hp, hid⟩
    cases p with
    | literal text => cases hid
    | tag t => exact ⟨t, hp, Option.some_inj.mp hid⟩
  · rintro ⟨t, ht, rfl⟩
    exact ⟨.tag t, ht, rfl⟩

/-- Where no tag has the id, no piece is changed. -/
theorem map_withOption {ps : List Piece} (h : id ∉ tagIds ⟨ps⟩) (option : String) :
    ps.map (Piece.withOption id option) = ps := by
  have hpiece : ∀ p ∈ ps, Piece.withOption id option p = p := by
    intro p hp
    cases p with
    | literal text => rfl
    | tag t => exact if_neg fun hid => h (mem_tagIds.mpr ⟨t, hp, hid⟩)
  rw [List.map_congr_left hpiece, List.map_id']

/-- Of a formula whose tags have distinct ids, one piece is changed. -/
theorem pieces_chooseOption (hdistinct : f.DistinctTags) {before after : List Piece} {t : Tag}
    (hpieces : f.pieces = before ++ .tag t :: after) (option : String) :
    (f.chooseOption t.id option).2.pieces = before ++ .tag (t.withOption option) :: after := by
  have hids : f.tagIds = tagIds ⟨before⟩ ++ t.id :: tagIds ⟨after⟩ := by
    rw [← tagIds_tag, ← tagIds_append, ← hpieces]
  rw [DistinctTags, hids, List.nodup_append, List.nodup_cons] at hdistinct
  obtain ⟨-, ⟨hafter, -⟩, hapart⟩ := hdistinct
  have hbefore : t.id ∉ tagIds ⟨before⟩ := fun hmem =>
    hapart t.id hmem t.id List.mem_cons_self rfl
  have htag : Piece.withOption t.id option (.tag t) = .tag (t.withOption option) := if_pos rfl
  rw [chooseOption, hpieces, List.map_append, List.map_cons, map_withOption hbefore,
    map_withOption hafter, htag]

/-- The text that is evaluated has no names in it. -/
theorem expression_chooseOption (f : Formula) (id option : String) :
    (f.chooseOption id option).2.expression = f.expression := by
  have htext : ∀ p : Piece, (p.withOption id option).text = p.text := by
    intro p
    cases p with
    | literal text => rfl
    | tag t =>
      simp only [Piece.withOption]
      split <;> rfl
  simp only [chooseOption, expression, List.flatMap_map, htext]

end

end Formula

/-! ### One call -/

namespace Editor

section
variable {e start : Editor} {t made : Tag} {calls before after : List (Float × Call)}

theorem tag_not_mem_committed (e : Editor) : .tag t ∉ e.committed := by
  unfold committed
  split <;> simp

theorem mem_of_mem_removeTag {f : Formula} {id : String} {p : Piece}
    (h : p ∈ (f.removeTag id).2.pieces) : p ∈ f.pieces := by
  rw [Formula.removeTag_eq] at h
  exact List.mem_of_mem_eraseP h

theorem mem_of_mem_withoutLast {f : Formula} {p : Piece} (h : p ∈ (withoutLast f).pieces) :
    p ∈ f.pieces := by
  unfold withoutLast at h
  split at h
  · exact h
  · exact mem_of_mem_removeTag h
  · exact List.dropLast_subset _ h

/-- A tag after a call is one that the call makes, or one from before with the option that the call
chooses for it. -/
theorem tag_of_call {call : Call} (h : .tag t ∈ (e.nextFormula call).pieces) :
    (∃ c, call = .accept c ∧ t = e.tagOf c) ∨
    ∃ u, .tag u ∈ e.store.formula.pieces ∧ t = u.withOptions (call.optionFor? u.id).toList := by
  have hkept : (∀ id, call.optionFor? id = none) → .tag t ∈ e.store.formula.pieces →
      ∃ u, .tag u ∈ e.store.formula.pieces ∧ t = u.withOptions (call.optionFor? u.id).toList := by
    intro hnone hmem
    refine ⟨t, hmem, ?_⟩
    rw [hnone, Option.toList_none, Tag.withOptions_nil]
  cases call with
  | input | setInput | receive | calculate => exact .inr (hkept (fun _ => rfl) h)
  | key k =>
    refine .inr (hkept (fun _ => rfl) ?_)
    cases k with
    | backspace =>
      simp only [nextFormula] at h
      split at h
      · exact mem_of_mem_withoutLast h
      · exact h
    | operator o =>
      simp only [nextFormula, List.mem_append, List.mem_singleton, reduceCtorEq, or_false] at h
      exact h.resolve_right (tag_not_mem_committed e)
    | enter =>
      rw [nextFormula, List.mem_append] at h
      exact h.resolve_right (tag_not_mem_committed e)
    | other => exact h
  | accept c =>
    rcases List.mem_append.mp h with h | h
    · exact .inr (hkept (fun _ => rfl) h)
    · exact .inl ⟨c, rfl, Piece.tag.inj (List.mem_singleton.mp h)⟩
  | chooseOption id option =>
    obtain ⟨p, hp, heq⟩ := List.mem_map.mp h
    cases p with
    | literal text => cases heq
    | tag u =>
      refine .inr ⟨u, hp, ?_⟩
      simp only [Piece.withOption] at heq
      by_cases hid : u.id = id
      · rw [if_pos hid] at heq
        rw [Call.optionFor?, if_pos hid.symm, Option.toList_some, Tag.withOptions_singleton]
        exact (Piece.tag.inj heq).symm
      · rw [if_neg hid] at heq
        rw [Call.optionFor?, if_neg (Ne.symm hid), Option.toList_none, Tag.withOptions_nil]
        exact (Piece.tag.inj heq).symm
  | removeTag id => exact .inr (hkept (fun _ => rfl) (mem_of_mem_removeTag h))
  | clear => cases h

/-! ### Runs -/

/-- From the end of `before` on, and through all of `after`, the tag that was `made` is in the formula,
each time with the options that have been chosen for it. -/
def Stays (start : Editor) (made : Tag) (before after : List (Float × Call)) : Prop :=
  ∀ later, later <+: after → .tag (made.withOptions (optionsFor made.id later)) ∈
    (start.run (before ++ later)).store.formula.pieces

theorem Stays.concat (h : Stays start made before after) {x : Float × Call}
    (hmem : .tag (made.withOptions (optionsFor made.id (after ++ [x]))) ∈
      (start.run (before ++ (after ++ [x]))).store.formula.pieces) :
    Stays start made before (after ++ [x]) := by
  intro later hlater
  rcases List.prefix_concat_iff.mp hlater with rfl | hlater
  · exact hmem
  · exact h later hlater

/-- A tag that stays keeps its id from others: no acceptance gives it out again. -/
theorem Stays.id_ne (h : Stays start made before after) {later : List (Float × Call)} {now : Float}
    {c : Candidate} (hlater : later <+: after) :
    ((start.run (before ++ later)).accept c now).value.id ≠ made.id := by
  intro heq
  have hmem : made.id ∈ (start.run (before ++ later)).store.formula.tagIds :=
    Formula.mem_tagIds.mpr ⟨_, h later hlater, rfl⟩
  rw [← heq] at hmem
  exact freshId_not_mem _ _ hmem

theorem run_concat (start : Editor) (calls : List (Float × Call)) (now : Float) (call : Call) :
    (start.run (calls ++ [(now, call)])).store.formula = (start.run calls).nextFormula call := by
  rw [run_append]
  exact formula_perform _ now call

/-- The acceptance that made a tag, with the calls before and after it. -/
theorem exists_made (hstart : start.store.formula.pieces = [])
    (h : .tag t ∈ (start.run calls).store.formula.pieces) :
    ∃ before now c after, calls = before ++ (now, .accept c) :: after ∧
      t = ((start.run before).accept c now).value.withOptions
        (optionsFor ((start.run before).accept c now).value.id after) ∧
      Stays start ((start.run before).accept c now).value (before ++ [(now, .accept c)]) after := by
  induction calls using List.reverseRecOn generalizing t with
  | nil =>
    rw [run, hstart] at h
    cases h
  | append_singleton calls x ih =>
    obtain ⟨now, call⟩ := x
    have hnext := h
    rw [run_concat] at hnext
    rcases tag_of_call hnext with ⟨c, rfl, rfl⟩ | ⟨u, hu, rfl⟩
    · refine ⟨calls, now, c, [], rfl, Tag.withOptions_nil.symm, ?_⟩
      intro later hlater
      rw [List.prefix_nil.mp hlater, List.append_nil]
      exact Tag.withOptions_nil.symm ▸ h
    · obtain ⟨before, now', c, after, rfl, hgrown, hstays⟩ := ih hu
      have hid : u.id = ((start.run before).accept c now').value.id := by
        rw [hgrown]
        rfl
      have hmore : u.withOptions (call.optionFor? u.id).toList =
          ((start.run before).accept c now').value.withOptions
            (optionsFor ((start.run before).accept c now').value.id (after ++ [(now, call)])) := by
        rw [optionsFor_concat, ← Tag.withOptions_append, ← hgrown, hid]
      refine ⟨before, now', c, after ++ [(now, call)], by simp, hmore, hstays.concat ?_⟩
      rw [← hmore]
      simpa using h

end

/-- Every tag of an editor in use was made by the acceptance of a candidate. It is the tag that this
acceptance answered but for its name, which has got a suffix for every option that was chosen for its id
since, in order; and so it was at every moment in between, when no other acceptance answered with its
id. To choose an option finds a tag exactly if one has the id, and gives a suffix to this tag alone;
what is not found changes nothing, and the number of pieces, the text that is evaluated and its value
are always kept. -/
theorem tags_change_by_options (config : Config) (fallback : Fallback)
    (calls : List (Float × Call)) :
    let start := new config fallback
    let e := start.run calls
    let f := e.store.formula
    (∀ t, .tag t ∈ f.pieces → ∃ (before : List (Float × Call)) (now : Float) (c : Candidate)
        (after : List (Float × Call)), calls = before ++ (now, .accept c) :: after ∧
      let made := ((start.run before).accept c now).value
      t = made.withOptions (optionsFor made.id after) ∧
      Stays start made (before ++ [(now, .accept c)]) after ∧
      ∀ (later : List (Float × Call)) (now' : Float) (c' : Candidate),
        later ++ [(now', .accept c')] <+: after →
        ((start.run (before ++ [(now, .accept c)] ++ later)).accept c' now').value.id ≠ made.id) ∧
    ∀ id option : String,
      let r := e.chooseOption id option
      let f' := r.state.store.formula
      (r.value = true ↔ ∃ t, .tag t ∈ f.pieces ∧ t.id = id) ∧
      (∀ (before : List Piece) (t : Tag) (after : List Piece),
        f.pieces = before ++ .tag t :: after → t.id = id →
        f'.pieces = before ++ .tag (t.withOption option) :: after) ∧
      (r.value = false → f' = f) ∧
      f'.pieces.length = f.pieces.length ∧ f'.expression = f.expression ∧
      f'.evaluate = f.evaluate := by
  intro start e f
  have hnew : start.store.formula.DistinctTags := List.nodup_nil
  have hdistinct : f.DistinctTags := distinctTags_run hnew calls
  refine ⟨?_, ?_⟩
  · intro t ht
    have hstart : start.store.formula.pieces = [] := rfl
    obtain ⟨before, now, c, after, hcalls, hgrown, hstays⟩ := exists_made hstart ht
    refine ⟨before, now, c, after, hcalls, hgrown, hstays, ?_⟩
    intro later now' c' hlater
    exact hstays.id_ne ((List.prefix_append _ _).trans hlater)
  · intro id option r f'
    have hexpression : f'.expression = f.expression := f.expression_chooseOption id option
    refine ⟨?_, ?_, ?_, List.length_map _, hexpression, ?_⟩
    · rw [← Formula.mem_tagIds]
      exact Formula.hasTag_iff
    · rintro before t after hpieces rfl
      exact Formula.pieces_chooseOption hdistinct hpieces option
    · intro hmissing
      have hid : id ∉ f.tagIds := Formula.hasTag_eq_false_iff.mp hmissing
      exact congrArg Formula.mk (Formula.map_withOption hid option)
    · rw [Formula.evaluate, hexpression, Formula.evaluate]

/-- A tag that comes back under the id of a removed one has none of its suffixes, and keeps apart from a
tag that is renamed in between. -/
theorem renamed_after_return :
    let rent : Float × Call := (Float.ofBits 0, .accept ⟨"r", "Rent", some (Float.ofBits 0)⟩)
    let choose (id option : String) : Float × Call := (Float.ofBits 0, .chooseOption id option)
    let calls := [rent, choose "r" "Q1", (Float.ofBits 0, .removeTag "r"), rent, rent,
      choose "r" "Q2", choose "r#2" "Q3", choose "r" "USD"]
    let start := new {} (.sequence [])
    let f := (start.run calls).store.formula
    let t : Tag := ⟨"r", "Rent (Q2) (USD)", Float.ofBits 0, ["Option 1", "Option 2", "Option 3"]⟩
    let u : Tag := ⟨"r#2", "Rent (Q3)", Float.ofBits 0, ["Option 1", "Option 2", "Option 3"]⟩
    f.pieces = [.tag t, .tag u] ∧
    (∃ before now c after, calls = before ++ (now, .accept c) :: after ∧
      t = ((start.run before).accept c now).value.withOptions
        (optionsFor ((start.run before).accept c now).value.id after)) ∧
    ((start.run calls).chooseOption "r#2" "Q4").state.store.formula.pieces =
      [.tag t, .tag (u.withOption "Q4")] ∧
    ((start.run calls).chooseOption "r#3" "Q4").value = false ∧
    ((start.run calls).chooseOption "r#3" "Q4").state.store.formula = f := by
  intro rent choose calls start f t u
  have hpieces : f.pieces = [.tag t, .tag u] := by rfl
  have hmem : .tag t ∈ f.pieces := by
    rw [hpieces]
    exact List.mem_cons_self
  have hmissing : ((start.run calls).chooseOption "r#3" "Q4").value = false := by rfl
  obtain ⟨hmade, hchoose⟩ := tags_change_by_options {} (.sequence []) calls
  obtain ⟨before, now, c, after, hcalls, hgrown, -⟩ := hmade t hmem
  exact ⟨hpieces, ⟨before, now, c, after, hcalls, hgrown⟩,
    (hchoose "r#2" "Q4").2.1 [.tag t] u [] hpieces rfl, hmissing,
    (hchoose "r#3" "Q4").2.2.1 hmissing⟩

end Editor

end FormulaField
