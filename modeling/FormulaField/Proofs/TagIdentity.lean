import Mathlib.Data.List.Nodup
import Mathlib.Data.List.Perm.Subperm
import FormulaField.Proofs.Run

/-!
Tags are known by their ids. A tag is removed by its id, and so is the last piece of the formula when
it is a tag; both are right only while no two tags share an id. The editor keeps it so: a candidate
whose id is taken gets the first suffix that is free, and one is free within as many tries as the
formula has pieces. No call of the editor can bring two tags of one id together.
-/

namespace FormulaField

/-- The id of the tag that a piece is, if it is one. -/
def Piece.tagId? : Piece → Option String
  | .literal _ => none
  | .tag t => some t.id

namespace Formula

/-- The ids of the tags, in order. -/
def tagIds (f : Formula) : List String := f.pieces.filterMap Piece.tagId?

/-- No two tags have the same id. -/
def DistinctTags (f : Formula) : Prop := f.tagIds.Nodup

section
variable {f : Formula} {id : String}

@[simp]
theorem tagIds_append (ps qs : List Piece) : tagIds ⟨ps ++ qs⟩ = tagIds ⟨ps⟩ ++ tagIds ⟨qs⟩ :=
  List.filterMap_append

@[simp]
theorem tagIds_literal (text : String) (ps : List Piece) :
    tagIds ⟨.literal text :: ps⟩ = tagIds ⟨ps⟩ := rfl

@[simp]
theorem tagIds_tag (t : Tag) (ps : List Piece) : tagIds ⟨.tag t :: ps⟩ = t.id :: tagIds ⟨ps⟩ := rfl

theorem length_tagIds_le (f : Formula) : f.tagIds.length ≤ f.pieces.length :=
  List.length_filterMap_le ..

theorem hasTag_iff : f.hasTag id = true ↔ id ∈ f.tagIds := by
  rw [hasTag, List.any_eq_true, tagIds, List.mem_filterMap]
  constructor
  · rintro ⟨p, hp, hid⟩
    cases p with
    | literal text => cases hid
    | tag t =>
      refine ⟨.tag t, hp, ?_⟩
      simp only [Piece.tagWithId?] at hid
      split at hid
      · next heq => rw [Piece.tagId?, heq]
      · cases hid
  · rintro ⟨p, hp, hid⟩
    cases p with
    | literal text => cases hid
    | tag t =>
      cases hid
      exact ⟨.tag t, hp, by simp [Piece.tagWithId?]⟩

theorem hasTag_eq_false_iff : f.hasTag id = false ↔ id ∉ f.tagIds := by
  rw [← hasTag_iff, Bool.not_eq_true]

/-! ### Removing a tag -/

/-- Without a tag of this id nothing is taken out. -/
theorem takeTag?_eq_none {ps : List Piece} (h : id ∉ tagIds ⟨ps⟩) : takeTag? id ps = none := by
  induction ps with
  | nil => rfl
  | cons p ps ih =>
    cases p with
    | literal text =>
      rw [takeTag?, Piece.tagWithId?, ih h]
      rfl
    | tag t =>
      rw [tagIds_tag, List.mem_cons, not_or] at h
      rw [takeTag?, Piece.tagWithId?, if_neg (Ne.symm h.1), ih h.2]
      rfl

/-- What is taken out is the first tag of this id. -/
theorem takeTag?_append {before after : List Piece} {t : Tag} (hid : t.id = id)
    (h : id ∉ tagIds ⟨before⟩) :
    takeTag? id (before ++ .tag t :: after) = some (t, before ++ after) := by
  induction before with
  | nil => rw [List.nil_append, takeTag?, Piece.tagWithId?, if_pos hid, List.nil_append]
  | cons p ps ih =>
    cases p with
    | literal text =>
      rw [List.cons_append, takeTag?, Piece.tagWithId?, ih h]
      rfl
    | tag u =>
      rw [tagIds_tag, List.mem_cons, not_or] at h
      rw [List.cons_append, takeTag?, Piece.tagWithId?, if_neg (Ne.symm h.1), ih h.2]
      rfl

/-- A formula around the first of its tags with this id. -/
theorem exists_eq_append_tag {ps : List Piece} (h : id ∈ tagIds ⟨ps⟩) :
    ∃ before t after, ps = before ++ .tag t :: after ∧ t.id = id ∧ id ∉ tagIds ⟨before⟩ := by
  induction ps with
  | nil => cases h
  | cons p ps ih =>
    cases p with
    | literal text =>
      obtain ⟨before, t, after, rfl, hid, hbefore⟩ := ih h
      exact ⟨.literal text :: before, t, after, rfl, hid, hbefore⟩
    | tag u =>
      by_cases hu : u.id = id
      · exact ⟨[], u, ps, rfl, hu, List.not_mem_nil⟩
      · have hrest : id ∈ tagIds ⟨ps⟩ := by
          rw [tagIds_tag] at h
          exact (List.mem_cons.mp h).resolve_left (Ne.symm hu)
        obtain ⟨before, t, after, rfl, hid, hbefore⟩ := ih hrest
        refine ⟨.tag u :: before, t, after, rfl, hid, ?_⟩
        rw [tagIds_tag, List.mem_cons, not_or]
        exact ⟨Ne.symm hu, hbefore⟩

theorem removeTag_of_not_mem (h : id ∉ f.tagIds) : f.removeTag id = (none, f) := by
  have htake : takeTag? id f.pieces = none := takeTag?_eq_none h
  rw [removeTag, htake]

/-- The tag of an id is taken out from between the other pieces, and it is the only one. -/
theorem removeTag_of_mem (hdistinct : f.DistinctTags) (h : id ∈ f.tagIds) :
    ∃ before t after, f.pieces = before ++ .tag t :: after ∧ t.id = id ∧
      id ∉ tagIds ⟨before ++ after⟩ ∧ f.removeTag id = (some t, ⟨before ++ after⟩) := by
  obtain ⟨before, t, after, hpieces, hid, hbefore⟩ := exists_eq_append_tag h
  have hids : f.tagIds = tagIds ⟨before⟩ ++ t.id :: tagIds ⟨after⟩ := by
    rw [← tagIds_tag, ← tagIds_append, ← hpieces]
  have hafter : id ∉ tagIds ⟨after⟩ := by
    rw [DistinctTags, hids, hid] at hdistinct
    exact (List.nodup_cons.mp (List.nodup_append.mp hdistinct).2.1).1
  refine ⟨before, t, after, hpieces, hid, ?_, ?_⟩
  · rw [tagIds_append, List.mem_append, not_or]
    exact ⟨hbefore, hafter⟩
  · rw [removeTag, hpieces, takeTag?_append hid hbefore]

namespace DistinctTags

theorem sublist {g : Formula} (h : f.DistinctTags) (hsub : g.pieces.Sublist f.pieces) :
    g.DistinctTags :=
  List.Nodup.sublist (hsub.filterMap _) h

theorem removeTag (h : f.DistinctTags) (id : String) : (f.removeTag id).2.DistinctTags := by
  by_cases hmem : id ∈ f.tagIds
  · obtain ⟨before, t, after, hpieces, -, -, heq⟩ := removeTag_of_mem h hmem
    rw [heq]
    refine h.sublist ?_
    rw [hpieces]
    exact List.Sublist.append_left (List.sublist_cons_self _ _) _
  · rw [removeTag_of_not_mem hmem]
    exact h

/-- Removing the last piece, by its id if it is a tag, leaves all the others. -/
theorem withoutLast (h : f.DistinctTags) :
    (Editor.withoutLast f).pieces = f.pieces.dropLast := by
  rcases List.eq_nil_or_concat f.pieces with hnil | ⟨ps, p, hconcat⟩
  · have hlast : f.last? = none := by rw [last?, hnil, List.getLast?_nil]
    rw [Editor.withoutLast, hlast, hnil, List.dropLast_nil]
  · rw [List.concat_eq_append] at hconcat
    have hlast : f.last? = some p := by rw [last?, hconcat, List.getLast?_concat]
    rw [Editor.withoutLast, hlast, hconcat, List.dropLast_concat]
    cases p with
    | literal text =>
      change f.pieces.dropLast = ps
      rw [hconcat, List.dropLast_concat]
    | tag t =>
      have hids : f.tagIds = tagIds ⟨ps⟩ ++ [t.id] := by
        change tagIds ⟨f.pieces⟩ = _
        rw [hconcat, tagIds_append]
        rfl
      have hfirst : t.id ∉ tagIds ⟨ps⟩ := by
        rw [DistinctTags, hids] at h
        exact fun hmem => (List.nodup_append.mp h).2.2 _ hmem _ List.mem_cons_self rfl
      have htake : takeTag? t.id (ps ++ [.tag t]) = some (t, ps ++ []) :=
        takeTag?_append rfl hfirst
      change (f.removeTag t.id).2.pieces = ps
      rw [Formula.removeTag, hconcat, htake, List.append_nil]

theorem append_literal (h : f.DistinctTags) (text : String) :
    DistinctTags ⟨f.pieces ++ [.literal text]⟩ := by
  rw [DistinctTags, tagIds_append]
  change (f.tagIds ++ []).Nodup
  rw [List.append_nil]
  exact h

theorem append_tag (h : f.DistinctTags) {t : Tag} (hfresh : t.id ∉ f.tagIds) :
    DistinctTags ⟨f.pieces ++ [.tag t]⟩ := by
  rw [DistinctTags, tagIds_append]
  change (f.tagIds ++ [t.id]).Nodup
  rw [← List.concat_eq_append]
  exact List.Nodup.concat hfresh h

end DistinctTags

/-- Choosing an option changes no id. -/
theorem tagIds_chooseOption (option : String) : (f.chooseOption id option).2.tagIds = f.tagIds := by
  have hpiece : Piece.tagId? ∘ Piece.withOption id option = Piece.tagId? := by
    funext p
    cases p with
    | literal text => rfl
    | tag t =>
      simp only [Function.comp_apply, Piece.withOption]
      split <;> rfl
  rw [chooseOption, tagIds, List.filterMap_map, hpiece, tagIds]

end

end Formula

/-! ### A free id -/

namespace Editor

/-- The id with the suffix that stands for the number `n`. -/
def suffixed (id : String) (n : Nat) : String := id ++ "#" ++ toString n

theorem suffixed_injective (id : String) : Function.Injective (suffixed id) := by
  intro m n h
  have hchars := congrArg String.toList h
  simp only [suffixed, String.toList_append, List.append_cancel_left_eq] at hchars
  have hvalue := congrArg (Nat.ofDigitChars 10 · 0) hchars
  simpa [Nat.toString_eq_ofList_toDigits] using hvalue

theorem suffixed_ne (id : String) (n : Nat) : suffixed id n ≠ id := by
  intro h
  have hlength := congrArg String.length h
  simp only [suffixed, String.length_append] at hlength
  have hmark : "#".length = 1 := rfl
  omega

/-- Suffixes that are all taken are fewer than the pieces: besides each of them there is a tag with
the id itself. -/
theorem lt_length_of_taken {f : Formula} {id : String} (count : Nat) (hid : id ∈ f.tagIds)
    (htaken : ∀ n < count, suffixed id (n + 2) ∈ f.tagIds) : count < f.pieces.length := by
  have hnodup : (id :: (List.range count).map fun n => suffixed id (n + 2)).Nodup := by
    refine List.nodup_cons.mpr ⟨?_, ?_⟩
    · intro hmem
      obtain ⟨n, -, heq⟩ := List.mem_map.mp hmem
      exact suffixed_ne id (n + 2) heq
    · refine List.Nodup.map ?_ List.nodup_range
      intro m n heq
      exact Nat.add_right_cancel (suffixed_injective id heq)
  have hsubset : (id :: (List.range count).map fun n => suffixed id (n + 2)) ⊆ f.tagIds := by
    intro taken hmem
    rcases List.mem_cons.mp hmem with rfl | hmem
    · exact hid
    · obtain ⟨n, hn, rfl⟩ := List.mem_map.mp hmem
      exact htaken n (List.mem_range.mp hn)
  have hlength := (hnodup.subperm hsubset).length_le
  rw [List.length_cons, List.length_map, List.length_range] at hlength
  exact Nat.lt_of_lt_of_le hlength f.length_tagIds_le

/-- A free id is the id itself, or the id with the least suffix from 2 on that is free. The search
needs no more tries than the formula has pieces. -/
theorem freshId_cases (f : Formula) (id : String) :
    (f.hasTag id = false ∧ freshId f id = id) ∨
    (f.hasTag id = true ∧ ∃ n, 2 ≤ n ∧ n ≤ f.pieces.length + 1 ∧ freshId f id = suffixed id n ∧
      f.hasTag (suffixed id n) = false ∧
      ∀ m, 2 ≤ m → m < n → f.hasTag (suffixed id m) = true) := by
  cases hid : f.hasTag id with
  | false => exact Or.inl ⟨rfl, by simp [freshId, hid]⟩
  | true =>
    refine Or.inr ⟨rfl, ?_⟩
    have hfresh : freshId f id = (((List.range (f.pieces.length + 1)).find?
        fun n => !f.hasTag (suffixed id (n + 2))).map fun n => suffixed id (n + 2)).getD id := by
      rw [freshId, if_pos hid, List.find?_map]
      rfl
    have hmem := Formula.hasTag_iff.mp hid
    cases hfind : (List.range (f.pieces.length + 1)).find?
        fun n => !f.hasTag (suffixed id (n + 2)) with
    | none =>
      -- as many suffixes as there are pieces, and one more, cannot all be taken
      have hall := List.find?_range_eq_none.mp hfind
      have hlt := lt_length_of_taken (f.pieces.length + 1) hmem fun n hn =>
        Formula.hasTag_iff.mp (by simpa using hall n hn)
      omega
    | some n =>
      obtain ⟨hfree, -, hless⟩ := List.find?_range_eq_some.mp hfind
      have hlt := lt_length_of_taken n hmem fun m hm =>
        Formula.hasTag_iff.mp (by simpa using hless m hm)
      refine ⟨n + 2, by omega, by omega, ?_, by simpa using hfree, ?_⟩
      · rw [hfresh, hfind]
        rfl
      · intro m hm hlt
        have htaken := hless (m - 2) (by omega)
        rw [Nat.sub_add_cancel hm] at htaken
        simpa using htaken

theorem freshId_not_mem (f : Formula) (id : String) : freshId f id ∉ f.tagIds := by
  rw [← Formula.hasTag_eq_false_iff]
  rcases freshId_cases f id with ⟨hfree, heq⟩ | ⟨-, n, -, -, heq, hfree, -⟩ <;> rw [heq] <;>
    exact hfree

/-! ### Runs -/

theorem distinctTags_committed {e : Editor} (h : e.store.formula.DistinctTags) :
    Formula.DistinctTags ⟨e.store.formula.pieces ++ e.committed⟩ := by
  unfold committed
  split
  · exact h.append_literal _
  · rw [List.append_nil]
    exact h

/-- Every call keeps the ids apart. -/
theorem distinctTags_nextFormula {e : Editor} (h : e.store.formula.DistinctTags) (call : Call) :
    (e.nextFormula call).DistinctTags := by
  cases call with
  | input | setInput | receive | calculate => exact h
  | key k =>
    cases k with
    | backspace =>
      simp only [nextFormula]
      split
      · refine h.sublist ?_
        rw [h.withoutLast]
        exact List.dropLast_sublist _
      · exact h
    | operator o => exact (distinctTags_committed h).append_literal _
    | enter => exact distinctTags_committed h
    | other => exact h
  | accept candidate => exact h.append_tag (freshId_not_mem _ _)
  | chooseOption id option =>
    rw [nextFormula, Formula.DistinctTags, Formula.tagIds_chooseOption]
    exact h
  | removeTag id => exact h.removeTag id
  | clear => exact List.nodup_nil

theorem distinctTags_run {e : Editor} (h : e.store.formula.DistinctTags)
    (calls : List (Float × Call)) : (e.run calls).store.formula.DistinctTags := by
  induction calls generalizing e with
  | nil => exact h
  | cons c rest ih =>
    obtain ⟨now, call⟩ := c
    refine ih ?_
    rw [formula_perform]
    exact distinctTags_nextFormula h call

/-- From an editor whose tags have distinct ids, as a new one, any calls lead to one again. An accepted
candidate adds a tag at the end, with the candidate's id if it is free and otherwise with the least
suffix from 2 on that is free, which is found within as many tries as there are pieces. Removing by id
takes out the only tag of this id, and Backspace in an empty field takes out exactly the last piece. -/
theorem tags_stay_distinct (e : Editor) (hdistinct : e.store.formula.DistinctTags)
    (calls : List (Float × Call)) :
    let e' := e.run calls
    let f := e'.store.formula
    f.DistinctTags ∧
    (∀ c now, (e'.accept c now).state.store.formula.pieces =
        f.pieces ++ [.tag (e'.accept c now).value] ∧
      ((f.hasTag c.id = false ∧ (e'.accept c now).value.id = c.id) ∨
        (f.hasTag c.id = true ∧ ∃ n, 2 ≤ n ∧ n ≤ f.pieces.length + 1 ∧
          (e'.accept c now).value.id = c.id ++ "#" ++ toString n ∧
          f.hasTag (c.id ++ "#" ++ toString n) = false ∧
          ∀ m, 2 ≤ m → m < n → f.hasTag (c.id ++ "#" ++ toString m) = true))) ∧
    (∀ id, (e'.removeTag id).state.store.formula.hasTag id = false ∧
      (f.hasTag id = false → (e'.removeTag id).value = none ∧
        (e'.removeTag id).state.store.formula = f) ∧
      (f.hasTag id = true → ∃ before t after, f.pieces = before ++ .tag t :: after ∧ t.id = id ∧
        Formula.hasTag ⟨before ++ after⟩ id = false ∧ (e'.removeTag id).value = some t ∧
        (e'.removeTag id).state.store.formula.pieces = before ++ after)) ∧
    (∀ now, e'.buffer = "" → f.pieces ≠ [] →
      (e'.key .backspace now).state.store.formula.pieces = f.pieces.dropLast) := by
  intro e' f
  have h : f.DistinctTags := distinctTags_run hdistinct calls
  refine ⟨h, ?_, ?_, ?_⟩
  · intro c now
    exact ⟨rfl, freshId_cases f c.id⟩
  · intro id
    have hstate : (e'.removeTag id).state.store.formula = (f.removeTag id).2 := rfl
    have hvalue : (e'.removeTag id).value = (f.removeTag id).1 := rfl
    rw [hstate, hvalue]
    by_cases hmem : id ∈ f.tagIds
    · obtain ⟨before, t, after, hpieces, hid, hrest, heq⟩ := Formula.removeTag_of_mem h hmem
      rw [heq]
      have hgone := Formula.hasTag_eq_false_iff.mpr hrest
      refine ⟨hgone, ?_, fun _ => ⟨before, t, after, hpieces, hid, hgone, rfl, rfl⟩⟩
      intro habsent
      exact absurd hmem (Formula.hasTag_eq_false_iff.mp habsent)
    · rw [Formula.removeTag_of_not_mem hmem]
      refine ⟨Formula.hasTag_eq_false_iff.mpr hmem, fun _ => ⟨rfl, rfl⟩, ?_⟩
      intro hpresent
      exact absurd (Formula.hasTag_iff.mp hpresent) hmem
  · intro now hbuffer _
    change (e'.backspace now).state.store.formula.pieces = _
    rw [formula_backspace, nextFormula, if_pos hbuffer, h.withoutLast]

/-- With `r` and `r#2` in the formula the next tag of `r` is `r#3`, wherever `r#2` came from. -/
theorem third_tag_of_candidate :
    let e := (new {} (.sequence [])).run
      [(Float.ofBits 0, .accept ⟨"r#2", "Rent", none⟩), (Float.ofBits 0, .key (.operator .plus)),
        (Float.ofBits 0, .accept ⟨"r", "Revenue", none⟩)]
    (new {} (.sequence [])).store.formula.DistinctTags ∧ e.store.formula.DistinctTags ∧
    e.buffer = "" ∧ e.store.formula.pieces ≠ [] ∧
    (e.accept ⟨"r", "Revenue", none⟩ (Float.ofBits 0)).value.id = "r#3" ∧
    (e.key .backspace (Float.ofBits 0)).state.store.formula.pieces =
      e.store.formula.pieces.dropLast := by
  intro e
  have hnew : (new {} (.sequence [])).store.formula.DistinctTags := List.nodup_nil
  have hbuffer : e.buffer = "" := by rfl
  have hpieces : e.store.formula.pieces ≠ [] := by
    intro h
    cases h
  have h := tags_stay_distinct (new {} (.sequence [])) hnew
    [(Float.ofBits 0, .accept ⟨"r#2", "Rent", none⟩), (Float.ofBits 0, .key (.operator .plus)),
      (Float.ofBits 0, .accept ⟨"r", "Revenue", none⟩)]
  exact ⟨hnew, h.1, hbuffer, hpieces, by decide +kernel, h.2.2.2 _ hbuffer hpieces⟩

end Editor

end FormulaField
