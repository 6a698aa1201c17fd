import FormulaField.Proofs.Notices

/-!
Removing a tag from a formula of any making. Nothing in a formula keeps two of its tags from having one
id, and a removal takes only the first of them; so to remove twice is to remove once exactly where at
most one tag has the id. This holds of every id as long as the changes bring in no id that is taken, as
the editor takes care of.
-/

namespace FormulaField

namespace Change

/-- A change that brings no id into the formula twice. -/
def Fresh (f : Formula) : Change → Prop
  | append (.tag t) => f.hasTag t.id = false
  | replaceAll ps => Formula.DistinctTags ⟨ps⟩
  | append (.literal _) | removeTag _ | popLast | chooseOption _ _ => True

/-- Changes each of which brings no id in twice. -/
def AllFresh (f : Formula) : List Change → Prop
  | [] => True
  | c :: rest => c.Fresh f ∧ AllFresh (c.next f) rest

end Change

namespace Formula

section
variable {f : Formula} {id : String}

/-! ### One removal -/

/-- What is taken out is the first tag with the id. -/
theorem takeTag?_eq (id : String) (ps : List Piece) :
    takeTag? id ps = (ps.findSome? (Piece.tagWithId? id)).map
      fun t => (t, ps.eraseP fun p => (p.tagWithId? id).isSome) := by
  induction ps with
  | nil => rfl
  | cons p ps ih =>
    rw [takeTag?, List.findSome?_cons, List.eraseP_cons]
    cases p.tagWithId? id with
    | none =>
      rw [ih]
      cases ps.findSome? (Piece.tagWithId? id) <;> rfl
    | some t => rfl

/-- A removal gives the first tag with the id, and leaves all the other pieces in their order. -/
theorem removeTag_eq (f : Formula) (id : String) :
    f.removeTag id = (f.pieces.findSome? (Piece.tagWithId? id),
      ⟨f.pieces.eraseP fun p => (p.tagWithId? id).isSome⟩) := by
  rw [removeTag, takeTag?_eq]
  cases hfind : f.pieces.findSome? (Piece.tagWithId? id) with
  | some t => rfl
  | none =>
    have hnone : ∀ p ∈ f.pieces, ¬(p.tagWithId? id).isSome = true := by
      intro p hp
      rw [List.findSome?_eq_none_iff.mp hfind p hp]
      exact Bool.false_ne_true
    rw [Option.map_none, List.eraseP_of_forall_not hnone]

theorem tagIds_removeTag (f : Formula) (id : String) :
    (f.removeTag id).2.tagIds = f.tagIds.erase id := by
  by_cases hmem : id ∈ f.tagIds
  · obtain ⟨before, t, after, hpieces, rfl, hbefore⟩ := exists_eq_append_tag hmem
    have hids : f.tagIds = tagIds ⟨before⟩ ++ t.id :: tagIds ⟨after⟩ := by
      rw [← tagIds_tag, ← tagIds_append, ← hpieces]
    have hrest : (f.removeTag t.id).2 = ⟨before ++ after⟩ := by
      rw [removeTag, hpieces, takeTag?_append rfl hbefore]
    rw [hrest, tagIds_append, hids, List.erase_append_right _ hbefore, List.erase_cons_head]
  · rw [removeTag_of_not_mem hmem, List.erase_of_not_mem hmem]

/-- Where a tag has the id, there is one to give. -/
theorem removeTag_eq_none_iff : f.removeTag id = (none, f) ↔ f.hasTag id = false := by
  constructor
  · intro h
    rw [← Bool.not_eq_true, hasTag_iff]
    intro hmem
    obtain ⟨before, t, after, hpieces, hid, hbefore⟩ := exists_eq_append_tag hmem
    rw [removeTag, hpieces, takeTag?_append hid hbefore] at h
    exact absurd (congrArg Prod.fst h) (Option.some_ne_none t)
  · intro h
    exact removeTag_of_not_mem (hasTag_eq_false_iff.mp h)

/-- After one removal the id is gone if it was there once at most. -/
theorem hasTag_removeTag_iff : (f.removeTag id).2.hasTag id = false ↔ f.tagIds.count id ≤ 1 := by
  rw [hasTag_eq_false_iff, tagIds_removeTag, ← List.count_eq_zero, List.count_erase_self]
  exact Nat.sub_eq_zero_iff_le

/-! ### Changes that keep the ids apart -/

/-- A fresh change keeps the ids apart. -/
theorem DistinctTags.next (h : f.DistinctTags) {c : Change} (hfresh : c.Fresh f) :
    (c.next f).DistinctTags := by
  cases c with
  | append p =>
    cases p with
    | literal text => exact h.append_literal text
    | tag t => exact h.append_tag (hasTag_eq_false_iff.mp hfresh)
  | removeTag id => exact h.removeTag id
  | popLast => exact h.sublist (List.dropLast_sublist _)
  | replaceAll ps => exact hfresh
  | chooseOption id option =>
    rw [DistinctTags, Change.next, tagIds_chooseOption]
    exact h

theorem DistinctTags.changes (h : f.DistinctTags) {changes : List Change}
    (hfresh : Change.AllFresh f changes) : (changes.foldl Change.next f).DistinctTags := by
  induction changes generalizing f with
  | nil => exact h
  | cons c rest ih => exact ih (h.next hfresh.1) hfresh.2

/-- In a formula made by any changes, a removal gives the first tag with the id, and takes it out from
among the other pieces. Whether the id is gone then, and whether a second removal finds nothing and
changes nothing, is whether at most one tag had the id. No id is there twice if no change brought one in
that was taken. -/
theorem removeTag_twice_iff (changes : List Change) (id : String) :
    let f := changes.foldl Change.next ({} : Formula)
    let once := (f.removeTag id).2
    (f.removeTag id).1 = f.pieces.findSome? (Piece.tagWithId? id) ∧
    once.pieces = f.pieces.eraseP (fun p => (p.tagWithId? id).isSome) ∧
    (once.hasTag id = false ↔ f.tagIds.count id ≤ 1) ∧
    (once.removeTag id = (none, once) ↔ f.tagIds.count id ≤ 1) ∧
    (Change.AllFresh {} changes → f.tagIds.count id ≤ 1) := by
  intro f once
  refine ⟨?_, ?_, hasTag_removeTag_iff, ?_, ?_⟩
  · rw [removeTag_eq]
  · change (f.removeTag id).2.pieces = _
    rw [removeTag_eq]
  · rw [removeTag_eq_none_iff]
    exact hasTag_removeTag_iff
  · intro hfresh
    have hnew : DistinctTags {} := List.nodup_nil
    have hdistinct : f.DistinctTags := hnew.changes hfresh
    exact List.nodup_iff_count_le_one.mp hdistinct id

/-- A tag that comes back after its removal is not there twice, and its next removal is final. -/
theorem removed_tag_comes_back :
    let t : Tag := ⟨"r", "Rent", Float.ofBits 0, []⟩
    let changes : List Change := [.append (.tag t), .append (.literal "+"), .removeTag "r",
      .append (.tag t), .chooseOption "r" "Q1"]
    let f := changes.foldl Change.next ({} : Formula)
    let once := (f.removeTag "r").2
    Change.AllFresh {} changes ∧ f.hasTag "r" = true ∧ once.hasTag "r" = false ∧
      once.removeTag "r" = (none, once) := by
  intro t changes f once
  have hfresh : Change.AllFresh {} changes :=
    ⟨rfl, trivial, trivial, rfl, trivial, trivial⟩
  obtain ⟨-, -, hgone, htwice, hcount⟩ := removeTag_twice_iff changes "r"
  exact ⟨hfresh, by decide, hgone.mpr (hcount hfresh), htwice.mpr (hcount hfresh)⟩

/-- Of two tags with one id the second is left, and a second removal takes it. -/
theorem second_tag_left :
    let first : Tag := ⟨"r", "Rent", Float.ofBits 0, []⟩
    let second : Tag := ⟨"r", "Revenue", Float.ofBits 0, []⟩
    let f := [Change.append (.tag first), .append (.tag second)].foldl Change.next ({} : Formula)
    let once := (f.removeTag "r").2
    once.hasTag "r" = true ∧ once.removeTag "r" = (some second, {}) ∧
      once.removeTag "r" ≠ (none, once) := by
  intro first second f once
  have hsecond : once.removeTag "r" = (some second, {}) := rfl
  refine ⟨by decide, hsecond, ?_⟩
  rw [hsecond]
  exact fun h => absurd (congrArg Prod.fst h) (Option.some_ne_none second)

end

end Formula

end FormulaField
