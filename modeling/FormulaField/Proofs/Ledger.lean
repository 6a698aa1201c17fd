import Mathlib.Data.List.Forall2
import FormulaField.Proofs.TagIdentity

/-!
Equal pieces occur in a formula many times, so that nothing is lost or put in another order cannot be
told by their texts. A ledger gives every piece its number when it is committed. Its list of what was
committed only grows, and what goes is marked as gone: by its own number, or together with all before
it. The formula is at any time what the ledger has left, in the order of the numbers.
-/

namespace FormulaField

/-- The piece of a formula that another one has become: the name of a tag grows with the options that
are chosen for it. -/
inductive Piece.Grows : Piece → Piece → Prop
  | literal (text : String) : Grows (.literal text) (.literal text)
  | tag (t : Tag) (suffix : String) : Grows (.tag t) (.tag { t with name := t.name ++ suffix })

/-- What can happen to the pieces of a formula. -/
inductive LedgerEntry where
  | commit (piece : Piece)
  | removeTag (id : String)
  | removeLast
  | clear

/-- All pieces that were ever committed, each at the place of its number. Of them, those with the
numbers in `removed` are gone, and all before the number `cleared`. -/
structure Ledger where
  committed : List Piece := []
  removed : List Nat := []
  cleared : Nat := 0

namespace Ledger

/-- The numbers of the pieces that are left. -/
def live (l : Ledger) : List Nat :=
  (List.range l.committed.length).filter fun n => l.cleared ≤ n && !l.removed.contains n

/-- The id of the tag with this number. -/
def tagId? (l : Ledger) (n : Nat) : Option String := l.committed[n]?.bind Piece.tagId?

/-- Marks a number as gone. -/
def remove (l : Ledger) (n? : Option Nat) : Ledger := { l with removed := l.removed ++ n?.toList }

/-- Enters what has happened. -/
def post (l : Ledger) : LedgerEntry → Ledger
  | .commit p => { l with committed := l.committed ++ [p] }
  | .removeTag id => l.remove (l.live.find? fun n => l.tagId? n == some id)
  | .removeLast => l.remove l.live.getLast?
  | .clear => { l with cleared := l.committed.length }

/-- The piece with this number has become `p`. -/
def Holds (l : Ledger) (n : Nat) (p : Piece) : Prop := ∃ q, l.committed[n]? = some q ∧ q.Grows p

/-- Nothing is gone that was not committed. -/
structure WellFormed (l : Ledger) : Prop where
  removed_lt : ∀ n ∈ l.removed, n < l.committed.length
  cleared_le : l.cleared ≤ l.committed.length

/-- The formula is what the ledger has left. -/
def Agrees (l : Ledger) (f : Formula) : Prop := List.Forall₂ l.Holds l.live f.pieces

/-- A later state of the ledger: every number still stands for the same piece, and what is gone stays
gone. -/
structure Continues (l l' : Ledger) : Prop where
  committed : l.committed <+: l'.committed
  removed : l.removed <+: l'.removed
  cleared : l.cleared ≤ l'.cleared

end Ledger

namespace Editor

/-- What a call does to the pieces of the formula. -/
def entries (e : Editor) (now : Float) : Call → List LedgerEntry
  | .key .backspace => if e.buffer = "" then [.removeLast] else []
  | .key (.operator o) => (e.committed ++ [Piece.literal (String.singleton o.char)]).map .commit
  | .key .enter => e.committed.map .commit
  | .accept c => [.commit (.tag (e.accept c now).value)]
  | .removeTag id => [.removeTag id]
  | .clear => [.clear]
  | .input _ | .setInput _ | .key .other | .receive _ _ | .chooseOption _ _ | .calculate => []

/-- The ledger after some calls, all entered in it. -/
def ledger (e : Editor) (l : Ledger) : List (Float × Call) → Ledger
  | [] => l
  | (now, call) :: rest =>
    (e.perform now call).state.ledger ((e.entries now call).foldl Ledger.post l) rest

end Editor

/-! ### What becomes of a piece -/

namespace Piece.Grows

theorem refl (p : Piece) : p.Grows p := by
  cases p with
  | literal text => exact .literal text
  | tag t => simpa using Grows.tag t ""

theorem withOption {p q : Piece} (h : p.Grows q) (id option : String) :
    p.Grows (q.withOption id option) := by
  cases h with
  | literal text => exact .literal text
  | tag t suffix =>
    simp only [Piece.withOption]
    split
    · rw [Tag.withOption]
      simp only [String.append_assoc]
      exact .tag t _
    · exact .tag t suffix

theorem tagId?_eq {p q : Piece} (h : p.Grows q) : p.tagId? = q.tagId? := by
  cases h <;> rfl

end Piece.Grows

/-! ### One entry -/

namespace Ledger

section
variable {l : Ledger} {f : Formula} {n : Nat}

theorem mem_live : n ∈ l.live ↔ l.cleared ≤ n ∧ n < l.committed.length ∧ n ∉ l.removed := by
  simp only [live, List.mem_filter, List.mem_range, Bool.and_eq_true, decide_eq_true_eq,
    Bool.not_eq_true', List.contains_eq_mem, decide_eq_false_iff_not]
  exact and_left_comm

/-- The numbers that are left are in order, and none is there twice. -/
theorem live_pairwise (l : Ledger) : l.live.Pairwise (· < ·) :=
  List.pairwise_lt_range.sublist List.filter_sublist

theorem remove_none (l : Ledger) : l.remove none = l := by
  rw [remove, Option.toList_none, List.append_nil]

theorem live_remove (l : Ledger) (n : Nat) :
    (l.remove (some n)).live = l.live.filter (· != n) := by
  rw [live, live, List.filter_filter]
  refine List.filter_congr fun m _ => ?_
  simp only [remove, Option.toList_some, List.contains_append, List.contains_cons,
    List.contains_nil, Bool.or_false, Bool.not_or, bne]
  ac_rfl

theorem Holds.tagId?_eq {p : Piece} (h : l.Holds n p) : l.tagId? n = p.tagId? := by
  obtain ⟨q, hq, hgrows⟩ := h
  rw [tagId?, hq, Option.bind_some, hgrows.tagId?_eq]

/-- The tags of the formula have the ids that the ledger knows. -/
theorem filterMap_tagId? {ns : List Nat} {ps : List Piece} (h : List.Forall₂ l.Holds ns ps) :
    ns.filterMap l.tagId? = Formula.tagIds ⟨ps⟩ := by
  induction h with
  | nil => rfl
  | @cons n p ns ps hn _ ih =>
    rw [List.filterMap_cons, hn.tagId?_eq, ih]
    rfl

/-- No tag has an id that the formula has not. -/
theorem find?_eq_none {ns : List Nat} {ps : List Piece} {id : String}
    (h : List.Forall₂ l.Holds ns ps) (hid : id ∉ Formula.tagIds ⟨ps⟩) :
    ns.find? (fun n => l.tagId? n == some id) = none := by
  rw [← filterMap_tagId? h, List.mem_filterMap] at hid
  rw [List.find?_eq_none]
  intro n hn heq
  exact hid ⟨n, hn, beq_iff_eq.mp heq⟩

end

namespace Continues

variable {l l' l'' : Ledger}

theorem refl (l : Ledger) : l.Continues l :=
  ⟨List.prefix_refl _, List.prefix_refl _, Nat.le_refl _⟩

theorem trans (h : l.Continues l') (h' : l'.Continues l'') : l.Continues l'' :=
  ⟨h.committed.trans h'.committed, h.removed.trans h'.removed, Nat.le_trans h.cleared h'.cleared⟩

end Continues

namespace WellFormed

variable {l : Ledger}

theorem new : WellFormed {} := ⟨nofun, Nat.le_refl 0⟩

theorem remove (h : l.WellFormed) {n? : Option Nat} (hlive : ∀ n, n? = some n → n ∈ l.live) :
    (l.remove n?).WellFormed ∧ l.Continues (l.remove n?) := by
  refine ⟨⟨?_, h.cleared_le⟩, ⟨List.prefix_refl _, List.prefix_append _ _, Nat.le_refl _⟩⟩
  intro n hn
  rcases List.mem_append.mp hn with hn | hn
  · exact h.removed_lt n hn
  · exact (mem_live.mp (hlive n (Option.mem_toList.mp hn))).2.1

/-- No entry gives a number to another piece, or brings back what is gone. -/
theorem post (h : l.WellFormed) (x : LedgerEntry) :
    (l.post x).WellFormed ∧ l.Continues (l.post x) := by
  cases x with
  | commit p =>
    have hlength : l.committed.length ≤ (l.committed ++ [p]).length :=
      (List.prefix_append _ _).length_le
    exact ⟨⟨fun n hn => Nat.lt_of_lt_of_le (h.removed_lt n hn) hlength,
      Nat.le_trans h.cleared_le hlength⟩,
      ⟨List.prefix_append _ _, List.prefix_refl _, Nat.le_refl _⟩⟩
  | removeTag id => exact h.remove fun n hn => List.mem_of_find?_eq_some hn
  | removeLast => exact h.remove fun n hn => List.mem_of_getLast? hn
  | clear =>
    exact ⟨⟨h.removed_lt, Nat.le_refl _⟩,
      ⟨List.prefix_refl _, List.prefix_refl _, h.cleared_le⟩⟩

theorem posts (h : l.WellFormed) (xs : List LedgerEntry) :
    (xs.foldl Ledger.post l).WellFormed ∧ l.Continues (xs.foldl Ledger.post l) := by
  induction xs generalizing l with
  | nil => exact ⟨h, .refl l⟩
  | cons x xs ih =>
    obtain ⟨hwellFormed, hcontinues⟩ := h.post x
    obtain ⟨hrest, hmore⟩ := ih hwellFormed
    exact ⟨hrest, hcontinues.trans hmore⟩

end WellFormed

namespace Agrees

variable {l : Ledger} {f : Formula}

theorem new : Agrees {} {} := List.Forall₂.nil

/-- A piece that is committed gets the next number, which is neither cleared nor removed. -/
theorem commit (h : l.Agrees f) (hl : l.WellFormed) (p : Piece) :
    (l.post (.commit p)).Agrees (f.append p) := by
  have hfresh : l.committed.length ∉ l.removed := fun hmem =>
    Nat.lt_irrefl _ (hl.removed_lt _ hmem)
  have hlive : (l.post (.commit p)).live = l.live ++ [l.committed.length] := by
    change (List.range (l.committed ++ [p]).length).filter
      (fun n => l.cleared ≤ n && !l.removed.contains n) = _
    rw [List.length_append, List.length_singleton, List.range_succ, List.filter_append,
      List.filter_cons_of_pos (by simp [hl.cleared_le, hfresh]), List.filter_nil]
    rfl
  rw [Agrees, hlive]
  refine List.rel_append (List.Forall₂.imp ?_ h) (.cons ?_ .nil)
  · rintro n q ⟨r, hr, hgrows⟩
    refine ⟨r, ?_, hgrows⟩
    rw [post, List.getElem?_append_left (List.getElem?_eq_some_iff.mp hr).1]
    exact hr
  · exact ⟨p, List.getElem?_concat_length, .refl p⟩

theorem commitAll (h : l.Agrees f) (hl : l.WellFormed) (ps : List Piece) :
    ((ps.map .commit).foldl post l).Agrees ⟨f.pieces ++ ps⟩ := by
  induction ps generalizing l f with
  | nil =>
    rw [List.append_nil]
    exact h
  | cons p ps ih =>
    rw [List.append_cons]
    exact ih (h.commit hl p) (hl.post _).1

/-- The numbers before and after the number of a piece are those of the pieces before and after it. -/
theorem exists_live_eq (h : l.Agrees f) {before after : List Piece} {p : Piece}
    (hpieces : f.pieces = before ++ p :: after) :
    ∃ ns n ms, l.live = ns ++ n :: ms ∧ List.Forall₂ l.Holds ns before ∧ l.Holds n p ∧
      List.Forall₂ l.Holds ms after := by
  have hlive : List.Forall₂ l.Holds l.live f.pieces := h
  rw [hpieces] at hlive
  have htake := List.forall₂_take_append _ _ _ hlive
  obtain ⟨n, ms, hn, hms, hdrop⟩ :=
    List.forall₂_cons_right_iff.mp (List.forall₂_drop_append _ _ _ hlive)
  refine ⟨l.live.take before.length, n, ms, ?_, htake, hn, hms⟩
  rw [← hdrop, List.take_append_drop]

/-- A piece is removed with its number. -/
theorem remove {before after : List Piece} {ns ms : List Nat} {n : Nat}
    (hlive : l.live = ns ++ n :: ms) (hns : List.Forall₂ l.Holds ns before)
    (hms : List.Forall₂ l.Holds ms after) : (l.remove (some n)).Agrees ⟨before ++ after⟩ := by
  have hnodup : l.live.Nodup := l.live_pairwise.imp Nat.ne_of_lt
  have hrest : l.live.filter (· != n) = ns ++ ms := by
    have hfirst : n ∉ ns := by
      rw [hlive] at hnodup
      exact fun hmem => (List.nodup_append.mp hnodup).2.2 n hmem n List.mem_cons_self rfl
    rw [← hnodup.erase_eq_filter, hlive, List.erase_append_right _ hfirst, List.erase_cons_head]
  rw [Agrees, live_remove, hrest]
  exact List.rel_append hns hms

theorem removeTag (h : l.Agrees f) (hdistinct : f.DistinctTags) (id : String) :
    (l.post (.removeTag id)).Agrees (f.removeTag id).2 := by
  by_cases hid : id ∈ f.tagIds
  · obtain ⟨before, t, after, hpieces, ht, hrest, heq⟩ := Formula.removeTag_of_mem hdistinct hid
    obtain ⟨ns, n, ms, hlive, hns, hn, hms⟩ := h.exists_live_eq hpieces
    rw [Formula.tagIds_append, List.mem_append, not_or] at hrest
    have hnumber : l.tagId? n = some id := by rw [hn.tagId?_eq, Piece.tagId?, ht]
    have hfind : l.live.find? (fun n => l.tagId? n == some id) = some n := by
      rw [hlive, List.find?_append, find?_eq_none hns hrest.1, Option.none_or, List.find?_cons,
        hnumber, beq_self_eq_true]
    rw [post, hfind, heq]
    exact .remove hlive hns hms
  · rw [post, find?_eq_none h hid, remove_none, Formula.removeTag_of_not_mem hid]
    exact h

/-- The last piece goes with the last number, although a tag is removed by its id. -/
theorem removeLast (h : l.Agrees f) (hdistinct : f.DistinctTags) :
    (l.post .removeLast).Agrees (Editor.withoutLast f) := by
  have hnext : Editor.withoutLast f = ⟨f.pieces.dropLast⟩ := congrArg Formula.mk hdistinct.withoutLast
  rw [hnext]
  rcases List.eq_nil_or_concat f.pieces with hnil | ⟨ps, p, hconcat⟩
  · have hlive : l.live = [] := by
      rw [Agrees, hnil] at h
      exact List.forall₂_nil_right_iff.mp h
    rw [post, hlive, List.getLast?_nil, remove_none, hnil, List.dropLast_nil, ← hnil]
    exact h
  · rw [List.concat_eq_append] at hconcat
    obtain ⟨ns, n, ms, hlive, hns, -, hms⟩ := h.exists_live_eq hconcat
    cases hms
    have hlast : l.live.getLast? = some n := by rw [hlive, List.getLast?_concat]
    rw [post, hlast, hconcat, List.dropLast_concat, ← List.append_nil ps]
    exact .remove hlive hns .nil

theorem clear (l : Ledger) : (l.post .clear).Agrees {} := by
  have hlive : (l.post .clear).live = [] := by
    rw [List.eq_nil_iff_forall_not_mem]
    intro n hn
    obtain ⟨hcleared, hlt, -⟩ := mem_live.mp hn
    exact Nat.lt_irrefl n (Nat.lt_of_lt_of_le hlt hcleared)
  rw [Agrees, hlive]
  exact .nil

theorem chooseOption (h : l.Agrees f) (id option : String) :
    l.Agrees (f.chooseOption id option).2 := by
  rw [Agrees, Formula.chooseOption, List.forall₂_map_right_iff]
  refine List.Forall₂.imp ?_ h
  rintro n p ⟨q, hq, hgrows⟩
  exact ⟨q, hq, hgrows.withOption id option⟩

end Agrees

end Ledger

/-! ### Runs -/

namespace Editor

section
variable {e : Editor} {l : Ledger}

/-- Every call keeps the formula what the ledger has left. -/
theorem agrees_perform (h : l.Agrees e.store.formula) (hl : l.WellFormed)
    (hdistinct : e.store.formula.DistinctTags) (now : Float) (call : Call) :
    ((e.entries now call).foldl Ledger.post l).Agrees (e.perform now call).state.store.formula := by
  rw [formula_perform]
  cases call with
  | input | setInput | receive | calculate => exact h
  | key k =>
    cases k with
    | backspace =>
      simp only [entries, nextFormula]
      split
      · exact h.removeLast hdistinct
      · exact h
    | operator o =>
      rw [nextFormula, List.append_assoc]
      exact h.commitAll hl _
    | enter => exact h.commitAll hl _
    | other => exact h
  | accept c => exact h.commit hl _
  | chooseOption id option => exact h.chooseOption id option
  | removeTag id => exact h.removeTag hdistinct id
  | clear => exact .clear l

theorem wellFormed_ledger (hl : l.WellFormed) (calls : List (Float × Call)) :
    (e.ledger l calls).WellFormed ∧ l.Continues (e.ledger l calls) := by
  induction calls generalizing e l with
  | nil => exact ⟨hl, .refl l⟩
  | cons c rest ih =>
    obtain ⟨now, call⟩ := c
    obtain ⟨hwellFormed, hcontinues⟩ := hl.posts (e.entries now call)
    obtain ⟨hrest, hmore⟩ := ih hwellFormed
    exact ⟨hrest, hcontinues.trans hmore⟩

/-- At the end of any run the formula is what the ledger has left. -/
theorem agrees_run (h : l.Agrees e.store.formula) (hl : l.WellFormed)
    (hdistinct : e.store.formula.DistinctTags) (calls : List (Float × Call)) :
    (e.ledger l calls).Agrees (e.run calls).store.formula := by
  induction calls generalizing e l with
  | nil => exact h
  | cons c rest ih =>
    obtain ⟨now, call⟩ := c
    refine ih (agrees_perform h hl hdistinct now call) (hl.posts _).1 ?_
    rw [formula_perform]
    exact distinctTags_nextFormula hdistinct call

theorem ledger_append (e : Editor) (l : Ledger) (calls more : List (Float × Call)) :
    e.ledger l (calls ++ more) = (e.run calls).ledger (e.ledger l calls) more := by
  induction calls generalizing e l with
  | nil => rfl
  | cons c rest ih =>
    obtain ⟨now, call⟩ := c
    exact ih _ _

theorem length_committed_le (e : Editor) : e.committed.length ≤ 1 := by
  unfold committed
  split
  · exact Nat.le_refl 1
  · exact Nat.zero_le 1

/-- A key adds pieces at the end or takes the last one away. -/
theorem pieces_key (hdistinct : e.store.formula.DistinctTags) (now : Float) (k : Key) :
    (∃ added, added.length ≤ 2 ∧
      (e.key k now).state.store.formula.pieces = e.store.formula.pieces ++ added) ∨
    (e.key k now).state.store.formula.pieces = e.store.formula.pieces.dropLast := by
  have hnext : (e.key k now).state.store.formula = e.nextFormula (.key k) :=
    formula_perform e now (.key k)
  rw [hnext]
  cases k with
  | backspace =>
    simp only [nextFormula]
    split
    · exact .inr hdistinct.withoutLast
    · exact .inl ⟨[], Nat.zero_le 2, (List.append_nil _).symm⟩
  | operator o =>
    refine .inl ⟨e.committed ++ [.literal (String.singleton o.char)], ?_, ?_⟩
    · rw [List.length_append]
      exact Nat.succ_le_succ e.length_committed_le
    · rw [nextFormula, List.append_assoc]
  | enter => exact .inl ⟨e.committed, Nat.le_succ_of_le e.length_committed_le, rfl⟩
  | other => exact .inl ⟨[], Nat.zero_le 2, (List.append_nil _).symm⟩

end

/-- At every point of a run from a new editor, the formula is what was committed since the last
clearing and not removed, each piece once and in the order of the numbers. A literal has the text with
which it was committed, and a tag is the same but for a suffix of its name. Further calls leave every
number with its piece. A key adds two pieces at most, at the end, or removes the last one, and what
concerns only the buffer, the suggestions or the result leaves the formula as it is. -/
theorem nothing_lost_or_reordered (config : Config) (fallback : Fallback)
    (calls : List (Float × Call)) :
    let e := (new config fallback).run calls
    let l := (new config fallback).ledger {} calls
    let f := e.store.formula
    (∀ n, n ∈ l.live ↔ l.cleared ≤ n ∧ n < l.committed.length ∧ n ∉ l.removed) ∧
    l.live.Pairwise (· < ·) ∧ List.Forall₂ l.Holds l.live f.pieces ∧
    (∀ more, l.Continues ((new config fallback).ledger {} (calls ++ more))) ∧
    (∀ k now, (∃ added, added.length ≤ 2 ∧
        (e.key k now).state.store.formula.pieces = f.pieces ++ added) ∨
      (e.key k now).state.store.formula.pieces = f.pieces.dropLast) ∧
    (∀ text now, (e.input text now).state.store.formula = f ∧
      (e.setInput text now).state.store.formula = f) ∧
    (∀ request result now, (e.receive request result now).state.store.formula = f) ∧
    e.calculate.state.store.formula = f ∧
    (∀ now, e.buffer ≠ "" → (e.key .backspace now).state.store.formula = f) := by
  intro e l f
  have hnew : (new config fallback).store.formula.DistinctTags := List.nodup_nil
  have hdistinct : f.DistinctTags := distinctTags_run hnew calls
  have hagrees : l.Agrees f := agrees_run .new .new hnew calls
  refine ⟨fun n => Ledger.mem_live, l.live_pairwise, hagrees, ?_, ?_, ?_, ?_, rfl, ?_⟩
  · intro more
    rw [ledger_append]
    exact (wellFormed_ledger (wellFormed_ledger .new calls).1 more).2
  · exact fun k now => pieces_key hdistinct now k
  · exact fun text now => ⟨congrArg Store.formula (store_input e now text),
      congrArg Store.formula (store_setInput e now text)⟩
  · exact fun request result now => rfl
  · intro now hbuffer
    change (e.backspace now).state.store.formula = f
    rw [formula_backspace, nextFormula, if_neg hbuffer]

/-- Equal pieces have their own numbers: of two ones and two plus signs, and of two tags for the same
candidate, the first tag is removed by its id, then the second tag and the last plus sign from the
end, and one more number is added. -/
theorem numbers_of_equal_pieces :
    let one : List (Float × Call) :=
      [(Float.ofBits 0, .input "1"), (Float.ofBits 0, .key (.operator .plus))]
    let rent : Float × Call := (Float.ofBits 0, .accept ⟨"r", "Rent", some (Float.ofBits 0)⟩)
    let delete : Float × Call := (Float.ofBits 0, .key .backspace)
    let calls := one ++ one ++ [rent, rent, (Float.ofBits 0, .removeTag "r"), delete, delete] ++
      [(Float.ofBits 0, .input "1"), (Float.ofBits 0, .key .enter), (Float.ofBits 0, .input "1")]
    let e := (new {} (.sequence [])).run calls
    let l := (new {} (.sequence [])).ledger {} calls
    l.live = [0, 1, 2, 6] ∧ l.removed = [4, 5, 3] ∧
    List.Forall₂ l.Holds l.live e.store.formula.pieces ∧
    e.buffer ≠ "" ∧
    (e.key .backspace (Float.ofBits 0)).state.store.formula = e.store.formula := by
  intro one rent delete calls e l
  have hlive : l.live = [0, 1, 2, 6] := by decide +kernel
  have hremoved : l.removed = [4, 5, 3] := by decide +kernel
  have hbuffer : e.buffer ≠ "" := by decide +kernel
  obtain ⟨-, -, hpieces, -, -, -, -, -, hkept⟩ :=
    nothing_lost_or_reordered {} (.sequence []) calls
  exact ⟨hlive, hremoved, hpieces, hbuffer, hkept _ hbuffer⟩

end Editor

end FormulaField
