import Mathlib
import FormulaField.Proofs.TagIdentity

/-!
What a subscriber is told. Four of the five changes of a formula send a notice exactly when they change
the sequence of pieces. The fifth, putting other pieces in place of all, compares the sequences as
numbers are compared, and that misjudges two cases: zeros of different signs are equal as numbers,
though the formula is written differently afterwards, and a sequence with a NaN in it is never equal to
itself. What a subscriber was told last is the formula as it is now, up to the signs of zeros, and it is
the very formula as long as no change was misjudged.
-/

namespace FormulaField

/-! ### When two sequences of pieces are the same -/

/-- Two pieces with the same texts, and with values that are in the relation `values`. -/
def Piece.Agree (values : Float → Float → Prop) : Piece → Piece → Prop
  | .literal s, .literal s' => s = s'
  | .tag t, .tag t' => t.id = t'.id ∧ t.name = t'.name ∧ t.options = t'.options ∧
      values t.value t'.value
  | .literal _, .tag _ | .tag _, .literal _ => False

/-- Two sequences that agree piece by piece. -/
def Agree (values : Float → Float → Prop) : List Piece → List Piece → Prop :=
  List.Forall₂ (Piece.Agree values)

/-- The same bits, or both NaN. -/
def SameBits (x y : Float) : Prop := x.toBits = y.toBits ∨ x.isNaN = true ∧ y.isNaN = true

/-- The same value, or zeros of either sign. -/
def SameButSign (x y : Float) : Prop := x = y ∨ (x == 0) = true ∧ (y == 0) = true

/-- Equal as numbers. -/
def EqualNumbers (x y : Float) : Prop := (x == y) = true

/-- A tag of the sequence is NaN. -/
def HasNaN (ps : List Piece) : Prop := ∃ t, .tag t ∈ ps ∧ t.value.isNaN = true

theorem sameBits_iff {x y : Float} : SameBits x y ↔ x = y := by
  constructor
  · rintro (hbits | ⟨hx, hy⟩)
    · exact Float.toBits_inj.mp hbits
    · rw [Float.isNaN_eq_decide_eq_nan, decide_eq_true_eq] at hx hy
      rw [hx, hy]
  · rintro rfl
    exact Or.inl rfl

theorem eq_zero_iff {x : Float} : (x == 0) = true ↔ x = 0 ∨ x = -0 := by
  have hzero : (0 : Float) ≠ Float.nan ∧ (0 : Float) ≠ -0 ∧ (-0 : Float) ≠ Float.nan := by decide
  rw [Float.beq_iff_ne_nan_and_eq]
  grind

theorem equalNumbers_iff {x y : Float} : EqualNumbers x y ↔ SameButSign x y ∧ y.isNaN = false := by
  have hzero : (0 : Float) ≠ Float.nan ∧ (-0 : Float) ≠ Float.nan := by decide
  rw [EqualNumbers, SameButSign, eq_zero_iff, eq_zero_iff, Float.beq_iff_ne_nan_and_eq,
    Float.isNaN_eq_decide_eq_nan, decide_eq_false_iff_not]
  grind

theorem SameButSign.trans {x y z : Float} (h : SameButSign x y) (h' : SameButSign y z) :
    SameButSign x z := by
  rcases h with rfl | ⟨hx, hy⟩
  · exact h'
  · rcases h' with rfl | ⟨-, hz⟩
    · exact Or.inr ⟨hx, hy⟩
    · exact Or.inr ⟨hx, hz⟩

section
variable {ps qs rs : List Piece}

theorem agree_sameBits_iff : Agree SameBits ps qs ↔ ps = qs := by
  have hpiece : Piece.Agree SameBits = Eq := by
    funext p q
    cases p with
    | literal s => cases q <;> simp [Piece.Agree]
    | tag t =>
      cases q with
      | literal s => simp [Piece.Agree]
      | tag t' =>
        obtain ⟨id, name, value, options⟩ := t
        obtain ⟨id', name', value', options'⟩ := t'
        simp only [Piece.Agree, sameBits_iff, Piece.tag.injEq, Tag.mk.injEq, eq_iff_iff]
        tauto
  rw [Agree, hpiece, List.forall₂_eq_eq_eq]

theorem agree_sameButSign_refl (ps : List Piece) : Agree SameButSign ps ps := by
  refine List.forall₂_same.mpr fun p _ => ?_
  cases p with
  | literal s => rfl
  | tag t => exact ⟨rfl, rfl, rfl, Or.inl rfl⟩

theorem agree_sameButSign_trans (h : Agree SameButSign ps qs) (h' : Agree SameButSign qs rs) :
    Agree SameButSign ps rs := by
  induction h generalizing rs with
  | nil => exact h'
  | @cons p q ps qs hpq _ ih =>
    obtain ⟨r, rs, hqr, hrest, rfl⟩ := List.forall₂_cons_left_iff.mp h'
    refine List.Forall₂.cons ?_ (ih hrest)
    cases p <;> cases q <;> cases r <;> simp only [Piece.Agree] at hpq hqr ⊢
    · exact hpq.trans hqr
    · obtain ⟨hid, hname, hoptions, hvalue⟩ := hpq
      obtain ⟨hid', hname', hoptions', hvalue'⟩ := hqr
      exact ⟨hid.trans hid', hname.trans hname', hoptions.trans hoptions', hvalue.trans hvalue'⟩

theorem beq_piece_iff {p q : Piece} : (p == q) = true ↔ Piece.Agree EqualNumbers p q := by
  cases p with
  | literal s =>
    cases q with
    | literal s' =>
      change instBEqPiece.beq _ _ = true ↔ _
      simp [instBEqPiece.beq, Piece.Agree]
    | tag t' => exact iff_of_false Bool.false_ne_true id
  | tag t =>
    cases q with
    | literal s' => exact iff_of_false Bool.false_ne_true id
    | tag t' =>
      have htag : (Piece.tag t == Piece.tag t') = (t == t') := by
        change instBEqPiece.beq _ _ = _
        simp [instBEqPiece.beq]
      obtain ⟨id, name, value, options⟩ := t
      obtain ⟨id', name', value', options'⟩ := t'
      rw [htag]
      change instBEqTag.beq _ _ = true ↔ _
      simp [instBEqTag.beq, Piece.Agree, EqualNumbers, and_comm]

/-- Sequences are equal to the store if they differ in the signs of zeros at most, and hold no NaN. -/
theorem beq_pieces_iff : (ps == qs) = true ↔ Agree SameButSign ps qs ∧ ¬HasNaN qs := by
  induction ps generalizing qs with
  | nil =>
    cases qs with
    | nil => simp [Agree, HasNaN]
    | cons q qs => simp [Agree]
  | cons p ps ih =>
    cases qs with
    | nil => simp [Agree]
    | cons q qs =>
      have hagree : Piece.Agree EqualNumbers p q ↔ Piece.Agree SameButSign p q ∧ ¬HasNaN [q] := by
        cases p <;> cases q <;> simp [Piece.Agree, HasNaN, equalNumbers_iff, and_assoc]
      have hnan : HasNaN (q :: qs) ↔ HasNaN [q] ∨ HasNaN qs := by
        simp [HasNaN, or_and_right, exists_or]
      have hcons : Agree SameButSign (p :: ps) (q :: qs) ↔
          Piece.Agree SameButSign p q ∧ Agree SameButSign ps qs := List.forall₂_cons
      rw [List.cons_beq_cons, Bool.and_eq_true, beq_piece_iff, hagree, ih, hnan, hcons]
      tauto

end

/-! ### Changes -/

/-- A change of the formula that a store can be asked for. -/
inductive Change where
  | append (piece : Piece)
  | removeTag (id : String)
  | popLast
  | replaceAll (pieces : List Piece)
  | chooseOption (id option : String)

namespace Change

/-- The formula after a change. -/
def next (f : Formula) : Change → Formula
  | append p => f.append p
  | removeTag id => (f.removeTag id).2
  | popLast => f.popLast.2
  | replaceAll ps => ⟨ps⟩
  | chooseOption id option => (f.chooseOption id option).2

/-- Tells whether a change is announced. -/
def wakes (f : Formula) : Change → Bool
  | append _ => true
  | removeTag id => (f.removeTag id).1.isSome
  | popLast => f.popLast.1.isSome
  | replaceAll ps => f.pieces != ps
  | chooseOption id _ => f.hasTag id

/-- The pieces put in place of all are the same and hold a NaN, or they hold none and differ in nothing
but the signs of zeros. -/
def Misjudged (f : Formula) (c : Change) : Prop :=
  ∃ ps, c = replaceAll ps ∧ Agree SameButSign f.pieces ps ∧
    (Agree SameBits f.pieces ps ∧ HasNaN ps ∨ ¬Agree SameBits f.pieces ps ∧ ¬HasNaN ps)

section
variable {f : Formula}

theorem removeTag_wakes_iff (id : String) :
    (removeTag id).wakes f = true ↔ ((removeTag id).next f).pieces ≠ f.pieces := by
  simp only [wakes, next]
  by_cases hmem : id ∈ f.tagIds
  · obtain ⟨before, t, after, hpieces, hid, hbefore⟩ := Formula.exists_eq_append_tag hmem
    rw [Formula.removeTag, hpieces, Formula.takeTag?_append hid hbefore]
    refine iff_of_true rfl fun heq => ?_
    have hlength := congrArg List.length heq
    simp only [List.length_append, List.length_cons] at hlength
    omega
  · rw [Formula.removeTag_of_not_mem hmem]
    exact iff_of_false Bool.false_ne_true (not_not_intro rfl)

theorem popLast_wakes_iff :
    popLast.wakes f = true ↔ (popLast.next f).pieces ≠ f.pieces := by
  simp only [wakes, next, Formula.popLast, Formula.last?]
  rcases List.eq_nil_or_concat f.pieces with hnil | ⟨ps, p, hconcat⟩
  · simp [hnil]
  · simp [hconcat]

/-- An option that is chosen makes a name longer. -/
theorem chooseOption_wakes_iff (id option : String) :
    (chooseOption id option).wakes f = true ↔
      ((chooseOption id option).next f).pieces ≠ f.pieces := by
  have hpiece : ∀ p : Piece, p.withOption id option = p ↔ (p.tagWithId? id).isSome = false := by
    intro p
    cases p with
    | literal s => simp [Piece.withOption, Piece.tagWithId?]
    | tag t =>
      by_cases hid : t.id = id
      · have hname : t.withOption option ≠ t := by
          intro heq
          have hlength := congrArg (fun u => u.name.length) heq
          simp only [Tag.withOption, String.length_append] at hlength
          have hmark : " (".length = 2 := rfl
          omega
        simp [Piece.withOption, Piece.tagWithId?, hid, hname]
      · simp [Piece.withOption, Piece.tagWithId?, hid]
  have hmap : f.pieces.map (Piece.withOption id option) = f.pieces ↔ f.hasTag id = false := by
    conv_lhs => rhs; rw [← List.map_id f.pieces]
    rw [List.map_inj_left, Formula.hasTag, List.any_eq_false]
    simp [hpiece]
  simp only [wakes, next, Formula.chooseOption, ne_eq, hmap, Bool.not_eq_false]

/-- A change is announced exactly if it is one, unless it is misjudged; and then it is announced
exactly if it is none. -/
theorem wakes_iff (c : Change) :
    (¬c.Misjudged f → (c.wakes f = true ↔ ¬Agree SameBits f.pieces (c.next f).pieces)) ∧
    (c.Misjudged f → (c.wakes f = true ↔ Agree SameBits f.pieces (c.next f).pieces)) := by
  have hother : (∀ ps, c ≠ replaceAll ps) → (c.wakes f = true ↔ (c.next f).pieces ≠ f.pieces) := by
    intro hc
    cases c with
    | append p => simp [wakes, next, Formula.append]
    | removeTag id => exact removeTag_wakes_iff id
    | popLast => exact popLast_wakes_iff
    | replaceAll ps => exact absurd rfl (hc ps)
    | chooseOption id option => exact chooseOption_wakes_iff id option
  by_cases hc : ∃ ps, c = replaceAll ps
  · obtain ⟨ps, rfl⟩ := hc
    have hwakes : (replaceAll ps).wakes f = true ↔
        ¬(Agree SameButSign f.pieces ps ∧ ¬HasNaN ps) := by
      rw [wakes, ← beq_pieces_iff, bne, Bool.not_eq_true', Bool.not_eq_true]
    have hsame : Agree SameBits f.pieces ps → Agree SameButSign f.pieces ps := by
      intro hsame
      rw [agree_sameBits_iff.mp hsame]
      exact agree_sameButSign_refl ps
    have hmisjudged : (replaceAll ps).Misjudged f ↔ Agree SameButSign f.pieces ps ∧
        (Agree SameBits f.pieces ps ∧ HasNaN ps ∨ ¬Agree SameBits f.pieces ps ∧ ¬HasNaN ps) := by
      simp [Misjudged]
    rw [hmisjudged, hwakes, next]
    grind only
  · have hmisjudged : ¬c.Misjudged f := fun ⟨ps, hps, _⟩ => hc ⟨ps, hps⟩
    refine ⟨fun _ => ?_, fun h => absurd h hmisjudged⟩
    rw [hother fun ps hps => hc ⟨ps, hps⟩, agree_sameBits_iff, ne_comm]

end

end Change

/-! ### What a subscriber hears -/

/-- The formulas that one subscriber is told of, in order. -/
def heard (handle : Nat) (notices : List Notice) : List Formula :=
  (notices.filter fun n => n.handle == handle).map Notice.formula

theorem heard_append (handle : Nat) (ns ms : List Notice) :
    heard handle (ns ++ ms) = heard handle ns ++ heard handle ms := by
  simp [heard]

theorem heard_subscribers (handle : Nat) (handles : List Nat) (f : Formula) :
    heard handle (handles.map (⟨·, f⟩)) = List.replicate (handles.count handle) f := by
  induction handles with
  | nil => rfl
  | cons h handles ih =>
    rw [List.map_cons, ← List.singleton_append, heard_append, ih]
    by_cases heq : h = handle
    · rw [heq, List.count_cons_self, List.replicate_succ]
      simp [heard]
    · rw [List.count_cons_of_ne heq]
      simp [heard, heq]

namespace Store

/-- Carries out a change. -/
def perform (s : Store) : Change → Reply Store Unit
  | .append p => s.append p
  | .removeTag id => { s.removeTag id with value := () }
  | .popLast => { s.popLast with value := () }
  | .replaceAll ps => { s.replaceAll ps with value := () }
  | .chooseOption id option => { s.chooseOption id option with value := () }

/-- The store after some changes. -/
def after (s : Store) : List Change → Store
  | [] => s
  | c :: rest => (s.perform c).state.after rest

/-- The notices of some changes, in order. -/
def told (s : Store) : List Change → List Notice
  | [] => []
  | c :: rest => (s.perform c).notices ++ (s.perform c).state.told rest

/-- The formula that a subscriber knows after some changes: the last that it was told of, or the first
one. -/
def known (s : Store) (handle : Nat) (changes : List Change) : Formula :=
  (heard handle (s.told changes)).getLastD s.formula

section
variable {s : Store} {changes : List Change} {c : Change} {handle : Nat}

theorem perform_eq (s : Store) (c : Change) :
    s.perform c = s.change () (c.next s.formula) (c.wakes s.formula) := by
  cases c <;> rfl

theorem after_concat : s.after (changes ++ [c]) = ((s.after changes).perform c).state := by
  induction changes generalizing s with
  | nil => rfl
  | cons d rest ih => exact ih

theorem told_concat :
    s.told (changes ++ [c]) = s.told changes ++ ((s.after changes).perform c).notices := by
  induction changes generalizing s with
  | nil => simp [told, after]
  | cons d rest ih =>
    rw [List.cons_append, told, ih, told, List.append_assoc]
    rfl

theorem subscribers_after : (s.after changes).subscribers = s.subscribers := by
  induction changes generalizing s with
  | nil => rfl
  | cons d rest ih =>
    rw [after, ih, perform_eq]
    rfl

/-- A subscriber hears of an announced change once, and of no other. -/
theorem heard_perform (honce : s.subscribers.count handle = 1) (c : Change) :
    heard handle (s.perform c).notices =
      if c.wakes s.formula then [(s.perform c).state.formula] else [] := by
  rw [perform_eq, change]
  split
  · rw [heard_subscribers, honce]
    rfl
  · rfl

theorem known_concat (honce : s.subscribers.count handle = 1) :
    s.known handle (changes ++ [c]) = if c.wakes (s.after changes).formula
      then ((s.after changes).perform c).state.formula else s.known handle changes := by
  have honce' : (s.after changes).subscribers.count handle = 1 := by
    rw [subscribers_after]
    exact honce
  rw [known, told_concat, heard_append, heard_perform honce']
  split
  · simp
  · rw [List.append_nil, known]

/-- What a change leaves unannounced changes at most the signs of zeros, and nothing unless the change
is misjudged. -/
theorem agree_of_not_wakes {f : Formula} (h : c.wakes f = false) :
    Agree SameButSign f.pieces (c.next f).pieces ∧ (¬c.Misjudged f → (c.next f).pieces = f.pieces) := by
  have hjudged : ¬c.Misjudged f → Agree SameBits f.pieces (c.next f).pieces := by
    intro hjudged
    by_contra hchanged
    rw [(Change.wakes_iff c).1 hjudged |>.mpr hchanged] at h
    cases h
  refine ⟨?_, fun hc => (agree_sameBits_iff.mp (hjudged hc)).symm⟩
  by_cases hc : c.Misjudged f
  · obtain ⟨ps, rfl, hagree, -⟩ := hc
    exact hagree
  · rw [← agree_sameBits_iff.mp (hjudged hc)]
    exact agree_sameButSign_refl _

/-- A subscriber knows the formula but for the signs of zeros, and if no change was misjudged it knows
the formula. -/
theorem known_after (honce : s.subscribers.count handle = 1) (changes : List Change) :
    Agree SameButSign (s.known handle changes).pieces (s.after changes).formula.pieces ∧
    ((∀ before c rest, changes = before ++ c :: rest → ¬c.Misjudged (s.after before).formula) →
      (s.known handle changes).pieces = (s.after changes).formula.pieces) := by
  induction changes using List.reverseRecOn with
  | nil => exact ⟨agree_sameButSign_refl _, fun _ => rfl⟩
  | append_singleton changes c ih =>
    obtain ⟨hagree, hknown⟩ := ih
    rw [known_concat honce, after_concat]
    split
    · exact ⟨agree_sameButSign_refl _, fun _ => rfl⟩
    · next hwakes =>
      obtain ⟨hsame, hunchanged⟩ := agree_of_not_wakes (Bool.not_eq_true _ ▸ hwakes)
      have hnext : ((s.after changes).perform c).state.formula =
          c.next (s.after changes).formula := by
        rw [perform_eq]
        rfl
      rw [hnext]
      refine ⟨agree_sameButSign_trans hagree hsame, fun hjudged => ?_⟩
      rw [hunchanged (hjudged changes c [] rfl)]
      refine hknown fun before d rest hchanges => hjudged before d (rest ++ [c]) ?_
      rw [hchanges, List.append_assoc, List.cons_append]

/-- After any changes, a further one tells a subscriber of the new formula, once or not at all. It does
so exactly if the sequence of pieces has changed, unless it is misjudged, and then exactly if it has
not. What the subscriber was told last is the formula as it is but for the signs of zeros, and gives the
same expression as long as no change was misjudged. -/
theorem told_iff_changed (s : Store) (handle : Nat) (honce : s.subscribers.count handle = 1)
    (changes : List Change) :
    let s' := s.after changes
    (∀ c, heard handle (s'.perform c).notices = [] ∨
      heard handle (s'.perform c).notices = [(s'.perform c).state.formula]) ∧
    (∀ c, ¬c.Misjudged s'.formula → (heard handle (s'.perform c).notices ≠ [] ↔
      ¬Agree SameBits s'.formula.pieces (s'.perform c).state.formula.pieces)) ∧
    (∀ c, c.Misjudged s'.formula → (heard handle (s'.perform c).notices ≠ [] ↔
      Agree SameBits s'.formula.pieces (s'.perform c).state.formula.pieces)) ∧
    Agree SameButSign (s.known handle changes).pieces s'.formula.pieces ∧
    ((∀ before c rest, changes = before ++ c :: rest → ¬c.Misjudged (s.after before).formula) →
      (s.known handle changes).expression = s'.formula.expression) := by
  intro s'
  have honce' : s'.subscribers.count handle = 1 := by
    rw [subscribers_after]
    exact honce
  have hheard : ∀ c, heard handle (s'.perform c).notices ≠ [] ↔ c.wakes s'.formula = true := by
    intro c
    rw [heard_perform honce']
    split <;> simp [*]
  have hnext : ∀ c, (s'.perform c).state.formula = c.next s'.formula := by
    intro c
    rw [perform_eq]
    rfl
  obtain ⟨hagree, hknown⟩ := known_after honce changes
  refine ⟨?_, ?_, ?_, hagree, ?_⟩
  · intro c
    rw [heard_perform honce']
    split
    · exact Or.inr rfl
    · exact Or.inl rfl
  · intro c hjudged
    rw [hheard, hnext]
    exact (Change.wakes_iff c).1 hjudged
  · intro c hmisjudged
    rw [hheard, hnext]
    exact (Change.wakes_iff c).2 hmisjudged
  · intro hjudged
    rw [Formula.expression, hknown hjudged, Formula.expression]

/-- The subscriber of a new store hears of a zero for which it is told nothing else, and of a chosen
option; and it is told of nothing when the zero has its sign changed. -/
theorem zero_told_once :
    let s : Store := (subscribe {}).2
    let zero : Piece := .tag ⟨"a", "A", Float.ofBits 0, []⟩
    let negative : Piece := .tag ⟨"a", "A", Float.ofBits 0x8000000000000000, []⟩
    s.subscribers.count 0 = 1 ∧ ¬(Change.chooseOption "a" "Q1").Misjudged ⟨[zero]⟩ ∧
    heard 0 ((s.after [.append zero]).perform (.chooseOption "a" "Q1")).notices ≠ [] ∧
    (Change.replaceAll [negative]).Misjudged ⟨[zero]⟩ ∧
    (s.known 0 [.append zero]).expression = (s.after [.append zero]).formula.expression := by
  intro s zero negative
  have honce : s.subscribers.count 0 = 1 := by decide
  have h := told_iff_changed s 0 honce [.append zero]
  have hoption : ¬(Change.chooseOption "a" "Q1").Misjudged ⟨[zero]⟩ := by
    rintro ⟨ps, hps, -⟩
    cases hps
  have hnegative : (Change.replaceAll [negative]).Misjudged ⟨[zero]⟩ := by
    have hsign : SameButSign (Float.ofBits 0) (Float.ofBits 0x8000000000000000) :=
      Or.inr ⟨by decide, by decide⟩
    refine ⟨[negative], rfl, .cons ⟨rfl, rfl, rfl, hsign⟩ .nil, Or.inr ⟨?_, ?_⟩⟩
    · intro hsame
      injection agree_sameBits_iff.mp hsame with hpiece
      injection hpiece with htag
      exact absurd (congrArg Tag.value htag) (by decide)
    · rintro ⟨t, ht, hnan⟩
      have hpiece : Piece.tag t = .tag ⟨"a", "A", Float.ofBits 0x8000000000000000, []⟩ :=
        List.mem_singleton.mp ht
      injection hpiece with htag
      rw [htag] at hnan
      exact absurd hnan (by decide)
  refine ⟨honce, hoption, (h.2.1 _ hoption).mpr ?_, hnegative, h.2.2.2.2 ?_⟩
  · intro hsame
    injection agree_sameBits_iff.mp hsame with hpiece
    injection hpiece with htag
    exact absurd (congrArg Tag.name htag) (by decide)
  · rintro before c rest hchanges ⟨ps, rfl, -⟩
    rcases before with _ | ⟨d, before⟩
    · cases hchanges
    · have hrest := (List.cons.inj hchanges).2
      simp at hrest

/-- A negative zero is replaced by zero, and the subscriber is left with the old expression; and it is
told of a NaN that was put in its own place. -/
theorem sign_of_zero_untold :
    let s : Store := (subscribe {}).2
    let zero : Piece := .tag ⟨"a", "A", Float.ofBits 0, []⟩
    let negative : Piece := .tag ⟨"a", "A", Float.ofBits 0x8000000000000000, []⟩
    let nan : Piece := .tag ⟨"a", "A", Float.nan, []⟩
    let s' := s.after [.append negative]
    s.subscribers.count 0 = 1 ∧
    (¬Agree SameBits s'.formula.pieces (s'.perform (.replaceAll [zero])).state.formula.pieces ∧
      heard 0 (s'.perform (.replaceAll [zero])).notices = [] ∧
      (s.known 0 [.append negative, .replaceAll [zero]]).expression = "-0" ∧
      (s.after [.append negative, .replaceAll [zero]]).formula.expression = "0") ∧
    (Agree SameBits [nan] [nan] ∧
      heard 0 ((s.after [.append nan]).perform (.replaceAll [nan])).notices ≠ []) := by
  intro s zero negative nan s'
  refine ⟨by decide, ⟨?_, by rfl, by decide +kernel, by decide +kernel⟩, ?_, ?_⟩
  · intro hsame
    injection agree_sameBits_iff.mp hsame with hpiece
    injection hpiece with htag
    exact absurd (congrArg Tag.value htag) (by decide)
  · exact agree_sameBits_iff.mpr rfl
  · exact List.cons_ne_nil _ _

end

end Store

end FormulaField
