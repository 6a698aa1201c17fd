import FormulaField.Token.Scan

/-!
Where a number ends. What follows a token may be looked at while it is read, so a token's extent can
depend on it; but nothing beyond a character that no word and no fraction can go on with is ever
taken in, and such characters are all blanks and all operators. A sign can still be taken in by an
exponent that lacks its digits, which never happens to a number that is complete.
-/

namespace FormulaField

open Text

/-! ### Characters that stand in words -/

theorem Ranges.has_head {first last n : Nat} {rest : Ranges} (h₁ : first ≤ n) (h₂ : n ≤ last) :
    Ranges.has ((first, last) :: rest) n = true := by
  simp [Ranges.has, h₁, h₂]

theorem Ranges.has_tail {first last n : Nat} {rest : Ranges} (h₁ : first ≤ n)
    (h : rest.has n = true) : Ranges.has ((first, last) :: rest) n = true := by
  simp [Ranges.has, h₁, h]

theorem isLetter_of_upper {c : Char} (h₁ : 'A' ≤ c) (h₂ : c ≤ 'Z') : isLetter c = true := by
  have h : basicLetters.has c.toNat = true := Ranges.has_head h₁ h₂
  simp [isLetter, h]

theorem isLetter_of_lower {c : Char} (h₁ : 'a' ≤ c) (h₂ : c ≤ 'z') : isLetter c = true := by
  have h : basicLetters.has c.toNat = true :=
    Ranges.has_tail (Nat.le_trans (by decide : 0x41 ≤ 0x61) h₁) (Ranges.has_head h₁ h₂)
  simp [isLetter, h]

theorem isWordChar_of_isLetter {c : Char} (h : isLetter c = true) : isWordChar c = true := by
  simp [isWordChar, isAlphanumeric, h]

theorem isWordChar_of_isDigit {c : Char} (h : c.isDigit = true) : isWordChar c = true := by
  have hc : '0' ≤ c ∧ c ≤ '9' := by simpa [Char.isDigit, Char.le_def] using h
  have h : basicNumerals.has c.toNat = true := Ranges.has_head hc.1 hc.2
  simp [isWordChar, isAlphanumeric, isNumeral, h]

theorem isWordChar_of_radixDigit {r : Radix} {c : Char} (h : r.isDigit c = true) :
    isWordChar c = true := by
  obtain ⟨d, hd⟩ := Option.isSome_iff_exists.mp h
  have hsome := (Option.filter_eq_some_iff.mp hd).1
  split at hsome
  · next hc => exact isWordChar_of_isDigit (by simpa [Char.isDigit, Char.le_def] using hc)
  · split at hsome
    · next hc =>
      have hz : c ≤ 'z' := Char.le_trans hc.2 (by decide)
      exact isWordChar_of_isLetter (isLetter_of_lower hc.1 hz)
    · split at hsome
      · next hc =>
        have hz : c ≤ 'Z' := Char.le_trans hc.2 (by decide)
        exact isWordChar_of_isLetter (isLetter_of_upper hc.1 hz)
      · cases hsome

/-- No blank stands in a word. -/
theorem isWordChar_of_isBlank {c : Char} (h : isBlank c = true) : isWordChar c = false := by
  have hcodes : ∀ n ∈ [9, 10, 11, 12, 13, 0x20, 0x85, 0xA0, 0x1680, 0x2000, 0x2001, 0x2002, 0x2003,
      0x2004, 0x2005, 0x2006, 0x2007, 0x2008, 0x2009, 0x200A, 0x2028, 0x2029, 0x202F, 0x205F, 0x3000],
      isWordChar (Char.ofNat n) = false := by
    decide +kernel
  have hc : Char.ofNat c.toNat = c := by simp
  rw [← hc]
  refine hcodes c.toNat ?_
  simp [isBlank] at h
  simp
  omega

/-! ### What a token cannot go on with -/

/-- What follows is nothing, or a character that goes on no word and no fraction. -/
def Breaks (v : List Char) : Prop := ∀ c ∈ v.head?, isWordChar c = false ∧ c ≠ '.'

/-- What follows does not begin with a sign. -/
def Unsigned (v : List Char) : Prop := ∀ c ∈ v.head?, c ≠ '+' ∧ c ≠ '-'

theorem breaks_nil : Breaks [] := by
  simp [Breaks]

theorem breaks_padding {c : Char} (h : isBlank c = true ∨ c = '\uFEFF') (v : List Char) :
    Breaks (c :: v) := by
  rintro d ⟨⟩
  rcases h with h | rfl
  · refine ⟨isWordChar_of_isBlank h, ?_⟩
    rintro rfl
    cases h
  · decide +kernel

theorem breaks_of_blank {v : List Char} (h : ∀ c ∈ v, isBlank c = true) :
    Breaks v ∧ Unsigned v := by
  cases v with
  | nil => exact ⟨breaks_nil, by simp [Unsigned]⟩
  | cons c v =>
    have hc := h c List.mem_cons_self
    refine ⟨breaks_padding (Or.inl hc) v, ?_⟩
    rintro d ⟨⟩
    constructor <;> (rintro rfl; cases hc)

theorem breaks_operator (o : Operator) (v : List Char) : Breaks (o.char :: v) := by
  rintro d ⟨⟩
  cases o <;> decide +kernel

section
variable {p : Char → Bool} {v : List Char}

theorem Breaks.eq_false {c : Char} (hv : Breaks (c :: v))
    (hp : ∀ c, p c = true → isWordChar c = true) : p c = false := by
  rw [← Bool.not_eq_true]
  intro h
  have hc := hp c h
  rw [(hv c rfl).1] at hc
  cases hc

theorem Breaks.takeWhile_append (hv : Breaks v) (hp : ∀ c, p c = true → isWordChar c = true)
    (u : List Char) : (u ++ v).takeWhile p = u.takeWhile p := by
  induction u with
  | nil =>
    cases v with
    | nil => rfl
    | cons c v => simp [hv.eq_false hp]
  | cons c u ih => simp only [List.cons_append, List.takeWhile_cons, ih]

theorem Breaks.dropWhile_append (hv : Breaks v) (hp : ∀ c, p c = true → isWordChar c = true)
    (u : List Char) : (u ++ v).dropWhile p = u.dropWhile p ++ v := by
  induction u with
  | nil =>
    cases v with
    | nil => rfl
    | cons c v => simp [hv.eq_false hp]
  | cons c u ih =>
    simp only [List.cons_append, List.dropWhile_cons, ih]
    split <;> rfl

end

/-! ### Numerals -/

theorem takeSign_text (cs : List Char) : (takeSign cs).1.toList ++ (takeSign cs).2 = cs := by
  unfold takeSign
  split <;> rfl

theorem Exponent.text_append {e : Exponent} {cs rest : List Char}
    (h : Exponent.scan? cs = some (e, rest)) : e.text ++ rest = cs := by
  cases cs with
  | nil => cases h
  | cons mark cs =>
    simp only [Exponent.scan?] at h
    split at h
    · split at h
      · cases h
      · cases h
        rw [Exponent.text, List.cons_append, List.append_assoc, List.takeWhile_append_dropWhile,
          takeSign_text]
    · cases h

theorem Numeral.fractionText_append (cs : List Char) :
    ((scanFraction cs).1.map ('.' :: ·)).getD [] ++ (scanFraction cs).2 = cs := by
  unfold scanFraction
  split
  · simp
  · rfl

section
variable {cs rest : List Char} {e : Exponent}

theorem Numeral.scan_of_some
    (h : Exponent.scan? (scanFraction (cs.dropWhile Char.isDigit)).2 = some (e, rest)) :
    scan cs = (⟨cs.takeWhile Char.isDigit, (scanFraction (cs.dropWhile Char.isDigit)).1, some e⟩,
      rest) := by
  simp only [scan, h]

theorem Numeral.scan_of_none
    (h : Exponent.scan? (scanFraction (cs.dropWhile Char.isDigit)).2 = none) :
    scan cs = (⟨cs.takeWhile Char.isDigit, (scanFraction (cs.dropWhile Char.isDigit)).1, none⟩,
      (scanFraction (cs.dropWhile Char.isDigit)).2) := by
  simp only [scan, h]

end

theorem Numeral.scan_whole (cs : List Char) : (scan cs).1.whole = cs.takeWhile Char.isDigit := by
  cases h : Exponent.scan? (scanFraction (cs.dropWhile Char.isDigit)).2 with
  | some p => rw [scan_of_some h]
  | none => rw [scan_of_none h]

theorem Numeral.scan_fraction (cs : List Char) :
    (scan cs).1.fraction = (scanFraction (cs.dropWhile Char.isDigit)).1 := by
  cases h : Exponent.scan? (scanFraction (cs.dropWhile Char.isDigit)).2 with
  | some p => rw [scan_of_some h]
  | none => rw [scan_of_none h]

/-- A scan only splits the text. -/
theorem Numeral.text_append (cs : List Char) : (scan cs).1.text ++ (scan cs).2 = cs := by
  have hfraction := fractionText_append (cs.dropWhile Char.isDigit)
  cases h : Exponent.scan? (scanFraction (cs.dropWhile Char.isDigit)).2 with
  | some p =>
    obtain ⟨e, rest⟩ := p
    rw [scan_of_some h]
    simp only [text, Option.map_some, Option.getD_some, List.append_assoc]
    rw [Exponent.text_append h, hfraction, List.takeWhile_append_dropWhile]
  | none =>
    rw [scan_of_none h]
    simp only [text, Option.map_none, Option.getD_none, List.append_nil, List.append_assoc]
    rw [hfraction, List.takeWhile_append_dropWhile]

theorem Numeral.scan_eq_nil_of_length {u : List Char} (h : (scan u).1.text.length = u.length) :
    (scan u).2 = [] := by
  have hlength := congrArg List.length (text_append u)
  rw [List.length_append] at hlength
  exact List.eq_nil_of_length_eq_zero (by omega)

/-! ### Numerals and what follows them -/

theorem takeSign_append {u v : List Char} (hv : Unsigned v ∨ u ≠ []) :
    takeSign (u ++ v) = ((takeSign u).1, (takeSign u).2 ++ v) := by
  cases u with
  | nil =>
    cases v with
    | nil => rfl
    | cons c v =>
      have hc : c ≠ '+' ∧ c ≠ '-' := by
        rcases hv with hv | hv
        · exact hv c rfl
        · exact absurd rfl hv
      simp [takeSign, hc.1, hc.2]
  | cons c u =>
    by_cases hplus : c = '+'
    · subst hplus; rfl
    · by_cases hminus : c = '-'
      · subst hminus; rfl
      · simp [takeSign, hplus, hminus]

/-- An exponent is not changed by what follows, unless it lacks its digits and a sign follows. -/
theorem Exponent.scan?_append {u v : List Char} (hv : Breaks v)
    (hsign : Unsigned v ∨ ∀ mark, u ≠ [mark]) :
    scan? (u ++ v) = (scan? u).map fun p => (p.1, p.2 ++ v) := by
  cases u with
  | nil =>
    cases v with
    | nil => rfl
    | cons c v =>
      have hmark : ¬(c = 'e' ∨ c = 'E') := by
        rintro (rfl | rfl)
        · exact absurd (hv 'e' rfl).1 (by decide)
        · exact absurd (hv 'E' rfl).1 (by decide)
      simp [scan?, hmark]
  | cons mark u =>
    have hu : Unsigned v ∨ u ≠ [] := by
      rcases hsign with h | h
      · exact Or.inl h
      · refine Or.inr ?_
        rintro rfl
        exact h mark rfl
    simp only [List.cons_append, scan?, takeSign_append hu,
      hv.takeWhile_append fun _ => isWordChar_of_isDigit,
      hv.dropWhile_append fun _ => isWordChar_of_isDigit]
    split
    · split <;> rfl
    · rfl

theorem Numeral.scanFraction_append {v : List Char} (hv : Breaks v) (u : List Char) :
    scanFraction (u ++ v) = ((scanFraction u).1, (scanFraction u).2 ++ v) := by
  cases u with
  | nil =>
    cases v with
    | nil => rfl
    | cons c v => simp [scanFraction, (hv c rfl).2]
  | cons c u =>
    by_cases hpoint : c = '.'
    · subst hpoint
      simp only [List.cons_append, scanFraction,
        hv.takeWhile_append fun _ => isWordChar_of_isDigit,
        hv.dropWhile_append fun _ => isWordChar_of_isDigit]
    · simp [scanFraction, hpoint]

/-- A numeral is not changed by what follows, unless that begins with a sign and the numeral is
followed by a part of an exponent. -/
theorem Numeral.scan_append {u v : List Char} (hv : Breaks v)
    (hsign : Unsigned v ∨ (scan u).2 = []) : scan (u ++ v) = ((scan u).1, (scan u).2 ++ v) := by
  have hwhole := hv.takeWhile_append (fun _ => isWordChar_of_isDigit) u
  have hrest := hv.dropWhile_append (fun _ => isWordChar_of_isDigit) u
  have hfraction := scanFraction_append hv (u.dropWhile Char.isDigit)
  have hexponent : Exponent.scan? (scanFraction ((u ++ v).dropWhile Char.isDigit)).2 =
      (Exponent.scan? (scanFraction (u.dropWhile Char.isDigit)).2).map fun p => (p.1, p.2 ++ v) := by
    rw [hrest, hfraction]
    refine Exponent.scan?_append hv (hsign.imp_right ?_)
    -- a mark on its own is no exponent, so it would be left over
    intro hnil mark hmark
    have hnone : Exponent.scan? (scanFraction (u.dropWhile Char.isDigit)).2 = none := by
      rw [hmark]
      simp [Exponent.scan?, takeSign]
    rw [scan_of_none hnone, hmark] at hnil
    cases hnil
  cases h : Exponent.scan? (scanFraction (u.dropWhile Char.isDigit)).2 with
  | some p =>
    obtain ⟨e, rest⟩ := p
    rw [h] at hexponent
    rw [scan_of_some h, scan_of_some hexponent, hwhole, hrest, hfraction]
  | none =>
    rw [h] at hexponent
    rw [scan_of_none h, scan_of_none hexponent, hwhole, hrest, hfraction]

/-! ### Numerals in another base -/

theorem isWordChar_of_ofMark? {mark : Char} {r : Radix} (h : Radix.ofMark? mark = some r) :
    isWordChar mark = true := by
  unfold Radix.ofMark? at h
  split at h <;> first | decide | cases h

theorem not_isDigit_of_ofMark? {mark : Char} {r : Radix} (h : Radix.ofMark? mark = some r) :
    mark.isDigit = false ∧ mark ≠ '.' ∧ mark ≠ 'e' ∧ mark ≠ 'E' := by
  unfold Radix.ofMark? at h
  split at h <;> first | decide | cases h

theorem Radix.eq_of_strip? {u digits : List Char} {r : Radix} (h : strip? u = some (r, digits)) :
    ∃ mark, u = '0' :: mark :: digits ∧ ofMark? mark = some r := by
  unfold strip? at h
  split at h
  · next mark rest =>
    obtain ⟨r', hmark, hr⟩ := Option.map_eq_some_iff.mp h
    cases hr
    exact ⟨mark, rfl, hmark⟩
  · cases h

theorem Radix.strip?_append {u v : List Char} (hv : Breaks v) (hu : u ≠ []) :
    strip? (u ++ v) = (strip? u).map fun p => (p.1, p.2 ++ v) := by
  match u, v with
  | c :: m :: u, v =>
    by_cases hc : c = '0'
    · subst hc
      cases hm : ofMark? m <;> simp [strip?, hm]
    · simp [strip?, hc]
  | [c], [] => simp [strip?]
  | [c], m :: v =>
    have hm : ofMark? m = none := by
      cases hm : ofMark? m with
      | none => rfl
      | some r => exact absurd (isWordChar_of_ofMark? hm) (by simp [(hv m rfl).1])
    by_cases hc : c = '0'
    · subst hc
      simp [strip?, hm]
    · simp [strip?, hc]

/-- A mark goes on no decimal numeral. -/
theorem Numeral.scan_of_strip? {u digits : List Char} {r : Radix}
    (h : Radix.strip? u = some (r, digits)) : scan u = (⟨['0'], none, none⟩, u.tail) := by
  obtain ⟨mark, rfl, hmark⟩ := Radix.eq_of_strip? h
  obtain ⟨hdigit, hpoint, he, hE⟩ := not_isDigit_of_ofMark? hmark
  have hrest : ('0' :: mark :: digits).dropWhile Char.isDigit = mark :: digits := by
    simp [hdigit]
  have hfraction : scanFraction (mark :: digits) = (none, mark :: digits) := by
    simp [scanFraction, hpoint]
  have hexponent : Exponent.scan? (mark :: digits) = none := by
    simp [Exponent.scan?, he, hE]
  rw [scan_of_none, hrest, hfraction]
  · simp [hdigit]
  · rw [hrest, hfraction, hexponent]

/-- A text that is one decimal numeral has no mark. -/
theorem Numeral.strip?_eq_none {u : List Char} {n : Numeral} (h : scan u = (n, [])) :
    Radix.strip? u = none := by
  cases hstrip : Radix.strip? u with
  | none => rfl
  | some p =>
    obtain ⟨mark, rfl, -⟩ := Radix.eq_of_strip? hstrip
    rw [scan_of_strip? hstrip] at h
    cases h

/-! ### Tokens and what follows them -/

theorem beginsWithDigit_append {v : List Char} (hv : Breaks v) (u : List Char) :
    beginsWithDigit (u ++ v) = beginsWithDigit u := by
  cases u with
  | nil =>
    cases v with
    | nil => rfl
    | cons c v => exact hv.eq_false fun _ => isWordChar_of_isDigit
  | cons c u => rfl

theorem numeralLength_append {u v : List Char} (hv : Breaks v) (hu : u ≠ [])
    (hsign : Unsigned v ∨ numeralLength u = u.length) :
    numeralLength (u ++ v) = numeralLength u := by
  have hstrip := Radix.strip?_append hv hu
  cases h : Radix.strip? u with
  | some p =>
    obtain ⟨r, digits⟩ := p
    rw [h] at hstrip
    have hdigits := hv.takeWhile_append (fun _ => isWordChar_of_radixDigit (r := r)) digits
    have hscan := Numeral.scan_of_strip? h
    have hscan' := Numeral.scan_of_strip? hstrip
    simp only [numeralLength, h, hstrip, Option.map_some, hdigits, hscan, hscan']
  | none =>
    rw [h] at hstrip
    have hlength : numeralLength u = (Numeral.scan u).1.text.length := by
      simp only [numeralLength, h]
    have hscan : Numeral.scan (u ++ v) = ((Numeral.scan u).1, (Numeral.scan u).2 ++ v) := by
      refine Numeral.scan_append hv (hsign.imp_right ?_)
      intro hwhole
      exact Numeral.scan_eq_nil_of_length (hlength ▸ hwhole)
    simp only [numeralLength, h, hstrip, Option.map_none, hscan]

theorem beginsWithDigit_iff (cs : List Char) :
    beginsWithDigit cs = true ↔ cs.takeWhile Char.isDigit ≠ [] := by
  cases cs with
  | nil => simp [beginsWithDigit]
  | cons c cs => cases hc : c.isDigit <;> simp [beginsWithDigit, hc]

/-- A numeral begins with a digit, or with a point and a digit. -/
theorem Numeral.hasDigits_scan_iff (c : Char) (cs : List Char) :
    (scan (c :: cs)).1.hasDigits = true ↔ (c.isDigit || (c == '.' && beginsWithDigit cs)) = true := by
  simp only [hasDigits, scan_whole, scan_fraction, List.takeWhile_cons, List.dropWhile_cons]
  cases hdigit : c.isDigit with
  | true => simp
  | false =>
    by_cases hpoint : c = '.'
    · subst hpoint
      simp [scanFraction, beginsWithDigit_iff]
    · simp [scanFraction, hpoint]

theorem Numeral.length_text_pos {n : Numeral} (h : n.hasDigits = true) : 0 < n.text.length := by
  obtain ⟨whole, fraction, exponent⟩ := n
  cases whole with
  | cons c cs => simp [text]
  | nil =>
    cases fraction with
    | some digits => simp [text]
    | none => cases h

/-- The reading of a number takes at least its first character. -/
theorem numeralLength_pos {c : Char} {cs : List Char}
    (h : (c.isDigit || (c == '.' && beginsWithDigit cs)) = true) :
    0 < numeralLength (c :: cs) := by
  have hplain := Numeral.length_text_pos ((Numeral.hasDigits_scan_iff c cs).mpr h)
  unfold numeralLength
  simp only
  split
  · split
    · exact hplain
    · omega
  · exact hplain

theorem cons_take_numeralLength {c : Char} {cs : List Char}
    (h : (c.isDigit || (c == '.' && beginsWithDigit cs)) = true) :
    c :: cs.take (numeralLength (c :: cs) - 1) = (c :: cs).take (numeralLength (c :: cs)) := by
  have hpos := numeralLength_pos h
  rw [← List.take_succ_cons]
  congr 1
  omega

theorem numeralLength_le (cs : List Char) : numeralLength cs ≤ cs.length := by
  have hplain : (Numeral.scan cs).1.text.length ≤ cs.length := by
    have hlength := congrArg List.length (Numeral.text_append cs)
    rw [List.length_append] at hlength
    omega
  unfold numeralLength
  simp only
  split
  · next r digits hstrip =>
    obtain ⟨mark, rfl, -⟩ := Radix.eq_of_strip? hstrip
    split
    · exact hplain
    · have hdigits := (List.takeWhile_sublist (l := digits) r.isDigit).length_le
      simp only [List.length_cons]
      omega
  · exact hplain

theorem take_takeWhile (p : Char → Bool) (cs : List Char) :
    cs.take (cs.takeWhile p).length = cs.takeWhile p :=
  (List.prefix_iff_eq_take.mp (List.takeWhile_prefix p)).symm

/-- The characters that a number takes: the numeral that a scan finds, or those of a base with the
zero and the mark before them. -/
theorem take_numeralLength (cs : List Char) :
    cs.take (numeralLength cs) = (Numeral.scan cs).1.text ∨
      ∃ mark r digits, cs = '0' :: mark :: digits ∧ Radix.ofMark? mark = some r ∧
        digits.takeWhile r.isDigit ≠ [] ∧
        cs.take (numeralLength cs) = '0' :: mark :: digits.takeWhile r.isDigit := by
  have hplain : cs.take (Numeral.scan cs).1.text.length = (Numeral.scan cs).1.text :=
    List.prefix_iff_eq_take.mp ⟨_, Numeral.text_append cs⟩ |>.symm
  unfold numeralLength
  simp only
  split
  · next r digits hstrip =>
    obtain ⟨mark, rfl, hmark⟩ := Radix.eq_of_strip? hstrip
    split
    · exact Or.inl hplain
    · next hdigits =>
      refine Or.inr ⟨mark, r, digits, rfl, hmark, fun hnil => hdigits ?_, ?_⟩
      · rw [hnil]
        rfl
      · rw [List.take_succ_cons, List.take_succ_cons, take_takeWhile]
  · exact Or.inl hplain

theorem lexeme_length_le (c : Char) (cs : List Char) : (lexeme c cs).2 ≤ cs.length := by
  unfold lexeme
  split
  · exact Nat.zero_le _
  · split
    · have hlength := numeralLength_le (c :: cs)
      simp only [List.length_cons] at hlength
      simp only
      omega
    · split
      · exact (List.takeWhile_sublist _).length_le
      · exact Nat.zero_le _

/-- A token is not changed by what follows, unless that begins with a sign and the token has left
something before it. -/
theorem lexeme_append {c : Char} {cs v : List Char} (hv : Breaks v)
    (hsign : Unsigned v ∨ (lexeme c cs).2 = cs.length) : lexeme c (cs ++ v) = lexeme c cs := by
  unfold lexeme at hsign ⊢
  cases ho : Operator.ofChar? c with
  | some o => rfl
  | none =>
    simp only [ho, beginsWithDigit_append hv] at hsign ⊢
    split
    · next hdigit =>
      have hpos := numeralLength_pos hdigit
      rw [← List.cons_append, numeralLength_append hv (List.cons_ne_nil c cs)]
      refine hsign.imp_right ?_
      intro hwhole
      rw [if_pos hdigit] at hwhole
      rw [List.length_cons]
      omega
    · split
      · rw [hv.takeWhile_append (fun _ h => h)]
      · rfl

end FormulaField
