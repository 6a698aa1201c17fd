import FormulaField.Proofs.NumberToken

/-!
The grammar of number texts, told without a scanner:

    decimal := (digits ['.' digit*] | '.' digits) [('e' | 'E') ['+' | '-'] digits]
    marked  := '0' ('x' | 'o' | 'b' in either case) and digits of that base

The scanner takes the longest text of this grammar. Where it goes back, from a mark that no digit
follows, no longer text of the grammar begins; and where it goes on, it has one.
-/

namespace FormulaField

open Text

/-! ### The grammar -/

/-- One or more decimal digits. -/
def IsDigits (ds : List Char) : Prop := ds ≠ [] ∧ ∀ c ∈ ds, c.isDigit = true

/-- Digits with a point or without one. There are digits on at least one side of the point. -/
inductive IsMantissa : List Char → Prop
  | whole {ds} : IsDigits ds → IsMantissa ds
  | point {ds fs} : IsDigits ds → (∀ c ∈ fs, c.isDigit = true) → IsMantissa (ds ++ '.' :: fs)
  | fraction {fs} : IsDigits fs → IsMantissa ('.' :: fs)

/-- A sign, or nothing. -/
inductive IsSign : List Char → Prop
  | none : IsSign []
  | plus : IsSign ['+']
  | minus : IsSign ['-']

/-- The mark of an exponent, perhaps a sign, and digits. -/
inductive IsExponent : List Char → Prop
  | intro {mark sign ds} : mark = 'e' ∨ mark = 'E' → IsSign sign → IsDigits ds →
      IsExponent (mark :: (sign ++ ds))

/-- A decimal numeral without a sign. -/
inductive IsDecimal : List Char → Prop
  | plain {m} : IsMantissa m → IsDecimal m
  | scaled {m e} : IsMantissa m → IsExponent e → IsDecimal (m ++ e)

/-- A numeral with the mark of its base. -/
inductive IsMarked : List Char → Prop
  | intro {mark r ds} : Radix.ofMark? mark = some r → ds ≠ [] → (∀ c ∈ ds, r.isDigit c = true) →
      IsMarked ('0' :: mark :: ds)

/-- A numeral of either form. -/
def IsNumeral (u : List Char) : Prop := IsDecimal u ∨ IsMarked u

/-! ### What the scanner takes is in the grammar -/

theorem isSign_takeSign (cs : List Char) : IsSign (takeSign cs).1.toList := by
  unfold takeSign
  split
  · exact .plus
  · exact .minus
  · exact .none

theorem isExponent_text {cs rest : List Char} {e : Exponent}
    (h : Exponent.scan? cs = some (e, rest)) : IsExponent e.text := by
  cases cs with
  | nil => cases h
  | cons mark cs =>
    simp only [Exponent.scan?] at h
    split at h
    · next hmark =>
      split at h
      · cases h
      · next hdigits =>
        cases h
        exact .intro hmark (isSign_takeSign cs) ⟨hdigits, fun c hc => List.mem_takeWhile_imp hc⟩
    · cases h

theorem isMantissa_of_digits {whole : List Char} {fraction : Option (List Char)}
    (hwhole : ∀ c ∈ whole, c.isDigit = true) (hfraction : ∀ c ∈ fraction.getD [], c.isDigit = true)
    (hdigits : whole ≠ [] ∨ fraction.getD [] ≠ []) :
    IsMantissa (whole ++ (fraction.map ('.' :: ·)).getD []) := by
  by_cases hnil : whole = []
  · have hne := hdigits.resolve_left fun h => h hnil
    cases fraction with
    | none => exact absurd rfl hne
    | some fs =>
      rw [hnil]
      exact .fraction ⟨hne, hfraction⟩
  · cases fraction with
    | none =>
      rw [Option.map_none, Option.getD_none, List.append_nil]
      exact .whole ⟨hnil, hwhole⟩
    | some fs => exact .point ⟨hnil, hwhole⟩ hfraction

theorem isDigit_of_mem_scanFraction (cs : List Char) :
    ∀ c ∈ (Numeral.scanFraction cs).1.getD [], c.isDigit = true := by
  unfold Numeral.scanFraction
  split
  · exact fun c hc => List.mem_takeWhile_imp hc
  · simp

/-- What stands behind the digits and the point at the head of a text. -/
def afterMantissa (cs : List Char) : List Char :=
  (Numeral.scanFraction (cs.dropWhile Char.isDigit)).2

/-- The numeral that a scan finds is a decimal numeral if it has a digit before or after the point. -/
theorem isDecimal_text {cs : List Char} (h : (Numeral.scan cs).1.hasDigits = true) :
    IsDecimal (Numeral.scan cs).1.text := by
  have hmantissa : IsMantissa (cs.takeWhile Char.isDigit ++
      ((Numeral.scanFraction (cs.dropWhile Char.isDigit)).1.map ('.' :: ·)).getD []) := by
    refine isMantissa_of_digits (fun c hc => List.mem_takeWhile_imp hc)
      (isDigit_of_mem_scanFraction _) ?_
    simpa [Numeral.hasDigits, Numeral.scan_whole, Numeral.scan_fraction] using h
  cases hexponent : Exponent.scan? (afterMantissa cs) with
  | none =>
    rw [Numeral.scan_of_none hexponent]
    simpa [Numeral.text] using IsDecimal.plain hmantissa
  | some p =>
    rw [Numeral.scan_of_some hexponent]
    simpa [Numeral.text] using IsDecimal.scaled hmantissa (isExponent_text hexponent)

/-! ### The scanner passes what is in the grammar -/

section
variable {m e p : List Char}

/-- A scan passes a mantissa, and goes on with the digits behind it. -/
theorem IsMantissa.passed (h : IsMantissa m) (v : List Char) :
    afterMantissa (m ++ v) = afterMantissa v ∨ afterMantissa (m ++ v) = v.dropWhile Char.isDigit := by
  have hpoint : ∀ fs : List Char, (∀ c ∈ fs, c.isDigit = true) →
      afterMantissa ('.' :: fs ++ v) = v.dropWhile Char.isDigit := by
    intro fs hfs
    rw [afterMantissa, List.cons_append, List.dropWhile_cons_of_neg (by decide)]
    exact List.dropWhile_append_of_pos hfs
  cases h with
  | whole hds =>
    rw [afterMantissa, List.dropWhile_append_of_pos hds.2]
    exact Or.inl rfl
  | point hds hfs =>
    rw [afterMantissa, List.append_assoc, List.dropWhile_append_of_pos hds.2]
    exact Or.inr (hpoint _ hfs)
  | fraction hfs => exact Or.inr (hpoint _ hfs.2)

theorem IsMantissa.passed_suffix (h : IsMantissa m) (v : List Char) :
    afterMantissa (m ++ v) <:+ v := by
  have hv := List.dropWhile_suffix Char.isDigit (l := v)
  rcases h.passed v with hrest | hrest <;> rw [hrest]
  · exact List.IsSuffix.trans ⟨_, Numeral.fractionText_append _⟩ hv
  · exact hv

/-- Digits begin with no sign. -/
theorem takeSign_digits {ds : List Char} (h : IsDigits ds) (v : List Char) :
    takeSign (ds ++ v) = (none, ds ++ v) := by
  cases ds with
  | nil => exact absurd rfl h.1
  | cons d ds =>
    have hd := (beginsNumeral_of_isDigit (h.2 d List.mem_cons_self)).sign
    simp [takeSign, hd]

theorem exists_takeSign {sign ds : List Char} (hsign : IsSign sign) (hds : IsDigits ds)
    (v : List Char) : ∃ s, takeSign (sign ++ ds ++ v) = (s, ds ++ v) := by
  cases hsign with
  | none => exact ⟨none, takeSign_digits hds v⟩
  | plus => exact ⟨some '+', rfl⟩
  | minus => exact ⟨some '-', rfl⟩

/-- A scan passes an exponent, and goes on with the digits behind it. -/
theorem IsExponent.passed (h : IsExponent e) (v : List Char) :
    ∃ x, Exponent.scan? (e ++ v) = some (x, v.dropWhile Char.isDigit) := by
  obtain @⟨mark, sign, ds, hmark, hsign, hds⟩ := h
  obtain ⟨s, hs⟩ := exists_takeSign hsign hds v
  have hne : (ds ++ v).takeWhile Char.isDigit ≠ [] := by
    rw [List.takeWhile_append_of_pos hds.2]
    exact List.append_ne_nil_of_left_ne_nil hds.1 _
  refine ⟨⟨mark, s, (ds ++ v).takeWhile Char.isDigit⟩, ?_⟩
  simp only [List.cons_append, Exponent.scan?, hmark, if_true, hs, hne, if_false,
    List.dropWhile_append_of_pos hds.2]

/-- The mark of an exponent goes on no mantissa. -/
theorem IsExponent.stops (h : IsExponent e) (v : List Char) :
    (e ++ v).dropWhile Char.isDigit = e ++ v ∧ afterMantissa (e ++ v) = e ++ v := by
  obtain ⟨hmark, -, -⟩ := h
  rcases hmark with rfl | rfl <;> exact ⟨rfl, rfl⟩

/-- A scan leaves no more than what stands behind the mantissa. -/
theorem scan_suffix (cs : List Char) : (Numeral.scan cs).2 <:+ afterMantissa cs := by
  cases h : Exponent.scan? (afterMantissa cs) with
  | none =>
    rw [Numeral.scan_of_none h]
    exact List.suffix_rfl
  | some p =>
    rw [Numeral.scan_of_some h]
    exact ⟨_, Exponent.text_append h⟩

/-- A scan passes every decimal numeral at the head of a text. -/
theorem IsDecimal.passed (h : IsDecimal p) (v : List Char) : (Numeral.scan (p ++ v)).2 <:+ v := by
  cases h with
  | plain hm => exact (scan_suffix _).trans (hm.passed_suffix v)
  | @scaled m e hm he =>
    obtain ⟨x, hx⟩ := he.passed v
    have hrest : afterMantissa (m ++ e ++ v) = e ++ v := by
      rw [List.append_assoc]
      rcases hm.passed (e ++ v) with hrest | hrest
      · rw [hrest, (he.stops v).2]
      · rw [hrest, (he.stops v).1]
    rw [← hrest] at hx
    rw [Numeral.scan_of_some hx]
    exact List.dropWhile_suffix _

theorem IsMantissa.hasDigits (h : IsMantissa m) (v : List Char) :
    (Numeral.scan (m ++ v)).1.hasDigits = true := by
  cases h with
  | @whole ds hds | @point ds fs hds hfs =>
    obtain ⟨d, ds, rfl⟩ := List.exists_cons_of_ne_nil hds.1
    simp [Numeral.hasDigits_scan_iff, hds.2 d List.mem_cons_self]
  | @fraction fs hfs =>
    obtain ⟨d, fs, rfl⟩ := List.exists_cons_of_ne_nil hfs.1
    simp [Numeral.hasDigits_scan_iff, beginsWithDigit, hfs.2 d List.mem_cons_self]

theorem IsDecimal.hasDigits (h : IsDecimal p) (v : List Char) :
    (Numeral.scan (p ++ v)).1.hasDigits = true := by
  cases h with
  | plain hm => exact hm.hasDigits v
  | scaled hm he =>
    rw [List.append_assoc]
    exact hm.hasDigits _

end

/-! ### The same texts -/

/-- A decimal numeral is a text that a scan takes as a whole. -/
theorem isDecimal_iff {u : List Char} :
    IsDecimal u ↔ ∃ n, Numeral.scan u = (n, []) ∧ n.hasDigits = true := by
  constructor
  · intro h
    have hrest := h.passed []
    have hdigits := h.hasDigits []
    rw [List.append_nil, List.suffix_nil] at hrest
    rw [List.append_nil] at hdigits
    exact ⟨(Numeral.scan u).1, Prod.ext rfl hrest, hdigits⟩
  · rintro ⟨n, hscan, hdigits⟩
    have htext := Numeral.text_append u
    have hdecimal : IsDecimal (Numeral.scan u).1.text := isDecimal_text (by rwa [hscan])
    rw [hscan] at htext hdecimal
    rwa [← htext, List.append_nil]

theorem isMarked_iff {u : List Char} : IsMarked u ↔
    ∃ r ds, Radix.strip? u = some (r, ds) ∧ ds ≠ [] ∧ ds.all r.isDigit = true := by
  constructor
  · rintro @⟨mark, r, ds, hmark, hne, hds⟩
    exact ⟨r, ds, by simp [Radix.strip?, hmark], hne, List.all_eq_true.mpr hds⟩
  · rintro ⟨r, ds, hstrip, hne, hds⟩
    obtain ⟨mark, rfl, hmark⟩ := Radix.eq_of_strip? hstrip
    exact .intro hmark hne (List.all_eq_true.mp hds)

/-- A number token is one of the two words or a numeral. -/
theorem numberForm_iff {u : List Char} :
    NumberForm u ↔ u = infinityWord ∨ u = nanWord ∨ IsNumeral u := by
  constructor
  · intro h
    cases h with
    | infinity h => exact Or.inl h
    | notANumber h => exact Or.inr (Or.inl h)
    | radix hstrip hne hall =>
      exact Or.inr (Or.inr (Or.inr (isMarked_iff.mpr ⟨_, _, hstrip, hne, hall⟩)))
    | decimal _ hscan hdigits =>
      exact Or.inr (Or.inr (Or.inl (isDecimal_iff.mpr ⟨_, hscan, hdigits⟩)))
  · rintro (h | h | h | h)
    · exact .infinity h
    · exact .notANumber h
    · obtain ⟨n, hscan, hdigits⟩ := isDecimal_iff.mp h
      exact .decimal (Numeral.strip?_eq_none hscan) hscan hdigits
    · obtain ⟨r, ds, hstrip, hne, hall⟩ := isMarked_iff.mp h
      exact .radix hstrip hne hall

/-! ### The longest numeral at the head of a text -/

theorem length_text_le_numeralLength (cs : List Char) :
    (Numeral.scan cs).1.text.length ≤ numeralLength cs := by
  unfold numeralLength
  simp only
  split
  · next r digits hstrip =>
    have htext : (Numeral.scan cs).1.text.length = 1 := by
      rw [Numeral.scan_of_strip? hstrip]
      rfl
    split <;> omega
  · exact Nat.le_refl _

/-- The characters that a number takes are a numeral. -/
theorem isNumeral_take {c : Char} {cs : List Char}
    (h : (c.isDigit || (c == '.' && beginsWithDigit cs)) = true) :
    IsNumeral ((c :: cs).take (numeralLength (c :: cs))) := by
  rcases take_numeralLength (c :: cs) with htake | ⟨mark, r, digits, hcs, hmark, hne, htake⟩ <;>
    rw [htake]
  · exact Or.inl (isDecimal_text ((Numeral.hasDigits_scan_iff c cs).mpr h))
  · exact Or.inr (.intro hmark hne fun c hc => List.mem_takeWhile_imp hc)

/-- A number takes no fewer characters than any numeral at the head of the text. -/
theorem IsNumeral.length_le {p : List Char} (h : IsNumeral p) (v : List Char) :
    p.length ≤ numeralLength (p ++ v) := by
  rcases h with h | h
  · have hrest := (h.passed v).length_le
    have hlength := congrArg List.length (Numeral.text_append (p ++ v))
    have hle := length_text_le_numeralLength (p ++ v)
    simp only [List.length_append] at hlength
    omega
  · obtain @⟨mark, r, ds, hmark, hne, hds⟩ := h
    have htake : (ds ++ v).takeWhile r.isDigit = ds ++ v.takeWhile r.isDigit :=
      List.takeWhile_append_of_pos hds
    have hlength : numeralLength ('0' :: mark :: (ds ++ v)) =
        (ds ++ v.takeWhile r.isDigit).length + 2 := by
      simp [numeralLength, Radix.strip?, hmark, htake, hne]
    simp [hlength]

end FormulaField
