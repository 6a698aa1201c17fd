import FormulaField.Number.Typed
import FormulaField.Proofs.NumberGrammar

/-!
The editor's own recognizer of decimal numerals. It only counts digits: there must be one on some side of
the point, and one behind the mark of an exponent, and nothing may be left. The scanner is more patient,
since it leaves a mark without digits to the next token; but a text that it takes as a whole is a text
that is recognized, so the recognizer has the grammar of the scanner's numerals with a sign before them.
-/

namespace FormulaField

/-- A decimal numeral with a sign before it or without. -/
inductive IsSignedDecimal : List Char → Prop
  | intro {sign d} : IsSign sign → IsDecimal d → IsSignedDecimal (sign ++ d)

/-! ### The recognizer and the scanner -/

section
variable {cs : List Char}

/-- The digits behind a point are counted where a scan takes them. -/
theorem countFraction_eq (cs : List Char) : countFraction cs =
    (((Numeral.scanFraction cs).1.getD []).length, (Numeral.scanFraction cs).2) := by
  cases cs with
  | nil => rfl
  | cons c cs =>
    by_cases hpoint : c = '.'
    · subst hpoint
      rfl
    · simp [countFraction, Numeral.scanFraction, hpoint]

/-- Behind a mantissa the text is over, or it goes on with an exponent that a scan takes to the end. -/
theorem endsNumeral_iff : endsNumeral cs = true ↔ cs = [] ∨ ∃ e, Exponent.scan? cs = some (e, []) := by
  cases cs with
  | nil => simp [endsNumeral]
  | cons mark cs =>
    by_cases hmark : mark = 'e' ∨ mark = 'E'
    · simp [endsNumeral, Exponent.scan?, countDigits, hmark]
    · simp [endsNumeral, Exponent.scan?, hmark]

/-- A text is left by a scan without a rest exactly if nothing or an exponent stands behind its
mantissa. -/
theorem scan_eq_nil_iff : (Numeral.scan cs).2 = [] ↔ endsNumeral (afterMantissa cs) = true := by
  rw [endsNumeral_iff]
  cases h : Exponent.scan? (afterMantissa cs) with
  | none => simp [Numeral.scan_of_none h, afterMantissa]
  | some p =>
    have hne : afterMantissa cs ≠ [] := by
      intro hnil
      rw [hnil] at h
      cases h
    simp [Numeral.scan_of_some h, hne, Prod.ext_iff]

/-- A scan finds digits on some side of the point exactly if the counts are not both zero. -/
theorem hasDigits_scan_iff_count : (Numeral.scan cs).1.hasDigits = true ↔
    (countDigits cs).1 + (countFraction (countDigits cs).2).1 ≠ 0 := by
  rw [countFraction_eq, Numeral.hasDigits, Numeral.scan_whole, Numeral.scan_fraction]
  simp only [countDigits, Bool.or_eq_true, Bool.not_eq_true', List.isEmpty_eq_false_iff, ne_eq,
    Nat.add_eq_zero_iff, List.length_eq_zero_iff, not_and_or]

/-- What is recognized is a sign, or none, and a text that a scan takes as a whole. -/
theorem isSignedDecimal_iff_scan : isSignedDecimal cs = true ↔
    ∃ n, Numeral.scan (takeSign cs).2 = (n, []) ∧ n.hasDigits = true := by
  generalize hu : (takeSign cs).2 = u
  have hrest : (countFraction (countDigits u).2).2 = afterMantissa u := by
    rw [countFraction_eq]
    rfl
  have hcounts : isSignedDecimal cs = true ↔
      (Numeral.scan u).1.hasDigits = true ∧ (Numeral.scan u).2 = [] := by
    rw [hasDigits_scan_iff_count, scan_eq_nil_iff, isSignedDecimal, hu]
    simp only [hrest]
    split
    · next hzero => exact ⟨fun h => absurd h Bool.false_ne_true, fun h => absurd hzero h.1⟩
    · next hne => exact ⟨fun h => ⟨hne, h⟩, fun h => h.2⟩
  rw [hcounts]
  constructor
  · rintro ⟨hdigits, hnil⟩
    exact ⟨_, Prod.ext rfl hnil, hdigits⟩
  · rintro ⟨n, hscan, hdigits⟩
    rw [hscan]
    exact ⟨hdigits, rfl⟩

end

/-! ### The recognizer and the grammar -/

/-- No numeral begins with a sign. -/
theorem IsDecimal.takeSign {d : List Char} (h : IsDecimal d) : takeSign d = (none, d) := by
  obtain ⟨n, hscan, hdigits⟩ := isDecimal_iff.mp h
  obtain ⟨c, cs, rfl, hcs⟩ := Numeral.exists_cons_of_scan hscan hdigits
  have hsign := (beginsNumeral_of_hasDigits hcs).sign
  simp [FormulaField.takeSign, hsign]

/-- The recognizer accepts the signed decimal numerals and nothing else. -/
theorem isSignedDecimal_iff {cs : List Char} : isSignedDecimal cs = true ↔ IsSignedDecimal cs := by
  rw [isSignedDecimal_iff_scan, ← isDecimal_iff]
  constructor
  · intro h
    rw [← takeSign_text cs]
    exact .intro (isSign_takeSign cs) h
  · rintro ⟨hsign, hdecimal⟩
    cases hsign with
    | none => rwa [List.nil_append, hdecimal.takeSign]
    | plus | minus => exact hdecimal

end FormulaField
