import FormulaField.Proofs.TypedNumber

/-!
The grammar of typed numbers. Inside its padding a typed number is nothing at all, a name of an
infinity, a numeral with the mark of its base, or a decimal numeral with a sign or without; every other
text gives NaN, and these never do. What a general reader of numbers makes of a decimal numeral is its
value here too, so nothing is accepted by its form and then refused for its value.
-/

namespace FormulaField

open Text

/-! ### Padding -/

/-- The text without the padding around it. -/
def unpadded (text : String) : List Char := trimBy isPadding text.toList

/-- Padding around a text is trimmed away with the text's own. -/
theorem trimBy_append {drop : Char → Bool} {pre post : List Char} (cs : List Char)
    (hpre : ∀ c ∈ pre, drop c = true) (hpost : ∀ c ∈ post, drop c = true) :
    trimBy drop (pre ++ (cs ++ post)) = trimBy drop cs := by
  have hreverse : ∀ c ∈ post.reverse, drop c = true := fun c hc => hpost c (List.mem_reverse.mp hc)
  unfold trimBy
  rw [List.dropWhile_append_of_pos hpre, List.dropWhile_append]
  split
  · next hall => rw [List.isEmpty_iff.mp hall, List.dropWhile_eq_nil_iff.mpr hpost]
  · rw [List.reverse_append, List.dropWhile_append_of_pos hreverse]

theorem typedNumber_padded {pre post : String} (text : String)
    (hpre : ∀ c ∈ pre.toList, isPadding c = true) (hpost : ∀ c ∈ post.toList, isPadding c = true) :
    typedNumber (pre ++ text ++ post) = typedNumber text := by
  have htrim := trimBy_append text.toList hpre hpost
  unfold typedNumber
  rw [String.toList_append, String.toList_append, List.append_assoc, htrim]

/-! ### The grammar -/

/-- What a typed number can be inside its padding. -/
inductive IsTyped : List Char → Prop
  | empty : IsTyped []
  | infinity {sign} : IsSign sign → IsTyped (sign ++ infinityWord)
  | marked {u} : IsMarked u → IsTyped u
  | decimal {u} : IsSignedDecimal u → IsTyped u

theorem Sign.isSign (s : Sign) : IsSign [s.operator.char] := by
  cases s
  · exact .plus
  · exact .minus

section
variable {sign u d : List Char}

theorem IsDecimal.numberForm (h : IsDecimal d) :
    NumberForm d ∧ d ≠ nanWord ∧ Radix.strip? d = none := by
  obtain ⟨n, hscan, hdigits⟩ := isDecimal_iff.mp h
  exact numberForm_of_decimalMagnitude? (decimalMagnitude?_of_scan hscan hdigits)

theorem IsMarked.numberForm (h : IsMarked u) : NumberForm u ∧ u ≠ nanWord := by
  refine ⟨numberForm_iff.mpr (Or.inr (Or.inr (Or.inr h))), ?_⟩
  cases h
  simp [nanWord]

theorem typedForm_append (hsign : IsSign sign) (h : NumberForm d) (hnan : d ≠ nanWord)
    (hstrip : Radix.strip? d = none) : TypedForm (sign ++ d) := by
  cases hsign with
  | none => exact .unsigned h hnan
  | plus => exact .signed (s := .plus) rfl h hnan hstrip
  | minus => exact .signed (s := .minus) rfl h hnan hstrip

/-- A sign may stand before a name of infinity or a decimal numeral. -/
theorem infinity_or_isDecimal (h : NumberForm d) (hnan : d ≠ nanWord)
    (hstrip : Radix.strip? d = none) : d = infinityWord ∨ IsDecimal d := by
  rcases numberForm_iff.mp h with hword | hword | hdecimal | hmarked
  · exact Or.inl hword
  · exact absurd hword hnan
  · exact Or.inr hdecimal
  · obtain ⟨r, ds, hsome, -⟩ := isMarked_iff.mp hmarked
    rw [hstrip] at hsome
    cases hsome

/-- The grammar describes the forms that a typed number has been seen to have. -/
theorem isTyped_iff : IsTyped u ↔ u = [] ∨ TypedForm u := by
  constructor
  · intro h
    cases h with
    | empty => exact Or.inl rfl
    | infinity hsign => exact Or.inr (typedForm_append hsign (.infinity rfl) (by decide) rfl)
    | marked h => exact Or.inr (.unsigned h.numberForm.1 h.numberForm.2)
    | decimal h =>
      obtain ⟨hsign, hdecimal⟩ := h
      obtain ⟨hform, hnan, hstrip⟩ := hdecimal.numberForm
      exact Or.inr (typedForm_append hsign hform hnan hstrip)
  · rintro (rfl | h)
    · exact .empty
    · cases h with
      | unsigned hform hnan =>
        rcases numberForm_iff.mp hform with rfl | hword | hdecimal | hmarked
        · exact .infinity .none
        · exact absurd hword hnan
        · exact .decimal (.intro .none hdecimal)
        · exact .marked hmarked
      | @signed s w hu hform hnan hstrip =>
        subst hu
        rcases infinity_or_isDecimal hform hnan hstrip with rfl | hdecimal
        · exact .infinity s.isSign
        · exact .decimal (.intro s.isSign hdecimal)

end

/-! ### The values -/

section
variable {text : String}

/-- A general reader of numbers makes of a decimal numeral what it is as a typed number. -/
theorem readSigned?_unpadded (h : IsSignedDecimal (unpadded text)) :
    readSigned? plainMagnitude? (unpadded text) = some (typedNumber text) := by
  generalize htrim : unpadded text = u at h ⊢
  have hrecognized := isSignedDecimal_iff.mpr h
  obtain ⟨n, hscan, hdigits⟩ := isSignedDecimal_iff_scan.mp hrecognized
  have hmark : beginsWithMark u = false := by
    rw [beginsWithMark_eq, ← Bool.not_eq_true, Option.isSome_iff_exists]
    rintro ⟨⟨r, digits⟩, hstrip⟩
    obtain ⟨mark, rfl, -⟩ := Radix.eq_of_strip? hstrip
    have hnone : Radix.strip? ('0' :: mark :: digits) = none := Numeral.strip?_eq_none hscan
    rw [hstrip] at hnone
    cases hnone
  have hread : ∃ x, readSigned? plainMagnitude? u = some x := by
    rw [readSigned?_eq, plainMagnitude?_of_scan hscan hdigits]
    exact ⟨_, rfl⟩
  obtain ⟨x, hx⟩ := hread
  have hnil : u ≠ [] := by
    rintro rfl
    cases hrecognized
  have hinfinity : ¬(u = infinityWord ∨ u = '+' :: infinityWord) := by
    rintro (rfl | rfl) <;> cases hrecognized
  have hminus : u ≠ '-' :: infinityWord := by
    rintro rfl
    cases hrecognized
  simp only [typedNumber, show trimBy isPadding text.toList = u from htrim, hnil, hinfinity, hminus,
    hmark, hrecognized, Bool.false_eq_true, if_false, if_true, hx, Option.getD_some]

/-- A typed number is no NaN exactly if it is in the grammar inside its padding. Nothing at all is
zero, the names are the infinities, a numeral with a mark has the value that it has in a formula, and
a decimal numeral the value that a general reader makes of it, which does not fail. Padding never
matters. -/
theorem typedNumber_grammar (text : String) :
    ((typedNumber text).isNaN = false ↔ IsTyped (unpadded text)) ∧
    (unpadded text = [] → typedNumber text = Float.ofBits 0) ∧
    (unpadded text = infinityWord ∨ unpadded text = '+' :: infinityWord →
      typedNumber text = infinity) ∧
    (unpadded text = '-' :: infinityWord → typedNumber text = -infinity) ∧
    (IsMarked (unpadded text) →
      literalValue? (String.ofList (unpadded text)) = some (typedNumber text)) ∧
    (IsSignedDecimal (unpadded text) →
      readSigned? plainMagnitude? (unpadded text) = some (typedNumber text)) ∧
    ∀ pre post : String, (∀ c ∈ pre.toList, isPadding c = true) →
      (∀ c ∈ post.toList, isPadding c = true) →
      typedNumber (pre ++ text ++ post) = typedNumber text := by
  have hnumber : (typedNumber text).isNaN = false ↔ isTypedNumber text = true := by
    simp [isTypedNumber]
  refine ⟨?_, fun h => ?_, fun h => ?_, fun h => ?_, fun h => ?_, readSigned?_unpadded,
    fun pre post => typedNumber_padded text⟩
  · rw [hnumber, isTyped_iff]
    exact isTypedNumber_iff rfl
  · simp only [typedNumber, show trimBy isPadding text.toList = [] from h, if_true]
  · rcases h with h | h
    · rw [typedNumber_unsigned (by decide) h]
      rfl
    · rw [typedNumber_sign .plus h]
      rfl
  · rw [typedNumber_sign .minus h]
    rfl
  · exact (typedNumber_of_numberForm rfl h.numberForm.1 h.numberForm.2).1

end

end FormulaField
