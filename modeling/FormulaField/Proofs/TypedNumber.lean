import Mathlib.Data.List.DropRight
import FormulaField.Proofs.Grammar
import FormulaField.Proofs.SignedDecimal

/-!
What the editor takes for a number. Inside its padding a typed number is nothing at all, a number
token other than the word `NaN`, or a sign before such a token that has no mark of a base. Its value
is the value of the token, negated after a minus sign.
-/

namespace FormulaField

open Text

/-! ### Trimming -/

section
variable {drop : Char → Bool} {cs u : List Char} {c : Char}

/-- Trimming takes away dropped characters only. -/
theorem exists_eq_trimBy (drop : Char → Bool) (cs : List Char) :
    ∃ pre post, cs = pre ++ (trimBy drop cs ++ post) ∧ (∀ c ∈ pre, drop c = true) ∧
      ∀ c ∈ post, drop c = true := by
  refine ⟨cs.takeWhile drop, (cs.dropWhile drop).rtakeWhile drop, ?_, ?_, ?_⟩
  · change cs = _ ++ ((cs.dropWhile drop).rdropWhile drop ++ _)
    rw [List.rdropWhile_append_rtakeWhile, List.takeWhile_append_dropWhile]
  · intro c hc
    exact List.mem_takeWhile_imp hc
  · intro c hc
    exact List.mem_rtakeWhile_imp hc

theorem trimBy_head (h : trimBy drop cs = c :: u) : drop c = false := by
  obtain ⟨post, hpost⟩ := List.rdropWhile_prefix drop (l := cs.dropWhile drop)
  change trimBy drop cs ++ post = cs.dropWhile drop at hpost
  rw [h, List.cons_append] at hpost
  have hlength : 0 < (cs.dropWhile drop).length := by
    rw [← hpost]
    exact Nat.succ_pos _
  have hnot := List.dropWhile_get_zero_not drop cs hlength
  simpa [← hpost] using hnot

theorem trimBy_getLast (h : trimBy drop cs ≠ []) : drop ((trimBy drop cs).getLast h) = false := by
  exact Bool.eq_false_iff.mpr (List.rdropWhile_last_not drop (cs.dropWhile drop) h)

end

/-! ### The value of a typed number -/

section
variable {text : String} {u : List Char}

/-- The magnitude of a number token without a mark, which is what a sign may stand before. -/
theorem exists_magnitude (h : NumberForm u) (hnan : u ≠ nanWord) (hstrip : Radix.strip? u = none) :
    ∃ x, literalValue? (String.ofList u) = some x ∧ x.isNaN = false ∧
      (u = infinityWord ∧ x = infinity ∨ u ≠ infinityWord ∧ decimalMagnitude? u = some x) := by
  cases h with
  | infinity h => exact ⟨infinity, by rw [h]; rfl, by decide, Or.inl ⟨h, rfl⟩⟩
  | notANumber h => exact absurd h hnan
  | radix hsome => rw [hstrip] at hsome; cases hsome
  | decimal _ hscan hdigits =>
    refine ⟨_, literalValue?_of_scan hstrip hscan hdigits, isNaN_toFloat _, Or.inr ⟨?_, ?_⟩⟩
    · obtain ⟨c, cs, rfl, hcs⟩ := Numeral.exists_cons_of_scan hscan hdigits
      exact ((beginsNumeral_of_hasDigits hcs).ne_word cs).1
    · exact decimalMagnitude?_of_scan hscan hdigits

theorem beginsWithMark_eq (cs : List Char) : beginsWithMark cs = (Radix.strip? cs).isSome := by
  unfold beginsWithMark
  split
  · next mark rest =>
    change _ = ((Radix.ofMark? mark).map (·, rest)).isSome
    rw [Option.isSome_map]
    unfold Radix.ofMark?
    split <;> simp_all
  · next hnot =>
    unfold Radix.strip?
    split
    · next mark rest => exact absurd rfl (hnot mark rest)
    · rfl

theorem readSigned?_eq (magnitude? : List Char → Option Float) (cs : List Char) :
    readSigned? magnitude? cs =
      (magnitude? (takeSign cs).2).map fun x => if (takeSign cs).1 = some '-' then -x else x := by
  unfold readSigned?
  split
  · next hsign => simp [hsign]
  · next hnot hsign => simp only [hsign, if_neg hnot, Option.map_id']

/-- What is recognized as a decimal numeral is read as one, and nothing else is one. -/
theorem readSigned?_recognized (cs : List Char) :
    (if isSignedDecimal cs = true then (readSigned? plainMagnitude? cs).getD notANumber
      else notANumber) = (readSigned? decimalMagnitude? cs).getD notANumber := by
  rw [readSigned?_eq, readSigned?_eq]
  split
  · next h =>
    obtain ⟨n, hscan, hdigits⟩ := isSignedDecimal_iff_scan.mp h
    rw [plainMagnitude?_of_scan hscan hdigits, decimalMagnitude?_of_scan hscan hdigits]
  · next h =>
    have hnone : decimalMagnitude? (takeSign cs).2 = none := by
      rw [decimalMagnitude?, Option.map_eq_none_iff, Option.eq_none_iff_forall_ne_some]
      intro d hd
      obtain ⟨n, hscan, hdigits, -⟩ := Numeral.read?_eq_some_iff.mp hd
      exact h (isSignedDecimal_iff_scan.mpr ⟨n, hscan, hdigits⟩)
    rw [hnone]
    rfl

/-- A text that is not empty is one of the words, a numeral with a mark, or a decimal numeral. -/
theorem typedNumber_eq (htrim : trimBy isPadding text.toList = u) (hne : u ≠ []) :
    typedNumber text =
      if u = infinityWord ∨ u = '+' :: infinityWord then infinity
      else if u = '-' :: infinityWord then -infinity
      else match Radix.strip? u with
        | some (r, digits) => (r.value? digits).getD notANumber
        | none => (readSigned? decimalMagnitude? u).getD notANumber := by
  simp only [typedNumber, htrim, hne, if_false, beginsWithMark_eq, readSigned?_recognized]
  cases hstrip : Radix.strip? u with
  | some p => simp only [Option.isSome_some, if_true, literalValue?_of_strip? hstrip]
  | none => simp only [Option.isSome_none, Bool.false_eq_true, if_false]

theorem readSigned?_of_sign (magnitude? : List Char → Option Float) (s : Sign) (u : List Char) :
    readSigned? magnitude? (s.operator.char :: u) = (magnitude? u).map s.apply := by
  cases s with
  | plus => exact Option.map_id'.symm
  | minus => rfl

theorem typedNumber_sign (s : Sign) (htrim : trimBy isPadding text.toList = s.operator.char :: u) :
    typedNumber text = if u = infinityWord then s.apply infinity
      else ((decimalMagnitude? u).map s.apply).getD notANumber := by
  have hmagnitude := readSigned?_of_sign decimalMagnitude? s u
  have hword : s.operator.char :: u ≠ infinityWord := by
    cases s <;> simp [Sign.operator, Operator.char, infinityWord]
  have hstrip : Radix.strip? (s.operator.char :: u) = none := by
    cases s <;> simp [Sign.operator, Operator.char, Radix.strip?]
  rw [typedNumber_eq htrim (List.cons_ne_nil _ _)]
  simp only [hword, false_or, hstrip, hmagnitude]
  by_cases hu : u = infinityWord
  · cases s <;> simp [Sign.operator, Operator.char, Sign.apply, hu]
  · cases s <;> simp [Sign.operator, Operator.char, hu]

theorem typedNumber_unsigned {c : Char} {cs : List Char} (hc : c ≠ '+' ∧ c ≠ '-')
    (htrim : trimBy isPadding text.toList = c :: cs) : typedNumber text =
      if c :: cs = infinityWord then infinity
      else match Radix.strip? (c :: cs) with
        | some (r, digits) => (r.value? digits).getD notANumber
        | none => (decimalMagnitude? (c :: cs)).getD notANumber := by
  have hmagnitude : readSigned? decimalMagnitude? (c :: cs) = decimalMagnitude? (c :: cs) := by
    simp [readSigned?, takeSign, hc]
  have hplus : c :: cs ≠ '+' :: infinityWord := by simp [hc]
  have hminus : c :: cs ≠ '-' :: infinityWord := by simp [hc]
  rw [typedNumber_eq htrim (List.cons_ne_nil _ _)]
  simp only [hplus, hminus, or_false, if_false, hmagnitude]

theorem typedNumber_of_numberForm (htrim : trimBy isPadding text.toList = u) (h : NumberForm u)
    (hnan : u ≠ nanWord) : literalValue? (String.ofList u) = some (typedNumber text) ∧
      (typedNumber text).isNaN = false := by
  cases h with
  | infinity h =>
    subst h
    have htyped : typedNumber text = infinity := by
      rw [typedNumber_unsigned (by decide) htrim]
      rfl
    rw [htyped]
    exact ⟨rfl, by decide⟩
  | notANumber h => exact absurd h hnan
  | @radix r digits hstrip hne hall =>
    obtain ⟨x, hx⟩ := Option.isSome_iff_exists.mp (Radix.value?_isSome_iff.mpr ⟨hne, hall⟩)
    have htyped : typedNumber text = x := by
      obtain ⟨mark, rfl, -⟩ := Radix.eq_of_strip? hstrip
      have hc : BeginsNumeral '0' := beginsNumeral_of_isDigit rfl
      rw [typedNumber_unsigned hc.sign htrim, if_neg (hc.ne_word _).1, hstrip]
      simp only [hx, Option.getD_some]
    rw [htyped, literalValue?_of_strip? hstrip]
    exact ⟨hx, isNaN_of_value? hx⟩
  | @decimal n hstrip hscan hdigits =>
    have htyped : typedNumber text = n.value.toFloat := by
      obtain ⟨c, cs, rfl, hcs⟩ := Numeral.exists_cons_of_scan hscan hdigits
      have hc := beginsNumeral_of_hasDigits hcs
      rw [typedNumber_unsigned hc.sign htrim, if_neg (hc.ne_word cs).1, hstrip]
      simp only [decimalMagnitude?_of_scan hscan hdigits, Option.getD_some]
    rw [htyped]
    exact ⟨literalValue?_of_scan hstrip hscan hdigits, isNaN_toFloat _⟩

theorem typedNumber_of_sign {s : Sign} (htrim : trimBy isPadding text.toList = s.operator.char :: u)
    (h : NumberForm u) (hnan : u ≠ nanWord) (hstrip : Radix.strip? u = none) :
    ∃ x, literalValue? (String.ofList u) = some x ∧ typedNumber text = s.apply x ∧
      (typedNumber text).isNaN = false := by
  obtain ⟨x, hx, hnumber, hmagnitude⟩ := exists_magnitude h hnan hstrip
  have htyped : typedNumber text = s.apply x := by
    rw [typedNumber_sign s htrim]
    rcases hmagnitude with ⟨hword, rfl⟩ | ⟨hword, hmagnitude⟩
    · rw [if_pos hword]
    · rw [if_neg hword, hmagnitude]
      rfl
  refine ⟨x, hx, htyped, ?_⟩
  rw [htyped]
  cases s with
  | plus => exact hnumber
  | minus => exact isNaN_neg hnumber

theorem numberForm_of_decimalMagnitude? {x : Float} (h : decimalMagnitude? u = some x) :
    NumberForm u ∧ u ≠ nanWord ∧ Radix.strip? u = none := by
  obtain ⟨d, hd, -⟩ := Option.map_eq_some_iff.mp h
  obtain ⟨n, hscan, hdigits, -⟩ := Numeral.read?_eq_some_iff.mp hd
  have hstrip := Numeral.strip?_eq_none hscan
  refine ⟨.decimal hstrip hscan hdigits, ?_, hstrip⟩
  obtain ⟨c, cs, rfl, hcs⟩ := Numeral.exists_cons_of_scan hscan hdigits
  exact ((beginsNumeral_of_hasDigits hcs).ne_word cs).2

theorem exists_of_isNaN_getD {x? : Option Float} (h : (x?.getD notANumber).isNaN = false) :
    ∃ x, x? = some x := by
  cases x? with
  | some x => exact ⟨x, rfl⟩
  | none => exact absurd h (by decide)

/-- The forms that a typed number can have inside its padding. -/
inductive TypedForm (u : List Char) : Prop
  | unsigned : NumberForm u → u ≠ nanWord → TypedForm u
  | signed {s : Sign} {w : List Char} : u = s.operator.char :: w → NumberForm w → w ≠ nanWord →
      Radix.strip? w = none → TypedForm u

theorem typedForm_of_sign {s : Sign} {w : List Char}
    (htrim : trimBy isPadding text.toList = s.operator.char :: w)
    (h : (typedNumber text).isNaN = false) : TypedForm (s.operator.char :: w) := by
  rw [typedNumber_sign s htrim] at h
  split at h
  · next hw =>
    refine .signed rfl (.infinity hw) ?_ ?_
    · rw [hw]; decide
    · rw [hw]; rfl
  · obtain ⟨x, hx⟩ := exists_of_isNaN_getD h
    obtain ⟨y, hy, -⟩ := Option.map_eq_some_iff.mp hx
    obtain ⟨hform, hnan, hstrip⟩ := numberForm_of_decimalMagnitude? hy
    exact .signed rfl hform hnan hstrip

theorem typedForm_of_unsigned {c : Char} {cs : List Char} (hc : c ≠ '+' ∧ c ≠ '-')
    (htrim : trimBy isPadding text.toList = c :: cs) (h : (typedNumber text).isNaN = false) :
    TypedForm (c :: cs) := by
  rw [typedNumber_unsigned hc htrim] at h
  split at h
  · next hw => exact .unsigned (.infinity hw) (by rw [hw]; decide)
  · split at h
    · next r digits hstrip =>
      have hvalue := exists_of_isNaN_getD h
      obtain ⟨hne, hall⟩ := Radix.value?_isSome_iff.mp (Option.isSome_iff_exists.mpr hvalue)
      refine .unsigned (.radix hstrip hne hall) ?_
      obtain ⟨mark, hu, -⟩ := Radix.eq_of_strip? hstrip
      cases hu
      simp [nanWord]
    · obtain ⟨x, hx⟩ := exists_of_isNaN_getD h
      obtain ⟨hform, hnan, -⟩ := numberForm_of_decimalMagnitude? hx
      exact .unsigned hform hnan

/-- A text is a typed number exactly if there is nothing in it but padding, or a number token or a
sign and a number token inside the padding. -/
theorem isTypedNumber_iff (htrim : trimBy isPadding text.toList = u) :
    isTypedNumber text = true ↔ u = [] ∨ TypedForm u := by
  have hnot : isTypedNumber text = true ↔ (typedNumber text).isNaN = false := by
    simp [isTypedNumber]
  rw [hnot]
  constructor
  · intro h
    cases u with
    | nil => exact Or.inl rfl
    | cons c cs =>
      refine Or.inr ?_
      by_cases hplus : c = '+'
      · subst hplus
        exact typedForm_of_sign (s := .plus) htrim h
      · by_cases hminus : c = '-'
        · subst hminus
          exact typedForm_of_sign (s := .minus) htrim h
        · exact typedForm_of_unsigned ⟨hplus, hminus⟩ htrim h
  · rintro (rfl | h)
    · have htyped : typedNumber text = Float.ofBits 0 := by
        unfold typedNumber
        simp [htrim]
      rw [htyped]
      decide
    · cases h with
      | unsigned hform hnan => exact (typedNumber_of_numberForm htrim hform hnan).2
      | signed hu hform hnan hstrip =>
        subst hu
        obtain ⟨x, -, -, hx⟩ := typedNumber_of_sign htrim hform hnan hstrip
        exact hx

end

end FormulaField
