import FormulaField.Proofs.Exactness
import FormulaField.Proofs.Faces

/-!
The text of a value reads back as the value. Where the search for few digits has found some, it has
made sure of this itself; where it has not, the exact value is written. A positional text denotes the
same fraction as what it was written from, although it drops zeros at the end; and a fraction that is
a value exactly is rounded to that value.
-/

namespace FormulaField

/-! ### Positional texts -/

theorem exists_replicate_zero (cs : List Char) :
    ∃ n, cs = (cs.reverse.dropWhile (· == '0')).reverse ++ List.replicate n '0' := by
  refine ⟨(cs.reverse.takeWhile (· == '0')).length, ?_⟩
  have hzeros : cs.reverse.takeWhile (· == '0') =
      List.replicate (cs.reverse.takeWhile (· == '0')).length '0' := by
    refine List.eq_replicate_iff.mpr ⟨rfl, fun c hc => ?_⟩
    simpa using List.mem_takeWhile_imp hc
  have hsplit := congrArg List.reverse (List.takeWhile_append_dropWhile (p := (· == '0'))
    (l := cs.reverse))
  rw [List.reverse_append, List.reverse_reverse] at hsplit
  rw [← List.reverse_replicate, ← hzeros, hsplit]

/-- The digits behind the point, with the zeros that they lack, are the part that they stand for. -/
theorem fractionText_spec {places part : Nat} (h : part < 10 ^ places) :
    ∃ n, (Decimal.fractionText places part).length + n = places ∧
      Nat.ofDigitChars 10 (Decimal.fractionText places part) 0 * 10 ^ n = part := by
  rcases Nat.eq_zero_or_pos places with rfl | hplaces
  · rw [Nat.pow_zero, Nat.lt_one_iff] at h
    subst h
    exact ⟨0, rfl, rfl⟩
  · have hlength : (Nat.toDigits 10 part).length ≤ places :=
      (Nat.length_toDigits_le_iff (by decide) hplaces).mpr h
    obtain ⟨n, hpadded⟩ := exists_replicate_zero
      (List.replicate (places - (Nat.toDigits 10 part).length) '0' ++ Nat.toDigits 10 part)
    refine ⟨n, ?_, ?_⟩
    · have hsize := congrArg List.length hpadded
      simp only [List.length_append, List.length_replicate] at hsize
      unfold Decimal.fractionText
      simp only
      omega
    · have hvalue := congrArg (Nat.ofDigitChars 10 · 0) hpadded
      simp only [Nat.ofDigitChars_append, Nat.ofDigitChars_replicate_zero, Nat.mul_zero,
        Nat.ofDigitChars_ten_toDigits] at hvalue
      rw [Nat.mul_comm]
      exact hvalue.symm

/-- A positional text denotes the fraction that it was written from. -/
theorem read?_text (d : Decimal) : ∃ digits places : Nat,
    Numeral.read? d.text = some ⟨digits, -(places : Int)⟩ ∧
      digits * 10 ^ (-d.exponent).toNat = d.digits * 10 ^ d.exponent.toNat * 10 ^ places := by
  obtain ⟨fraction, hfraction, hscan⟩ := scan_text d
  simp only [Nat.pow_eq] at hfraction hscan
  have hread := Numeral.read?_eq_some_iff.mpr
    ⟨_, hscan, by simp [Numeral.hasDigits, Nat.toDigits_ne_nil], rfl⟩
  generalize (-d.exponent).toNat = places at hfraction hread ⊢
  generalize d.digits * 10 ^ d.exponent.toNat = whole at hfraction hread ⊢
  have hpart : whole % 10 ^ places < 10 ^ places := Nat.mod_lt _ (Nat.pow_pos (by decide))
  obtain ⟨n, hlength, hvalue⟩ := fractionText_spec hpart
  rw [← hfraction] at hlength hvalue
  refine ⟨Nat.ofDigitChars 10 (Nat.toDigits 10 (whole / 10 ^ places) ++ fraction.getD []) 0,
    (fraction.getD []).length, ?_, ?_⟩
  · rw [hread, Numeral.value, Option.map_none, Option.getD_none, Int.zero_sub]
  · rw [Nat.ofDigitChars_append, Nat.ofDigitChars_eq_ofDigitChars_zero,
      Nat.ofDigitChars_ten_toDigits]
    generalize Nat.ofDigitChars 10 (fraction.getD []) 0 = f at hvalue ⊢
    generalize (fraction.getD []).length = k at hlength ⊢
    have hwhole : (10 ^ k * (whole / 10 ^ places) + f) * 10 ^ n = whole := by
      calc (10 ^ k * (whole / 10 ^ places) + f) * 10 ^ n
          = 10 ^ (k + n) * (whole / 10 ^ places) + f * 10 ^ n := by ring
        _ = 10 ^ places * (whole / 10 ^ places) + whole % 10 ^ places := by rw [hlength, hvalue]
        _ = whole := Nat.div_add_mod _ _
    calc (10 ^ k * (whole / 10 ^ places) + f) * 10 ^ places
        = (10 ^ k * (whole / 10 ^ places) + f) * 10 ^ n * 10 ^ k := by
          rw [Nat.mul_assoc, ← Nat.pow_add, Nat.add_comm n, hlength]
      _ = whole * 10 ^ k := by rw [hwhole]

/-! ### Values -/

theorem unitsOfOne_le {k : Nat} (hk : k = 400) : unitsOfOne ≤ 10 ^ k := by
  obtain ⟨m, hm⟩ : ∃ m, m = 1074 := ⟨1074, rfl⟩
  calc unitsOfOne = 2 ^ m := (two_pow_eq_unitsOfOne hm).symm
    _ ≤ 2 ^ (3 * k) := Nat.pow_le_pow_right (by decide) (by omega)
    _ = 8 ^ k := Nat.pow_mul 2 3 k
    _ ≤ 10 ^ k := Nat.pow_le_pow_left (by decide) k

/-- A decimal fraction that is a value exactly is rounded to that value; it has not so many places
that it is taken for zero. -/
theorem toFloat_eq {digits places : Nat} {x : Float} (hsign : isNegative x = false)
    (hfinite : x.isFinite = true) (hpos : 0 < unitCount x)
    (h : digits * unitsOfOne = 10 ^ places * unitCount x) :
    Decimal.toFloat ⟨digits, -(places : Int)⟩ = x := by
  have hden : 0 < 10 ^ places := Nat.pow_pos (by decide)
  have hdigits : 0 < digits := num_pos hden hpos h
  have hnearest := nearest_eq hsign hfinite hden hpos h
  have hshort : places < digits.log2 + 1 + 400 := by
    obtain ⟨k, hk⟩ : ∃ k, k = 400 := ⟨400, rfl⟩
    rw [← hk, ← Nat.pow_lt_pow_iff_right (a := 10) (by decide)]
    calc 10 ^ places ≤ 10 ^ places * unitCount x := Nat.le_mul_of_pos_right _ hpos
      _ = digits * unitsOfOne := h.symm
      _ < 2 ^ (digits.log2 + 1) * unitsOfOne :=
        Nat.mul_lt_mul_of_pos_right Nat.lt_log2_self unitsOfOne_pos
      _ ≤ 10 ^ (digits.log2 + 1) * 10 ^ k :=
        Nat.mul_le_mul (Nat.pow_le_pow_left (by decide) _) (unitsOfOne_le hk)
      _ = 10 ^ (digits.log2 + 1 + k) := (Nat.pow_add ..).symm
  unfold Decimal.toFloat
  have hlarge : ¬400 < -(places : Int) := by omega
  have hsmall : ¬-(places : Int) + (digits.log2 + 1 : Nat) < -400 := by omega
  have hexponents : (-(places : Int)).toNat = 0 ∧ (- -(places : Int)).toNat = places := by omega
  simp only [Nat.ne_of_gt hdigits, hlarge, hsmall, if_false, hexponents, Nat.pow_eq, Nat.pow_zero,
    Nat.mul_one, hnearest]

/-- The exact decimal fraction of a value denotes its count of units. -/
theorem exactDecimal_eq (x : Float) :
    (exactDecimal x).digits * 10 ^ (exactDecimal x).exponent.toNat * unitsOfOne =
      10 ^ (-(exactDecimal x).exponent).toNat * unitCount x := by
  have hscale : -1074 ≤ scale x := by
    unfold scale
    split <;> omega
  obtain ⟨k, hk⟩ : ∃ k, k = 1074 := ⟨1074, rfl⟩
  rw [← two_pow_eq_unitsOfOne hk]
  unfold exactDecimal unitCount
  split
  · next hwhole =>
    have hsum : (scale x + 1074).toNat = (scale x).toNat + k := by omega
    rw [hsum, Nat.pow_add]
    simp only [Int.toNat_zero, Int.neg_zero, Nat.pow_eq, Nat.pow_zero, Nat.mul_one, Nat.one_mul]
    rw [Nat.mul_assoc]
  · next hpart =>
    have hzero : (scale x).toNat = 0 := by omega
    have hsplit : k = (-scale x).toNat + (scale x + 1074).toNat := by omega
    generalize (-scale x).toNat = p at hsplit ⊢
    generalize (scale x + 1074).toNat = q at hsplit ⊢
    have hten : 10 ^ p = 5 ^ p * 2 ^ p := by rw [← Nat.mul_pow]
    rw [hsplit, hzero, hten, Nat.pow_add]
    simp only [Nat.pow_eq]
    ring

section
variable {x : Float}

/-- The exact value reads back. -/
theorem readsBack_exactDecimal (hsign : isNegative x = false) (hfinite : x.isFinite = true)
    (hpos : 0 < unitCount x) : readsBack x (exactDecimal x) = true := by
  obtain ⟨digits, places, hread, hvalue⟩ := read?_text (exactDecimal x)
  have hunits : digits * unitsOfOne = 10 ^ places * unitCount x := by
    have hexact := exactDecimal_eq x
    generalize (exactDecimal x).digits * 10 ^ (exactDecimal x).exponent.toNat = whole at hvalue hexact
    generalize (-(exactDecimal x).exponent).toNat = p at hvalue hexact
    refine Nat.eq_of_mul_eq_mul_right (Nat.pow_pos (a := 10) (n := p) (by decide)) ?_
    calc digits * unitsOfOne * 10 ^ p = digits * 10 ^ p * unitsOfOne := Nat.mul_right_comm ..
      _ = whole * unitsOfOne * 10 ^ places := by rw [hvalue, Nat.mul_right_comm]
      _ = 10 ^ places * unitCount x * 10 ^ p := by rw [hexact]; ring
  rw [readsBack, hread, Option.map_some, toFloat_eq hsign hfinite hpos hunits]
  exact decide_eq_true rfl

theorem readsBack_of_choice {nearer farther d : Decimal}
    (h : (if readsBack x nearer then some nearer
      else if readsBack x farther then some farther else none) = some d) :
    readsBack x d = true := by
  split at h
  · next hreads =>
    cases h
    exact hreads
  · split at h
    · next hreads =>
      cases h
      exact hreads
    · cases h

/-- The digits that are found read back. -/
theorem readsBack_shortest (hsign : isNegative x = false) (hfinite : x.isFinite = true)
    (hpos : 0 < unitCount x) : readsBack x (shortest x) = true := by
  unfold shortest
  simp only
  cases hfound : (List.range 17).findSome? fun n =>
      onGrid? x (magnitude x) (pointPosition (magnitude x) - (n + 1 : Nat)) with
  | none => exact readsBack_exactDecimal hsign hfinite hpos
  | some d =>
    obtain ⟨n, -, hgrid⟩ := List.exists_of_findSome?_eq_some hfound
    exact readsBack_of_choice hgrid

theorem literalValue?_text {d : Decimal} (h : readsBack x d = true) :
    literalValue? (String.ofList d.text) = some x := by
  obtain ⟨fraction, -, hscan⟩ := scan_text d
  have hdigits : ∀ n, (⟨Nat.toDigits 10 n, fraction, none⟩ : Numeral).hasDigits = true := by
    simp [Numeral.hasDigits, Nat.toDigits_ne_nil]
  have hread := Numeral.read?_eq_some_iff.mpr ⟨_, hscan, hdigits _, rfl⟩
  rw [readsBack, hread] at h
  rw [literalValue?_of_scan (Numeral.strip?_eq_none hscan) hscan (hdigits _)]
  exact of_decide_eq_true h

/-- The text of a finite value without a sign reads back as the value. -/
theorem literalValue?_magnitudeText (hsign : isNegative x = false) (hfinite : x.isFinite = true) :
    literalValue? (String.ofList (magnitudeText x)) = some x := by
  unfold magnitudeText
  split
  · next hzero =>
    have hbits : x.toBits.toNat = 0 := by
      unfold significand at hzero
      split at hzero
      · next hexponent => rw [toBits_eq hsign, hexponent, hzero, Nat.zero_mul]
      · simp at hzero
    have hx : x = Float.ofBits 0 := by
      rw [← Float.ofBits_toBits x, ← UInt64.ofNat_toNat (x := x.toBits), hbits]
      rfl
    rw [hx]
    rfl
  · next hne =>
    exact literalValue?_text (readsBack_shortest hsign hfinite
      (Nat.mul_pos (Nat.pos_of_ne_zero hne) (Nat.two_pow_pos _)))

end

/-! ### Signs -/

section
open Float.Model Float.Model.UnpackedFloat

variable {x : Float}

/-- A magnitude and the sign bit make up what the bits stand for. -/
theorem unpack_eq_signed_abs (b : BitVec Format.binary64.numBits) :
    UnpackedFloat.unpack .binary64 b =
      if unpackSign b = 0#1 then (UnpackedFloat.unpack .binary64 b).abs
      else (UnpackedFloat.unpack .binary64 b).abs.neg := by
  by_cases hsign : unpackSign b = 0#1 <;>
    simp only [UnpackedFloat.unpack, hsign, Sign.ofBitVec, if_true, if_false] <;> repeat' split
  all_goals rfl

/-- A value without a sign is its own magnitude. -/
theorem abs_eq_self (hsign : isNegative x = false) : x.abs = x := by
  have hunpack := unpack_eq_signed_abs x.toModel.toBits.toBitVec
  rw [unpackSign_eq, hsign, if_neg Bool.false_ne_true, if_pos rfl] at hunpack
  calc x.abs = Float.ofModel (pack x.toModel.unpack.abs) := rfl
    _ = Float.ofModel (pack x.toModel.unpack) := by rw [Float.Model.unpack, ← hunpack]
    _ = x := Float.ofBits_toBits x

/-- The text of a finite value without a sign. -/
theorem numberText_of_unsigned {name : List Char}
    (hsign : isNegative x = false) (hfinite : x.isFinite = true) :
    numberText name x = magnitudeText x := by
  simp only [numberText, isFinite_iff.mp hfinite, hsign, abs_eq_self hsign, Bool.false_eq_true,
    if_false, List.nil_append]

end

end FormulaField
