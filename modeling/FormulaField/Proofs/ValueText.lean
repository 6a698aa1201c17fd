import FormulaField.Formula.Basic
import FormulaField.Proofs.Readback
import FormulaField.Proofs.TypedTokens

/-!
A value survives being written into an expression. Its sign is written apart and read as an operator,
so the digits are those of the magnitude, and negating the magnitude gives the value back to the last
bit; the names of infinity and NaN are read as numbers. Every value is therefore the value of its own
text, and a formula that is a single tag has the value of the tag.
-/

namespace FormulaField

/-! ### Signs and magnitudes -/

section
open Float.Model Float.Model.UnpackedFloat

variable {x : Float}

theorem eq_notANumber (h : x.isNaN = true) : x = notANumber := by
  rw [Float.isNaN_eq_decide_eq_nan, decide_eq_true_iff] at h
  rw [h]
  rfl

theorem fits_abs {u : UnpackedFloat} (h : Canonical u ∧ Bounded u) :
    Canonical u.abs ∧ Bounded u.abs := by
  cases u with
  | notANumber | infinity s | zero s => exact ⟨trivial, trivial⟩
  | finite s m e hm => exact h

/-- Taking the magnitude drops the sign, and nothing is lost in packing. -/
theorem unpack_abs (x : Float) : x.abs.toModel.unpack = x.toModel.unpack.abs := by
  obtain ⟨hcanonical, hbounded⟩ := fits_abs (canonical_unpack x.toModel.toBits.toBitVec)
  exact unpack_pack_of_bounded hcanonical hbounded

theorem isFinite_abs (x : Float) : x.abs.isFinite = x.isFinite := by
  change x.abs.toModel.unpack.isFinite = x.toModel.unpack.isFinite
  rw [unpack_abs]
  cases x.toModel.unpack <;> rfl

theorem unpackSign_pack_abs (u : UnpackedFloat) :
    unpackSign (UnpackedFloat.pack .binary64 u.abs) = 0#1 := by
  cases u with
  | notANumber => rfl
  | infinity s | zero s => exact unpackSign_packComponents ..
  | finite s m e hm =>
    simp only [UnpackedFloat.abs, UnpackedFloat.pack]
    split
    · exact unpackSign_packComponents ..
    · split <;> exact unpackSign_packComponents ..

theorem isNegative_abs (x : Float) : isNegative x.abs = false := by
  have hsign := unpackSign_eq x.abs
  have habs : @unpackSign .binary64 x.abs.toModel.toBits.toBitVec = 0#1 := unpackSign_pack_abs _
  rw [habs] at hsign
  cases h : isNegative x.abs with
  | true => simp [h] at hsign
  | false => rfl

/-- A value with a sign is its magnitude with a minus sign. -/
theorem neg_abs (hsign : isNegative x = true) : -x.abs = x := by
  have hunpack := unpack_eq_signed_abs x.toModel.toBits.toBitVec
  rw [unpackSign_eq, hsign, if_pos rfl, if_neg (by decide)] at hunpack
  calc -x.abs = Float.ofModel (pack x.abs.toModel.unpack.neg) := rfl
    _ = Float.ofModel (pack x.toModel.unpack) := by rw [unpack_abs, Float.Model.unpack, ← hunpack]
    _ = x := Float.ofBits_toBits x

theorem abs_of_isInf (h : x.isInf = true) : x.abs = infinity := by
  change x.toModel.unpack.isInf = true at h
  cases hx : x.toModel.unpack with
  | infinity s =>
    have hpack : x.abs = Float.ofModel (pack x.toModel.unpack.abs) := rfl
    rw [hpack, hx]
    rfl
  | notANumber | zero s | finite s m e hm =>
    rw [hx] at h
    cases h

end

/-! ### Texts of values -/

/-- The digits of a magnitude, or its name, are a number with this value. -/
theorem exists_magnitudeText {x : Float} (hnan : x.isNaN = false) : ∃ u, NumberForm u ∧
    literalValue? (String.ofList u) = some x.abs ∧
      valueText x = if isNegative x then '-' :: u else u := by
  refine ⟨if x.isInf then infinityWord else magnitudeText x.abs, ?_, ?_, ?_⟩
  · split
    · exact .infinity rfl
    · exact numberForm_magnitudeText _
  · cases hinf : x.isInf with
    | true =>
      rw [abs_of_isInf hinf, if_pos rfl]
      rfl
    | false =>
      have hfinite : x.abs.isFinite = true := by rw [isFinite_abs, isFinite_iff.mpr ⟨hnan, hinf⟩]
      rw [if_neg Bool.false_ne_true]
      exact literalValue?_magnitudeText (isNegative_abs x) hfinite
  · simp only [valueText, numberText, hnan, Bool.false_eq_true, if_false]
    cases isNegative x <;> rfl

theorem calculate_valueText (x : Float) : calculate (String.ofList (valueText x)) = .ok x := by
  have hnone : ∀ d ∈ ([] : List Char), Text.isBlank d = true := by simp
  cases hnan : x.isNaN with
  | true =>
    rw [eq_notANumber hnan]
    exact calculate_of_numberForm (u := nanWord) (.notANumber rfl) rfl rfl hnone hnone
  | false =>
    obtain ⟨u, hform, hread, htext⟩ := exists_magnitudeText hnan
    rw [htext]
    cases hsign : isNegative x with
    | true =>
      have hminus : calculate (String.ofList ('-' :: u)) = .ok (Sign.minus.apply x.abs) :=
        calculate_of_sign_numberForm hform hread (by simp; rfl) hnone hnone
      rw [if_pos rfl, hminus, Sign.apply, neg_abs hsign]
    | false =>
      have hplain : calculate (String.ofList u) = .ok x.abs :=
        calculate_of_numberForm hform hread (by simp) hnone hnone
      rw [if_neg Bool.false_ne_true, hplain, abs_eq_self hsign]

/-- The text of a value is an expression with this value, and a formula that is a single tag has the
value of the tag. -/
theorem written_value_kept :
    (∀ x : Float, calculate (String.ofList (valueText x)) = .ok x) ∧
      ∀ t : Tag, (Formula.mk [.tag t]).evaluate = .ok t.value := by
  refine ⟨calculate_valueText, fun t => ?_⟩
  have hexpression : (Formula.mk [.tag t]).expression = String.ofList (valueText t.value) := by
    simp [Formula.expression, Piece.text]
  rw [Formula.evaluate, hexpression, calculate_valueText]

end FormulaField
