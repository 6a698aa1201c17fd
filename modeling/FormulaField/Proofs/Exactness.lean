import Mathlib.Tactic.Ring
import FormulaField.Number.Shortest
import FormulaField.Proofs.FloatOrder

/-!
Rounding leaves alone what is a binary64 value already. A finite value that is not negative is counted
in units of the least positive value; its bits lay out this count, and the quotient that the count
denotes is rounded to exactly these bits.
-/

namespace FormulaField

open Float.Model

/-! ### The bits of a value -/

/-- The magnitude of a finite value, counted in units of `2 ^ (-1074)`. -/
def unitCount (x : Float) : Nat := significand x * 2 ^ (scale x + 1074).toNat

theorem excess_of_lt {n : Nat} (h : n < 2 ^ 53) : excess n = 0 := by
  rcases Nat.eq_zero_or_pos n with rfl | hpos
  · rfl
  · have hlog : n.log2 < 53 := (Nat.log2_lt (Nat.ne_of_gt hpos)).mpr h
    unfold excess
    omega

theorem excess_mul {m : Nat} (hlow : 2 ^ 52 ≤ m) (hhigh : m < 2 ^ 53) (k : Nat) :
    excess (m * 2 ^ k) = k := by
  have hne : m ≠ 0 := by omega
  have hlog : m.log2 = 52 := (Nat.log2_eq_iff hne).mpr ⟨hlow, hhigh⟩
  rw [excess, log2_mul_two_pow hne, hlog]
  omega

section
variable {x : Float}

theorem toBits_eq (hsign : isNegative x = false) :
    x.toBits.toNat = exponentBits x * 2 ^ 52 + fractionBits x := by
  have hlt : x.toBits.toNat < 2 ^ 64 := x.toBits.toNat_lt
  have htop : x.toBits.toNat / 2 ^ 63 ≠ 1 := by simpa [isNegative] using hsign
  simp only [exponentBits, fractionBits, Nat.pow_eq]
  omega

/-- The sign bit tells whether a value is negative. -/
theorem unpackSign_eq (x : Float) : @UnpackedFloat.unpackSign .binary64 x.toModel.toBits.toBitVec =
    if isNegative x then 1#1 else 0#1 := by
  refine BitVec.eq_of_toNat_eq ?_
  change x.toBits.toNat >>> 63 % 2 ^ 1 = _
  have hlt : x.toBits.toNat < 2 ^ 64 := x.toBits.toNat_lt
  rw [Nat.shiftRight_eq_div_pow]
  cases hsign : isNegative x with
  | true =>
    have htop : x.toBits.toNat / 2 ^ 63 = 1 := by simpa [isNegative] using hsign
    rw [htop]
    rfl
  | false =>
    have htop : x.toBits.toNat / 2 ^ 63 ≠ 1 := by simpa [isNegative] using hsign
    change x.toBits.toNat / 2 ^ 63 % 2 ^ 1 = 0
    omega

theorem exponentBits_eq (x : Float) :
    exponentBits x = (@UnpackedFloat.unpackExponent .binary64 x.toModel.toBits.toBitVec).toNat := by
  change _ = x.toBits.toNat >>> 52 % 2 ^ 11
  rw [Nat.shiftRight_eq_div_pow]
  rfl

theorem fractionBits_eq (x : Float) :
    fractionBits x = (@UnpackedFloat.unpackMantissa .binary64 x.toModel.toBits.toBitVec).toNat :=
  rfl

theorem isFinite_iff : x.isFinite = true ↔ x.isNaN = false ∧ x.isInf = false := by
  change x.toModel.unpack.isFinite = true ↔
    x.toModel.unpack.isNaN = false ∧ x.toModel.unpack.isInf = false
  cases x.toModel.unpack <;>
    simp [UnpackedFloat.isFinite, UnpackedFloat.isNaN, UnpackedFloat.isInf]

/-- A finite value has a smaller exponent than infinity. -/
theorem exponentBits_lt (h : x.isFinite = true) : exponentBits x < 2047 := by
  have hle : exponentBits x < 2 ^ 11 := Nat.mod_lt _ (by decide)
  refine Nat.lt_of_le_of_ne (by omega) fun hlast => ?_
  let bits : BitVec Format.binary64.numBits := x.toModel.toBits.toBitVec
  have hexponent : UnpackedFloat.unpackExponent bits = -1#11 :=
    BitVec.eq_of_toNat_eq ((exponentBits_eq x).symm.trans hlast)
  change x.toModel.unpack.isFinite = true at h
  by_cases hmantissa : UnpackedFloat.unpackMantissa bits = 0#52
  · have hunpack : x.toModel.unpack = .infinity _ := (if_pos hexponent).trans (if_pos hmantissa)
    rw [hunpack] at h
    cases h
  · have hunpack : x.toModel.unpack = .notANumber := (if_pos hexponent).trans (if_neg hmantissa)
    rw [hunpack] at h
    cases h

/-- The bits of a value lay out its count of units: how many digits it has in excess, and what is
left of it without them. -/
theorem exists_units (hsign : isNegative x = false) :
    ∃ m, unitCount x = m * 2 ^ excess (unitCount x) ∧
      x.toBits.toNat = excess (unitCount x) * 2 ^ 52 + m := by
  have hfraction : fractionBits x < 2 ^ 52 := Nat.mod_lt _ (by decide)
  rw [toBits_eq hsign]
  by_cases hexponent : exponentBits x = 0
  · have hcount : unitCount x = fractionBits x := by
      simp [unitCount, significand, scale, hexponent]
    have hexcess : excess (fractionBits x) = 0 := excess_of_lt (by omega)
    refine ⟨fractionBits x, ?_, ?_⟩
    · rw [hcount, hexcess, Nat.pow_zero, Nat.mul_one]
    · rw [hcount, hexcess, hexponent]
  · have hcount : unitCount x = (2 ^ 52 + fractionBits x) * 2 ^ (exponentBits x - 1) := by
      have hshift : ((exponentBits x : Int) - 1075 + 1074).toNat = exponentBits x - 1 := by omega
      simp only [unitCount, significand, scale, if_neg hexponent, hshift, Nat.pow_eq]
    have hexcess : excess (unitCount x) = exponentBits x - 1 := by
      rw [hcount]
      exact excess_mul (by omega) (by omega) _
    refine ⟨2 ^ 52 + fractionBits x, ?_, ?_⟩
    · rw [hexcess, hcount]
    · rw [hexcess]
      omega

end

/-! ### The nearest value -/

section
variable {num den u : Nat}

theorem num_pos (hden : 0 < den) (hu : 0 < u) (h : num * unitsOfOne = den * u) : 0 < num := by
  have hpos : 0 < num * unitsOfOne := by
    rw [h]
    exact Nat.mul_pos hden hu
  exact Nat.pos_of_mul_pos_right hpos

/-- The binary orders of numerator and denominator tell that of the count of units up to one. -/
theorem log2_bounds (hden : 0 < den) (hu : 0 < u) (h : num * unitsOfOne = den * u) :
    den.log2 + u.log2 ≤ num.log2 + 1074 ∧ num.log2 + 1074 ≤ den.log2 + u.log2 + 1 := by
  have hnum := num_pos hden hu h
  obtain ⟨k, hk⟩ : ∃ k, k = 1074 := ⟨1074, rfl⟩
  rw [← two_pow_eq_unitsOfOne hk] at h
  have hlow : num.log2 + k < den.log2 + 1 + (u.log2 + 1) := by
    rw [← Nat.pow_lt_pow_iff_right (a := 2) (by decide), Nat.pow_add, Nat.pow_add]
    calc 2 ^ num.log2 * 2 ^ k ≤ num * 2 ^ k :=
          Nat.mul_le_mul_right _ (Nat.log2_self_le (Nat.ne_of_gt hnum))
      _ = den * u := h
      _ < 2 ^ (den.log2 + 1) * 2 ^ (u.log2 + 1) :=
          Nat.mul_lt_mul'' Nat.lt_log2_self Nat.lt_log2_self
  have hhigh : den.log2 + u.log2 < num.log2 + 1 + k := by
    rw [← Nat.pow_lt_pow_iff_right (a := 2) (by decide), Nat.pow_add, Nat.pow_add]
    calc 2 ^ den.log2 * 2 ^ u.log2 ≤ den * u :=
          Nat.mul_le_mul (Nat.log2_self_le (Nat.ne_of_gt hden)) (Nat.log2_self_le (Nat.ne_of_gt hu))
      _ = num * 2 ^ k := h.symm
      _ < 2 ^ (num.log2 + 1) * 2 ^ k :=
          Nat.mul_lt_mul_of_pos_right Nat.lt_log2_self (Nat.two_pow_pos _)
  omega

/-- The binary order of a quotient is that of its count of units. -/
theorem floorLog2_eq (hden : 0 < den) (hu : 0 < u) (h : num * unitsOfOne = den * u) :
    floorLog2 num den = (u.log2 : Int) - 1074 := by
  obtain ⟨hhigh, hlow⟩ := log2_bounds hden hu h
  obtain ⟨k, hk⟩ : ∃ k, k = 1074 := ⟨1074, rfl⟩
  rw [← two_pow_eq_unitsOfOne hk] at h
  have hu_low : 2 ^ u.log2 ≤ u := Nat.log2_self_le (Nat.ne_of_gt hu)
  have hu_high : u < 2 ^ (u.log2 + 1) := Nat.lt_log2_self
  have hcompare : ∀ p q, num * 2 ^ p < den * 2 ^ q ↔ u * 2 ^ p < 2 ^ (q + k) := by
    intro p q
    rw [← Nat.mul_lt_mul_right (Nat.two_pow_pos k), ← Nat.mul_lt_mul_left hden (b := u * 2 ^ p),
      Nat.pow_add]
    have hleft : num * 2 ^ p * 2 ^ k = den * (u * 2 ^ p) := by
      rw [Nat.mul_right_comm, h, Nat.mul_assoc]
    rw [hleft, Nat.mul_assoc]
  -- the guess is the difference of the orders, and it is one too high or right
  unfold floorLog2
  simp only [Nat.pow_eq, hcompare]
  generalize hp : (-((num.log2 : Int) - den.log2)).toNat = p
  generalize hq : ((num.log2 : Int) - den.log2).toNat = q
  by_cases hguess : q + k = u.log2 + p
  · have hle : 2 ^ (q + k) ≤ u * 2 ^ p := by
      rw [hguess, Nat.pow_add]
      exact Nat.mul_le_mul_right _ hu_low
    rw [if_neg (Nat.not_lt_of_le hle)]
    omega
  · have hguess : q + k = u.log2 + 1 + p := by omega
    have hlt : u * 2 ^ p < 2 ^ (q + k) := by
      rw [hguess, Nat.pow_add]
      exact Nat.mul_lt_mul_of_pos_right hu_high (Nat.two_pow_pos _)
    rw [if_pos hlt]
    omega

theorem roundHalfEven_mul (m : Nat) (hden : 0 < den) : roundHalfEven (m * den) den = m := by
  simp [roundHalfEven, hden]

/-- A quotient in steps of another width. -/
theorem quotient_in_steps {m e p q : Nat} (h : num * unitsOfOne = den * (m * 2 ^ e))
    (hsum : e + p = q + 1074) : num * 2 ^ p = m * (den * 2 ^ q) := by
  refine Nat.eq_of_mul_eq_mul_right unitsOfOne_pos ?_
  have hshift : 2 ^ (e + p) = 2 ^ q * unitsOfOne := by
    obtain ⟨k, hk⟩ : ∃ k, k = 1074 := ⟨1074, rfl⟩
    rw [hsum, ← hk, Nat.pow_add, two_pow_eq_unitsOfOne hk]
  calc num * 2 ^ p * unitsOfOne = den * (m * 2 ^ e) * 2 ^ p := by rw [Nat.mul_right_comm, h]
    _ = m * den * 2 ^ (e + p) := by rw [Nat.pow_add]; ring
    _ = m * (den * 2 ^ q) * unitsOfOne := by rw [hshift]; ring

/-- A quotient that is a value is rounded to that value. -/
theorem nearest_eq {x : Float} (hsign : isNegative x = false) (hfinite : x.isFinite = true)
    (hden : 0 < den) (hpos : 0 < unitCount x) (h : num * unitsOfOne = den * unitCount x) :
    nearest num den = x := by
  have hnum : num ≠ 0 := Nat.ne_of_gt (num_pos hden hpos h)
  obtain ⟨m, hm, hbits⟩ := exists_units hsign
  have hunit : unitExponent num den = (excess (unitCount x) : Int) - 1074 := by
    rw [unitExponent, floorLog2_eq hden hpos h, excess]
    omega
  have hlimit : x.toBits.toNat < 0x7FF0000000000000 := by
    have hlast := exponentBits_lt hfinite
    have hfraction : fractionBits x < 2 ^ 52 := Nat.mod_lt _ (by decide)
    rw [toBits_eq hsign]
    omega
  unfold nearest
  rw [if_neg hnum]
  simp only [hunit, Nat.pow_eq]
  generalize hp : (-((excess (unitCount x) : Int) - 1074)).toNat = p
  generalize hq : ((excess (unitCount x) : Int) - 1074).toNat = q
  have hsum : excess (unitCount x) + p = q + 1074 := by omega
  have hsteps : num * 2 ^ p = m * (den * 2 ^ q) := quotient_in_steps (by rw [h, ← hm]) hsum
  have hexcess : ((excess (unitCount x) : Int) - 1074 + 1074).toNat = excess (unitCount x) := by
    omega
  rw [hsteps, roundHalfEven_mul m (Nat.mul_pos hden (Nat.two_pow_pos q)), hexcess, ← hbits,
    Nat.min_eq_left (Nat.le_of_lt hlimit)]
  change Float.ofBits (UInt64.ofNat x.toBits.toNat) = x
  rw [UInt64.ofNat_toNat, Float.ofBits_toBits]

end

end FormulaField
