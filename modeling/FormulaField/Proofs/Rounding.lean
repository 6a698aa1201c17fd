import Mathlib

/-!
Rounding of natural numbers to 53 binary digits, to the nearest such number and to the even one of two.
Rounding keeps the order, and it leaves alone what has few enough digits. The floating-point numbers of
the core library, whose mantissas are shifted digit by digit with two bits of memory for what was
shifted out, are rounded in this way.
-/

namespace FormulaField

/-! ### Natural numbers -/

/-- `n / 2 ^ k`, rounded to the nearest number, and to the even one of two. -/
def halfEven (n k : Nat) : Nat :=
  if 2 * (n % 2 ^ k) < 2 ^ k then n / 2 ^ k
  else if 2 * (n % 2 ^ k) = 2 ^ k then n / 2 ^ k + n / 2 ^ k % 2
  else n / 2 ^ k + 1

/-- The number of binary digits of `n` beyond 53. -/
def excess (n : Nat) : Nat := n.log2 - 52

/-- `n`, rounded to 53 binary digits. -/
def round53 (n : Nat) : Nat := halfEven n (excess n) * 2 ^ excess n

section
variable {m n j k : Nat}

theorem halfEven_bounds (n k : Nat) : n / 2 ^ k ≤ halfEven n k ∧ halfEven n k ≤ n / 2 ^ k + 1 := by
  unfold halfEven
  split
  · omega
  · split <;> omega

theorem halfEven_mono (h : m ≤ n) (k : Nat) : halfEven m k ≤ halfEven n k := by
  have hquotient : m / 2 ^ k ≤ n / 2 ^ k := Nat.div_le_div_right h
  rcases Nat.lt_or_eq_of_le hquotient with hlt | heq
  · calc halfEven m k ≤ m / 2 ^ k + 1 := (halfEven_bounds m k).2
      _ ≤ n / 2 ^ k := hlt
      _ ≤ halfEven n k := (halfEven_bounds n k).1
  · have hremainder : m % 2 ^ k ≤ n % 2 ^ k := by
      have hm := Nat.div_add_mod m (2 ^ k)
      have hn := Nat.div_add_mod n (2 ^ k)
      rw [heq] at hm
      omega
    unfold halfEven
    rw [heq]
    split <;> split <;> (try split) <;> (try split) <;> omega

theorem halfEven_scale (n k j : Nat) : halfEven (n * 2 ^ j) (k + j) = halfEven n k := by
  have hpos : 0 < 2 ^ j := Nat.two_pow_pos j
  have hlt : 2 * (n % 2 ^ k * 2 ^ j) < 2 ^ k * 2 ^ j ↔ 2 * (n % 2 ^ k) < 2 ^ k := by
    rw [← Nat.mul_assoc, Nat.mul_lt_mul_right hpos]
  have heq : 2 * (n % 2 ^ k * 2 ^ j) = 2 ^ k * 2 ^ j ↔ 2 * (n % 2 ^ k) = 2 ^ k := by
    rw [← Nat.mul_assoc, Nat.mul_left_inj (Nat.ne_of_gt hpos)]
  simp only [halfEven, Nat.pow_add, Nat.mul_mod_mul_right, Nat.mul_div_mul_right _ _ hpos, hlt, heq]

theorem halfEven_zero (n : Nat) : halfEven n 0 = n := by
  simp [halfEven, Nat.mod_one]

theorem halfEven_mul (n k : Nat) : halfEven (n * 2 ^ k) k = n := by
  have h := halfEven_scale n 0 k
  rwa [Nat.zero_add, halfEven_zero] at h

/-- The rounded quotient has 53 digits, or it is the next power of two. -/
theorem halfEven_le (h : n < 2 ^ 53 * 2 ^ k) : halfEven n k ≤ 2 ^ 53 := by
  calc halfEven n k ≤ halfEven (2 ^ 53 * 2 ^ k) k := halfEven_mono (Nat.le_of_lt h) k
    _ = 2 ^ 53 := halfEven_mul _ k

theorem le_halfEven (h : 2 ^ 52 * 2 ^ k ≤ n) : 2 ^ 52 ≤ halfEven n k := by
  calc 2 ^ 52 = halfEven (2 ^ 52 * 2 ^ k) k := (halfEven_mul _ k).symm
    _ ≤ halfEven n k := halfEven_mono h k

theorem log2_mul_two_pow (h : n ≠ 0) (k : Nat) : (n * 2 ^ k).log2 = n.log2 + k := by
  have hpos : 0 < 2 ^ k := Nat.two_pow_pos k
  rw [Nat.log2_eq_iff (Nat.mul_ne_zero h (Nat.ne_of_gt hpos)), Nat.pow_add, Nat.add_right_comm,
    Nat.pow_add _ _ k]
  exact ⟨Nat.mul_le_mul_right _ (Nat.log2_self_le h),
    Nat.mul_lt_mul_of_pos_right Nat.lt_log2_self hpos⟩

theorem lt_of_excess (n : Nat) : n < 2 ^ 53 * 2 ^ excess n := by
  rw [← Nat.pow_add]
  exact Nat.lt_of_lt_of_le Nat.lt_log2_self (Nat.pow_le_pow_right (by decide) (by unfold excess; omega))

theorem le_of_excess (h : 0 < excess n) : 2 ^ 52 * 2 ^ excess n ≤ n := by
  have hlog : 52 + excess n = n.log2 := by
    unfold excess at h ⊢
    omega
  have hne : n ≠ 0 := by
    rintro rfl
    exact absurd h (by decide)
  rw [← Nat.pow_add, hlog]
  exact Nat.log2_self_le hne

theorem excess_mono (h : m ≤ n) : excess m ≤ excess n := by
  unfold excess
  rw [Nat.log2_eq_log_two, Nat.log2_eq_log_two]
  exact Nat.sub_le_sub_right (Nat.log_mono_right h) 52

theorem round53_mono (h : m ≤ n) : round53 m ≤ round53 n := by
  -- With more digits to drop from `n`, a power of two lies between the rounded numbers.
  rcases Nat.lt_or_eq_of_le (excess_mono h) with hlt | heq
  · calc round53 m ≤ 2 ^ 53 * 2 ^ excess m := Nat.mul_le_mul_right _ (halfEven_le (lt_of_excess m))
      _ = 2 ^ 52 * 2 ^ (excess m + 1) := by rw [Nat.pow_succ 2 (excess m)]; omega
      _ ≤ 2 ^ 52 * 2 ^ excess n := Nat.mul_le_mul_left _ (Nat.pow_le_pow_right (by decide) hlt)
      _ ≤ round53 n := Nat.mul_le_mul_right _ (le_halfEven (le_of_excess (by omega)))
  · unfold round53
    rw [heq]
    exact Nat.mul_le_mul_right _ (halfEven_mono h _)

theorem round53_of_dvd (h : 2 ^ excess n ∣ n) : round53 n = n := by
  obtain ⟨q, hq⟩ := h
  have hhalf : halfEven n (excess n) = q := by
    have h := halfEven_mul q (excess n)
    rwa [Nat.mul_comm, ← hq] at h
  rw [round53, hhalf, Nat.mul_comm, ← hq]

/-- A number of 53 digits, and zeros after them, is not changed. -/
theorem round53_mul (h : m ≤ 2 ^ 53) (j : Nat) : round53 (m * 2 ^ j) = m * 2 ^ j := by
  refine round53_of_dvd ?_
  rcases Nat.eq_zero_or_pos (excess (m * 2 ^ j)) with hzero | hpos
  · rw [hzero]
    exact Nat.one_dvd _
  · rcases Nat.lt_or_eq_of_le h with hlt | rfl
    · have hle : excess (m * 2 ^ j) ≤ j := by
        have hbound : 2 ^ 52 * 2 ^ excess (m * 2 ^ j) < 2 ^ 53 * 2 ^ j :=
          Nat.lt_of_le_of_lt (le_of_excess hpos) (Nat.mul_lt_mul_of_pos_right hlt (Nat.two_pow_pos j))
        rw [← Nat.pow_add, ← Nat.pow_add, Nat.pow_lt_pow_iff_right (by decide)] at hbound
        omega
      exact Nat.dvd_mul_left_of_dvd (Nat.pow_dvd_pow 2 hle) m
    · rw [← Nat.pow_add, excess, Nat.log2_two_pow]
      exact Nat.pow_dvd_pow 2 (by omega)

theorem round53_of_le (h : m ≤ 2 ^ 53) : round53 m = m := by
  simpa using round53_mul h 0

theorem round53_two_pow (j : Nat) : round53 (2 ^ j) = 2 ^ j := by
  simpa using round53_mul (m := 1) (by decide) j

end

/-! ### Mantissas -/

section
open Float.Model Float.Model.UnpackedFloat

/-- What has been shifted out of a mantissa: the last digit, and whether there was any other before. -/
theorem shiftRight_exact (m k : Nat) : ExtendedMantissa.ofMantissaAndAccuracy m .exact >>> (k + 1) =
    ⟨m / 2 ^ (k + 1), m / 2 ^ k % 2 != 0, m % 2 ^ k != 0⟩ := by
  change Nat.repeat ExtendedMantissa.shiftRightOne (k + 1) ⟨m, false, false⟩ = _
  induction k with
  | zero => simp [Nat.repeat, ExtendedMantissa.shiftRightOne, Nat.mod_one]
  | succ k ih =>
    have hsticky : (m / 2 ^ k % 2 != 0 || m % 2 ^ k != 0) = (m % 2 ^ (k + 1) != 0) := by
      rw [Nat.mod_pow_succ, Bool.eq_iff_iff]
      have hpos := Nat.two_pow_pos k
      simp only [Bool.or_eq_true, bne_iff_ne, ne_eq, Nat.add_eq_zero_iff, Nat.mul_eq_zero,
        Nat.ne_of_gt hpos, false_or]
      tauto
    rw [Nat.repeat, ih, ExtendedMantissa.shiftRightOne, hsticky, Nat.div_div_eq_div_mul,
      ← Nat.pow_succ]

theorem roundedMantissa_shiftRight (m k : Nat) :
    (ExtendedMantissa.ofMantissaAndAccuracy m .exact >>> k).roundedMantissa = halfEven m k := by
  cases k with
  | zero => exact (halfEven_zero m).symm
  | succ k =>
    have hpos := Nat.two_pow_pos k
    have hlt := Nat.mod_lt m hpos
    have hpow : 2 ^ (k + 1) = 2 * 2 ^ k := Nat.pow_succ'
    have hmod : m % 2 ^ (k + 1) = m % 2 ^ k + 2 ^ k * (m / 2 ^ k % 2) := Nat.mod_pow_succ
    rw [shiftRight_exact, halfEven, hmod, hpow]
    rcases Nat.mod_two_eq_zero_or_one (m / 2 ^ k) with hbit | hbit <;> rw [hbit]
    · rw [if_pos (by omega)]
      cases m % 2 ^ k != 0 <;> rfl
    · rw [if_neg (by omega)]
      rcases Nat.eq_zero_or_pos (m % 2 ^ k) with hrest | hrest
      · rw [if_pos (by omega), hrest]
        rfl
      · have hsticky : (m % 2 ^ k != 0) = true := bne_iff_ne.mpr (Nat.ne_of_gt hrest)
        rw [if_neg (by omega), hsticky]
        rfl

/-! ### Unpacked numbers -/

/-- The first power of two that is too large for a float, counted in units of `2 ^ (-1074)`. -/
def ceiling : Nat := 2 ^ 2098

/-- An unpacked number, counted in units of `2 ^ (-1074)`. Infinity stands where the numbers would go
on. -/
def unpackedUnits : UnpackedFloat → Int
  | .notANumber | .zero _ => 0
  | .infinity sign => sign.apply (ceiling : Int)
  | .finite sign m e _ => sign.apply ((m * 2 ^ (e + 1074).toNat : Nat) : Int)

/-- The mantissa has 53 digits, or it has fewer and the exponent is the least. -/
def Canonical : UnpackedFloat → Prop
  | .notANumber | .zero _ | .infinity _ => True
  | .finite _ m e _ => m < 2 ^ 53 ∧ -1074 ≤ e ∧ (2 ^ 52 ≤ m ∨ e = -1074)

variable {m : Nat} {e : Int}

theorem targetExponent_eq (m : Nat) (e : Int) :
    Format.binary64.targetExponent (totalExponent m e) = max (m.log2 + e - 52) (-1074) := by
  simp only [Format.targetExponent, totalExponent, Format.mantissaBits, Format.minExponent]
  omega

theorem shiftToTargetExponent_small (hm : m < 2 ^ 53) (he : -1074 ≤ e) :
    shiftToTargetExponent .binary64 m e .exact = (⟨m, false, false⟩, e) := by
  have hlog : m.log2 ≤ 52 := by
    rcases Nat.eq_zero_or_pos m with rfl | hpos
    · decide
    · exact Nat.le_of_lt_succ ((Nat.log2_lt (Nat.ne_of_gt hpos)).mpr hm)
  have hshift : (max ((m.log2 : Int) + e - 52) (-1074) - e).toNat = 0 := by omega
  rw [shiftToTargetExponent, targetExponent_eq, shiftToExponent, hshift]
  simp [HShiftRight.hShiftRight, Nat.repeat, ExtendedMantissa.ofMantissaAndAccuracy]

theorem shiftToTargetExponent_carry (he : -1074 ≤ e) :
    shiftToTargetExponent .binary64 (2 ^ 53) e .exact = (⟨2 ^ 52, false, false⟩, e + 1) := by
  have hshift : (max (((2 ^ 53 : Nat).log2 : Int) + e - 52) (-1074) - e).toNat = 1 := by
    rw [Nat.log2_two_pow]
    omega
  rw [shiftToTargetExponent, targetExponent_eq, shiftToExponent, hshift]
  rfl

/-- The number of digits that rounding shifts out of a mantissa. -/
def outShift (m : Nat) (e : Int) : Nat := (max (m.log2 + e - 52) (-1074) - e).toNat

theorem outShift_bounds (hm : m ≠ 0) (hlong : 52 ≤ m.log2 ∨ e ≤ -1074) :
    -1074 ≤ e + outShift m e ∧ m < 2 ^ 53 * 2 ^ outShift m e ∧
      (2 ^ 52 * 2 ^ outShift m e ≤ m ∨ e + outShift m e = -1074) := by
  have hshift : -1074 ≤ e + outShift m e ∧ m.log2 + 1 ≤ 53 + outShift m e ∧
      (52 + outShift m e = m.log2 ∨ e + outShift m e = -1074) := by
    unfold outShift
    omega
  obtain ⟨hleast, hlog, hfull⟩ := hshift
  refine ⟨hleast, ?_, hfull.imp_left fun hlog => ?_⟩
  · rw [← Nat.pow_add]
    exact Nat.lt_of_lt_of_le Nat.lt_log2_self (Nat.pow_le_pow_right (by decide) hlog)
  · rw [← Nat.pow_add, hlog]
    exact Nat.log2_self_le hm

/-- A number with a mantissa that needs no more rounding. -/
def assemble (sign : UnpackedFloat.Sign) (p : ExtendedMantissa × Int) : UnpackedFloat :=
  if h : p.1.mantissa = 0 then .zero sign
  else .finite sign p.1.mantissa p.2 (Nat.pos_of_ne_zero h)

theorem roundWithAccuracy_eq (sign : UnpackedFloat.Sign) (m : Nat) (e : Int) :
    roundWithAccuracy .binary64 sign m e .exact = assemble sign (shiftToTargetExponent .binary64
      (halfEven m (outShift m e)) (e + outShift m e) .exact) := by
  have hfirst : shiftToTargetExponent .binary64 m e .exact =
      (ExtendedMantissa.ofMantissaAndAccuracy m .exact >>> outShift m e, e + outShift m e) := by
    rw [shiftToTargetExponent, targetExponent_eq]
    rfl
  rw [← roundedMantissa_shiftRight]
  change assemble sign (shiftToTargetExponent .binary64
    (shiftToTargetExponent .binary64 m e .exact).1.roundedMantissa
    (shiftToTargetExponent .binary64 m e .exact).2 .exact) = _
  rw [hfirst]

theorem roundWithAccuracy_exact (sign : UnpackedFloat.Sign) (hm : m ≠ 0)
    (hlong : 52 ≤ m.log2 ∨ e ≤ -1074) :
    Canonical (roundWithAccuracy .binary64 sign m e .exact) ∧
    unpackedUnits (roundWithAccuracy .binary64 sign m e .exact) = sign.apply
      ((halfEven m (outShift m e) * 2 ^ (e + outShift m e + 1074).toNat : Nat) : Int) := by
  obtain ⟨hleast, hlt, hfull⟩ := outShift_bounds hm hlong
  rw [roundWithAccuracy_eq]
  have hle := halfEven_le hlt
  have hge := hfull.imp_left le_halfEven
  generalize halfEven m (outShift m e) = r at *
  generalize e + (outShift m e : Int) = e' at *
  rcases Nat.lt_or_eq_of_le hle with hsmall | rfl
  · rw [shiftToTargetExponent_small hsmall hleast]
    by_cases hzero : r = 0
    · rw [assemble, dif_pos hzero, hzero]
      cases sign <;> exact ⟨trivial, by simp [unpackedUnits, UnpackedFloat.Sign.apply]⟩
    · rw [assemble, dif_neg hzero]
      exact ⟨⟨hsmall, hleast, hge⟩, rfl⟩
  · -- The mantissa was rounded up to the next power of two and is shifted once more.
    rw [shiftToTargetExponent_carry hleast, assemble, dif_neg (show ¬2 ^ 52 = 0 by decide)]
    have hpow : 2 ^ 52 * 2 ^ (e' + 1 + 1074).toNat = 2 ^ 53 * 2 ^ (e' + 1074).toNat := by
      have hexp : (e' + 1 + 1074).toNat = (e' + 1074).toNat + 1 := by omega
      rw [hexp, Nat.pow_succ]
      omega
    refine ⟨⟨show 2 ^ 52 < 2 ^ 53 by decide, by omega, Or.inl (Nat.le_refl _)⟩, ?_⟩
    rw [unpackedUnits, hpow]

theorem halfEven_outShift (hm : m ≠ 0) (he : -1074 ≤ e) (hlong : 52 ≤ m.log2 ∨ e ≤ -1074) :
    halfEven m (outShift m e) * 2 ^ (e + outShift m e + 1074).toNat =
      round53 (m * 2 ^ (e + 1074).toNat) := by
  have hexcess : excess (m * 2 ^ (e + 1074).toNat) = outShift m e + (e + 1074).toNat := by
    rw [excess, log2_mul_two_pow hm, outShift]
    omega
  have hexponent : (e + outShift m e + 1074).toNat = outShift m e + (e + 1074).toNat := by omega
  rw [round53, hexcess, halfEven_scale, hexponent]

theorem round_exact (sign : UnpackedFloat.Sign) (hm : m ≠ 0) (he : -1074 ≤ e) :
    Canonical (round .binary64 sign m e) ∧ unpackedUnits (round .binary64 sign m e) =
      sign.apply ((round53 (m * 2 ^ (e + 1074).toNat) : Nat) : Int) := by
  let a := (e - max (m.log2 + e - 52) (-1074)).toNat
  have hround : round .binary64 sign m e =
      roundWithAccuracy .binary64 sign (m * 2 ^ a) (e - a) .exact := by
    rw [UnpackedFloat.round, targetExponent_eq, decreaseExponent, Nat.shiftLeft_eq]
  have hm' : m * 2 ^ a ≠ 0 := Nat.mul_ne_zero hm (Nat.ne_of_gt (Nat.two_pow_pos a))
  have hshift : -1074 ≤ e - a ∧ (52 ≤ m.log2 + a ∨ e - a ≤ -1074) ∧
      a + (e - a + 1074).toNat = (e + 1074).toNat := by omega
  obtain ⟨hleast, hlong, hsum⟩ := hshift
  rw [← log2_mul_two_pow hm] at hlong
  obtain ⟨hcanonical, hunits⟩ := roundWithAccuracy_exact sign hm' hlong
  rw [halfEven_outShift hm' hleast hlong, Nat.mul_assoc, ← Nat.pow_add, hsum] at hunits
  rw [hround]
  exact ⟨hcanonical, hunits⟩

end

end FormulaField
