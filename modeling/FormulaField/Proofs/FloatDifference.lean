import FormulaField.Proofs.FloatOrder
import FormulaField.Proofs.NaN

/-!
Sums and differences of floating-point numbers. The sum of two floats is their exact sum, rounded once,
and so is their difference; a natural number that is read as a float is rounded once as well, and a
product with a power of two is exact up to the largest float. So differences keep the order of what they
are made from, and a difference that is less than a natural number when rounded is less than it exactly.
-/

namespace FormulaField

open Float.Model Float.Model.UnpackedFloat

/-! ### Rounding with a sign -/

/-- An integer, rounded to 53 binary digits. -/
def roundSigned (z : Int) : Int := z.sign * (round53 z.natAbs : Nat)

section
variable {w z : Int} {u : UnpackedFloat}

theorem roundSigned_natCast (n : Nat) : roundSigned n = (round53 n : Nat) := by
  rcases Nat.eq_zero_or_pos n with rfl | hpos
  · rfl
  · rw [roundSigned, Int.natAbs_natCast, Int.sign_eq_one_of_pos (Int.natCast_pos.mpr hpos), Int.one_mul]

theorem roundSigned_neg (z : Int) : roundSigned (-z) = -roundSigned z := by
  rw [roundSigned, roundSigned, Int.natAbs_neg, Int.sign_neg, Int.neg_mul]

theorem roundSigned_apply (sign : UnpackedFloat.Sign) (n : Nat) :
    roundSigned (sign.apply n) = sign.apply (round53 n : Nat) := by
  cases sign with
  | negative => exact (roundSigned_neg n).trans (congrArg _ (roundSigned_natCast n))
  | positive => exact roundSigned_natCast n

theorem roundSigned_mono (h : w ≤ z) : roundSigned w ≤ roundSigned z := by
  obtain ⟨m, rfl | rfl⟩ := Int.eq_nat_or_neg w <;>
    obtain ⟨n, rfl | rfl⟩ := Int.eq_nat_or_neg z <;>
      simp only [roundSigned_neg, roundSigned_natCast]
  · exact Int.ofNat_le.mpr (round53_mono (Int.ofNat_le.mp h))
  · obtain ⟨rfl, rfl⟩ : m = 0 ∧ n = 0 := by omega
    rfl
  · omega
  · exact Int.neg_le_neg (Int.ofNat_le.mpr (round53_mono (by omega)))

theorem round53_ceiling : round53 ceiling = ceiling := round53_two_pow 2098

theorem ceiling_le_round53 {n : Nat} (h : ceiling ≤ n) : ceiling ≤ round53 n := by
  rw [← round53_ceiling]
  exact round53_mono h

/-- A number that fits in a float is not changed by rounding. -/
theorem roundSigned_of_canonical (hu : Canonical u) :
    roundSigned (unpackedUnits u) = unpackedUnits u := by
  cases u with
  | notANumber | zero sign => exact roundSigned_natCast 0
  | infinity sign =>
    rw [unpackedUnits, roundSigned_apply, round53_ceiling]
  | finite sign m e hm =>
    rw [unpackedUnits, roundSigned_apply, round53_mul (Nat.le_of_lt hu.1)]

end

/-! ### Arithmetic -/

section
variable {x y z : Float} {u v : UnpackedFloat} {n : Nat}

theorem apply_mul (s : UnpackedFloat.Sign) (m k : Nat) :
    s.apply ((m * k : Nat) : Int) = s.apply m * k := by
  cases s <;> simp [UnpackedFloat.Sign.apply]

theorem normalize_exact (z : Int) {e : Int} (he : -1074 ≤ e) :
    Canonical (UnpackedFloat.normalize .binary64 z e .positive) ∧
    unpackedUnits (UnpackedFloat.normalize .binary64 z e .positive) =
      roundSigned (z * 2 ^ (e + 1074).toNat) := by
  have hround : ∀ (sign : UnpackedFloat.Sign) (m : Nat), m ≠ 0 →
      Canonical (UnpackedFloat.round .binary64 sign m e) ∧
      unpackedUnits (UnpackedFloat.round .binary64 sign m e) =
        roundSigned (sign.apply m * 2 ^ (e + 1074).toNat) := by
    intro sign m hm
    obtain ⟨hcanonical, hunits⟩ := round_exact sign hm he
    refine ⟨hcanonical, hunits.trans ?_⟩
    rw [← roundSigned_apply, apply_mul, Nat.cast_pow, Nat.cast_ofNat]
  rcases Int.lt_trichotomy z 0 with hneg | rfl | hpos
  · have hz : UnpackedFloat.Sign.negative.apply ((-z).toNat : Int) = z := by
      simp only [UnpackedFloat.Sign.apply]
      omega
    rw [UnpackedFloat.normalize, compare_lt_iff_lt.mpr hneg]
    simpa only [hz] using hround .negative (-z).toNat (by omega)
  · rw [Int.zero_mul]
    exact ⟨trivial, (roundSigned_natCast 0).symm⟩
  · have hz : UnpackedFloat.Sign.positive.apply (z.toNat : Int) = z := by
      simp only [UnpackedFloat.Sign.apply]
      omega
    rw [UnpackedFloat.normalize, compare_gt_iff_gt.mpr hpos]
    simpa only [hz] using hround .positive z.toNat (by omega)

theorem unpackedUnits_neg (s : UnpackedFloat.Sign) (m : Nat) (e : Int) (hm : 0 < m) :
    unpackedUnits (.finite (-s) m e hm) = -unpackedUnits (.finite s m e hm) := by
  cases s
  · exact (Int.neg_neg _).symm
  · rfl

/-- Digits are appended to a mantissa as its exponent is lowered. -/
theorem units_decreaseExponent (s : UnpackedFloat.Sign) (m : Nat) {e e' : Int} (he : -1074 ≤ e')
    (hle : e' ≤ e) :
    s.apply ((m * 2 ^ (e + 1074).toNat : Nat) : Int) =
      s.apply ((m <<< (e - e').toNat : Nat) : Int) * 2 ^ (e' + 1074).toNat := by
  have hsum : (e + 1074).toNat = (e - e').toNat + (e' + 1074).toNat := by omega
  have hshift : m * 2 ^ (e + 1074).toNat = m <<< (e - e').toNat * 2 ^ (e' + 1074).toNat := by
    rw [Nat.shiftLeft_eq, Nat.mul_assoc, ← Nat.pow_add, hsum]
  rw [hshift, apply_mul, Nat.cast_pow, Nat.cast_ofNat]

/-- The sum of two finite numbers is rounded once. -/
theorem add_exact (hu : Canonical u) (hv : Canonical v) (hfinite : u.isFinite = true)
    (hfinite' : v.isFinite = true) :
    (add .binary64 u v).isNaN = false ∧ Canonical (add .binary64 u v) ∧
      unpackedUnits (add .binary64 u v) = roundSigned (unpackedUnits u + unpackedUnits v) := by
  cases u with
  | notANumber | infinity s => cases hfinite
  | zero s =>
    have hzero : unpackedUnits (.zero s) = 0 := rfl
    rw [hzero, Int.zero_add, roundSigned_of_canonical hv]
    cases v with
    | notANumber | infinity s' => cases hfinite'
    | zero s' => cases s <;> cases s' <;> exact ⟨rfl, trivial, rfl⟩
    | finite s' m' e' hm' => exact ⟨rfl, hv, rfl⟩
  | finite s m e hm =>
    cases v with
    | notANumber | infinity s' => cases hfinite'
    | zero s' =>
      have hzero : unpackedUnits (.zero s') = 0 := rfl
      rw [hzero, Int.add_zero, roundSigned_of_canonical hu]
      exact ⟨rfl, hu, rfl⟩
    | finite s' m' e' hm' =>
      have hleast : -1074 ≤ min e e' := le_min hu.2.1 hv.2.1
      have hunits : unpackedUnits (.finite s m e hm) + unpackedUnits (.finite s' m' e' hm') =
          (s.apply ((m <<< (e - min e e').toNat : Nat) : Int) +
            s'.apply ((m' <<< (e' - min e e').toNat : Nat) : Int)) * 2 ^ (min e e' + 1074).toNat := by
        rw [Int.add_mul, ← units_decreaseExponent s m hleast (min_le_left e e'),
          ← units_decreaseExponent s' m' hleast (min_le_right e e')]
        rfl
      rw [hunits]
      exact ⟨isNaN_normalize .., normalize_exact _ hleast⟩

/-- The difference is the sum with the sign of the right side turned. -/
theorem sub_eq_add_neg (u v : UnpackedFloat) : sub .binary64 u v = add .binary64 u v.neg := by
  cases u with
  | notANumber | infinity s | zero s => cases v <;> rfl
  | finite s m e hm =>
    cases v with
    | notANumber | infinity s' | zero s' => rfl
    | finite s' m' e' hm' =>
      have happly : ∀ z : Int, (-s').apply z = -s'.apply z := fun z => by
        cases s'
        · exact (Int.neg_neg z).symm
        · rfl
      simp only [UnpackedFloat.sub, UnpackedFloat.add, UnpackedFloat.neg, happly, Int.sub_eq_add_neg]

theorem neg_exact (hv : Canonical v) : Canonical v.neg ∧ v.neg.isFinite = v.isFinite ∧
    unpackedUnits v.neg = -unpackedUnits v := by
  cases v with
  | notANumber | zero s => exact ⟨trivial, rfl, rfl⟩
  | infinity s =>
    refine ⟨trivial, rfl, ?_⟩
    cases s
    · exact (Int.neg_neg _).symm
    · rfl
  | finite s m e hm => exact ⟨hv, rfl, unpackedUnits_neg s m e hm⟩

/-- The difference of two finite numbers is rounded once. -/
theorem sub_exact (hu : Canonical u) (hv : Canonical v) (hfinite : u.isFinite = true)
    (hfinite' : v.isFinite = true) :
    (sub .binary64 u v).isNaN = false ∧ Canonical (sub .binary64 u v) ∧
      unpackedUnits (sub .binary64 u v) = roundSigned (unpackedUnits u - unpackedUnits v) := by
  obtain ⟨hcanonical, hfinite'', hunits⟩ := neg_exact hv
  rw [sub_eq_add_neg, Int.sub_eq_add_neg, ← hunits]
  exact add_exact hu hcanonical hfinite (hfinite''.trans hfinite')

theorem isNaN_sub (hx : x.isFinite = true) (hy : y.isFinite = true) : (x - y).isNaN = false :=
  isNaN_unpack_pack (sub_exact (canonical_unpack _).1 (canonical_unpack _).1 hx hy).1

theorem units_sub (hx : x.isFinite = true) (hy : y.isFinite = true) :
    units (x - y) = saturate (roundSigned (units x - units y)) := by
  obtain ⟨-, hcanonical, hunits⟩ := sub_exact (canonical_unpack _).1 (canonical_unpack _).1 hx hy
  exact (units_pack hcanonical).trans (congrArg saturate hunits)

/-- A product with a power of two is not rounded. -/
theorem mul_two_pow_exact (hu : Canonical u) (hfinite : u.isFinite = true) (b : Nat) :
    Canonical (mul .binary64 u (.finite .positive (2 ^ 52) (b - 52) (by decide))) ∧
    unpackedUnits (mul .binary64 u (.finite .positive (2 ^ 52) (b - 52) (by decide))) =
      unpackedUnits u * 2 ^ b := by
  cases u with
  | notANumber | infinity s => cases hfinite
  | zero s => exact ⟨trivial, (Int.zero_mul _).symm⟩
  | finite s m e hm =>
    have hsign : s * .positive = s := by cases s <;> rfl
    have hlog : (m * 2 ^ 52).log2 = m.log2 + 52 := log2_mul_two_pow (Nat.ne_of_gt hm) 52
    have hm' : m * 2 ^ 52 ≠ 0 := Nat.mul_ne_zero (Nat.ne_of_gt hm) (by decide)
    obtain ⟨hlt, hleast, -⟩ := hu
    have hdigits : m.log2 ≤ 52 := Nat.le_of_lt_succ ((Nat.log2_lt (Nat.ne_of_gt hm)).mpr hlt)
    -- The mantissa has fifty-two zeros at its end, and rounding takes off no more than these.
    obtain ⟨k, hk⟩ : ∃ k, outShift (m * 2 ^ 52) (e + (b - 52)) = k := ⟨_, rfl⟩
    have hshift : k ≤ 52 ∧
        52 - k + (e + (b - 52) + k + 1074).toNat = (e + 1074).toNat + b := by
      rw [← hk, outShift, hlog]
      omega
    obtain ⟨hle, hexponent⟩ := hshift
    have hhalf : halfEven (m * 2 ^ 52) k = m * 2 ^ (52 - k) := by
      rw [← halfEven_mul (m * 2 ^ (52 - k)) k, Nat.mul_assoc, ← Nat.pow_add, Nat.sub_add_cancel hle]
    have hmul : mul .binary64 (.finite s m e hm) (.finite .positive (2 ^ 52) (b - 52) (by decide)) =
        roundWithAccuracy .binary64 s (m * 2 ^ 52) (e + (b - 52)) .exact := by
      rw [UnpackedFloat.mul, hsign]
    obtain ⟨hcanonical, hunits⟩ :=
      roundWithAccuracy_exact s hm' (e := e + (b - 52)) (Or.inl (by omega))
    rw [hk, hhalf, Nat.mul_assoc, ← Nat.pow_add, hexponent, Nat.pow_add, ← Nat.mul_assoc, apply_mul,
      Nat.cast_pow, Nat.cast_ofNat] at hunits
    rw [hmul]
    exact ⟨hcanonical, hunits⟩

theorem mul_one_exact (hu : Canonical u) :
    Canonical (mul .binary64 u (.finite .positive (2 ^ 52) (-52) (by decide))) ∧
    unpackedUnits (mul .binary64 u (.finite .positive (2 ^ 52) (-52) (by decide))) =
      unpackedUnits u := by
  cases hfinite : u.isFinite with
  | true =>
    have h := mul_two_pow_exact hu hfinite 0
    rwa [Int.pow_zero, Int.mul_one] at h
  | false =>
    cases u with
    | notANumber => exact ⟨trivial, rfl⟩
    | infinity s => cases s <;> exact ⟨trivial, rfl⟩
    | zero s | finite s m e hm => cases hfinite

theorem unpack_one : (Float.ofBits 0x3FF0000000000000).toModel.unpack =
    .finite .positive (2 ^ 52) (-52) (by decide) := by
  rfl

theorem units_mul_one (x : Float) : units (x * Float.ofBits 0x3FF0000000000000) = units x := by
  have hx := canonical_unpack x.toModel.toBits.toBitVec
  obtain ⟨hcanonical, hunits⟩ := mul_one_exact hx.1
  have hmul : units (x * Float.ofBits 0x3FF0000000000000) = saturate (unpackedUnits
      (mul .binary64 x.toModel.unpack (Float.ofBits 0x3FF0000000000000).toModel.unpack)) := by
    rw [unpack_one]
    exact units_pack hcanonical
  rw [hmul, unpack_one]
  exact (congrArg saturate hunits).trans (saturate_of_bounded hx.1 hx.2)

theorem ofNat_of_lt (h : n < 2 ^ 53) :
    Float.ofNat n = n.toUInt64.toFloat * Float.ofBits 0x3FF0000000000000 :=
  dif_pos ⟨h, by decide⟩

theorem ofNat_of_le (h : 2 ^ 53 ≤ n) : Float.ofNat n = Float.ofModel
    (.pack (roundWithAccuracy .binary64 .positive (n * 2 ^ 53) (-53) .exact)) := by
  have hn : n ≠ 0 := by omega
  have hsafe : ¬(0 : Int) < -(2 ^ 11 + n.log2) := by omega
  have hmantissa : n <<< 53 * 10 ^ 0 = n * 2 ^ 53 := by
    rw [Nat.shiftLeft_eq, Nat.pow_zero, Nat.mul_one]
  have hround : UnpackedFloat.ofScientific .binary64 n 0 =
      roundWithAccuracy .binary64 .positive (n * 2 ^ 53) (-53) .exact := by
    rw [UnpackedFloat.ofScientific, dif_neg hn, if_neg (by decide), if_neg hsafe,
      if_pos (by decide), ← hmantissa]
    rfl
  rw [← hround]
  exact dif_neg fun hsmall => absurd hsmall.1 (Nat.not_lt.mpr h)

theorem isNaN_ofNat (n : Nat) : (Float.ofNat n).isNaN = false := by
  rcases Nat.lt_or_ge n (2 ^ 53) with hsmall | hlarge
  · rw [ofNat_of_lt hsmall]
    exact isNaN_mul (isNaN_unpack_pack (isNaN_normalize ..)) unpack_one
  · rw [ofNat_of_le hlarge]
    exact isNaN_unpack_pack (isNaN_roundWithAccuracy ..)

/-- A natural number is rounded once when it is read as a float. -/
theorem units_ofNat (n : Nat) :
    units (Float.ofNat n) = saturate (roundSigned (n * unitsOfOne)) := by
  rcases Nat.lt_or_ge n (2 ^ 53) with hsmall | hlarge
  · have hword : n.toUInt64.toNat = n := Nat.mod_eq_of_lt (by omega)
    obtain ⟨hcanonical, hunits⟩ := normalize_exact n.toUInt64.toNat (e := 0) (by decide)
    have hexponent : ((0 : Int) + 1074).toNat = 1074 := rfl
    rw [ofNat_of_lt hsmall, units_mul_one]
    refine (units_pack hcanonical).trans (congrArg saturate (hunits.trans ?_))
    rw [hexponent, hword, unitsOfOne, Nat.cast_pow, Nat.cast_ofNat]
  · have hn : n ≠ 0 := by omega
    have hpos : n * 2 ^ 53 ≠ 0 := Nat.mul_ne_zero hn (by decide)
    have hlog : 52 ≤ (n * 2 ^ 53).log2 := by
      rw [log2_mul_two_pow hn]
      omega
    have hvalue : ((n * 2 ^ 53 * 2 ^ ((-53 : Int) + 1074).toNat : Nat) : Int) = n * unitsOfOne := by
      have hexponent : 53 + ((-53 : Int) + 1074).toNat = 1074 := rfl
      rw [Nat.mul_assoc, ← Nat.pow_add, two_pow_eq_unitsOfOne hexponent, Nat.cast_mul]
    obtain ⟨hcanonical, hunits⟩ := roundWithAccuracy_exact .positive hpos (e := -53) (Or.inl hlog)
    rw [halfEven_outShift hpos (by decide) (Or.inl hlog), ← roundSigned_apply] at hunits
    rw [ofNat_of_le hlarge]
    exact (units_pack hcanonical).trans
      (congrArg saturate (hunits.trans (congrArg roundSigned hvalue)))

/-- A natural number that is not too large is the float exactly. -/
theorem units_ofNat_of_le (h : n ≤ 2 ^ 53) : units (Float.ofNat n) = n * unitsOfOne := by
  have hround : round53 (n * unitsOfOne) = n * unitsOfOne := round53_mul h 1074
  have hle : n * unitsOfOne ≤ ceiling := by
    calc n * unitsOfOne ≤ 2 ^ 53 * unitsOfOne := Nat.mul_le_mul_right _ h
      _ ≤ ceiling := two_pow_mul_unitsOfOne_le (by decide)
  rw [units_ofNat, ← Nat.cast_mul, roundSigned_natCast, hround]
  exact (saturate_apply .positive _).trans (congrArg Nat.cast (Nat.min_eq_left hle))

theorem rational_ofNat_of_le (h : n ≤ 2 ^ 53) : rational (Float.ofNat n) = n := by
  have hpos : (unitsOfOne : ℚ) ≠ 0 := Nat.cast_ne_zero.mpr (Nat.ne_of_gt unitsOfOne_pos)
  rw [rational, units_ofNat_of_le h, Int.cast_mul, Int.cast_natCast, Int.cast_natCast,
    mul_div_cancel_right₀ _ hpos]

/-! ### Differences that are compared -/

/-- Differences stay less than a bound when they become less, though they are rounded. -/
theorem sub_lt_of_units_le {x' y' : Float} (hx : x.isFinite = true) (hy : y.isFinite = true)
    (hx' : x'.isFinite = true) (hy' : y'.isFinite = true) (hz : z.isNaN = false)
    (hle : units x - units y ≤ units x' - units y') (hlt : x' - y' < z) : x - y < z := by
  rw [lt_iff_units (isNaN_sub hx' hy') hz, units_sub hx' hy'] at hlt
  rw [lt_iff_units (isNaN_sub hx hy) hz, units_sub hx hy]
  exact Int.lt_of_le_of_lt (saturate_mono (roundSigned_mono hle)) hlt

theorem rational_sub_lt_iff : rational x - rational y < n ↔ units x - units y < n * unitsOfOne := by
  have hpos : (0 : ℚ) < unitsOfOne := Nat.cast_pos.mpr unitsOfOne_pos
  rw [rational, rational, ← sub_div, div_lt_iff₀ hpos]
  exact_mod_cast Iff.rfl

/-- A difference that is less than a natural number when rounded is less than it exactly. -/
theorem rational_sub_lt (hx : x.isFinite = true) (hy : y.isFinite = true)
    (hlt : x - y < Float.ofNat n) : rational x - rational y < n := by
  rw [lt_iff_units (isNaN_sub hx hy) (isNaN_ofNat n), units_sub hx hy, units_ofNat] at hlt
  rw [rational_sub_lt_iff]
  by_contra hle
  exact absurd (saturate_mono (roundSigned_mono (Int.not_lt.mp hle))) (Int.not_le.mpr hlt)

/-- The two are the same if the difference is a float and the natural number is not too large. -/
theorem sub_lt_iff_rational (hx : x.isFinite = true) (hy : y.isFinite = true)
    (hz : rational z = rational x - rational y) (hn : n ≤ 2 ^ 53) :
    x - y < Float.ofNat n ↔ rational x - rational y < n := by
  have hpos : (unitsOfOne : ℚ) ≠ 0 := Nat.cast_ne_zero.mpr (Nat.ne_of_gt unitsOfOne_pos)
  have hunits : units x - units y = units z := by
    rw [rational, rational, rational, ← sub_div, div_left_inj' hpos] at hz
    exact_mod_cast hz.symm
  have hexact : saturate (roundSigned (units z)) = units z := by
    obtain ⟨hcanonical, hbounded⟩ := canonical_unpack z.toModel.toBits.toBitVec
    exact (congrArg saturate (roundSigned_of_canonical hcanonical)).trans
      (saturate_of_bounded hcanonical hbounded)
  rw [lt_iff_units (isNaN_sub hx hy) (isNaN_ofNat n), units_sub hx hy, units_ofNat_of_le hn,
    rational_sub_lt_iff, hunits, hexact]

end

end FormulaField
