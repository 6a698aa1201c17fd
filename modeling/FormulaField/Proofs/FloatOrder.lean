import Mathlib
import FormulaField.Proofs.Rounding

/-!
Floating-point numbers as numbers. A finite float stands for a number exactly, packing cuts off what is
larger than any float and keeps everything else, and comparing floats compares what they stand for.
-/

namespace FormulaField

open Float.Model Float.Model.UnpackedFloat

/-! ### Packing -/

/-- A number with an exponent small enough for a float. -/
def Bounded : UnpackedFloat → Prop
  | .notANumber | .zero _ | .infinity _ => True
  | .finite _ _ e _ => e ≤ 971

section
variable {exponent : BitVec 11} {mantissa : BitVec 52}

theorem unpack_packedInfinity (sign : UnpackedFloat.Sign) :
    UnpackedFloat.unpack .binary64 (packedInfinity .binary64 sign) = .infinity sign := by
  simp [UnpackedFloat.unpack, packedInfinity]

theorem unpack_normal (sign : UnpackedFloat.Sign) (mantissa : BitVec 52) (hlast : exponent ≠ -1#11)
    (hfirst : exponent ≠ 0#11) :
    UnpackedFloat.unpack .binary64 (packComponents .binary64 sign exponent mantissa) =
      .finite sign (2 ^ 52 + mantissa.toNat) (exponent.toNat - 1075) (by omega) := by
  have hmantissa : (1#1 ++ mantissa).toNat = 2 ^ 52 + mantissa.toNat := by
    rw [BitVec.toNat_append, ← Nat.shiftLeft_add_eq_or_of_lt mantissa.isLt]
    rfl
  have hsign : UnpackedFloat.Sign.ofBitVec
      (unpackSign (packComponents .binary64 sign exponent mantissa)) = sign := by
    rw [unpackSign_packComponents, UnpackedFloat.Sign.ofBitVec_toBitVec]
  simp only [UnpackedFloat.unpack, unpackExponent_packComponents, unpackMantissa_packComponents, hsign]
  rw [if_neg hlast, if_neg hfirst]
  simp only [hmantissa]
  rfl

theorem unpack_subnormal (sign : UnpackedFloat.Sign) (hmantissa : mantissa ≠ 0#52) :
    UnpackedFloat.unpack .binary64 (packComponents .binary64 sign 0#11 mantissa) =
      .finite sign mantissa.toNat (-1074) (by simpa [BitVec.toNat_pos, BitVec.pos_iff_ne_zero]) := by
  have hsign : UnpackedFloat.Sign.ofBitVec
      (unpackSign (packComponents .binary64 sign 0#11 mantissa)) = sign := by
    rw [unpackSign_packComponents, UnpackedFloat.Sign.ofBitVec_toBitVec]
  simp only [UnpackedFloat.unpack, unpackExponent_packComponents, unpackMantissa_packComponents, hsign]
  rw [if_neg (by decide), if_pos trivial, dif_neg hmantissa]
  rfl

end

section
variable {u v : UnpackedFloat}

theorem pack_of_large (sign : UnpackedFloat.Sign) (m : Nat) (e : Int) (hm : 0 < m) (he : 971 < e) :
    UnpackedFloat.pack .binary64 (.finite sign m e hm) = packedInfinity .binary64 sign :=
  if_pos (show 2 ^ 11 ≤ (e + (1023 : Nat) + (52 : Nat)).toNat + 1 by omega)

theorem pack_of_normal (sign : UnpackedFloat.Sign) (m : Nat) (e : Int) (hm : 0 < m) (he : e ≤ 971)
    (hlog : m.log2 = 52) : UnpackedFloat.pack .binary64 (.finite sign m e hm) =
      packComponents .binary64 sign (BitVec.ofNat 11 (e + 1075).toNat) (BitVec.ofNat 52 m) := by
  have hbiased : (e + (1023 : Nat) + (52 : Nat)).toNat = (e + 1075).toNat := by omega
  rw [← hbiased]
  exact (if_neg (show ¬2 ^ 11 ≤ (e + (1023 : Nat) + (52 : Nat)).toNat + 1 by omega)).trans
    (if_pos (show m.log2 + 1 = 53 by omega))

theorem pack_of_subnormal (sign : UnpackedFloat.Sign) (m : Nat) (e : Int) (hm : 0 < m) (he : e ≤ 971)
    (hlog : m.log2 ≠ 52) : UnpackedFloat.pack .binary64 (.finite sign m e hm) =
      packComponents .binary64 sign 0#11 (BitVec.ofNat 52 m) :=
  (if_neg (show ¬2 ^ 11 ≤ (e + (1023 : Nat) + (52 : Nat)).toNat + 1 by omega)).trans
    (if_neg (show ¬m.log2 + 1 = 53 by omega))

theorem unpack_pack_of_bounded (hu : Canonical u) (hbounded : Bounded u) :
    UnpackedFloat.unpack .binary64 (UnpackedFloat.pack .binary64 u) = u := by
  cases u with
  | notANumber => exact unpack_packedNaN
  | infinity sign => exact unpack_packedInfinity sign
  | zero sign => exact unpack_packedZero
  | finite sign m e hm =>
    obtain ⟨hlt, hleast, hfull⟩ := hu
    simp only [Bounded] at hbounded
    by_cases hnormal : 2 ^ 52 ≤ m
    · have hlog : m.log2 = 52 := (Nat.log2_eq_iff (Nat.ne_of_gt hm)).mpr ⟨hnormal, hlt⟩
      have hmantissa : 2 ^ 52 + m % 2 ^ 52 = m := by omega
      have hexponent : (((e + 1075).toNat % 2 ^ 11 : Nat) : Int) - 1075 = e := by omega
      rw [pack_of_normal sign m e hm hbounded hlog, unpack_normal]
      · simp only [BitVec.toNat_ofNat, hmantissa, hexponent]
      · intro heq
        have hnat := congrArg BitVec.toNat heq
        simp at hnat
        omega
      · intro heq
        have hnat := congrArg BitVec.toNat heq
        simp at hnat
        omega
    · have hlog : m.log2 < 52 := (Nat.log2_lt (Nat.ne_of_gt hm)).mpr (Nat.lt_of_not_le hnormal)
      have hmantissa : m % 2 ^ 52 = m := by omega
      obtain rfl : e = -1074 := hfull.resolve_left hnormal
      rw [pack_of_subnormal sign m _ hm hbounded (Nat.ne_of_lt hlog), unpack_subnormal]
      · simp only [BitVec.toNat_ofNat, hmantissa]
      · intro heq
        have hnat := congrArg BitVec.toNat heq
        simp at hnat
        omega

theorem canonical_unpack (b : BitVec 64) :
    Canonical (UnpackedFloat.unpack .binary64 b) ∧ Bounded (UnpackedFloat.unpack .binary64 b) := by
  rw [← @packComponents_unpackSign_unpackExponent_unpackMantissa .binary64 b]
  generalize @unpackExponent .binary64 b = exponent
  generalize @unpackMantissa .binary64 b = mantissa
  generalize UnpackedFloat.Sign.ofBitVec (@unpackSign .binary64 b) = sign
  have hmantissa : mantissa.toNat < 2 ^ 52 := mantissa.isLt
  by_cases hlast : exponent = -1#11
  · by_cases hzero : mantissa = 0#52
    · simp [UnpackedFloat.unpack, hlast, hzero, Canonical, Bounded]
    · simp [UnpackedFloat.unpack, hlast, hzero, Canonical, Bounded]
  by_cases hfirst : exponent = 0#11
  · by_cases hzero : mantissa = 0#52
    · simp [UnpackedFloat.unpack, hfirst, hzero, Canonical, Bounded]
    · rw [hfirst, unpack_subnormal sign hzero]
      exact ⟨⟨by omega, by omega, Or.inr rfl⟩, by simp [Bounded]⟩
  · rw [unpack_normal sign mantissa hlast hfirst]
    have hexponent : exponent.toNat < 2 ^ 11 := exponent.isLt
    have hlast' : exponent.toNat ≠ 2047 := fun heq => hlast (BitVec.eq_of_toNat_eq heq)
    have hfirst' : exponent.toNat ≠ 0 := fun heq => hfirst (BitVec.eq_of_toNat_eq heq)
    exact ⟨⟨by omega, by omega, Or.inl (by omega)⟩, by simp only [Bounded]; omega⟩

/-! ### What a float stands for -/

theorem two_pow_le_ceiling {k : Nat} (h : k ≤ 2098) : 2 ^ k ≤ ceiling := by
  rw [ceiling, Nat.pow_le_pow_iff_right (by decide)]
  exact h

theorem ceiling_le_two_pow {k : Nat} (h : 2098 ≤ k) : ceiling ≤ 2 ^ k := by
  rw [ceiling, Nat.pow_le_pow_iff_right (by decide)]
  exact h

theorem units_lt_ceiling {m : Nat} {e : Int} (hm : m < 2 ^ 53) (he : e ≤ 971) :
    m * 2 ^ (e + 1074).toNat < ceiling := by
  calc m * 2 ^ (e + 1074).toNat < 2 ^ 53 * 2 ^ (e + 1074).toNat :=
        Nat.mul_lt_mul_of_pos_right hm (Nat.two_pow_pos _)
    _ = 2 ^ (53 + (e + 1074).toNat) := (Nat.pow_add 2 53 _).symm
    _ ≤ ceiling := two_pow_le_ceiling (by omega)

theorem ceiling_le_units {m : Nat} {e : Int} (hm : 2 ^ 52 ≤ m) (he : 971 < e) :
    ceiling ≤ m * 2 ^ (e + 1074).toNat := by
  calc ceiling ≤ 2 ^ (52 + (e + 1074).toNat) := ceiling_le_two_pow (by omega)
    _ = 2 ^ 52 * 2 ^ (e + 1074).toNat := Nat.pow_add 2 52 _
    _ ≤ m * 2 ^ (e + 1074).toNat := Nat.mul_le_mul_right _ hm

/-- Cuts off what is larger than any float. -/
def saturate (z : Int) : Int := max (-(ceiling : Int)) (min z ceiling)

theorem saturate_mono {w z : Int} (h : w ≤ z) : saturate w ≤ saturate z :=
  max_le_max (Int.le_refl _) (min_le_min_right _ h)

theorem saturate_zero : saturate 0 = 0 := by
  rw [saturate]
  omega

theorem saturate_apply (sign : UnpackedFloat.Sign) (n : Nat) :
    saturate (sign.apply n) = sign.apply (min n ceiling : Nat) := by
  rw [saturate]
  cases sign <;> simp only [UnpackedFloat.Sign.apply] <;> omega

theorem saturate_of_bounded (hu : Canonical u) (hbounded : Bounded u) :
    saturate (unpackedUnits u) = unpackedUnits u := by
  cases u with
  | notANumber | zero sign => exact saturate_zero
  | infinity sign => rw [unpackedUnits, saturate_apply, Nat.min_self]
  | finite sign m e hm =>
    rw [unpackedUnits, saturate_apply, Nat.min_eq_left (Nat.le_of_lt (units_lt_ceiling hu.1 hbounded))]

/-- Packing cuts off what is too large for a float. -/
theorem units_pack (hu : Canonical u) :
    unpackedUnits (UnpackedFloat.unpack .binary64 (UnpackedFloat.pack .binary64 u)) =
      saturate (unpackedUnits u) := by
  by_cases hbounded : Bounded u
  · rw [unpack_pack_of_bounded hu hbounded, saturate_of_bounded hu hbounded]
  · cases u with
    | notANumber | infinity sign | zero sign => exact absurd trivial hbounded
    | finite sign m e hm =>
      have he : 971 < e := Int.lt_of_not_ge hbounded
      have hlarge : 2 ^ 52 ≤ m := hu.2.2.resolve_right (by omega)
      rw [pack_of_large sign m e hm he, unpack_packedInfinity, unpackedUnits, unpackedUnits,
        saturate_apply, Nat.min_eq_right (ceiling_le_units hlarge he)]

/-! ### Comparison -/

theorem units_lt_of_exponent_lt {m m' : Nat} {e e' : Int} (hm : m < 2 ^ 53) (he : -1074 ≤ e)
    (hm' : 2 ^ 52 ≤ m' ∨ e' = -1074) (hlt : e < e') :
    m * 2 ^ (e + 1074).toNat < m' * 2 ^ (e' + 1074).toNat := by
  have hlarge : 2 ^ 52 ≤ m' := hm'.resolve_right (by omega)
  calc m * 2 ^ (e + 1074).toNat < 2 ^ 53 * 2 ^ (e + 1074).toNat :=
        Nat.mul_lt_mul_of_pos_right hm (Nat.two_pow_pos _)
    _ = 2 ^ 52 * 2 ^ ((e + 1074).toNat + 1) := by
      rw [Nat.pow_succ 2 (e + 1074).toNat]
      omega
    _ ≤ 2 ^ 52 * 2 ^ (e' + 1074).toNat :=
      Nat.mul_le_mul_left _ (Nat.pow_le_pow_right (by decide) (by omega))
    _ ≤ m' * 2 ^ (e' + 1074).toNat := Nat.mul_le_mul_right _ hlarge

/-- Numbers of one sign are compared by their exponents first. -/
theorem compare_magnitudes {m m' : Nat} {e e' : Int}
    (hm : m < 2 ^ 53 ∧ -1074 ≤ e ∧ (2 ^ 52 ≤ m ∨ e = -1074))
    (hm' : m' < 2 ^ 53 ∧ -1074 ≤ e' ∧ (2 ^ 52 ≤ m' ∨ e' = -1074)) :
    (compare e e').then (compare m m') =
      compare (m * 2 ^ (e + 1074).toNat) (m' * 2 ^ (e' + 1074).toNat) := by
  rcases Int.lt_trichotomy e e' with hlt | rfl | hgt
  · rw [compare_lt_iff_lt.mpr hlt,
      compare_lt_iff_lt.mpr (units_lt_of_exponent_lt hm.1 hm.2.1 hm'.2.2 hlt)]
    rfl
  · have hpos : 0 < 2 ^ (e + 1074).toNat := Nat.two_pow_pos _
    rw [compare_eq_iff_eq.mpr rfl, Ordering.then]
    rcases Nat.lt_trichotomy m m' with hlt | rfl | hgt
    · rw [compare_lt_iff_lt.mpr hlt, compare_lt_iff_lt.mpr (Nat.mul_lt_mul_of_pos_right hlt hpos)]
    · rw [compare_eq_iff_eq.mpr rfl, compare_eq_iff_eq.mpr rfl]
    · rw [compare_gt_iff_gt.mpr hgt, compare_gt_iff_gt.mpr (Nat.mul_lt_mul_of_pos_right hgt hpos)]
  · rw [compare_gt_iff_gt.mpr hgt,
      compare_gt_iff_gt.mpr (units_lt_of_exponent_lt hm'.1 hm'.2.1 hm.2.2 hgt)]
    rfl

theorem compare_natCast (a b : Nat) : compare (a : Int) b = compare a b := by
  rcases Nat.lt_trichotomy a b with hlt | rfl | hgt
  · rw [compare_lt_iff_lt.mpr hlt, compare_lt_iff_lt.mpr (Int.ofNat_lt.mpr hlt)]
  · rw [compare_eq_iff_eq.mpr rfl, compare_eq_iff_eq.mpr rfl]
  · rw [compare_gt_iff_gt.mpr hgt, compare_gt_iff_gt.mpr (Int.ofNat_lt.mpr hgt)]

theorem compare_neg (a b : Nat) : compare (-(a : Int)) (-b) = (compare a b).swap := by
  rcases Nat.lt_trichotomy a b with hlt | rfl | hgt
  · rw [compare_lt_iff_lt.mpr hlt, compare_gt_iff_gt.mpr (Int.neg_lt_neg (Int.ofNat_lt.mpr hlt))]
    rfl
  · rw [compare_eq_iff_eq.mpr rfl, compare_eq_iff_eq.mpr rfl]
    rfl
  · rw [compare_gt_iff_gt.mpr hgt, compare_lt_iff_lt.mpr (Int.neg_lt_neg (Int.ofNat_lt.mpr hgt))]
    rfl

/-- Comparing numbers that fit in a float compares what they stand for. -/
theorem compare_units (hu : Canonical u ∧ Bounded u) (hv : Canonical v ∧ Bounded v)
    (hnan : u.isNaN = false) (hnan' : v.isNaN = false) :
    u.compare v = some (compare (unpackedUnits u) (unpackedUnits v)) := by
  have hceiling : 0 < ceiling :=
    Nat.lt_of_lt_of_le (Nat.two_pow_pos 0) (two_pow_le_ceiling (by decide))
  have hfinite : ∀ s m e hm, Canonical (.finite s m e hm) ∧ Bounded (.finite s m e hm) →
      0 < m * 2 ^ (e + 1074).toNat ∧ m * 2 ^ (e + 1074).toNat < ceiling := fun s m e hm h =>
    ⟨Nat.mul_pos hm (Nat.two_pow_pos _), units_lt_ceiling h.1.1 h.2⟩
  have hlt : ∀ {a b : Int}, a < b → some .lt = some (compare a b) := fun h =>
    congrArg some (compare_lt_iff_lt.mpr h).symm
  have hgt : ∀ {a b : Int}, b < a → some .gt = some (compare a b) := fun h =>
    congrArg some (compare_gt_iff_gt.mpr h).symm
  have heq : ∀ {a b : Int}, a = b → some .eq = some (compare a b) := fun h =>
    congrArg some (compare_eq_iff_eq.mpr h).symm
  rcases u with s | _ | s | ⟨s, m, e, hm⟩ <;> rcases v with s' | _ | s' | ⟨s', m', e', hm'⟩
  case finite.finite =>
    have hbounds := hfinite s m e hm hu
    have hbounds' := hfinite s' m' e' hm' hv
    cases s <;> cases s' <;> simp only [unpackedUnits, UnpackedFloat.Sign.apply]
    · rw [compare_neg, ← compare_magnitudes hu.1 hv.1]
      rfl
    · exact hlt (by omega)
    · exact hgt (by omega)
    · rw [UnpackedFloat.compare, compare_magnitudes hu.1 hv.1, compare_natCast]
  case finite.infinity | finite.zero =>
    have hbounds := hfinite s m e hm hu
    cases s <;> cases s' <;> simp only [unpackedUnits, UnpackedFloat.Sign.apply] <;>
      first | exact hlt (by omega) | exact hgt (by omega)
  case infinity.finite | zero.finite =>
    have hbounds := hfinite s' m' e' hm' hv
    cases s <;> cases s' <;> simp only [unpackedUnits, UnpackedFloat.Sign.apply] <;>
      first | exact hlt (by omega) | exact hgt (by omega)
  case infinity.infinity =>
    cases s <;> cases s' <;> simp only [unpackedUnits, UnpackedFloat.Sign.apply] <;>
      first | exact heq rfl | exact hlt (by omega) | exact hgt (by omega)
  case infinity.zero | zero.infinity =>
    cases s <;> cases s' <;> simp only [unpackedUnits, UnpackedFloat.Sign.apply] <;>
      first | exact hlt (by omega) | exact hgt (by omega)
  case zero.zero => exact heq rfl
  all_goals
    first | exact absurd hnan.symm Bool.false_ne_true | exact absurd hnan'.symm Bool.false_ne_true

end

/-! ### Floats -/

/-- A float, counted in units of `2 ^ (-1074)`. -/
def units (x : Float) : Int := unpackedUnits x.toModel.unpack

/-- The number of units in one. -/
def unitsOfOne : Nat := 2 ^ 1074

theorem unitsOfOne_pos : 0 < unitsOfOne := by
  unfold unitsOfOne
  positivity

theorem two_pow_eq_unitsOfOne {k : Nat} (h : k = 1074) : 2 ^ k = unitsOfOne := by
  rw [h, unitsOfOne]

theorem two_pow_mul_unitsOfOne_le {k : Nat} (h : k ≤ 1024) : 2 ^ k * unitsOfOne ≤ ceiling := by
  rw [← two_pow_eq_unitsOfOne rfl, ← Nat.pow_add]
  exact two_pow_le_ceiling (by omega)

/-- The number that a finite float stands for. -/
def rational (x : Float) : ℚ := units x / unitsOfOne

theorem lt_iff_units {x y : Float} (hx : x.isNaN = false) (hy : y.isNaN = false) :
    x < y ↔ units x < units y := by
  have hcompare : x.toModel.unpack.compare y.toModel.unpack = some (compare (units x) (units y)) :=
    compare_units (canonical_unpack _) (canonical_unpack _) hx hy
  have hlt : x < y ↔ (x.toModel.unpack.compare y.toModel.unpack == some .lt) = true :=
    decide_eq_true_iff
  rw [hlt, beq_iff_eq, hcompare, Option.some_inj, compare_lt_iff_lt]

end FormulaField
