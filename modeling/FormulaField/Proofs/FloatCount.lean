import FormulaField.Proofs.Exactness
import FormulaField.Proofs.FloatDifference

/-!
Floating-point numbers without a minus sign, as counts of units. Products with a power of two and sums
lead from count to count: a sum is rounded once, and both are cut off where infinity begins. The count
determines the bits, and a finite number has no other description.
-/

namespace FormulaField

open Float.Model Float.Model.UnpackedFloat

/-! ### Signs -/

/-- A number without a minus sign. -/
def IsMagnitude : UnpackedFloat → Prop
  | .notANumber => False
  | .zero s | .infinity s | .finite s _ _ _ => s = .positive

section
variable {u v : UnpackedFloat}

theorem isMagnitude_roundWithAccuracy (m : Nat) (e : Int) :
    IsMagnitude (roundWithAccuracy .binary64 .positive m e .exact) := by
  rw [roundWithAccuracy_eq, assemble]
  split <;> rfl

theorem isMagnitude_normalize {z : Int} (h : 0 ≤ z) (e : Int) :
    IsMagnitude (UnpackedFloat.normalize .binary64 z e .positive) := by
  rcases Int.lt_or_eq_of_le h with hpos | rfl
  · rw [UnpackedFloat.normalize, compare_gt_iff_gt.mpr hpos]
    exact isMagnitude_roundWithAccuracy ..
  · rfl

theorem isMagnitude_mul {m : Nat} {e : Int} {hm : 0 < m} (hu : IsMagnitude u) :
    IsMagnitude (mul .binary64 u (.finite .positive m e hm)) := by
  cases u with
  | notANumber => exact hu
  | infinity s | zero s =>
    obtain rfl : s = .positive := hu
    rfl
  | finite s m' e' hm' =>
    obtain rfl : s = .positive := hu
    exact isMagnitude_roundWithAccuracy ..

theorem isMagnitude_add (hu : IsMagnitude u) (hv : IsMagnitude v) : IsMagnitude (add .binary64 u v) := by
  rcases u with s | _ | s | ⟨s, m, e, hm⟩ <;> rcases v with s' | _ | s' | ⟨s', m', e', hm'⟩ <;>
    first | exact hu.elim | exact hv.elim | skip
  all_goals
    obtain rfl : s = .positive := hu
    obtain rfl : s' = .positive := hv
  case finite.finite => exact isMagnitude_normalize (Int.natCast_nonneg _) _
  all_goals rfl

theorem add_infinity (hu : IsMagnitude u) (hv : IsMagnitude v)
    (h : u = .infinity .positive ∨ v = .infinity .positive) :
    add .binary64 u v = .infinity .positive := by
  rcases h with rfl | rfl
  · cases v with
    | notANumber => exact hv.elim
    | zero s | finite s m e hm => rfl
    | infinity s =>
      obtain rfl : s = .positive := hv
      rfl
  · cases u with
    | notANumber => exact hu.elim
    | zero s | finite s m e hm => rfl
    | infinity s =>
      obtain rfl : s = .positive := hu
      rfl

theorem isMagnitude_unpack_pack (hu : Canonical u) (hmagnitude : IsMagnitude u) :
    IsMagnitude (UnpackedFloat.unpack .binary64 (UnpackedFloat.pack .binary64 u)) := by
  by_cases hbounded : Bounded u
  · rwa [unpack_pack_of_bounded hu hbounded]
  · cases u with
    | notANumber | infinity s | zero s => exact absurd trivial hbounded
    | finite s m e hm =>
      rw [pack_of_large s m e hm (Int.lt_of_not_ge hbounded), unpack_packedInfinity]
      exact hmagnitude

end

/-! ### Counts -/

/-- `x` has no minus sign, and it stands for `c` units. -/
structure Counts (x : Float) (c : Nat) : Prop where
  isMagnitude : IsMagnitude x.toModel.unpack
  units : units x = c

section
variable {x y : Float} {b c d : Nat}

theorem counts_pack {u : UnpackedFloat} (hu : Canonical u) (hmagnitude : IsMagnitude u)
    (hc : unpackedUnits u = c) : Counts (Float.ofModel (.pack u)) (min c ceiling) where
  isMagnitude := isMagnitude_unpack_pack hu hmagnitude
  units := by
    refine (units_pack hu).trans ?_
    rw [hc]
    exact saturate_apply .positive c

theorem Counts.finite_or (h : Counts x c) : x.toModel.unpack.isFinite = true ∨
    x.toModel.unpack = .infinity .positive ∧ c = ceiling := by
  have hmagnitude := h.isMagnitude
  have hunits : unpackedUnits x.toModel.unpack = c := h.units
  cases hu : x.toModel.unpack with
  | notANumber => rw [hu] at hmagnitude; exact hmagnitude.elim
  | zero s | finite s m e hm => exact Or.inl rfl
  | infinity s =>
    rw [hu] at hmagnitude hunits
    obtain rfl : s = .positive := hmagnitude
    exact Or.inr ⟨rfl, Int.ofNat_inj.mp hunits.symm⟩

/-- Counting ends at infinity. -/
theorem counts_infinity (h : ceiling ≤ c) :
    Counts (Float.ofModel (.pack (.infinity .positive))) (min c ceiling) := by
  have hpack := counts_pack (u := .infinity .positive) trivial rfl (c := ceiling) rfl
  rwa [Nat.min_self, ← Nat.min_eq_right h] at hpack

/-- A product with a power of two is cut off at most. -/
theorem Counts.mul (hx : Counts x c)
    (hy : y.toModel.unpack = .finite .positive (2 ^ 52) (b - 52) (by decide)) :
    Counts (x * y) (min (c * 2 ^ b) ceiling) := by
  change Counts (Float.ofModel (.pack (.mul .binary64 x.toModel.unpack y.toModel.unpack))) _
  rw [hy]
  rcases hx.finite_or with hfinite | ⟨hinfinity, hc⟩
  · obtain ⟨hcanonical, hunits⟩ := mul_two_pow_exact (canonical_unpack _).1 hfinite b
    refine counts_pack hcanonical (isMagnitude_mul hx.isMagnitude) (hunits.trans ?_)
    rw [Nat.cast_mul, ← hx.units, Nat.cast_pow, Nat.cast_ofNat]
    rfl
  · rw [hinfinity, hc]
    exact counts_infinity (Nat.le_mul_of_pos_right _ (Nat.two_pow_pos b))

/-- A sum is rounded once and cut off. -/
theorem Counts.add (hx : Counts x c) (hy : Counts y d) :
    Counts (x + y) (min (round53 (c + d)) ceiling) := by
  change Counts (Float.ofModel (.pack (.add .binary64 x.toModel.unpack y.toModel.unpack))) _
  rcases hx.finite_or with hfinite | ⟨hinfinity, hc⟩
  · rcases hy.finite_or with hfinite' | ⟨hinfinity, hd⟩
    · obtain ⟨-, hcanonical, hunits⟩ :=
        add_exact (canonical_unpack _).1 (canonical_unpack _).1 hfinite hfinite'
      refine counts_pack hcanonical (isMagnitude_add hx.isMagnitude hy.isMagnitude) (hunits.trans ?_)
      rw [← roundSigned_natCast, Nat.cast_add, ← hx.units, ← hy.units]
      rfl
    · rw [add_infinity hx.isMagnitude hy.isMagnitude (Or.inr hinfinity)]
      exact counts_infinity (ceiling_le_round53 (hd ▸ Nat.le_add_left ..))
  · rw [add_infinity hx.isMagnitude hy.isMagnitude (Or.inl hinfinity)]
    exact counts_infinity (ceiling_le_round53 (hc ▸ Nat.le_add_right ..))

theorem isMagnitude_ofNat (n : Nat) : IsMagnitude (Float.ofNat n).toModel.unpack := by
  rcases Nat.lt_or_ge n (2 ^ 53) with hsmall | hlarge
  · have hword : IsMagnitude n.toUInt64.toFloat.toModel.unpack :=
      isMagnitude_unpack_pack (normalize_exact n.toUInt64.toNat (e := 0) (by decide)).1
        (isMagnitude_normalize (Int.natCast_nonneg _) 0)
    rw [ofNat_of_lt hsmall]
    change IsMagnitude (UnpackedFloat.unpack .binary64 (UnpackedFloat.pack .binary64 (UnpackedFloat.mul
      .binary64 n.toUInt64.toFloat.toModel.unpack (Float.ofBits 0x3FF0000000000000).toModel.unpack)))
    rw [unpack_one]
    exact isMagnitude_unpack_pack (mul_one_exact (canonical_unpack _).1).1 (isMagnitude_mul hword)
  · rw [ofNat_of_le hlarge]
    have hn : n ≠ 0 := by omega
    have hlog : 52 ≤ (n * 2 ^ 53).log2 := by
      rw [log2_mul_two_pow hn]
      omega
    have hpos : n * 2 ^ 53 ≠ 0 := Nat.mul_ne_zero hn (by decide)
    exact isMagnitude_unpack_pack (roundWithAccuracy_exact .positive hpos (Or.inl hlog)).1
      (isMagnitude_roundWithAccuracy ..)

/-- A natural number is rounded once when it is read as a float, and cut off. -/
theorem counts_ofNat (n : Nat) :
    Counts (Float.ofNat n) (min (round53 (n * unitsOfOne)) ceiling) where
  isMagnitude := isMagnitude_ofNat n
  units := by
    rw [units_ofNat, ← Nat.cast_mul, roundSigned_natCast]
    exact saturate_apply .positive _

/-! ### Bits -/

theorem isNegative_iff (x : Float) : isNegative x = false ↔
    Sign.ofBitVec (@unpackSign .binary64 x.toModel.toBits.toBitVec) = .positive := by
  rw [unpackSign_eq]
  cases isNegative x <;> simp [Sign.ofBitVec]

theorem isMagnitude_iff :
    IsMagnitude x.toModel.unpack ↔ x.isNaN = false ∧ isNegative x = false := by
  change IsMagnitude (UnpackedFloat.unpack .binary64 x.toModel.toBits.toBitVec) ↔
    (UnpackedFloat.unpack .binary64 x.toModel.toBits.toBitVec).isNaN = false ∧ _
  rw [isNegative_iff]
  unfold UnpackedFloat.unpack
  simp only
  split
  · split
    · exact ⟨fun h => ⟨rfl, h⟩, And.right⟩
    · exact ⟨False.elim, fun h => nomatch h.1⟩
  · split
    · split <;> exact ⟨fun h => ⟨rfl, h⟩, And.right⟩
    · exact ⟨fun h => ⟨rfl, h⟩, And.right⟩

theorem Counts.isNaN (h : Counts x c) : x.isNaN = false := (isMagnitude_iff.mp h.isMagnitude).1

theorem Counts.isNegative (h : Counts x c) : isNegative x = false :=
  (isMagnitude_iff.mp h.isMagnitude).2

theorem exists_counts (h : x.isFinite = true) (hsign : isNegative x = false) :
    ∃ c, Counts x c := by
  have hmagnitude := isMagnitude_iff.mpr ⟨(isFinite_iff.mp h).1, hsign⟩
  have hpos : 0 ≤ unpackedUnits x.toModel.unpack := by
    cases hu : x.toModel.unpack with
    | notANumber | zero s => exact Int.le_refl 0
    | infinity s | finite s m e hm =>
      rw [hu] at hmagnitude
      obtain rfl : s = .positive := hmagnitude
      exact Int.natCast_nonneg _
  exact ⟨_, hmagnitude, (Int.toNat_of_nonneg hpos).symm⟩

theorem two_pow_eq_ceiling {k : Nat} (h : k = 2098) : 2 ^ k = ceiling := by
  rw [h, ceiling]

theorem unpack_last {mantissa : BitVec 52} (hnan : (UnpackedFloat.unpack .binary64
    (packComponents .binary64 .positive (-1#11) mantissa)).isNaN = false) : mantissa = 0#52 := by
  by_contra hmantissa
  have hunpack : UnpackedFloat.unpack .binary64
      (packComponents .binary64 .positive (-1#11) mantissa) = .notANumber := by
    simp [UnpackedFloat.unpack, hmantissa]
  rw [hunpack] at hnan
  cases hnan

/-- A count of units is told by the fields of the bits. -/
theorem Counts.unitCount (h : Counts x c) : unitCount x = c := by
  have hunits : unpackedUnits (UnpackedFloat.unpack .binary64 x.toModel.toBits.toBitVec) = c :=
    h.units
  have hnan : (UnpackedFloat.unpack .binary64 x.toModel.toBits.toBitVec).isNaN = false := h.isNaN
  have hsign := (isNegative_iff x).mp h.isNegative
  unfold FormulaField.unitCount significand scale
  rw [exponentBits_eq, fractionBits_eq]
  rw [← @packComponents_unpackSign_unpackExponent_unpackMantissa .binary64
    x.toModel.toBits.toBitVec, hsign] at hunits hnan
  generalize @unpackExponent .binary64 x.toModel.toBits.toBitVec = exponent at *
  generalize @unpackMantissa .binary64 x.toModel.toBits.toBitVec = mantissa at *
  refine Int.ofNat_inj.mp (Eq.trans ?_ hunits)
  by_cases hfirst : exponent = 0#11
  · have hzero : exponent.toNat = 0 := congrArg BitVec.toNat hfirst
    rw [if_pos hzero, if_pos hzero, hfirst]
    by_cases hmantissa : mantissa = 0#52
    · simp [UnpackedFloat.unpack, hmantissa, unpackedUnits]
    · rw [unpack_subnormal .positive hmantissa]
      rfl
  · have hne : exponent.toNat ≠ 0 := fun hzero => hfirst (BitVec.eq_of_toNat_eq hzero)
    rw [if_neg hne, if_neg hne]
    by_cases hlast : exponent = -1#11
    · subst hlast
      obtain rfl := unpack_last hnan
      obtain ⟨k, hk⟩ : ∃ k, ((-1#11).toNat - 1075 + 1074 : Int).toNat = k := ⟨_, rfl⟩
      have hsum : 52 + k = 2098 := by
        rw [← hk]
        rfl
      change _ = unpackedUnits (UnpackedFloat.unpack .binary64 (packedInfinity .binary64 .positive))
      rw [unpack_packedInfinity, hk, unpackedUnits, ← two_pow_eq_ceiling hsum, Nat.pow_add]
      rfl
    · rw [unpack_normal .positive mantissa hlast hfirst]
      rfl

/-- What has fifty-three digits stands in the bits behind its exponent. -/
theorem Counts.toBits {m k : Nat} (h : Counts x (m * 2 ^ k)) (hlow : 2 ^ 52 ≤ m)
    (hhigh : m < 2 ^ 53) : x.toBits.toNat = k * 2 ^ 52 + m := by
  obtain ⟨m', hm', hbits⟩ := exists_units h.isNegative
  rw [h.unitCount, excess_mul hlow hhigh] at hm' hbits
  rw [hbits, Nat.eq_of_mul_eq_mul_right (Nat.two_pow_pos k) hm']

/-- The count determines the float. -/
theorem Counts.unique (hx : Counts x c) (hy : Counts y c) : x = y := by
  obtain ⟨m, hm, hbits⟩ := exists_units hx.isNegative
  obtain ⟨m', hm', hbits'⟩ := exists_units hy.isNegative
  rw [hx.unitCount] at hm hbits
  rw [hy.unitCount] at hm' hbits'
  obtain rfl : m = m' := Nat.eq_of_mul_eq_mul_right (Nat.two_pow_pos _) (hm.symm.trans hm')
  exact Float.toBits_inj.mp (UInt64.toNat_inj.mp (hbits.trans hbits'.symm))

theorem Counts.isFinite (h : Counts x c) (hc : c < ceiling) : x.isFinite = true :=
  h.finite_or.resolve_right fun hinfinity => Nat.ne_of_lt hc hinfinity.2

end

end FormulaField
