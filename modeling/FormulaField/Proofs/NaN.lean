import FormulaField.Number.Typed

/-!
Which numbers can be NaN. A binary64 value is NaN by its bits alone, and arithmetic makes one only
from infinities and zeros. The text of a numeral has none of these in the wrong place, whatever its
base and however far it overflows, so the value of a numeral is a number.
-/

namespace FormulaField

open Float.Model

/-! ### NaN by its bits -/

theorem isNaN_unpack_iff (b : BitVec Format.binary64.numBits) :
    (UnpackedFloat.unpack Format.binary64 b).isNaN = true ↔
      UnpackedFloat.unpackExponent b = -1#_ ∧ UnpackedFloat.unpackMantissa b ≠ 0#_ := by
  by_cases hexponent : UnpackedFloat.unpackExponent b = -1#_
  · by_cases hmantissa : UnpackedFloat.unpackMantissa b = 0#_
    · have hunpack : UnpackedFloat.unpack Format.binary64 b = .infinity _ :=
        (if_pos hexponent).trans (if_pos hmantissa)
      rw [hunpack]
      constructor
      · intro h
        cases h
      · rintro ⟨-, h⟩
        exact absurd hmantissa h
    · have hunpack : UnpackedFloat.unpack Format.binary64 b = .notANumber :=
        (if_pos hexponent).trans (if_neg hmantissa)
      rw [hunpack]
      exact ⟨fun _ => ⟨hexponent, hmantissa⟩, fun _ => rfl⟩
  · have hunpack : (UnpackedFloat.unpack Format.binary64 b).isNaN = false := by
      refine (congrArg _ (if_neg hexponent)).trans ?_
      rw [apply_ite UnpackedFloat.isNaN, apply_dite UnpackedFloat.isNaN]
      by_cases hzero : UnpackedFloat.unpackExponent b = 0#_
      · rw [if_pos hzero]
        exact dite_eq_left_iff.mpr fun _ => rfl
      · rw [if_neg hzero]
        rfl
    rw [hunpack]
    constructor
    · intro h
      cases h
    · rintro ⟨h, -⟩
      exact absurd h hexponent

/-- Packing makes no NaN of a number. -/
theorem isNaN_unpack_pack {f : UnpackedFloat} (h : f.isNaN = false) :
    (UnpackedFloat.unpack Format.binary64
      (UnpackedFloat.pack Format.binary64 f)).isNaN = false := by
  rw [← Bool.not_eq_true, isNaN_unpack_iff]
  fun_cases UnpackedFloat.pack with
  | case1 => cases h
  | case2 s => simp [UnpackedFloat.packedInfinity]
  | case3 s => simp [UnpackedFloat.packedZero]
  | case4 s m e hm biased hlarge => simp [UnpackedFloat.packedInfinity]
  | case5 s m e hm bits biased hlarge hnormal =>
    rw [UnpackedFloat.unpackExponent_packComponents]
    rintro ⟨hexponent, -⟩
    have hnat := congrArg BitVec.toNat hexponent
    simp at hnat hlarge
    omega
  | case6 s m e hm bits biased hlarge hnormal =>
    rw [UnpackedFloat.unpackExponent_packComponents]
    rintro ⟨hexponent, -⟩
    exact absurd hexponent (by decide)

/-- Bits up to those of infinity are a number. -/
theorem isNaN_ofBits {n : Nat} (h : n ≤ 0x7FF0000000000000) :
    (Float.ofBits n.toUInt64).isNaN = false := by
  let bits : BitVec Format.binary64.numBits := n.toUInt64.toBitVec
  refine isNaN_unpack_pack (f := UnpackedFloat.unpack Format.binary64 bits) ?_
  rw [← Bool.not_eq_true, isNaN_unpack_iff]
  rintro ⟨hexponent, hmantissa⟩
  have hbits : bits.toNat = n := by
    change n % 2 ^ 64 = n
    omega
  have hexponent : bits.toNat >>> 52 % 2 ^ 11 = 2047 := congrArg BitVec.toNat hexponent
  have hmantissa : bits.toNat >>> 0 % 2 ^ 52 ≠ 0 := fun hzero =>
    hmantissa (BitVec.eq_of_toNat_eq hzero)
  rw [hbits, Nat.shiftRight_eq_div_pow] at hexponent hmantissa
  omega

/-! ### Arithmetic -/

theorem isNaN_neg {x : Float} (h : x.isNaN = false) : (-x).isNaN = false := by
  refine isNaN_unpack_pack (f := x.toModel.unpack.neg) ?_
  change x.toModel.unpack.isNaN = false at h
  cases hx : x.toModel.unpack with
  | notANumber => rw [hx] at h; cases h
  | infinity s | zero s | finite s m e hm => rfl

theorem isNaN_roundWithAccuracy (spec : Format) (s : UnpackedFloat.Sign) (m : Nat) (e : Int)
    (a : UnpackedFloat.Accuracy) :
    (UnpackedFloat.roundWithAccuracy spec s m e a).isNaN = false := by
  refine (apply_dite UnpackedFloat.isNaN (_ = 0) _ _).trans ?_
  exact dite_eq_left_iff.mpr fun _ => rfl

theorem isNaN_normalize (spec : Format) (m : Int) (e : Int) (s : UnpackedFloat.Sign) :
    (UnpackedFloat.normalize spec m e s).isNaN = false := by
  unfold UnpackedFloat.normalize
  split
  · exact isNaN_roundWithAccuracy ..
  · rfl
  · exact isNaN_roundWithAccuracy ..

/-- A sum is a number if its left side is one and its right side is finite. -/
theorem isNaN_add {x y : Float} (hx : x.isNaN = false) (hy : y.isFinite = true) :
    (x + y).isNaN = false := by
  refine isNaN_unpack_pack (f := .add Format.binary64 x.toModel.unpack y.toModel.unpack) ?_
  change x.toModel.unpack.isNaN = false at hx
  change y.toModel.unpack.isFinite = true at hy
  cases hux : x.toModel.unpack with
  | notANumber => rw [hux] at hx; cases hx
  | infinity s =>
    cases huy : y.toModel.unpack with
    | notANumber | infinity => rw [huy] at hy; cases hy
    | zero | finite => rfl
  | zero s =>
    cases huy : y.toModel.unpack with
    | notANumber | infinity => rw [huy] at hy; cases hy
    | zero s' => cases s <;> cases s' <;> rfl
    | finite => rfl
  | finite s m e hm =>
    cases huy : y.toModel.unpack with
    | notANumber | infinity => rw [huy] at hy; cases hy
    | zero => rfl
    | finite s' m' e' hm' => exact isNaN_normalize ..

/-- A product is a number if its left side is one and its right side is finite and not zero. -/
theorem isNaN_mul {x y : Float} {s : UnpackedFloat.Sign} {m : Nat} {e : Int} {hm : 0 < m}
    (hx : x.isNaN = false) (hy : y.toModel.unpack = .finite s m e hm) : (x * y).isNaN = false := by
  refine isNaN_unpack_pack (f := .mul Format.binary64 x.toModel.unpack y.toModel.unpack) ?_
  change x.toModel.unpack.isNaN = false at hx
  rw [hy]
  cases hux : x.toModel.unpack with
  | notANumber => rw [hux] at hx; cases hx
  | infinity s' | zero s' => rfl
  | finite s' m' e' hm' => exact isNaN_roundWithAccuracy ..

/-! ### Numerals -/

theorem digit?_lt_base {r : Radix} {c : Char} {d : Nat} (h : r.digit? c = some d) : d < r.base := by
  simpa using (Option.filter_eq_some_iff.mp h).2

theorem digit?_lt {r : Radix} {c : Char} {d : Nat} (h : r.digit? c = some d) : d < 16 := by
  have hlt := digit?_lt_base h
  cases r <;> simp only [Radix.base] at hlt <;> omega

theorem isFinite_ofNat_of_lt {d : Nat} (h : d < 16) : (Float.ofNat d).isFinite = true := by
  have hall : ∀ d : Fin 16, (Float.ofNat d).isFinite = true := by decide
  exact hall ⟨d, h⟩

theorem unpack_base (r : Radix) :
    ∃ s m e hm, (Float.ofNat r.base).toModel.unpack = .finite s m e hm := by
  cases r
  · exact ⟨_, _, _, _, rfl⟩
  · exact ⟨_, _, _, _, rfl⟩
  · exact ⟨_, _, _, _, rfl⟩

/-- Gathering digits keeps a number a number, also once the sum is infinite. -/
theorem isNaN_gather (r : Radix) {digits : List Char} {sum x : Float} (hsum : sum.isNaN = false)
    (h : digits.foldlM (fun sum c => (r.digit? c).map fun d =>
      sum * Float.ofNat r.base + Float.ofNat d) sum = some x) : x.isNaN = false := by
  induction digits generalizing sum with
  | nil => cases h; exact hsum
  | cons c cs ih =>
    rw [List.foldlM_cons] at h
    cases hd : r.digit? c with
    | none => rw [hd] at h; cases h
    | some d =>
      rw [hd] at h
      obtain ⟨s, m, e, hm, hbase⟩ := unpack_base r
      exact ih (isNaN_add (isNaN_mul hsum hbase) (isFinite_ofNat_of_lt (digit?_lt hd))) h

/-- A numeral in another base is a number. -/
theorem isNaN_of_value? {r : Radix} {digits : List Char} {x : Float}
    (h : r.value? digits = some x) : x.isNaN = false := by
  unfold Radix.value? at h
  split at h
  · cases h
  · exact isNaN_gather r (by decide) h

theorem isNaN_nearest (num den : Nat) : (nearest num den).isNaN = false := by
  unfold nearest
  split
  · decide
  · exact isNaN_ofBits (Nat.min_le_right ..)

/-- A decimal numeral is a number. -/
theorem isNaN_toFloat (d : Decimal) : d.toFloat.isNaN = false := by
  unfold Decimal.toFloat
  split
  · decide
  · split
    · decide
    · split
      · decide
      · exact isNaN_nearest ..

end FormulaField
