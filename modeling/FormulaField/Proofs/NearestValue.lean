import FormulaField.Proofs.FloatCount

/-!
The binary64 value nearest to a natural number. Rounding to 53 digits gives the nearest number of 53
digits and zeros, and the even one of two; a finite value is such a number of units, so reading a natural
number with one rounding gives the nearest value. Half-way between the largest finite value and the next
power of two infinity begins.
-/

namespace FormulaField

/-! ### Rounding is nearest -/

section
variable {n k q m j u : Nat} {z : Int}

theorem mul_le_or_le_mul (q p d : Nat) : q * d ≤ p * d ∨ (p + 1) * d ≤ q * d := by
  rcases Nat.lt_or_ge p q with hlt | hge
  · exact Or.inr (Nat.mul_le_mul_right d hlt)
  · exact Or.inl (Nat.mul_le_mul_right d hge)

/-- A quotient is rounded to a neighbour that is not farther than the other. -/
theorem halfEven_cases (n k : Nat) :
    halfEven n k = n / 2 ^ k ∧ 2 * (n % 2 ^ k) ≤ 2 ^ k ∨
      halfEven n k = n / 2 ^ k + 1 ∧ 2 ^ k ≤ 2 * (n % 2 ^ k) := by
  unfold halfEven
  split
  · exact Or.inl ⟨rfl, by omega⟩
  · split
    · omega
    · exact Or.inr ⟨rfl, by omega⟩

theorem halfEven_tie (h : 2 * (n % 2 ^ k) = 2 ^ k) : halfEven n k % 2 = 0 := by
  rw [halfEven, if_neg (by omega), if_pos h]
  omega

/-- No multiple of the power of two is nearer than the rounded one. -/
theorem halfEven_nearest (n k q : Nat) :
    ((halfEven n k * 2 ^ k : Nat) - n : Int).natAbs ≤ ((q * 2 ^ k : Nat) - n : Int).natAbs := by
  have hdiv := Nat.div_add_mod' n (2 ^ k)
  have hmod := Nat.mod_lt n (Nat.two_pow_pos k)
  have hside := mul_le_or_le_mul q (n / 2 ^ k) (2 ^ k)
  rw [Nat.succ_mul] at hside
  rcases halfEven_cases n k with ⟨hhalf, hle⟩ | ⟨hhalf, hle⟩ <;> rw [hhalf]
  · omega
  · rw [Nat.succ_mul]
    omega

/-- If another multiple is as near, the two are the neighbours of the quotient. -/
theorem halfEven_tied (hq : q ≠ halfEven n k) (heq : ((halfEven n k * 2 ^ k : Nat) - n : Int).natAbs =
    ((q * 2 ^ k : Nat) - n : Int).natAbs) : 2 * (n % 2 ^ k) = 2 ^ k ∧
      (halfEven n k = n / 2 ^ k ∧ q = n / 2 ^ k + 1 ∨ halfEven n k = n / 2 ^ k + 1 ∧ q = n / 2 ^ k) := by
  have hpos := Nat.two_pow_pos k
  have hdiv := Nat.div_add_mod' n (2 ^ k)
  have hmod := Nat.mod_lt n hpos
  have hside := mul_le_or_le_mul q (n / 2 ^ k) (2 ^ k)
  rw [Nat.succ_mul] at hside
  rcases halfEven_cases n k with ⟨hhalf, hle⟩ | ⟨hhalf, hle⟩ <;> rw [hhalf] at hq heq
  · have hne : q * 2 ^ k ≠ n / 2 ^ k * 2 ^ k := fun h => hq (Nat.eq_of_mul_eq_mul_right hpos h)
    have hnext : q * 2 ^ k = (n / 2 ^ k + 1) * 2 ^ k := by
      rw [Nat.succ_mul]
      omega
    refine ⟨?_, Or.inl ⟨hhalf, Nat.eq_of_mul_eq_mul_right hpos hnext⟩⟩
    rw [Nat.succ_mul] at hnext
    omega
  · have hne : q * 2 ^ k ≠ (n / 2 ^ k + 1) * 2 ^ k := fun h => hq (Nat.eq_of_mul_eq_mul_right hpos h)
    rw [Nat.succ_mul] at heq hne
    have hsame : q * 2 ^ k = n / 2 ^ k * 2 ^ k := by omega
    exact ⟨by omega, Or.inr ⟨hhalf, Nat.eq_of_mul_eq_mul_right hpos hsame⟩⟩

/-- A number of 53 digits and zeros is a multiple of the last place of `u`, or it has fewer digits. -/
theorem grid_cases (hm : m < 2 ^ 53) (j u : Nat) : (∃ q, m * 2 ^ j = q * 2 ^ excess u) ∨
    m * 2 ^ j < 2 ^ 52 * 2 ^ excess u ∧ 2 ^ 52 * 2 ^ excess u ≤ u := by
  rcases Nat.lt_or_ge j (excess u) with hlt | hge
  · refine Or.inr ⟨?_, le_of_excess (Nat.zero_lt_of_lt hlt)⟩
    calc m * 2 ^ j < 2 ^ 53 * 2 ^ j := Nat.mul_lt_mul_of_pos_right hm (Nat.two_pow_pos j)
      _ = 2 ^ (53 + j) := (Nat.pow_add ..).symm
      _ ≤ 2 ^ (52 + excess u) := Nat.pow_le_pow_right (by decide) (by omega)
      _ = 2 ^ 52 * 2 ^ excess u := Nat.pow_add ..
  · refine Or.inl ⟨m * 2 ^ (j - excess u), ?_⟩
    rw [Nat.mul_assoc, ← Nat.pow_add, Nat.sub_add_cancel hge]

/-- No number of 53 digits and zeros is nearer than the rounded one. -/
theorem round53_nearest (hm : m < 2 ^ 53) (j u : Nat) :
    ((round53 u : Nat) - u : Int).natAbs ≤ ((m * 2 ^ j : Nat) - u : Int).natAbs := by
  rcases grid_cases hm j u with ⟨q, hq⟩ | ⟨hlt, hle⟩
  · rw [hq]
    exact halfEven_nearest u (excess u) q
  · have hnearest := halfEven_nearest u (excess u) (2 ^ 52)
    change ((round53 u : Nat) - u : Int).natAbs ≤ _ at hnearest
    omega

/-- If another is as near, the rounded one is even in its last place, and the other is odd there. -/
theorem round53_tied (hm : m < 2 ^ 53) (hne : m * 2 ^ j ≠ round53 u)
    (heq : ((round53 u : Nat) - u : Int).natAbs = ((m * 2 ^ j : Nat) - u : Int).natAbs) :
    halfEven u (excess u) % 2 = 0 ∧
      ∃ q, m * 2 ^ j = q * 2 ^ excess u ∧ 2 ^ 52 ≤ q ∧ q < 2 ^ 53 ∧ q % 2 = 1 := by
  rcases grid_cases hm j u with ⟨q, hq⟩ | ⟨hlt, hle⟩
  · rw [hq] at hne heq ⊢
    have hother : q ≠ halfEven u (excess u) := fun h => hne (by rw [h, round53])
    obtain ⟨htie, hneighbours⟩ := halfEven_tied hother heq
    have heven := halfEven_tie htie
    have hpos : 0 < excess u := by
      refine Nat.pos_of_ne_zero fun hzero => ?_
      rw [hzero, Nat.pow_zero, Nat.mod_one] at htie
      cases htie
    have hlow : 2 ^ 52 ≤ u / 2 ^ excess u :=
      (Nat.le_div_iff_mul_le (Nat.two_pow_pos _)).mpr (le_of_excess hpos)
    have hhigh : u / 2 ^ excess u < 2 ^ 53 := Nat.div_lt_of_lt_mul (by
      rw [Nat.mul_comm]
      exact lt_of_excess u)
    exact ⟨heven, q, rfl, by omega, by omega, by omega⟩
  · have hnearest := halfEven_nearest u (excess u) (2 ^ 52)
    change ((round53 u : Nat) - u : Int).natAbs ≤ _ at hnearest
    omega

/-! ### Where infinity begins -/

/-- Half-way between the largest finite value and the next power of two it is rounded up. -/
theorem ceiling_le_round53_iff :
    ceiling ≤ round53 u ↔ (2 ^ 54 - 1) * 2 ^ 2044 ≤ u := by
  obtain ⟨k, hk⟩ : ∃ k, k = 2044 := ⟨2044, rfl⟩
  rw [← hk, ← two_pow_eq_ceiling (k := 54 + k) (by omega)]
  have hlast := Nat.two_pow_pos k
  rw [Nat.pow_add]
  constructor
  · intro hle
    by_contra hlt
    have hnearest := round53_nearest (m := 2 ^ 53 - 1) (by decide) (k + 1) u
    have hmono : u ≤ (2 ^ 53 - 1) * 2 ^ (k + 1) → round53 u ≤ (2 ^ 53 - 1) * 2 ^ (k + 1) := by
      intro h
      have hrepresentable := round53_mul (m := 2 ^ 53 - 1) (by decide) (k + 1)
      rw [← hrepresentable]
      exact round53_mono h
    rw [Nat.pow_succ] at hnearest hmono
    omega
  · intro hle
    have hlog : ((2 ^ 54 - 1) * 2 ^ k).log2 = 53 + k := log2_mul_two_pow (by decide) k
    have hround : round53 ((2 ^ 54 - 1) * 2 ^ k) = 2 ^ 54 * 2 ^ k := by
      have hexcess : excess ((2 ^ 54 - 1) * 2 ^ k) = 1 + k := by
        rw [excess, hlog]
        omega
      have hhalf : halfEven (2 ^ 54 - 1) 1 = 2 ^ 53 := by decide
      rw [round53, hexcess, halfEven_scale, hhalf, Nat.pow_add]
      omega
    rw [← hround]
    exact round53_mono hle

theorem ceiling_le_round53_mul_iff :
    ceiling ≤ round53 (n * unitsOfOne) ↔ 2 ^ 1024 - 2 ^ 970 ≤ n := by
  obtain ⟨i, hi⟩ : ∃ i, i = 970 := ⟨970, rfl⟩
  obtain ⟨j, hj⟩ : ∃ j, j = 1024 := ⟨1024, rfl⟩
  obtain ⟨k, hk⟩ : ∃ k, k = 1074 := ⟨1074, rfl⟩
  have hlimit : j = 54 + i := by omega
  have hmidpoint : 2044 = i + k := by omega
  rw [ceiling_le_round53_iff, hmidpoint, ← hi, ← hj, hlimit, ← two_pow_eq_unitsOfOne hk,
    Nat.pow_add 2 54, Nat.pow_add 2 i, ← Nat.mul_assoc, Nat.mul_le_mul_right_iff (Nat.two_pow_pos k),
    Nat.sub_mul, Nat.one_mul]

end

/-! ### The nearest value -/

/-- The finite value that is nearest to `n`: none is nearer, and if another is as near, this one ends
in a zero bit. -/
structure IsNearestFinite (n : Nat) (x : Float) : Prop where
  isFinite : x.isFinite = true
  isNegative : isNegative x = false
  nearest : ∀ y : Float, y.isFinite = true → |rational x - n| ≤ |rational y - n|
  even : ∀ y : Float, y.isFinite = true → |rational x - n| = |rational y - n| →
    rational y ≠ rational x → x.toBits.toNat % 2 = 0

/-- The binary64 value that is nearest to `n`. It is infinity for all that is at least half-way from the
largest finite value to the next power of two. -/
def IsNearest (n : Nat) (x : Float) : Prop :=
  (n < 2 ^ 1024 - 2 ^ 970 → IsNearestFinite n x) ∧ (2 ^ 1024 - 2 ^ 970 ≤ n → x = infinity)

section
variable {n c : Nat} {x y : Float}

/-- A finite value counts units with a number of 53 digits and zeros. -/
theorem exists_natAbs_units (h : y.isFinite = true) :
    ∃ m j, m < 2 ^ 53 ∧ (units y).natAbs = m * 2 ^ j := by
  have hcanonical : Canonical y.toModel.unpack := (canonical_unpack _).1
  change y.toModel.unpack.isFinite = true at h
  change ∃ m j, m < 2 ^ 53 ∧ (unpackedUnits y.toModel.unpack).natAbs = m * 2 ^ j
  cases hu : y.toModel.unpack with
  | notANumber | infinity s => rw [hu] at h; cases h
  | zero s => exact ⟨0, 0, by decide, rfl⟩
  | finite s m e hm =>
    rw [hu] at hcanonical
    refine ⟨m, (e + 1074).toNat, hcanonical.1, ?_⟩
    cases s
    · exact Int.natAbs_neg _
    · rfl

/-- No finite value is nearer than the rounded number, and one that is as near ends in a one bit. -/
theorem units_nearest (h : y.isFinite = true) (u : Nat) :
    ((round53 u : Nat) - u : Int).natAbs ≤ (units y - u).natAbs ∧
    (((round53 u : Nat) - u : Int).natAbs = (units y - u).natAbs → units y ≠ (round53 u : Nat) →
      halfEven u (excess u) % 2 = 0 ∧
        ∃ q, units y = (q * 2 ^ excess u : Nat) ∧ 2 ^ 52 ≤ q ∧ q < 2 ^ 53 ∧ q % 2 = 1) := by
  obtain ⟨m, j, hm, hunits⟩ := exists_natAbs_units h
  rcases lt_or_ge (units y) 0 with hneg | hpos
  · -- Zero is nearer than what has a minus sign.
    have hzero := round53_nearest (m := 0) (by decide) 0 u
    exact ⟨by omega, fun heq => by omega⟩
  · have hy : units y = (m * 2 ^ j : Nat) := by omega
    rw [hy]
    refine ⟨round53_nearest hm j u, fun heq hne => ?_⟩
    obtain ⟨heven, q, hq, hbounds⟩ := round53_tied hm (fun h => hne (congrArg Nat.cast h)) heq
    exact ⟨heven, q, congrArg Nat.cast hq, hbounds⟩

/-- Distances from a natural number are told in units. -/
theorem abs_rational_sub (y : Float) (n : Nat) :
    |rational y - n| = ((units y - (n * unitsOfOne : Nat)).natAbs : ℚ) / unitsOfOne := by
  have hpos : (0 : ℚ) < unitsOfOne := Nat.cast_pos.mpr unitsOfOne_pos
  have hsub : rational y - n = ((units y - (n * unitsOfOne : Nat) : Int) : ℚ) / unitsOfOne := by
    rw [rational, Int.cast_sub, sub_div, Int.cast_natCast, Nat.cast_mul,
      mul_div_cancel_right₀ _ (ne_of_gt hpos)]
  rw [hsub, abs_div, abs_of_pos hpos, ← Int.cast_abs, Nat.cast_natAbs]

/-- The last bit of a rounded value is that of the rounded quotient. -/
theorem toBits_mod_two {u : Nat} (h : Counts x (round53 u)) :
    x.toBits.toNat % 2 = halfEven u (excess u) % 2 := by
  rcases Nat.eq_zero_or_pos (excess u) with hzero | hpos
  · have hround : round53 u = u := by rw [round53, hzero, halfEven_zero, Nat.pow_zero, Nat.mul_one]
    rw [hround] at h
    obtain ⟨m, hm, hbits⟩ := exists_units h.isNegative
    rw [h.unitCount, hzero, Nat.pow_zero, Nat.mul_one] at hm
    rw [hbits, h.unitCount, hzero, halfEven_zero, hm, Nat.zero_mul, Nat.zero_add]
  · have hlow := le_halfEven (le_of_excess hpos)
    have hhigh := halfEven_le (lt_of_excess u)
    unfold round53 at h
    rcases Nat.lt_or_eq_of_le hhigh with hlt | heq
    · rw [h.toBits hlow hlt]
      omega
    · -- The quotient was rounded up to the next power of two.
      have hcarry : 2 ^ 53 * 2 ^ excess u = 2 ^ 52 * 2 ^ (excess u + 1) := by
        rw [Nat.pow_succ 2 (excess u)]
        omega
      rw [heq, hcarry] at h
      rw [h.toBits (by decide) (by decide), heq]
      omega

theorem counts_infinity_value : Counts infinity ceiling where
  isMagnitude := rfl
  units := rfl

/-- A natural number that is rounded once gives the nearest value. -/
theorem isNearest_of_counts (h : Counts x (min (round53 (n * unitsOfOne)) ceiling)) :
    IsNearest n x := by
  have hpos : (0 : ℚ) < unitsOfOne := Nat.cast_pos.mpr unitsOfOne_pos
  refine ⟨fun hn => ?_, fun hn => ?_⟩
  · have hlt : round53 (n * unitsOfOne) < ceiling :=
      Nat.lt_of_not_le fun hle => Nat.not_le_of_lt hn (ceiling_le_round53_mul_iff.mp hle)
    rw [Nat.min_eq_left (Nat.le_of_lt hlt)] at h
    refine ⟨h.isFinite hlt, h.isNegative, fun y hy => ?_, fun y hy heq hne => ?_⟩
    · rw [abs_rational_sub, abs_rational_sub, h.units, div_le_div_iff_of_pos_right hpos]
      exact Nat.cast_le.mpr (units_nearest hy _).1
    · rw [abs_rational_sub, abs_rational_sub, h.units, div_left_inj' (ne_of_gt hpos),
        Nat.cast_inj] at heq
      rw [toBits_mod_two h]
      refine ((units_nearest hy _).2 heq fun hsame => hne ?_).1
      rw [rational, rational, h.units, hsame]
  · rw [Nat.min_eq_right (ceiling_le_round53_mul_iff.mpr hn)] at h
    exact h.unique counts_infinity_value

/-- There is one nearest value. -/
theorem IsNearest.eq_ofNat (h : IsNearest n x) : x = Float.ofNat n := by
  have hpos : (0 : ℚ) < unitsOfOne := Nat.cast_pos.mpr unitsOfOne_pos
  have hnat := isNearest_of_counts (counts_ofNat n)
  rcases Nat.lt_or_ge n (2 ^ 1024 - 2 ^ 970) with hn | hn
  · have hx := h.1 hn
    have hy := hnat.1 hn
    have hlt : round53 (n * unitsOfOne) < ceiling :=
      Nat.lt_of_not_le fun hle => Nat.not_le_of_lt hn (ceiling_le_round53_mul_iff.mp hle)
    have hcounts := counts_ofNat n
    rw [Nat.min_eq_left (Nat.le_of_lt hlt)] at hcounts
    obtain ⟨c, hc⟩ := exists_counts hx.isFinite hx.isNegative
    have heq := le_antisymm (hy.nearest x hx.isFinite) (hx.nearest _ hy.isFinite)
    by_contra hne
    have hunits : units x ≠ (round53 (n * unitsOfOne) : Nat) := by
      rw [hc.units, Ne, Nat.cast_inj]
      intro hsame
      rw [hsame] at hc
      exact hne (hc.unique hcounts)
    have hrational : rational (Float.ofNat n) ≠ rational x := by
      rw [rational, rational, Ne, div_left_inj' (ne_of_gt hpos), Int.cast_inj, hcounts.units]
      exact hunits.symm
    have heven := hx.even _ hy.isFinite heq.symm hrational
    rw [abs_rational_sub, abs_rational_sub, hcounts.units, div_left_inj' (ne_of_gt hpos),
      Nat.cast_inj] at heq
    obtain ⟨-, q, hq, hlow, hhigh, hodd⟩ := (units_nearest hx.isFinite _).2 heq hunits
    have hbits : Counts x (q * 2 ^ excess (n * unitsOfOne)) := ⟨hc.isMagnitude, hq⟩
    rw [hbits.toBits hlow hhigh] at heven
    omega
  · rw [h.2 hn, hnat.2 hn]

end

end FormulaField
