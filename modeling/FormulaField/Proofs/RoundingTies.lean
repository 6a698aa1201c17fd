import FormulaField.Proofs.Exactness

/-!
What digits behind a number mean for its rounding. Zeros only move it up, and less than half of the last
place changes nothing. So a number that is longer than 53 binary digits already may be rounded before
more digits come or after, unless it lies half-way between two numbers of 53 digits: of these the even
one is taken, and if that is the lower one, what comes later would have shown that the upper one is nearer.
-/

namespace FormulaField

section
variable {c d k m p w : Nat}

/-! ### Digits behind a number -/

theorem append_div (p : Nat) (hw : w < 2 ^ c) : (p * 2 ^ c + w) / 2 ^ c = p := by
  rw [Nat.mul_comm, Nat.mul_add_div (Nat.two_pow_pos c), Nat.div_eq_of_lt hw, Nat.add_zero]

theorem append_mod (p : Nat) (hw : w < 2 ^ c) : (p * 2 ^ c + w) % 2 ^ c = w := by
  rw [Nat.mul_comm, Nat.mul_add_mod, Nat.mod_eq_of_lt hw]

theorem log2_append (hp : p ≠ 0) (hw : w < 2 ^ c) : (p * 2 ^ c + w).log2 = p.log2 + c := by
  have hlow := Nat.log2_self_le hp
  have hhigh : p + 1 ≤ 2 ^ (p.log2 + 1) := Nat.lt_log2_self
  rw [Nat.log2_eq_iff (by positivity), Nat.pow_add, Nat.add_right_comm, Nat.pow_add _ _ c]
  refine ⟨Nat.le_add_right_of_le (Nat.mul_le_mul_right _ hlow), ?_⟩
  calc p * 2 ^ c + w < p * 2 ^ c + 2 ^ c := Nat.add_lt_add_left hw _
    _ = (p + 1) * 2 ^ c := (Nat.succ_mul ..).symm
    _ ≤ 2 ^ (p.log2 + 1) * 2 ^ c := Nat.mul_le_mul_right _ hhigh

theorem excess_append (hp : 2 ^ 52 ≤ p) (hw : w < 2 ^ c) :
    excess (p * 2 ^ c + w) = excess p + c := by
  have hne : p ≠ 0 := by omega
  have hlog : 52 ≤ p.log2 := (Nat.le_log2 hne).mpr hp
  rw [excess, log2_append hne hw, excess]
  omega

/-- Zeros at the end do not matter for rounding. -/
theorem round53_scale (n j : Nat) : round53 (n * 2 ^ j) = round53 n * 2 ^ j := by
  rcases Nat.lt_or_ge n (2 ^ 52) with hlt | hge
  · rw [round53_mul (by omega), round53_of_le (by omega)]
  · have hexcess := excess_append (w := 0) hge (Nat.two_pow_pos j)
    rw [Nat.add_zero] at hexcess
    rw [round53, hexcess, halfEven_scale, Nat.pow_add, ← Nat.mul_assoc, round53]

/-- Less than half of the last place does not change a number of 53 digits. -/
theorem round53_add_small (hlow : 2 ^ 52 ≤ m) (hhigh : m < 2 ^ 53) (hd : 2 * d < 2 ^ k) :
    round53 (m * 2 ^ k + d) = m * 2 ^ k := by
  have hlt : d < 2 ^ k := by omega
  have hexcess : excess (m * 2 ^ k + d) = k := by
    rw [excess_append hlow hlt, excess_of_lt hhigh, Nat.zero_add]
  rw [round53, hexcess, halfEven, append_div m hlt, append_mod m hlt, if_pos hd]

theorem excess_pos (hp : 2 ^ 53 ≤ p) : 0 < excess p := by
  have hlog : 53 ≤ p.log2 := (Nat.le_log2 (by omega)).mpr hp
  unfold excess
  omega

/-- What is longer than 53 digits is rounded to 53 digits and a zero. -/
theorem exists_round53 (hp : 2 ^ 53 ≤ p) :
    ∃ m k, round53 p = m * 2 ^ (k + 1) ∧ 2 ^ 52 ≤ m ∧ m < 2 ^ 53 := by
  obtain ⟨k, hk⟩ : ∃ k, excess p = k + 1 := Nat.exists_eq_add_one.mpr (excess_pos hp)
  have hlow := le_halfEven (le_of_excess (excess_pos hp))
  rcases Nat.lt_or_eq_of_le (halfEven_le (lt_of_excess p)) with hlt | heq
  · exact ⟨halfEven p (excess p), k, by rw [round53, hk], hlow, hlt⟩
  · refine ⟨2 ^ 52, k + 1, ?_, by decide, by decide⟩
    rw [round53, heq, hk, Nat.pow_succ 2 (k + 1)]
    omega

/-! ### Ties -/

/-- `p` lies half-way between two numbers of 53 digits and zeros, of which the lower one is even: it has
54 digits, which end in `01`, and zeros. -/
def IsLowTie (p : Nat) : Prop :=
  ∃ m k, p = (4 * m + 1) * 2 ^ k ∧ 2 ^ 53 ≤ 4 * m + 1 ∧ 4 * m + 1 < 2 ^ 54

/-- The quotient of a number with digits behind it, and what is left. -/
theorem div_mod_append (p k : Nat) (hw : w < 2 ^ c) :
    (p * 2 ^ c + w) / 2 ^ (k + c) = p / 2 ^ k ∧
      (p * 2 ^ c + w) % 2 ^ (k + c) = p % 2 ^ k * 2 ^ c + w := by
  rw [Nat.add_comm k, Nat.pow_add, ← Nat.div_div_eq_div_mul, Nat.mod_mul, append_div p hw,
    append_mod p hw, Nat.add_comm w, Nat.mul_comm (2 ^ c)]
  exact ⟨rfl, rfl⟩

theorem quotient_bounds (hp : 2 ^ 53 ≤ p) :
    2 ^ 52 ≤ p / 2 ^ excess p ∧ p / 2 ^ excess p < 2 ^ 53 :=
  ⟨(Nat.le_div_iff_mul_le (Nat.two_pow_pos _)).mpr (le_of_excess (excess_pos hp)),
    (Nat.div_lt_iff_lt_mul (Nat.two_pow_pos _)).mpr (lt_of_excess p)⟩

theorem isLowTie_of_even (hp : 2 ^ 53 ≤ p) (hhalf : 2 * (p % 2 ^ excess p) = 2 ^ excess p)
    (heven : p / 2 ^ excess p % 2 = 0) : IsLowTie p := by
  obtain ⟨hlow, hhigh⟩ := quotient_bounds hp
  obtain ⟨k, hk⟩ : ∃ k, excess p = k + 1 := Nat.exists_eq_add_one.mpr (excess_pos hp)
  have hdiv := Nat.div_add_mod' p (2 ^ excess p)
  refine ⟨p / 2 ^ excess p / 2, k, ?_, by omega, by omega⟩
  have hfour : 4 * (p / 2 ^ excess p / 2) + 1 = 2 * (p / 2 ^ excess p) + 1 := by omega
  have hpow : 2 ^ excess p = 2 * 2 ^ k := by rw [hk, Nat.pow_succ']
  rw [hfour, Nat.succ_mul, Nat.mul_assoc, Nat.mul_left_comm, ← hpow]
  omega

/-- Digits behind a number that is too long already are of no account for rounding, unless they break a
tie. -/
theorem round53_append (hp : 2 ^ 53 ≤ p) (hw : w < 2 ^ c) (htie : ¬(w ≠ 0 ∧ IsLowTie p)) :
    round53 (p * 2 ^ c + w) = round53 p * 2 ^ c := by
  by_cases hzero : w = 0
  · rw [hzero]
    exact round53_scale p c
  · obtain ⟨hdiv, hmod⟩ := div_mod_append p (excess p) hw
    suffices hhalf : halfEven (p * 2 ^ c + w) (excess p + c) = halfEven p (excess p) by
      rw [round53, excess_append (by omega) hw, hhalf, Nat.pow_add, ← Nat.mul_assoc, round53]
    have hpos := Nat.two_pow_pos c
    have heven : 2 * (p % 2 ^ excess p) = 2 ^ excess p → p / 2 ^ excess p % 2 = 1 := fun h =>
      (Nat.mod_two_eq_zero_or_one _).resolve_left fun h' => htie ⟨hzero, isLowTie_of_even hp h h'⟩
    rw [halfEven, halfEven, hdiv, hmod, Nat.pow_add]
    generalize p / 2 ^ excess p = q at heven
    generalize p % 2 ^ excess p = r at heven
    obtain ⟨j, hj⟩ : ∃ j, excess p = j + 1 := Nat.exists_eq_add_one.mpr (excess_pos hp)
    obtain ⟨s, hs⟩ : ∃ s, 2 ^ excess p = 2 * s := ⟨2 ^ j, by rw [hj, Nat.pow_succ']⟩
    rw [hs] at heven ⊢
    rw [Nat.mul_assoc 2 s]
    rcases Nat.lt_trichotomy r s with hlt | rfl | hgt
    · have hle : (r + 1) * 2 ^ c ≤ s * 2 ^ c := Nat.mul_le_mul_right _ hlt
      rw [Nat.succ_mul] at hle
      rw [if_pos (by omega), if_pos (by omega)]
    · rw [if_neg (by omega), if_neg (by omega), if_neg (by omega), if_pos rfl, heven rfl]
    · have hle : (s + 1) * 2 ^ c ≤ r * 2 ^ c := Nat.mul_le_mul_right _ hgt
      rw [Nat.succ_mul] at hle
      rw [if_neg (by omega), if_neg (by omega), if_neg (by omega), if_neg (by omega)]

/-- Digits that break a tie make the upper neighbour the nearest. -/
theorem round53_tie (hlow : 2 ^ 53 ≤ 4 * m + 1) (hhigh : 4 * m + 1 < 2 ^ 54) (hw : w < 2 ^ c)
    (hne : w ≠ 0) : round53 ((4 * m + 1) * 2 ^ k) = 2 * m * 2 ^ (k + 1) ∧
      round53 ((4 * m + 1) * 2 ^ k * 2 ^ c + w) = (2 * m + 1) * 2 ^ (k + 1 + c) := by
  have hexcess : excess (4 * m + 1) = 1 := by
    have hlog : (4 * m + 1).log2 = 53 := (Nat.log2_eq_iff (by omega)).mpr ⟨hlow, hhigh⟩
    rw [excess, hlog]
  have hdiv : (4 * m + 1) / 2 ^ 1 = 2 * m := by omega
  have hmod : (4 * m + 1) % 2 ^ 1 = 1 := by omega
  constructor
  · have hround : round53 (4 * m + 1) = 2 * m * 2 := by
      rw [round53, hexcess, halfEven, hdiv, hmod, if_neg (by decide), if_pos (by decide)]
      omega
    rw [round53_scale, hround, Nat.mul_assoc, ← Nat.pow_succ']
  · have hpow : (4 * m + 1) * 2 ^ k * 2 ^ c + w = (4 * m + 1) * 2 ^ (k + c) + w := by
      rw [Nat.mul_assoc, ← Nat.pow_add]
    have hw' : w < 2 ^ (k + c) :=
      Nat.lt_of_lt_of_le hw (Nat.pow_le_pow_right (by decide) (Nat.le_add_left c k))
    obtain ⟨hdiv', hmod'⟩ := div_mod_append (4 * m + 1) 1 hw'
    have hsum : k + 1 + c = 1 + (k + c) := by omega
    rw [hpow, round53, excess_append (by omega) hw', hexcess, halfEven, hdiv', hmod', hdiv, hmod, hsum,
      Nat.pow_add 2 1, if_neg (by omega), if_neg (by omega)]

end

end FormulaField
