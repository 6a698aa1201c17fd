import FormulaField.Proofs.NearestValue
import FormulaField.Proofs.RoundingTies
import FormulaField.Proofs.Tiling
import FormulaField.Proofs.TypedGrammar

/-!
Numerals in base two, eight and sixteen, rounded digit by digit. As long as the digits read so far have
no more than 53 binary digits, nothing is rounded. The digit that makes them longer rounds them once, and
no digit after it is large enough to change what has been rounded. So the value is the nearest one unless
the digits are rounded down from half-way between two values, and something is still to come; then it is
the value right below the nearest.
-/

namespace FormulaField

/-! ### Digits read one by one -/

namespace Radix

/-- The number of binary digits that one digit of the base stands for. -/
def bits : Radix → Nat
  | .binary => 1
  | .octal => 3
  | .hexadecimal => 4

theorem base_eq (r : Radix) : r.base = 2 ^ r.bits := by
  cases r <;> rfl

/-- The natural number that more digits make of `n`. -/
def naturalFrom? (r : Radix) (n : Nat) (digits : List Char) : Option Nat :=
  digits.foldlM (fun n c => (r.digit? c).map (r.base * n + ·)) n

/-- The same, rounded after every digit. -/
def roundedFrom? (r : Radix) (n : Nat) (digits : List Char) : Option Nat :=
  digits.foldlM (fun n c => (r.digit? c).map fun d => round53 (r.base * n + d)) n

section
variable {r : Radix} {c : Char} {cs u v : List Char} {a b m k n q w : Nat}

theorem naturalFrom?_cons : r.naturalFrom? a (c :: cs) = some n ↔
    ∃ d, r.digit? c = some d ∧ r.naturalFrom? (r.base * a + d) cs = some n := by
  cases hd : r.digit? c with
  | none => simp [naturalFrom?, hd]
  | some d => simp [naturalFrom?, hd]

theorem roundedFrom?_cons : r.roundedFrom? a (c :: cs) = some n ↔
    ∃ d, r.digit? c = some d ∧ r.roundedFrom? (round53 (r.base * a + d)) cs = some n := by
  cases hd : r.digit? c with
  | none => simp [roundedFrom?, hd]
  | some d => simp [roundedFrom?, hd]

theorem naturalFrom?_append : r.naturalFrom? a (u ++ v) = some n ↔
    ∃ q, r.naturalFrom? a u = some q ∧ r.naturalFrom? q v = some n := by
  rw [naturalFrom?, List.foldlM_append]
  exact Option.bind_eq_some_iff

theorem roundedFrom?_append : r.roundedFrom? a (u ++ v) = some n ↔
    ∃ q, r.roundedFrom? a u = some q ∧ r.roundedFrom? q v = some n := by
  rw [roundedFrom?, List.foldlM_append]
  exact Option.bind_eq_some_iff

/-- Digits behind a number move it up by their places, and are added to it. -/
theorem naturalFrom?_shift (h : r.naturalFrom? b cs = some w) (a : Nat) :
    r.naturalFrom? (a + b) cs = some (a * 2 ^ (r.bits * cs.length) + w) ∧
      w < (b + 1) * 2 ^ (r.bits * cs.length) := by
  induction cs generalizing a b with
  | nil =>
    cases h
    simp [naturalFrom?]
  | cons c cs ih =>
    obtain ⟨d, hd, hrest⟩ := naturalFrom?_cons.mp h
    have hlt := digit?_lt_base hd
    obtain ⟨hvalue, hbound⟩ := ih hrest (r.base * a)
    have hpow : 2 ^ (r.bits * (cs.length + 1)) = r.base * 2 ^ (r.bits * cs.length) := by
      rw [Nat.mul_succ, Nat.pow_add, Nat.mul_comm, base_eq]
    rw [List.length_cons, hpow]
    refine ⟨naturalFrom?_cons.mpr ⟨d, hd, ?_⟩, ?_⟩
    · rw [Nat.mul_add, Nat.add_assoc, hvalue, Nat.mul_left_comm, Nat.mul_assoc]
    · have hle : r.base * b + d + 1 ≤ (b + 1) * r.base := by
        rw [Nat.succ_mul, Nat.mul_comm]
        omega
      calc w < (r.base * b + d + 1) * 2 ^ (r.bits * cs.length) := hbound
        _ ≤ (b + 1) * r.base * 2 ^ (r.bits * cs.length) := Nat.mul_le_mul_right _ hle
        _ = (b + 1) * (r.base * 2 ^ (r.bits * cs.length)) := Nat.mul_assoc ..

theorem exists_naturalFrom? (h : r.naturalFrom? a cs = some n) (b : Nat) :
    ∃ w, r.naturalFrom? b cs = some w := by
  induction cs generalizing a b with
  | nil => exact ⟨b, rfl⟩
  | cons c cs ih =>
    obtain ⟨d, hd, hrest⟩ := naturalFrom?_cons.mp h
    obtain ⟨w, hw⟩ := ih hrest (r.base * b + d)
    exact ⟨w, naturalFrom?_cons.mpr ⟨d, hd, hw⟩⟩

theorem le_of_naturalFrom? (h : r.naturalFrom? a cs = some n) : a ≤ n := by
  obtain ⟨w, hw⟩ := exists_naturalFrom? h 0
  obtain ⟨hvalue, -⟩ := naturalFrom?_shift hw a
  rw [Nat.add_zero, h, Option.some_inj] at hvalue
  rw [hvalue]
  exact Nat.le_add_right_of_le (Nat.le_mul_of_pos_right _ (Nat.two_pow_pos _))

/-- Nothing is rounded up to 53 binary digits. -/
theorem roundedFrom?_of_lt (h : r.naturalFrom? a cs = some n) (hn : n < 2 ^ 53) :
    r.roundedFrom? a cs = some n := by
  induction cs generalizing a with
  | nil => exact h
  | cons c cs ih =>
    obtain ⟨d, hd, hrest⟩ := naturalFrom?_cons.mp h
    have hle := le_of_naturalFrom? hrest
    refine roundedFrom?_cons.mpr ⟨d, hd, ?_⟩
    rw [round53_of_le (by omega)]
    exact ih hrest

/-- Digits behind a number that has been rounded to 53 digits and a zero only move it up. -/
theorem roundedFrom?_of_rounded (h : r.naturalFrom? b cs = some w) (hlow : 2 ^ 52 ≤ m)
    (hhigh : m < 2 ^ 53) (k : Nat) :
    r.roundedFrom? (m * 2 ^ (k + 1)) cs = some (m * 2 ^ (k + 1) * 2 ^ (r.bits * cs.length)) := by
  induction cs generalizing b k with
  | nil => simp [roundedFrom?]
  | cons c cs ih =>
    obtain ⟨d, hd, hrest⟩ := naturalFrom?_cons.mp h
    have hlt := digit?_lt_base hd
    rw [base_eq] at hlt
    have hsmall : 2 * d < 2 ^ (k + r.bits + 1) := by
      calc 2 * d < 2 * 2 ^ r.bits := Nat.mul_lt_mul_of_pos_left hlt (by decide)
        _ = 2 ^ (r.bits + 1) := Nat.pow_succ'.symm
        _ ≤ 2 ^ (k + r.bits + 1) := Nat.pow_le_pow_right (by decide) (by omega)
    have hmoved : r.base * (m * 2 ^ (k + 1)) = m * 2 ^ (k + r.bits + 1) := by
      rw [base_eq, Nat.mul_left_comm, ← Nat.pow_add]
      congr 2
      omega
    have hlength : m * 2 ^ (k + r.bits + 1) * 2 ^ (r.bits * cs.length) =
        m * 2 ^ (k + 1) * 2 ^ (r.bits * (c :: cs).length) := by
      rw [List.length_cons, Nat.mul_assoc, Nat.mul_assoc, ← Nat.pow_add, ← Nat.pow_add, Nat.mul_succ]
      congr 2
      omega
    refine roundedFrom?_cons.mpr ⟨d, hd, ?_⟩
    rw [hmoved, round53_add_small hlow hhigh hsmall, ih hrest, hlength]

end

/-! ### The digit that is one too many -/

/-- A run of digits is cut behind the first digit with which it has more than 53 binary digits: with
this digit it is `p`, and the digits behind it are `w`. -/
structure Passes (r : Radix) (pre : List Char) (d : Char) (post : List Char) (p w : Nat) : Prop where
  before : ∃ q < 2 ^ 53, r.natural? pre = some q
  value : r.natural? (pre ++ [d]) = some p
  large : 2 ^ 53 ≤ p
  rest : r.natural? post = some w

section
variable {r : Radix} {d : Char} {ds pre post : List Char} {a n p w : Nat}

theorem Passes.values (h : r.Passes pre d post p w) : ∃ c, w < 2 ^ c ∧
    r.natural? (pre ++ d :: post) = some (p * 2 ^ c + w) ∧
    r.roundedFrom? 0 (pre ++ d :: post) = some (round53 p * 2 ^ c) := by
  obtain ⟨q, hlt, hq⟩ := h.before
  obtain ⟨q', hq', hd⟩ := naturalFrom?_append.mp h.value
  obtain rfl : q = q' := Option.some_inj.mp (hq.symm.trans hq')
  obtain ⟨value, hdigit, hp⟩ := naturalFrom?_cons.mp hd
  obtain rfl : r.base * q + value = p := Option.some_inj.mp hp
  obtain ⟨hshift, hbound⟩ := naturalFrom?_shift h.rest (r.base * q + value)
  rw [Nat.zero_add, Nat.one_mul] at hbound
  obtain ⟨m, k, hround, hlow, hhigh⟩ := exists_round53 h.large
  refine ⟨r.bits * post.length, hbound, ?_, ?_⟩
  · exact naturalFrom?_append.mpr ⟨q, hq, naturalFrom?_cons.mpr ⟨value, hdigit, hshift⟩⟩
  · refine roundedFrom?_append.mpr ⟨q, roundedFrom?_of_lt hq hlt, ?_⟩
    refine roundedFrom?_cons.mpr ⟨value, hdigit, ?_⟩
    rw [hround]
    exact roundedFrom?_of_rounded h.rest hlow hhigh k

theorem exists_cut (h : r.naturalFrom? a ds = some n) (ha : a < 2 ^ 53) (hn : 2 ^ 53 ≤ n) :
    ∃ pre d post p w, ds = pre ++ d :: post ∧ (∃ q < 2 ^ 53, r.naturalFrom? a pre = some q) ∧
      r.naturalFrom? a (pre ++ [d]) = some p ∧ 2 ^ 53 ≤ p ∧ r.naturalFrom? 0 post = some w := by
  induction ds generalizing a with
  | nil =>
    cases h
    omega
  | cons c cs ih =>
    obtain ⟨value, hdigit, hrest⟩ := naturalFrom?_cons.mp h
    rcases Nat.lt_or_ge (r.base * a + value) (2 ^ 53) with hlt | hge
    · obtain ⟨pre, d, post, p, w, rfl, ⟨q, hq, hpre⟩, hvalue, hlarge, hpost⟩ := ih hrest hlt
      exact ⟨c :: pre, d, post, p, w, rfl, ⟨q, hq, naturalFrom?_cons.mpr ⟨value, hdigit, hpre⟩⟩,
        naturalFrom?_cons.mpr ⟨value, hdigit, hvalue⟩, hlarge, hpost⟩
    · obtain ⟨w, hw⟩ := exists_naturalFrom? hrest 0
      exact ⟨[], c, cs, r.base * a + value, w, rfl, ⟨a, ha, rfl⟩,
        naturalFrom?_cons.mpr ⟨value, hdigit, rfl⟩, hge, hw⟩

theorem exists_passes (h : r.natural? ds = some n) (hn : 2 ^ 53 ≤ n) :
    ∃ pre d post p w, ds = pre ++ d :: post ∧ r.Passes pre d post p w := by
  obtain ⟨pre, d, post, p, w, hds, hpre, hvalue, hlarge, hpost⟩ := exists_cut h (by decide) hn
  exact ⟨pre, d, post, p, w, hds, hpre, hvalue, hlarge, hpost⟩

end

/-- The digits are rounded at a tie, and there are others behind that break it: with the digit that makes
them longer than 53 binary digits they lie half-way between two values, of which the lower one is even,
and what comes is not zero. -/
def BreaksTie (r : Radix) (ds : List Char) : Prop :=
  ∃ pre d post p w, ds = pre ++ d :: post ∧ r.Passes pre d post p w ∧ w ≠ 0 ∧ IsLowTie p

section
variable {r : Radix} {ds : List Char} {n : Nat}

/-- Unless a tie is broken, rounding after every digit is rounding once. -/
theorem roundedFrom?_of_not_breaksTie (h : r.natural? ds = some n) (htie : ¬r.BreaksTie ds) :
    r.roundedFrom? 0 ds = some (round53 n) := by
  rcases Nat.lt_or_ge n (2 ^ 53) with hlt | hge
  · rw [round53_of_le (Nat.le_of_lt hlt)]
    exact roundedFrom?_of_lt h hlt
  · obtain ⟨pre, d, post, p, w, rfl, hpasses⟩ := exists_passes h hge
    obtain ⟨c, hw, hvalue, hrounded⟩ := hpasses.values
    obtain rfl : n = p * 2 ^ c + w := Option.some_inj.mp (h.symm.trans hvalue)
    have hnot : ¬(w ≠ 0 ∧ IsLowTie p) := fun h => htie ⟨pre, d, post, p, w, rfl, hpasses, h⟩
    rw [hrounded, round53_append hpasses.large hw hnot]

/-- A broken tie is rounded down in spite of the digits behind it. -/
theorem roundedFrom?_of_breaksTie (h : r.natural? ds = some n) (htie : r.BreaksTie ds) :
    ∃ m k, 2 ^ 52 ≤ 2 * m ∧ 2 * m + 1 < 2 ^ 53 ∧ r.roundedFrom? 0 ds = some (2 * m * 2 ^ k) ∧
      round53 n = (2 * m + 1) * 2 ^ k := by
  obtain ⟨pre, d, post, p, w, rfl, hpasses, hne, m, k, rfl, hlow, hhigh⟩ := htie
  obtain ⟨c, hw, hvalue, hrounded⟩ := hpasses.values
  obtain rfl : n = (4 * m + 1) * 2 ^ k * 2 ^ c + w := Option.some_inj.mp (h.symm.trans hvalue)
  obtain ⟨hdown, hup⟩ := round53_tie hlow hhigh hw hne
  refine ⟨m, k + 1 + c, by omega, by omega, ?_, hup⟩
  rw [hrounded, hdown, Nat.mul_assoc, ← Nat.pow_add]

end

end Radix

/-! ### Values gathered as floats -/

theorem round53_mul_unitsOfOne (n : Nat) : round53 (n * unitsOfOne) = round53 n * unitsOfOne := by
  obtain ⟨k, hk⟩ : ∃ k, k = 1074 := ⟨1074, rfl⟩
  rw [← two_pow_eq_unitsOfOne hk, round53_scale]

theorem min_mul_ceiling {b : Nat} (a : Nat) (hb : 0 < b) :
    min (min a ceiling * b) ceiling = min (a * b) ceiling := by
  rcases Nat.le_total a ceiling with hle | hge
  · rw [Nat.min_eq_left hle]
  · rw [Nat.min_eq_right hge, Nat.min_eq_right (Nat.le_mul_of_pos_right _ hb),
      Nat.min_eq_right (Nat.le_trans hge (Nat.le_mul_of_pos_right _ hb))]

theorem min_round53_ceiling (a d : Nat) :
    min (round53 (min a ceiling + d)) ceiling = min (round53 (a + d)) ceiling := by
  rcases Nat.le_total a ceiling with hle | hge
  · rw [Nat.min_eq_left hle]
  · rw [Nat.min_eq_right hge, Nat.min_eq_right (ceiling_le_round53 (Nat.le_add_right ..)),
      Nat.min_eq_right (ceiling_le_round53 (Nat.le_add_right_of_le hge))]

namespace Radix

section
variable {r : Radix} {cs ds : List Char} {d n v : Nat} {x : Float}

theorem unpack_ofNat_base (r : Radix) : (Float.ofNat r.base).toModel.unpack =
    .finite .positive (2 ^ 52) (r.bits - 52) (by decide) := by
  cases r <;> rfl

/-- One digit more is one rounding more. -/
theorem counts_step (hx : Counts x (min (n * unitsOfOne) ceiling)) (hd : d ≤ 2 ^ 53) :
    Counts (x * Float.ofNat r.base + Float.ofNat d)
      (min (round53 (r.base * n + d) * unitsOfOne) ceiling) := by
  have hdigit : Counts (Float.ofNat d) (d * unitsOfOne) :=
    ⟨isMagnitude_ofNat d, by rw [units_ofNat_of_le hd, Nat.cast_mul]⟩
  have hsum := (hx.mul (unpack_ofNat_base r)).add hdigit
  have hunits : n * unitsOfOne * 2 ^ r.bits + d * unitsOfOne = (r.base * n + d) * unitsOfOne := by
    rw [base_eq, Nat.add_mul, Nat.mul_right_comm, Nat.mul_comm n]
  rwa [min_mul_ceiling _ (Nat.two_pow_pos _), min_round53_ceiling, hunits, round53_mul_unitsOfOne]
    at hsum

theorem exists_gathered (hx : Counts x (min (n * unitsOfOne) ceiling))
    (h : r.roundedFrom? n cs = some v) : ∃ y, cs.foldlM (fun sum c => (r.digit? c).map fun d =>
      sum * Float.ofNat r.base + Float.ofNat d) x = some y ∧
      Counts y (min (v * unitsOfOne) ceiling) := by
  induction cs generalizing n x with
  | nil =>
    cases h
    exact ⟨x, rfl, hx⟩
  | cons c cs ih =>
    obtain ⟨d, hd, hrest⟩ := roundedFrom?_cons.mp h
    have hlt := digit?_lt hd
    obtain ⟨y, hy, hcounts⟩ := ih (counts_step hx (by omega)) hrest
    refine ⟨y, ?_, hcounts⟩
    rw [List.foldlM_cons, hd]
    exact hy

/-- The value of a run of digits counts the units of its digits, rounded one by one. -/
theorem exists_value (hne : ds ≠ []) (h : r.roundedFrom? 0 ds = some v) :
    ∃ x, r.value? ds = some x ∧ Counts x (min (v * unitsOfOne) ceiling) := by
  have hzero : Counts (Float.ofBits 0) (min (0 * unitsOfOne) ceiling) :=
    ⟨rfl, by rw [Nat.zero_mul, Nat.zero_min]; rfl⟩
  obtain ⟨x, hx, hcounts⟩ := exists_gathered hzero h
  exact ⟨x, by rw [value?, if_neg hne, hx], hcounts⟩

/-- A numeral that is rounded once as a whole has the nearest value. -/
theorem isNearest_of_rounded (h : Counts x (min (round53 n * unitsOfOne) ceiling)) :
    IsNearest n x := by
  rw [← round53_mul_unitsOfOne] at h
  exact isNearest_of_counts h

/-- The bits of a number of 53 digits and zeros that is not too large. -/
theorem toBits_of_counts {a k : Nat} (h : Counts x (min (a * 2 ^ k * unitsOfOne) ceiling))
    (hlow : 2 ^ 52 ≤ a) (hhigh : a < 2 ^ 53) (hk : k ≤ 971) :
    x.toBits.toNat = (k + 1074) * 2 ^ 52 + a := by
  obtain ⟨j, hj⟩ : ∃ j, j = 1074 := ⟨1074, rfl⟩
  have hle : a * 2 ^ (k + j) ≤ ceiling := by
    calc a * 2 ^ (k + j) ≤ 2 ^ 53 * 2 ^ (k + j) := Nat.mul_le_mul_right _ (Nat.le_of_lt hhigh)
      _ = 2 ^ (53 + (k + j)) := (Nat.pow_add ..).symm
      _ ≤ ceiling := two_pow_le_ceiling (by omega)
  rw [← two_pow_eq_unitsOfOne hj, Nat.mul_assoc, ← Nat.pow_add, Nat.min_eq_left hle] at h
  rw [h.toBits hlow hhigh, hj]

theorem ceiling_le_of_large {a k : Nat} (hlow : 2 ^ 52 ≤ a) (hk : 972 ≤ k) :
    ceiling ≤ a * 2 ^ k * unitsOfOne := by
  obtain ⟨j, hj⟩ : ∃ j, j = 1074 := ⟨1074, rfl⟩
  rw [← two_pow_eq_unitsOfOne hj, Nat.mul_assoc, ← Nat.pow_add]
  calc ceiling ≤ 2 ^ (52 + (k + j)) := ceiling_le_two_pow (by omega)
    _ = 2 ^ 52 * 2 ^ (k + j) := Nat.pow_add ..
    _ ≤ a * 2 ^ (k + j) := Nat.mul_le_mul_right _ hlow

/-- Where the rounded number ends tells whether it is too large. -/
theorem place_cases {a k : Nat} (hlow : 2 ^ 52 < a) (hhigh : a < 2 ^ 53)
    (hround : round53 n = a * 2 ^ k) :
    (n < 2 ^ 1024 → k ≤ 971) ∧ (2 ^ 1024 ≤ n → 972 ≤ k) := by
  obtain ⟨j, hj⟩ : ∃ j, j = 1024 := ⟨1024, rfl⟩
  rw [← hj]
  refine ⟨fun hn => ?_, fun hn => ?_⟩
  · have hlt : 2 ^ (52 + k) < 2 ^ j := by
      calc 2 ^ (52 + k) = 2 ^ 52 * 2 ^ k := Nat.pow_add ..
        _ < a * 2 ^ k := Nat.mul_lt_mul_of_pos_right hlow (Nat.two_pow_pos k)
        _ = round53 n := hround.symm
        _ ≤ round53 (2 ^ j) := round53_mono (Nat.le_of_lt hn)
        _ = 2 ^ j := round53_two_pow j
    have hexponents := (Nat.pow_lt_pow_iff_right (by decide)).mp hlt
    omega
  · have hlt : 2 ^ j < 2 ^ (53 + k) := by
      calc 2 ^ j = round53 (2 ^ j) := (round53_two_pow j).symm
        _ ≤ round53 n := round53_mono hn
        _ = a * 2 ^ k := hround
        _ < 2 ^ 53 * 2 ^ k := Nat.mul_lt_mul_of_pos_right hhigh (Nat.two_pow_pos k)
        _ = 2 ^ (53 + k) := (Nat.pow_add ..).symm
    have hexponents := (Nat.pow_lt_pow_iff_right (by decide)).mp hlt
    omega

/-- A value that is one place too low is right below the nearest, unless both are infinite. -/
theorem nearest_of_low {m k : Nat} (hlow : 2 ^ 52 ≤ 2 * m) (hhigh : 2 * m + 1 < 2 ^ 53)
    (hround : round53 n = (2 * m + 1) * 2 ^ k)
    (h : Counts x (min (2 * m * 2 ^ k * unitsOfOne) ceiling)) :
    (n < 2 ^ 1024 → ∃ y, IsNearest n y ∧ y.toBits.toNat = x.toBits.toNat + 1) ∧
      (2 ^ 1024 ≤ n → IsNearest n x) := by
  obtain ⟨hsmall, hlarge⟩ := place_cases (Nat.lt_succ_of_le hlow) hhigh hround
  refine ⟨fun hn => ?_, fun hn => ?_⟩
  · have hnearest := counts_ofNat n
    refine ⟨Float.ofNat n, isNearest_of_counts hnearest, ?_⟩
    rw [round53_mul_unitsOfOne, hround] at hnearest
    rw [toBits_of_counts hnearest (by omega) hhigh (hsmall hn),
      toBits_of_counts h hlow (by omega) (hsmall hn), Nat.add_assoc]
  · refine isNearest_of_rounded ?_
    rw [hround, Nat.min_eq_right (ceiling_le_of_large (by omega) (hlarge hn))]
    rwa [Nat.min_eq_right (ceiling_le_of_large hlow (hlarge hn))] at h

end

end Radix

/-! ### Numerals with a mark -/

section
open Text

variable {c mark : Char} {cs ds : List Char} {r : Radix} {n : Nat}

theorem not_isPadding_of_isWordChar (h : isWordChar c = true) : isPadding c = false := by
  have hne : c ≠ '\uFEFF' := by
    rintro rfl
    exact absurd h (by decide +kernel)
  simp [isPadding, not_isBlank_of_isWordChar h, hne]

theorem trimBy_eq_self {drop : Char → Bool} (h : ∀ c ∈ cs, drop c = false) : trimBy drop cs = cs := by
  obtain ⟨pre, post, hcs, hpre, hpost⟩ := exists_eq_trimBy drop cs
  have hnil : pre = [] ∧ post = [] := by
    constructor <;> refine List.eq_nil_iff_forall_not_mem.mpr fun c hc => ?_
    · have hdrop := h c (by rw [hcs]; exact List.mem_append_left _ hc)
      rw [hpre c hc] at hdrop
      cases hdrop
    · have hdrop := h c (by rw [hcs]; exact List.mem_append_right _ (List.mem_append_right _ hc))
      rw [hpost c hc] at hdrop
      cases hdrop
  rw [hnil.1, hnil.2, List.nil_append, List.append_nil] at hcs
  exact hcs.symm

/-- A numeral with a mark has its value in a formula, and the same value as a typed number. -/
theorem literalValue?_marked {x : Float} (hmark : Radix.ofMark? mark = some r)
    (hx : r.value? ds = some x) :
    literalValue? (String.ofList ('0' :: mark :: ds)) = some x ∧
      typedNumber (String.ofList ('0' :: mark :: ds)) = x := by
  obtain ⟨hne, hall⟩ := Radix.value?_isSome_iff.mp (Option.isSome_iff_exists.mpr ⟨x, hx⟩)
  have hdigits := List.all_eq_true.mp hall
  have hmarked : IsMarked ('0' :: mark :: ds) := .intro hmark hne hdigits
  have hstrip : Radix.strip? ('0' :: mark :: ds) = some (r, ds) := by simp [Radix.strip?, hmark]
  have hvalue : literalValue? (String.ofList ('0' :: mark :: ds)) = some x := by
    rw [literalValue?_of_strip? hstrip, hx]
  have htrim : trimBy isPadding (String.ofList ('0' :: mark :: ds)).toList = '0' :: mark :: ds := by
    rw [String.toList_ofList]
    refine trimBy_eq_self fun c hc => not_isPadding_of_isWordChar ?_
    rcases List.mem_cons.mp hc with rfl | hc
    · decide
    · rcases List.mem_cons.mp hc with rfl | hc
      · exact isWordChar_of_ofMark? hmark
      · exact isWordChar_of_radixDigit (hdigits c hc)
  obtain ⟨htyped, -⟩ := typedNumber_of_numberForm htrim hmarked.numberForm.1 hmarked.numberForm.2
  rw [hvalue, Option.some_inj] at htyped
  exact ⟨hvalue, htyped.symm⟩

/-- A numeral in base two, eight or sixteen always has a value, and the same one in a formula and as a
typed number. It is the nearest to the number that the digits denote, except where the rounding after
every digit breaks a tie downwards and the number is not too large for a float: there, and only there, it
is the value right below the nearest. -/
theorem marked_nearest_iff (hmark : Radix.ofMark? mark = some r) (hne : ds ≠ [])
    (hn : r.natural? ds = some n) :
    ∃ x, literalValue? (String.ofList ('0' :: mark :: ds)) = some x ∧
      typedNumber (String.ofList ('0' :: mark :: ds)) = x ∧
      (IsNearest n x ↔ ¬(n < 2 ^ 1024 ∧ r.BreaksTie ds)) ∧
      (n < 2 ^ 1024 → r.BreaksTie ds →
        ∃ y, IsNearest n y ∧ y.toBits.toNat = x.toBits.toNat + 1) := by
  by_cases htie : r.BreaksTie ds
  · obtain ⟨m, k, hlow, hhigh, hrounded, hround⟩ := Radix.roundedFrom?_of_breaksTie hn htie
    obtain ⟨x, hx, hcounts⟩ := Radix.exists_value hne hrounded
    obtain ⟨hliteral, htyped⟩ := literalValue?_marked hmark hx
    obtain ⟨hbelow, hinfinite⟩ := Radix.nearest_of_low hlow hhigh hround hcounts
    refine ⟨x, hliteral, htyped, ⟨?_, ?_⟩, fun h _ => hbelow h⟩
    · rintro hnearest ⟨hlt, -⟩
      obtain ⟨y, hy, hbits⟩ := hbelow hlt
      rw [hnearest.eq_ofNat, hy.eq_ofNat] at hbits
      omega
    · intro hnot
      exact hinfinite (Nat.le_of_not_lt fun hlt => hnot ⟨hlt, htie⟩)
  · obtain ⟨x, hx, hcounts⟩ := Radix.exists_value hne (Radix.roundedFrom?_of_not_breaksTie hn htie)
    obtain ⟨hliteral, htyped⟩ := literalValue?_marked hmark hx
    exact ⟨x, hliteral, htyped, ⟨fun _ h => htie h.2, fun _ => Radix.isNearest_of_rounded hcounts⟩,
      fun _ h => absurd h htie⟩

/-- The digits `200000000000011` stand for `2 ^ 57 + 17` in base sixteen. The first fourteen of them are
`2 ^ 53 + 1`, half-way between two values, and the last one breaks the tie in vain. -/
theorem hexadecimal_tie_in_vain :
    let ds := "200000000000011".toList
    Radix.ofMark? 'x' = some .hexadecimal ∧ ds ≠ [] ∧
      Radix.hexadecimal.natural? ds = some (2 ^ 57 + 17) ∧ 2 ^ 57 + 17 < 2 ^ 1024 ∧
      Radix.hexadecimal.BreaksTie ds ∧
      ∃ x, literalValue? (String.ofList ('0' :: 'x' :: ds)) = some x ∧
        typedNumber (String.ofList ('0' :: 'x' :: ds)) = x ∧ ¬IsNearest (2 ^ 57 + 17) x ∧
        ∃ y, IsNearest (2 ^ 57 + 17) y ∧ y.toBits.toNat = x.toBits.toNat + 1 := by
  intro ds
  have hmark : Radix.ofMark? 'x' = some .hexadecimal := rfl
  have hne : ds ≠ [] := by decide
  have hn : Radix.hexadecimal.natural? ds = some (2 ^ 57 + 17) := by decide +kernel
  have hlt : 2 ^ 57 + 17 < 2 ^ 58 := by decide
  have hpower : ∀ j, 58 ≤ j → 2 ^ 57 + 17 < 2 ^ j := fun j hj =>
    Nat.lt_of_lt_of_le hlt (Nat.pow_le_pow_right (by decide) hj)
  have hlimit := hpower 1024 (by decide)
  have hpasses : Radix.hexadecimal.Passes "2000000000000".toList '1' ['1'] (2 ^ 53 + 1) 1 :=
    ⟨⟨2 ^ 49, by decide, by decide +kernel⟩, by decide +kernel, by decide, by decide +kernel⟩
  have htie : Radix.hexadecimal.BreaksTie ds :=
    ⟨_, _, _, _, _, by decide, hpasses, by decide, 2 ^ 51, 0, by decide, by decide, by decide⟩
  obtain ⟨x, hliteral, htyped, hnearest, hbelow⟩ := marked_nearest_iff hmark hne hn
  exact ⟨hmark, hne, hn, hlimit, htie, x, hliteral, htyped, fun h => hnearest.mp h ⟨hlimit, htie⟩,
    hbelow hlimit htie⟩

/-- Its value is `2 ^ 57`, and the nearest value is `2 ^ 57 + 32`. -/
theorem hexadecimal_below_nearest :
    literalValue? "0x200000000000011" = some (Float.ofBits 0x4380000000000000) ∧
      typedNumber "0x200000000000011" = Float.ofBits 0x4380000000000000 ∧
      ¬IsNearest (2 ^ 57 + 17) (Float.ofBits 0x4380000000000000) ∧
      IsNearest (2 ^ 57 + 17) (Float.ofBits 0x4380000000000001) := by
  have hnat : Float.ofNat (2 ^ 57 + 17) = Float.ofBits 0x4380000000000001 := by decide +kernel
  refine ⟨by decide +kernel, by decide +kernel, fun h => ?_, ?_⟩
  · have hsame := h.eq_ofNat.trans hnat
    exact absurd hsame (by decide)
  · rw [← hnat]
    exact isNearest_of_counts (counts_ofNat _)

end

end FormulaField
