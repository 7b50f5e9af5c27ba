import BlockScript.Number.Exact
import Mathlib

/-!
# Rounding to a double

A positive rational has a grid: the multiples of a power of two of which 53 bits reach up to it, or of
`2 ^ -1074` when that is larger. The double nearest to it is the nearest multiple, a half going to the even
one (`rounded`). Arithmetic on doubles works with a mantissa, a bit for the first half and a bit for what is
left; here these are read as the rational they stand for, so that every operation is one rounding of its exact
result.
-/

namespace BlockScript.Number

open Float.Model Float.Model.UnpackedFloat

/-! ## The nearest natural number -/

/-- The natural number nearest to a rational, a half going to the even one. -/
def roundEven (x : ℚ) : ℕ :=
  if x < ⌊x⌋₊ + 1 / 2 then ⌊x⌋₊
  else if ⌊x⌋₊ + 1 / 2 < x then ⌊x⌋₊ + 1
  else ⌊x⌋₊ + ⌊x⌋₊ % 2

theorem roundEven_le_floor_add_one (x : ℚ) : roundEven x ≤ ⌊x⌋₊ + 1 := by
  unfold roundEven
  split_ifs <;> omega

theorem floor_le_roundEven (x : ℚ) : ⌊x⌋₊ ≤ roundEven x := by
  unfold roundEven
  split_ifs <;> omega

/-- What lies within a half of a natural number rounds to it; at the half itself an even one wins. -/
theorem roundEven_eq {x : ℚ} {n : ℕ} (low : n - 1 / 2 ≤ x) (high : x ≤ n + 1 / 2)
    (ends : n % 2 = 1 → n - 1 / 2 < x ∧ x < n + 1 / 2) (nonneg : 0 ≤ x) : roundEven x = n := by
  rcases lt_or_ge x n with below | above
  · -- the floor is one less, and the fraction is at least a half
    have pos : 0 < n := by
      rw [Nat.pos_iff_ne_zero]
      rintro rfl
      exact absurd below (not_lt.mpr (by simpa using nonneg))
    have cast : ((n - 1 : ℕ) : ℚ) = n - 1 := by
      rw [Nat.cast_sub pos, Nat.cast_one]
    have floor : ⌊x⌋₊ = n - 1 := by
      rw [Nat.floor_eq_iff nonneg, cast]
      constructor <;> linarith
    unfold roundEven
    rw [floor, cast]
    split_ifs with h1 h2
    · linarith
    · omega
    · -- an odd number would not be reached from its half
      have even : n % 2 = 0 := by
        by_contra odd
        have := (ends (by omega)).1
        exact h2 (by linarith)
      omega
  · have floor : ⌊x⌋₊ = n := by
      rw [Nat.floor_eq_iff nonneg]
      constructor <;> linarith
    unfold roundEven
    rw [floor]
    split_ifs with h1 h2
    · rfl
    · linarith
    · have even : n % 2 = 0 := by
        by_contra odd
        have := (ends (by omega)).2
        exact h1 this
      omega

/-! ## Mantissas with two more bits -/

/-- A mantissa with its round bit and its sticky bit stands for a rational. -/
def Stands (em : ExtendedMantissa) (x : ℚ) : Prop :=
  match em.roundBit, em.stickyBit with
  | false, false => x = em.mantissa
  | false, true => em.mantissa < x ∧ x < em.mantissa + 1 / 2
  | true, false => x = em.mantissa + 1 / 2
  | true, true => em.mantissa + 1 / 2 < x ∧ x < em.mantissa + 1

theorem stands_exact (m : ℕ) : Stands (.ofMantissaAndAccuracy m .exact) m := rfl

theorem stands_fraction (m : ℕ) {n d : ℕ} (h : n < d) :
    Stands (.ofMantissaAndAccuracy m (accuracyOfFraction n d)) (m + n / d) := by
  have pos : (0 : ℚ) < d := by exact_mod_cast Nat.zero_lt_of_lt h
  have below : (n : ℚ) / d < 1 := by
    rw [div_lt_one pos]
    exact_mod_cast h
  unfold accuracyOfFraction
  by_cases zero : n = 0
  · simp [zero, Stands, ExtendedMantissa.ofMantissaAndAccuracy]
  · have positive : (0 : ℚ) < n / d := div_pos (by exact_mod_cast Nat.pos_of_ne_zero zero) pos
    rw [if_neg zero]
    -- the fraction compares with a half as twice its numerator with its denominator
    rcases Nat.lt_trichotomy (2 * n) d with hlt | heq | hgt
    · have half : (n : ℚ) / d < 1 / 2 := by
        rw [div_lt_div_iff₀ pos two_pos]
        exact_mod_cast (by omega : n * 2 < 1 * d)
      rw [Nat.compare_eq_lt.mpr hlt]
      show (m : ℚ) < m + n / d ∧ (m : ℚ) + n / d < m + 1 / 2
      constructor <;> linarith
    · have half : (n : ℚ) / d = 1 / 2 := by
        rw [div_eq_div_iff pos.ne' two_ne_zero]
        exact_mod_cast (by omega : n * 2 = 1 * d)
      rw [Nat.compare_eq_eq.mpr heq]
      show (m : ℚ) + n / d = m + 1 / 2
      rw [half]
    · have half : 1 / 2 < (n : ℚ) / d := by
        rw [div_lt_div_iff₀ two_pos pos]
        exact_mod_cast (by omega : 1 * d < n * 2)
      rw [Nat.compare_eq_gt.mpr hgt]
      show (m : ℚ) + 1 / 2 < m + n / d ∧ (m : ℚ) + n / d < m + 1
      constructor <;> linarith

section
variable {em : ExtendedMantissa} {x : ℚ}

theorem Stands.bounds (h : Stands em x) : (em.mantissa : ℚ) ≤ x ∧ x < em.mantissa + 1 := by
  rcases em with ⟨m, _ | _, _ | _⟩
  all_goals
    simp only [Stands] at h ⊢
    constructor <;> linarith

theorem Stands.floor (h : Stands em x) : ⌊x⌋₊ = em.mantissa := by
  have bounds := h.bounds
  rw [Nat.floor_eq_iff ((Nat.cast_nonneg _).trans bounds.1)]
  exact bounds

theorem Stands.roundedMantissa (h : Stands em x) : em.roundedMantissa = roundEven x := by
  have floor := h.floor
  unfold roundEven
  rw [floor]
  rcases em with ⟨m, _ | _, _ | _⟩
  all_goals
    simp only [Stands, ExtendedMantissa.roundedMantissa, ExtendedMantissa.accuracy,
      Accuracy.roundToNearestEven] at h ⊢
    split_ifs <;> first | rfl | linarith

theorem Stands.shiftRightOne (h : Stands em x) : Stands em.shiftRightOne (x / 2) := by
  rcases em with ⟨m, r, s⟩
  have halves : (m : ℚ) = 2 * (m / 2 : ℕ) + (m % 2 : ℕ) := by exact_mod_cast (Nat.div_add_mod m 2).symm
  rcases Nat.mod_two_eq_zero_or_one m with parity | parity
  all_goals
    rw [parity] at halves
    cases r <;> cases s <;>
      simp only [Stands, ExtendedMantissa.shiftRightOne, parity, Bool.or_false, Bool.or_true, bne_self_eq_false,
        show (1 != 0) = true from rfl] at h ⊢ <;>
      push_cast at halves
  all_goals first | linarith | exact ⟨by linarith, by linarith⟩

theorem Stands.shiftRight (h : Stands em x) (n : ℕ) : Stands (em >>> n) (x / 2 ^ n) := by
  show Stands (n.repeat ExtendedMantissa.shiftRightOne em) _
  induction n with
  | zero => simpa [Nat.repeat] using h
  | succ n ih =>
    rw [pow_succ, ← div_div]
    exact ih.shiftRightOne

end

/-! ## Grids -/

/-- The exponent of the grid that a positive rational is rounded to. -/
def grid (x : ℚ) : ℤ :=
  max (Int.log 2 x - 52) (-1074)

theorem grid_ge (x : ℚ) : -1074 ≤ grid x :=
  le_max_right _ _

theorem targetExponent_eq (t : ℤ) : Format.binary64.targetExponent t = max (t - 53) (-1074) := rfl

section
variable {x : ℚ}

theorem lt_of_grid (x : ℚ) : x < 2 ^ (grid x + 53) := by
  have log := Int.lt_zpow_succ_log_self one_lt_two x
  have mono : (2 : ℚ) ^ (Int.log 2 x + 1) ≤ 2 ^ (grid x + 53) := by
    apply zpow_le_zpow_right₀ one_le_two
    have := le_max_left (Int.log 2 x - 52) (-1074)
    unfold grid
    omega
  exact_mod_cast log.trans_le (by exact_mod_cast mono)

theorem scaled_nonneg (pos : 0 < x) (q : ℤ) : 0 ≤ x / 2 ^ q :=
  (div_pos pos (zpow_pos two_pos q)).le

/-- On its grid a rational has at most 53 bits, or is just one more when it is rounded up. -/
theorem roundEven_grid_le (pos : 0 < x) : roundEven (x / 2 ^ grid x) ≤ 2 ^ 53 := by
  have unit : (0 : ℚ) < 2 ^ grid x := zpow_pos two_pos _
  have small : x / 2 ^ grid x < (2 ^ 53 : ℕ) := by
    rw [div_lt_iff₀ unit]
    have := lt_of_grid x
    rw [zpow_add₀ two_ne_zero] at this
    push_cast
    linarith
  have floor := (Nat.floor_lt (scaled_nonneg pos _)).mpr small
  have := roundEven_le_floor_add_one (x / 2 ^ grid x)
  omega

theorem log_eq {m : ℕ} {e : ℤ} (hm : m ≠ 0) (low : (m : ℚ) ≤ x / 2 ^ e) (high : x / 2 ^ e < m + 1) :
    Int.log 2 x = m.log2 + e := by
  have unit : (0 : ℚ) < 2 ^ e := zpow_pos two_pos e
  have least : ((2 ^ m.log2 : ℕ) : ℚ) ≤ m := by exact_mod_cast Nat.log2_self_le hm
  have most : ((m + 1 : ℕ) : ℚ) ≤ (2 ^ (m.log2 + 1) : ℕ) := by exact_mod_cast Nat.lt_log2_self
  push_cast at least most
  have pos : 0 < x := by
    have : (0 : ℚ) < m := by exact_mod_cast Nat.pos_of_ne_zero hm
    exact (div_pos_iff_of_pos_right unit).mp (this.trans_le low)
  rw [le_div_iff₀ unit] at low
  rw [div_lt_iff₀ unit] at high
  apply le_antisymm
  · rw [← Int.lt_add_one_iff, ← Int.lt_zpow_iff_log_lt one_lt_two pos]
    push_cast
    rw [show (m.log2 : ℤ) + e + 1 = (m.log2 + 1 : ℕ) + e by push_cast; ring, zpow_add₀ two_ne_zero, zpow_natCast]
    nlinarith
  · rw [← Int.zpow_le_iff_le_log one_lt_two pos]
    push_cast
    rw [zpow_add₀ two_ne_zero, zpow_natCast]
    nlinarith

/-- The exponent that a mantissa is shifted to is the grid of what it stands for. -/
theorem target_eq_grid {m : ℕ} {e : ℤ} (pos : 0 < x) (low : (m : ℚ) ≤ x / 2 ^ e) (high : x / 2 ^ e < m + 1)
    (fine : e ≤ grid x) : Format.binary64.targetExponent (totalExponent m e) = grid x := by
  rw [targetExponent_eq, totalExponent]
  by_cases hm : m = 0
  · -- then the grid is the finest there is
    subst hm
    have small : x < 2 ^ e := by simpa [div_lt_one (zpow_pos (two_pos : (0 : ℚ) < 2) e)] using high
    have log : Int.log 2 x < e := by
      rw [← Int.lt_zpow_iff_log_lt one_lt_two pos]
      exact_mod_cast small
    unfold grid at fine ⊢
    simp only [Nat.log2_zero]
    omega
  · rw [grid, log_eq hm low high]
    congr 1
    ring

end

/-! ## Rounding -/

/-- The nearest multiple on the grid; one that has become too long is half of a multiple twice as large. -/
def rounded (s : Sign) (x : ℚ) : UnpackedFloat :=
  if h : roundEven (x / 2 ^ grid x) = 0 then .zero s
  else if roundEven (x / 2 ^ grid x) < 2 ^ 53 then
    .finite s (roundEven (x / 2 ^ grid x)) (grid x) (Nat.pos_of_ne_zero h)
  else .finite s (2 ^ 52) (grid x + 1) (by decide)

theorem shiftToTarget_short {m : ℕ} {e : ℤ} (hm : m < 2 ^ 53) (he : -1074 ≤ e) :
    shiftToTargetExponent .binary64 m e .exact = (⟨m, false, false⟩, e) := by
  have log : m.log2 ≤ 52 := by
    by_cases zero : m = 0
    · simp [zero]
    · exact Nat.lt_succ_iff.mp ((Nat.log2_lt zero).mpr hm)
  have none : (Format.binary64.targetExponent (totalExponent m e) - e).toNat = 0 := by
    rw [targetExponent_eq, totalExponent]
    omega
  simp only [shiftToTargetExponent, shiftToExponent, none]
  simp [ExtendedMantissa.ofMantissaAndAccuracy, HShiftRight.hShiftRight, Nat.repeat]

theorem shiftToTarget_long {e : ℤ} (he : -1074 ≤ e) :
    shiftToTargetExponent .binary64 (2 ^ 53) e .exact = (⟨2 ^ 52, false, false⟩, e + 1) := by
  have one : (Format.binary64.targetExponent (totalExponent (2 ^ 53) e) - e).toNat = 1 := by
    rw [targetExponent_eq, totalExponent, Nat.log2_two_pow]
    omega
  simp only [shiftToTargetExponent, shiftToExponent, one]
  rfl

/-- Whatever mantissa stands for a rational, if it is fine enough, is rounded to the double nearest to it. -/
theorem roundWithAccuracy_eq {s : Sign} {m : ℕ} {e : ℤ} {accuracy : Accuracy} {x : ℚ} (pos : 0 < x)
    (stands : Stands (.ofMantissaAndAccuracy m accuracy) (x / 2 ^ e)) (fine : e ≤ grid x) :
    roundWithAccuracy .binary64 s m e accuracy = rounded s x := by
  have mantissa : (ExtendedMantissa.ofMantissaAndAccuracy m accuracy).mantissa = m := by
    rcases accuracy with _ | _ | _ | _ <;> rfl
  have bounds := stands.bounds
  rw [mantissa] at bounds
  -- the first shift leads to the grid, where the mantissa is rounded
  have target := target_eq_grid pos bounds.1 bounds.2 fine
  have shift : e + ((grid x - e).toNat : ℤ) = grid x := by omega
  have there : (ExtendedMantissa.ofMantissaAndAccuracy m accuracy >>> (grid x - e).toNat).roundedMantissa =
      roundEven (x / 2 ^ grid x) := by
    rw [(stands.shiftRight _).roundedMantissa, div_div, ← zpow_natCast, ← zpow_add₀ two_ne_zero, shift]
  have first : shiftToTargetExponent .binary64 m e accuracy =
      (ExtendedMantissa.ofMantissaAndAccuracy m accuracy >>> (grid x - e).toNat, grid x) := by
    simp only [shiftToTargetExponent, shiftToExponent, target, shift]
  have most := roundEven_grid_le pos
  simp only [roundWithAccuracy, first, there, rounded]
  -- the second shift only takes back a carry
  by_cases short : roundEven (x / 2 ^ grid x) < 2 ^ 53
  · simp only [shiftToTarget_short short (grid_ge x), short, if_true]
  · have long : roundEven (x / 2 ^ grid x) = 2 ^ 53 := by omega
    simp only [long, shiftToTarget_long (grid_ge x), lt_irrefl, if_false]
    rfl

theorem le_log {x : ℚ} {n : ℤ} (pos : 0 < x) (h : 2 ^ n ≤ x) : n ≤ Int.log 2 x := by
  rw [← Int.zpow_le_iff_le_log one_lt_two pos]
  exact_mod_cast h

theorem le_grid {x : ℚ} {n : ℤ} (pos : 0 < x) (h : 2 ^ n ≤ x) : n - 52 ≤ grid x := by
  have := le_log pos h
  exact (by omega : n - 52 ≤ Int.log 2 x - 52).trans (le_max_left _ _)

section
variable {m : ℕ} {q : ℤ} {x : ℚ}

theorem grid_eq (pos : 0 < x) (least : -1074 ≤ q) (full : 2 ^ 52 ≤ x / 2 ^ q ∨ q = -1074)
    (short : x / 2 ^ q < 2 ^ 53) : grid x = q := by
  have unit : (0 : ℚ) < 2 ^ q := zpow_pos two_pos q
  have below : Int.log 2 x < q + 53 := by
    rw [← Int.lt_zpow_iff_log_lt one_lt_two pos]
    push_cast
    rw [zpow_add₀ two_ne_zero, mul_comm]
    exact (div_lt_iff₀ unit).mp short
  rcases full with normal | finest
  · have above : q + 52 ≤ Int.log 2 x := by
      apply le_log pos
      rw [zpow_add₀ two_ne_zero, mul_comm]
      exact (le_div_iff₀ unit).mp normal
    unfold grid
    omega
  · unfold grid
    omega

theorem rounded_eq (s : Sign) (hm : 0 < m) (short : m < 2 ^ 53) (hq : grid x = q)
    (nearest : roundEven (x / 2 ^ q) = m) : rounded s x = .finite s m q hm := by
  subst hq nearest
  simp only [rounded, hm.ne', short, dif_neg, not_false_eq_true, if_true]

theorem rounded_carry (s : Sign) (hq : grid x + 1 = q) (nearest : roundEven (x / 2 ^ grid x) = 2 ^ 53) :
    rounded s x = .finite s (2 ^ 52) q (by decide) := by
  subst hq
  simp only [rounded, nearest, lt_irrefl, if_false]
  rfl

end

theorem rounded_zero (s : Sign) : rounded s 0 = .zero s := by
  have : roundEven 0 = 0 := by simp [roundEven]
  simp [rounded, this]

theorem rounded_underflow (s : Sign) {x : ℚ} (pos : 0 < x) (h : x < 2 ^ (-1075 : ℤ)) : rounded s x = .zero s := by
  have log : Int.log 2 x < -1075 := by
    rw [← Int.lt_zpow_iff_log_lt one_lt_two pos]
    exact_mod_cast h
  have hgrid : grid x = -1074 := by
    unfold grid
    omega
  have zero : roundEven (x / 2 ^ (-1074 : ℤ)) = 0 := by
    have small : x / 2 ^ (-1074 : ℤ) < 1 / 2 := by
      rw [div_lt_iff₀ (by positivity)]
      calc x < 2 ^ (-1075 : ℤ) := h
        _ = 1 / 2 * 2 ^ (-1074 : ℤ) := by
          rw [show (-1075 : ℤ) = -1 + -1074 by rfl, zpow_add₀ two_ne_zero, zpow_neg_one, one_div]
    have nonneg := scaled_nonneg pos (-1074)
    apply roundEven_eq
    · rw [Nat.cast_zero]
      linarith
    · rw [Nat.cast_zero]
      linarith
    · omega
    · exact nonneg
  unfold rounded
  rw [dif_pos (by rw [hgrid, zero])]

/-! ## Arithmetic -/

theorem two_pow_log2_le {m : ℕ} (pos : 0 < m) : (2 : ℚ) ^ (m.log2 : ℤ) ≤ m := by
  rw [zpow_natCast]
  exact_mod_cast Nat.log2_self_le pos.ne'

theorem le_two_pow_log2 (m : ℕ) : (m : ℚ) ≤ 2 ^ ((m.log2 : ℤ) + 1) := by
  have := (@Nat.lt_log2_self m).le
  exact_mod_cast this

theorem mul_eq {s s' : Sign} {m m' : ℕ} {e e' : ℤ} (pos : 0 < m) (pos' : 0 < m')
    (fine : e + e' ≤ grid (m * 2 ^ e * (m' * 2 ^ e'))) :
    mul .binary64 (.finite s m e pos) (.finite s' m' e' pos') = rounded (s * s') (m * 2 ^ e * (m' * 2 ^ e')) := by
  have two : (2 : ℚ) ≠ 0 := two_ne_zero
  refine roundWithAccuracy_eq (by positivity) ?_ fine
  have exact := stands_exact (m * m')
  have value : ((m * m' : ℕ) : ℚ) = m * 2 ^ e * (m' * 2 ^ e') / 2 ^ (e + e') := by
    rw [zpow_add₀ two]
    push_cast
    field_simp
  rwa [value] at exact

theorem div_eq {s s' : Sign} {m m' : ℕ} {e e' : ℤ} (pos : 0 < m) (pos' : 0 < m') :
    div .binary64 (.finite s m e pos) (.finite s' m' e' pos') = rounded (s / s') (m * 2 ^ e / (m' * 2 ^ e')) := by
  have two : (2 : ℚ) ≠ 0 := two_ne_zero
  have left := two_pow_log2_le pos
  have right := le_two_pow_log2 m'
  have positive : (0 : ℚ) < m * 2 ^ e / (m' * 2 ^ e') := by positivity
  -- the quotient has at least as many bits as its grid asks for
  have least : (2 : ℚ) ^ ((m.log2 : ℤ) + e - (m'.log2 + 1 + e')) ≤ m * 2 ^ e / (m' * 2 ^ e') := by
    rw [zpow_sub₀ two, zpow_add₀ two, zpow_add₀ two _ e']
    gcongr
  have log := le_grid positive least
  unfold UnpackedFloat.div divCore
  set t := min (e - e') (Format.binary64.targetExponent (totalExponent m e - totalExponent m' e')) with ht
  set n := m <<< (e - e' - t).toNat with hn
  have fine : t ≤ grid (m * 2 ^ e / (m' * 2 ^ e')) := by
    have := grid_ge (m * 2 ^ e / (m' * 2 ^ e'))
    rw [targetExponent_eq, totalExponent, totalExponent] at ht
    omega
  refine roundWithAccuracy_eq positive ?_ fine
  have stands := stands_fraction (n / m') (Nat.mod_lt n pos')
  have scaled : (n : ℚ) = m * 2 ^ (e - e' - t) := by
    have : ((e - e' - t).toNat : ℤ) = e - e' - t := by omega
    rw [hn, Nat.shiftLeft_eq, ← this, zpow_natCast]
    push_cast
    rfl
  have value : ((n / m' : ℕ) : ℚ) + (n % m' : ℕ) / m' = m * 2 ^ e / (m' * 2 ^ e') / 2 ^ t := by
    have whole : (n : ℚ) = m' * (n / m' : ℕ) + (n % m' : ℕ) := by exact_mod_cast (Nat.div_add_mod n m').symm
    rw [scaled, zpow_sub₀ two, zpow_sub₀ two] at whole
    field_simp at whole ⊢
    linarith
  rwa [value] at stands

theorem round_eq (s : Sign) {m : ℕ} (e : ℤ) (pos : 0 < m) : round .binary64 s m e = rounded s (m * 2 ^ e) := by
  have two : (2 : ℚ) ≠ 0 := two_ne_zero
  have positive : (0 : ℚ) < m * 2 ^ e := by positivity
  have scaled : (m : ℚ) * 2 ^ e / 2 ^ e = m := mul_div_cancel_right₀ _ (zpow_ne_zero e two)
  have grid : Format.binary64.targetExponent (totalExponent m e) = grid (m * 2 ^ e) := by
    rw [targetExponent_eq, totalExponent, grid, log_eq pos.ne' scaled.ge (by rw [scaled]; linarith)]
    congr 1
    ring
  show roundWithAccuracy .binary64 s _ _ .exact = _
  rw [grid]
  set k := (e - BlockScript.Number.grid (m * 2 ^ e)).toNat with hk
  refine roundWithAccuracy_eq positive ?_ (by omega)
  have exact := stands_exact (m <<< k)
  have value : ((m <<< k : ℕ) : ℚ) = m * 2 ^ e / 2 ^ (e - k) := by
    rw [zpow_sub₀ two, Nat.shiftLeft_eq, zpow_natCast]
    push_cast
    field_simp
  rwa [value] at exact

theorem normalize_eq {n : ℕ} (pos : 0 < n) (e : ℤ) (s : Sign) :
    normalize .binary64 (n : ℤ) e s = rounded .positive (n * 2 ^ e) := by
  have order : compare (n : ℤ) 0 = .gt := by
    rw [compare_gt_iff_gt]
    omega
  rw [← round_eq .positive e pos, UnpackedFloat.normalize, order]
  rfl

theorem le_grid_mul {m m' : ℕ} (e e' : ℤ) (full : 2 ^ 52 ≤ m) (full' : 2 ^ 52 ≤ m') :
    e + e' ≤ grid (m * 2 ^ e * (m' * 2 ^ e')) := by
  have left : (2 : ℚ) ^ (52 : ℤ) ≤ m := by exact_mod_cast full
  have right : (2 : ℚ) ^ (52 : ℤ) ≤ m' := by exact_mod_cast full'
  have pos : 0 < m := by omega
  have pos' : 0 < m' := by omega
  have least : (2 : ℚ) ^ (52 + e + (52 + e')) ≤ m * 2 ^ e * (m' * 2 ^ e') := by
    rw [zpow_add₀ two_ne_zero, zpow_add₀ two_ne_zero, zpow_add₀ two_ne_zero _ e']
    gcongr
  have := le_grid (by positivity) least
  omega

end BlockScript.Number
