import BlockScript.Proofs.NumberLine

/-!
# Integers as doubles

An integer of more than 53 bits is cut after the 53rd. What the bits after the cut are worth decides whether the
first bits stay or grow by one, a half making them even. The result is the integer that the nearest double denotes,
and rounding it again changes nothing.
-/

namespace BlockScript.Number

open Float.Model Float.Model.UnpackedFloat

/-! ## The first bits of an integer -/

/-- The first 53 bits of an integer, how many follow, and what those are worth. -/
structure Cut (n k e r : ℕ) : Prop where
  sum : n = k * 2 ^ e + r
  full : 2 ^ 52 ≤ k
  short : k < 2 ^ 53
  rest : r < 2 ^ e

/-- What the first bits become when the others are rounded off. -/
def carried (k e r : ℕ) : ℕ :=
  if 2 * r < 2 ^ e then k else if 2 ^ e < 2 * r then k + 1 else k + k % 2

theorem exists_cut {n : ℕ} (h : 2 ^ 52 ≤ n) : ∃ k e r, Cut n k e r := by
  have pos : n ≠ 0 := by omega
  have log : 52 ≤ n.log2 := (Nat.le_log2 pos).mpr h
  have low := Nat.log2_self_le pos
  have high := @Nat.lt_log2_self n
  refine ⟨n / 2 ^ (n.log2 - 52), n.log2 - 52, n % 2 ^ (n.log2 - 52), ?_, ?_, ?_, ?_⟩
  · rw [mul_comm, Nat.div_add_mod]
  · rwa [Nat.le_div_iff_mul_le (by positivity), ← pow_add, Nat.add_sub_cancel' log]
  · rwa [Nat.div_lt_iff_lt_mul (by positivity), ← pow_add, show 53 + (n.log2 - 52) = n.log2 + 1 by omega]
  · exact Nat.mod_lt _ (by positivity)

theorem small_or_cut (n : ℕ) : n < 2 ^ 53 ∨ ∃ k e r, Cut n k e r := by
  rcases lt_or_ge n (2 ^ 53) with small | large
  · exact .inl small
  · exact .inr (exists_cut (by omega))

theorem le_carried (k e r : ℕ) : k ≤ carried k e r := by
  unfold carried
  split_ifs <;> omega

theorem carried_le (k e r : ℕ) : carried k e r ≤ k + 1 := by
  unfold carried
  split_ifs <;> omega

theorem carried_zero (k e : ℕ) : carried k e 0 = k :=
  if_pos (by simp)

theorem nearest_of_lt {n : ℕ} (h : n < 2 ^ 53) : nearest n = n := by
  unfold nearest
  by_cases zero : n = 0
  · simp [zero]
  · rw [if_pos ((Nat.log2_lt zero).mpr h)]

theorem nearest_of_le {n : ℕ} (h : n ≤ 2 ^ 53) : nearest n = n := by
  rcases h.lt_or_eq with small | rfl
  · exact nearest_of_lt small
  · decide

section
variable {n k e r : ℕ}

theorem cut_exact (full : 2 ^ 52 ≤ k) (short : k < 2 ^ 53) (e : ℕ) : Cut (k * 2 ^ e) k e 0 :=
  ⟨(add_zero _).symm, full, short, by positivity⟩

theorem Cut.le (c : Cut n k e r) : k * 2 ^ e ≤ n := by
  rw [c.sum]
  exact Nat.le_add_right _ _

theorem Cut.lt (c : Cut n k e r) : n < (k + 1) * 2 ^ e := by
  have rest := c.rest
  rw [c.sum, add_mul, one_mul]
  omega

theorem Cut.pos (c : Cut n k e r) : 0 < n :=
  have := c.full
  lt_of_lt_of_le (by positivity) c.le

theorem Cut.log2_eq (c : Cut n k e r) : n.log2 = e + 52 := by
  rw [Nat.log2_eq_iff c.pos.ne']
  constructor
  · calc 2 ^ (e + 52) = 2 ^ 52 * 2 ^ e := by ring
      _ ≤ k * 2 ^ e := Nat.mul_le_mul_right _ c.full
      _ ≤ n := c.le
  · calc n < (k + 1) * 2 ^ e := c.lt
      _ ≤ 2 ^ 53 * 2 ^ e := Nat.mul_le_mul_right _ c.short
      _ = 2 ^ (e + 52 + 1) := by ring

theorem Cut.div_eq (c : Cut n k e r) : n / 2 ^ e = k := by
  rw [c.sum, mul_comm, Nat.mul_add_div (by positivity), Nat.div_eq_of_lt c.rest, add_zero]

theorem Cut.mod_eq (c : Cut n k e r) : n % 2 ^ e = r := by
  rw [c.sum, mul_comm, Nat.mul_add_mod, Nat.mod_eq_of_lt c.rest]

theorem Cut.nearest_eq (c : Cut n k e r) : nearest n = carried k e r * 2 ^ e := by
  unfold nearest
  rw [c.log2_eq]
  split
  · -- nothing is cut off
    obtain rfl : e = 0 := by omega
    obtain rfl : r = 0 := by simpa using c.rest
    rw [carried_zero]
    simpa using c.sum
  · simp only [Nat.add_sub_cancel, Nat.one_shiftLeft, c.div_eq, c.mod_eq]
    unfold carried
    split_ifs <;> rfl

/-! ## Rounding to a double -/

theorem Cut.grid_eq (c : Cut n k e r) : grid n = e := by
  have log : Int.log 2 (n : ℚ) = e + 52 := by
    rw [Int.log_natCast, ← Nat.log2_eq_log_two, c.log2_eq]
    push_cast
    rfl
  rw [grid, log]
  omega

theorem Cut.roundEven_eq (c : Cut n k e r) : roundEven (n / 2 ^ (e : ℤ)) = carried k e r := by
  have unit : (0 : ℚ) < 2 ^ e := by positivity
  have rest : (r : ℚ) / 2 ^ e < 1 := by
    rw [div_lt_one unit]
    exact_mod_cast c.rest
  have value : (n : ℚ) / 2 ^ (e : ℤ) = k + r / 2 ^ e := by
    rw [zpow_natCast, c.sum]
    push_cast
    field_simp
  have floor : ⌊(k + r / 2 ^ e : ℚ)⌋₊ = k := by
    rw [Nat.floor_eq_iff (by positivity)]
    exact ⟨le_add_of_nonneg_right (by positivity), by linarith⟩
  have below : (r : ℚ) / 2 ^ e < 1 / 2 ↔ 2 * r < 2 ^ e := by
    rw [div_lt_div_iff₀ unit two_pos]
    norm_cast
    omega
  have above : 1 / 2 < (r : ℚ) / 2 ^ e ↔ 2 ^ e < 2 * r := by
    rw [div_lt_div_iff₀ two_pos unit]
    norm_cast
    omega
  unfold roundEven carried
  simp only [value, floor, add_lt_add_iff_left, below, above]

theorem Cut.rounded_short (c : Cut n k e r) (s : Sign) (short : carried k e r < 2 ^ 53) :
    ∃ pos, rounded s n = .finite s (carried k e r) e pos :=
  ⟨lt_of_lt_of_le (by positivity) (c.full.trans (le_carried k e r)),
    Number.rounded_eq s _ short c.grid_eq c.roundEven_eq⟩

theorem Cut.rounded_long (c : Cut n k e r) (s : Sign) (long : carried k e r = 2 ^ 53) :
    rounded s n = .finite s (2 ^ 52) (e + 1) (by decide) := by
  apply rounded_carry s (by rw [c.grid_eq])
  rw [c.grid_eq, c.roundEven_eq, long]

/-- Rounding an integer to a double is rounding the integer that the double denotes. -/
theorem Cut.rounded_nearest (c : Cut n k e r) (s : Sign) : rounded s n = rounded s (nearest n) := by
  rw [c.nearest_eq]
  have full := c.full.trans (le_carried k e r)
  have most := (carried_le k e r).trans c.short
  rcases most.lt_or_eq with short | long
  · obtain ⟨_, first⟩ := c.rounded_short s short
    have second := (cut_exact full short e).rounded_short s (by rwa [carried_zero])
    rw [carried_zero] at second
    obtain ⟨_, second⟩ := second
    rw [first, second]
  · -- the carry has made the first bits a power of two
    have power : carried k e r * 2 ^ e = 2 ^ 52 * 2 ^ (e + 1) := by
      rw [long]
      ring
    have second := (cut_exact le_rfl (by decide) (e + 1)).rounded_short s (by rw [carried_zero]; decide)
    rw [carried_zero] at second
    obtain ⟨_, second⟩ := second
    rw [c.rounded_long s long, power, second]
    push_cast
    rfl

end

theorem nearest_le (n : ℕ) : nearest n ≤ 2 * n := by
  rcases small_or_cut n with small | ⟨k, e, l, c⟩
  · rw [nearest_of_lt small]
    omega
  · have full := c.full
    calc nearest n = carried k e l * 2 ^ e := c.nearest_eq
      _ ≤ 2 * k * 2 ^ e := by
        gcongr
        have := carried_le k e l
        omega
      _ = 2 * (k * 2 ^ e) := mul_assoc _ _ _
      _ ≤ 2 * n := Nat.mul_le_mul_left 2 c.le

theorem ofRat_nearest (n : ℕ) : ofRat (nearest n) = ofRat n := by
  rcases small_or_cut n with small | ⟨k, e, r, c⟩
  · rw [nearest_of_lt small]
  · rw [ofRat, ofRat, c.rounded_nearest]

/-- A nearest integer has 53 bits and zeros after them. -/
theorem exists_short_nearest (n : ℕ) : ∃ k e, nearest n = k * 2 ^ e ∧ k < 2 ^ 53 := by
  rcases small_or_cut n with small | ⟨k, e, r, c⟩
  · exact ⟨n, 0, by rw [nearest_of_lt small, pow_zero, mul_one], small⟩
  · rw [c.nearest_eq]
    have most := (carried_le k e r).trans c.short
    rcases most.lt_or_eq with short | long
    · exact ⟨_, e, rfl, short⟩
    · exact ⟨1, e + 53, by rw [long]; ring, by decide⟩

/-! ## Short integers -/

section
variable {k e : ℕ}

theorem Canonical.unpack_ofRat {m : ℕ} {q : ℤ} (c : Canonical m q) :
    (ofRat (m * 2 ^ q)).toModel.unpack = .finite .positive m q c.pos := by
  show (pack (rounded .positive _)).unpack = _
  rw [c.rounded_self, unpack_pack_finite c]

theorem unpack_ofRat_overflow {x : ℚ} (h : 2 ^ (1024 : ℤ) ≤ x) :
    (ofRat x).toModel.unpack = .infinity .positive := by
  show (pack (rounded .positive x)).unpack = _
  rw [pack_rounded_overflow _ h, unpack_pack_infinity]

/-- An integer of 53 bits and zeros after them is a double, up to the end of the range. -/
theorem exists_canonical_short (pos : 0 < k) (short : k < 2 ^ 53) (range : (k * 2 ^ e : ℚ) < 2 ^ (1024 : ℤ)) :
    ∃ m q, Canonical m q ∧ 2 ^ 52 ≤ m ∧ (m : ℚ) * 2 ^ q = k * 2 ^ e := by
  obtain ⟨m, q, c, full, value⟩ := exists_canonical pos short
  have scaled : (m : ℚ) * 2 ^ (q + e) = k * 2 ^ e := by
    rw [zpow_add₀ two_ne_zero, zpow_natCast, ← mul_assoc, value]
  refine ⟨m, q + e, ⟨c.pos, c.short, by have := c.least; omega, ?_, .inl full⟩, full, scaled⟩
  -- a larger exponent would lead out of the range
  by_contra beyond
  have wide : (2 : ℚ) ^ (52 : ℤ) ≤ m := by exact_mod_cast full
  have large : (2 : ℚ) ^ (972 : ℤ) ≤ 2 ^ (q + e) := zpow_le_zpow_right₀ one_le_two (by omega)
  have : (2 : ℚ) ^ (1024 : ℤ) ≤ k * 2 ^ e := by
    calc (2 : ℚ) ^ (1024 : ℤ) = 2 ^ (52 : ℤ) * 2 ^ (972 : ℤ) := by rw [← zpow_add₀ two_ne_zero]; rfl
      _ ≤ m * 2 ^ (q + e) := by gcongr
      _ = k * 2 ^ e := scaled
  linarith

theorem rational?_ofRat_short (pos : 0 < k) (short : k < 2 ^ 53) (range : (k * 2 ^ e : ℚ) < 2 ^ (1024 : ℤ)) :
    rational? (ofRat (k * 2 ^ e)) = some (k * 2 ^ e : ℚ) := by
  obtain ⟨m, q, c, -, value⟩ := exists_canonical_short pos short range
  rw [← value]
  exact rational?_of_unpack c.unpack_ofRat

end

end BlockScript.Number
