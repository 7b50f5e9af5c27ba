import BlockScript.Proofs.Doubles

/-!
# Shortest digits read back

The search for the shortest decimal ends: its last grid is finer than the interval is wide. Whatever point it
takes lies in the interval around the double, so the double is what that decimal reads as.
-/

namespace BlockScript.Number

open Float.Model Float.Model.UnpackedFloat

/-! ## Points on a grid of powers of ten -/

section
variable {tie : Tie} {m : ℕ} {q k : ℤ}

/-- The units that a grid point and the ends of the interval are counted in are in the ratio of their powers. -/
theorem exists_scale (q k : ℤ) : ∃ c : ℚ, 0 < c ∧
    ((Nat.pow 10 k.toNat <<< (2 - q).toNat : ℕ) : ℚ) = 10 ^ k * c ∧
    ((Nat.pow 10 (-k).toNat <<< (q - 2).toNat : ℕ) : ℚ) = 2 ^ (q - 2) * c := by
  refine ⟨10 ^ (-k).toNat * 2 ^ (2 - q).toNat, by positivity, ?_, ?_⟩
  · have ten : (10 : ℚ) ^ k.toNat = 10 ^ k * 10 ^ (-k).toNat := by
      rw [← zpow_natCast, ← zpow_natCast, ← zpow_add₀ (by norm_num)]
      congr 1
      omega
    rw [Nat.shiftLeft_eq, Nat.pow_eq]
    push_cast
    rw [ten]
    ring
  · have two : (2 : ℚ) ^ (q - 2).toNat = 2 ^ (q - 2) * 2 ^ (2 - q).toNat := by
      rw [← zpow_natCast, ← zpow_natCast, ← zpow_add₀ two_ne_zero]
      congr 1
      omega
    rw [Nat.shiftLeft_eq, Nat.pow_eq]
    push_cast
    rw [two]
    ring

/-- Counted in whole units, a grid point is compared with the ends of an interval as a rational. -/
theorem contains_iff (i : Interval) (q k : ℤ) (n : ℕ) :
    i.contains (Nat.pow 10 (-k).toNat <<< (q - 2).toNat) (Nat.pow 10 k.toNat <<< (2 - q).toNat) n = true ↔
      i.Holds (n * 10 ^ k / 2 ^ (q - 2)) := by
  obtain ⟨c, pos, step, unit⟩ := exists_scale q k
  have power : (0 : ℚ) < 2 ^ (q - 2) := by positivity
  unfold Interval.contains Interval.Holds
  split <;>
    simp only [decide_eq_true_eq, ← @Nat.cast_le ℚ, ← @Nat.cast_lt ℚ, Nat.cast_mul, step, unit, ← mul_assoc,
      mul_le_mul_iff_left₀ pos, mul_lt_mul_iff_left₀ pos, le_div_iff₀ power, div_le_iff₀ power, lt_div_iff₀ power,
      div_lt_iff₀ power]

theorem gridPoint?_holds {n : Scaled} (h : gridPoint? tie m q k = some n) :
    (interval m q).Holds (n.digits * 10 ^ n.exponent / 2 ^ (q - 2)) := by
  unfold gridPoint? at h
  simp only at h
  split_ifs at h with below above
  · cases h
    exact (contains_iff _ _ _ _).mp below.1
  · cases h
    exact (contains_iff _ _ _ _).mp above

/-- On a grid finer than half the spacing of doubles the point above the double is in the interval. -/
theorem gridPoint?_isSome (tie : Tie) (pos : 0 < m) (fine : (10 : ℚ) ^ k < 2 ^ (q - 1)) :
    (gridPoint? tie m q k).isSome := by
  obtain ⟨c, cpos, step, unit⟩ := exists_scale q k
  unfold gridPoint?
  set s := Nat.pow 10 k.toNat <<< (2 - q).toNat
  set u := Nat.pow 10 (-k).toNat <<< (q - 2).toNat
  have spos : 0 < s := by
    have : (0 : ℚ) < s := by
      rw [step]
      positivity
    exact_mod_cast this
  have double : (2 : ℚ) * 2 ^ (q - 2) = 2 ^ (q - 1) := by
    rw [← zpow_one_add₀ two_ne_zero]
    congr 1
    omega
  have narrow : s < 2 * u := by
    have : (s : ℚ) < 2 * u := by
      rw [step, unit, ← mul_assoc, mul_lt_mul_iff_left₀ cpos, double]
      exact fine
    exact_mod_cast this
  have above : (interval m q).contains u s (4 * m * u / s + 1) = true := by
    have lower : 4 * m * u < (4 * m * u / s + 1) * s := by
      rw [mul_comm _ s]
      exact Nat.lt_mul_div_succ _ spos
    have upper : (4 * m * u / s + 1) * s < (4 * m + 2) * u := by
      have := Nat.div_mul_le_self (4 * m * u) s
      rw [add_mul, add_mul]
      omega
    have least : (interval m q).low * u ≤ 4 * m * u := Nat.mul_le_mul_right u (interval_low_lt q pos).le
    unfold Interval.contains
    split
    · exact decide_eq_true ⟨by omega, upper.le⟩
    · exact decide_eq_true ⟨by omega, upper⟩
  simp only
  split_ifs with h h'
  · rfl
  · rfl
  · exact absurd above h'

end

/-! ## The search -/

/-- A fraction near the logarithm of two bounds a power of ten by a power of two. -/
theorem ten_zpow_le_of {d n : ℕ} {a b : ℤ} (pos : 0 < d) (less : (2 : ℚ) ^ d ≤ 10 ^ n)
    (more : (10 : ℚ) ^ n ≤ 2 ^ (d + 1)) (h : d * a ≤ n * b) (small : b ≤ d) : (10 : ℚ) ^ a ≤ 2 ^ (b + 1) := by
  have power : ((10 : ℚ) ^ n) ^ b ≤ (2 ^ d) ^ (b + 1) := by
    rcases le_or_gt 0 b with nonneg | neg
    · calc ((10 : ℚ) ^ n) ^ b ≤ (2 ^ (d + 1)) ^ b := zpow_le_zpow_left₀ nonneg (by positivity) more
        _ = 2 ^ (((d + 1 : ℕ) : ℤ) * b) := by rw [← zpow_natCast, ← zpow_mul]
        _ ≤ 2 ^ ((d : ℤ) * (b + 1)) := zpow_le_zpow_right₀ one_le_two (by push_cast; linarith)
        _ = (2 ^ d) ^ (b + 1) := by rw [← zpow_natCast, ← zpow_mul]
    · obtain ⟨c, rfl⟩ : ∃ c : ℕ, b = -c := ⟨b.natAbs, by omega⟩
      calc ((10 : ℚ) ^ n) ^ (-(c : ℤ)) ≤ (2 ^ d) ^ (-(c : ℤ)) := by
            rw [zpow_neg, zpow_neg, zpow_natCast, zpow_natCast]
            gcongr
        _ ≤ (2 ^ d) ^ (-(c : ℤ) + 1) := zpow_le_zpow_right₀ (one_le_pow₀ one_le_two) (by omega)
  have raised : ((10 : ℚ) ^ a) ^ d ≤ (2 ^ (b + 1)) ^ d := by
    calc ((10 : ℚ) ^ a) ^ d = 10 ^ (d * a) := by rw [← zpow_natCast, ← zpow_mul, mul_comm]
      _ ≤ 10 ^ (n * b) := zpow_le_zpow_right₀ (by norm_num) h
      _ = (10 ^ n) ^ b := by rw [← zpow_natCast, ← zpow_mul]
      _ ≤ (2 ^ d) ^ (b + 1) := power
      _ = (2 ^ (b + 1)) ^ d := by rw [← zpow_natCast, ← zpow_natCast, zpow_comm]
  exact (pow_le_pow_iff_left₀ (by positivity) (by positivity) pos.ne').mp raised

theorem ten_zpow_topExponent_le {m : ℕ} {q : ℤ} (small : (m.log2 : ℤ) + q + 1 ≤ 100000) :
    (10 : ℚ) ^ (topExponent m q - 1) ≤ 2 ^ ((m.log2 : ℤ) + q + 2) := by
  have less : (2 : ℚ) ^ 100000 ≤ 10 ^ 30103 := by exact_mod_cast (by decide +kernel : 2 ^ 100000 ≤ 10 ^ 30103)
  have more : (10 : ℚ) ^ 30103 ≤ 2 ^ (100000 + 1) := by
    exact_mod_cast (by decide +kernel : 10 ^ 30103 ≤ 2 ^ (100000 + 1))
  rw [show (m.log2 : ℤ) + q + 2 = m.log2 + q + 1 + 1 by ring]
  apply ten_zpow_le_of (by decide) less more
  · unfold topExponent
    push_cast
    omega
  · exact small

/-- The last grid that is searched is much finer than the spacing of doubles. -/
theorem last_grid_fine {m : ℕ} {q : ℤ} (c : Canonical m q) :
    (10 : ℚ) ^ (topExponent m q - (21 : ℕ)) < 2 ^ (q - 1) := by
  have log : m.log2 ≤ 52 := Nat.lt_succ_iff.mp ((Nat.log2_lt c.pos.ne').mpr c.short)
  have most := c.most
  have top := @ten_zpow_topExponent_le m q (by omega)
  calc (10 : ℚ) ^ (topExponent m q - (21 : ℕ)) = 10 ^ (topExponent m q - 1) / 10 ^ 20 := by
        rw [← zpow_natCast, ← zpow_sub₀ (by norm_num)]
        congr 1
        push_cast
        ring
    _ ≤ 2 ^ ((m.log2 : ℤ) + q + 2) / 10 ^ 20 := by gcongr
    _ < 2 ^ ((m.log2 : ℤ) + q + 2) / 2 ^ (55 : ℤ) := by
        gcongr
        norm_num
    _ = 2 ^ ((m.log2 : ℤ) + q + 2 - 55) := (zpow_sub₀ two_ne_zero _ _).symm
    _ ≤ 2 ^ (q - 1) := zpow_le_zpow_right₀ one_le_two (by omega)

theorem exists_gridPoint (tie : Tie) {m : ℕ} {q : ℤ} (c : Canonical m q) :
    ∃ i : ℕ, gridPoint? tie m q (topExponent m q - i) = some (shortest tie m q) := by
  have last := gridPoint?_isSome tie c.pos (last_grid_fine c)
  have found : ((List.range 22).findSome? fun i : ℕ => gridPoint? tie m q (topExponent m q - i)).isSome := by
    rw [List.findSome?_isSome_iff]
    exact ⟨21, by decide, last⟩
  obtain ⟨n, hn⟩ := Option.isSome_iff_exists.mp found
  obtain ⟨i, -, point⟩ := List.exists_of_findSome?_eq_some hn
  refine ⟨i, ?_⟩
  rw [point, shortest, hn]
  rfl

theorem shortest_holds (tie : Tie) {m : ℕ} {q : ℤ} (c : Canonical m q) :
    (interval m q).Holds ((shortest tie m q).digits * 10 ^ (shortest tie m q).exponent / 2 ^ (q - 2)) := by
  obtain ⟨i, point⟩ := exists_gridPoint tie c
  exact gridPoint?_holds point

/-- The shortest digits of a double read as that double. -/
theorem ofRat_shortest (tie : Tie) {m : ℕ} {q : ℤ} (c : Canonical m q) :
    ofRat ((shortest tie m q).digits * 10 ^ (shortest tie m q).exponent) =
      .ofModel (pack (.finite .positive m q c.pos)) := by
  rw [ofRat, c.rounded_eq .positive (shortest_holds tie c)]

end BlockScript.Number
