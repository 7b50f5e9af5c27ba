import BlockScript.Proofs.MarkedIntegers

/-!
# Floored remainders of integers

The remainder of a quotient that is cut off toward zero has the sign of the dividend. Where its quotient by
the divisor is negative the divisor is added, and what comes out has the sign of the divisor. On integers of
up to 53 bits the remainder and the sum are integers that are doubles again, so neither of them is rounded.
The quotient may be, but it is too large to be rounded to zero, and it is only asked for its sign.
-/

namespace BlockScript.Number

open Float.Model Float.Model.UnpackedFloat

/-! ## Integers that are doubles -/

theorem rational?_of_measures {x : Float} {r : ℚ} (h : Measures x.toModel.unpack r) : rational? x = some r := by
  unfold rational? exact
  generalize x.toModel.unpack = u at h
  cases h with
  | zero s => simp [signed]
  | positive c => simp [signed, isNegative]
  | negative c => simp [signed, isNegative]

theorem measures_of_rational? {x : Float} {r : ℚ} (h : rational? x = some r) : Measures x.toModel.unpack r := by
  unfold rational? exact at h
  cases hx : x.toModel.unpack with
  | notANumber | infinity => simp [hx] at h
  | zero s =>
    obtain rfl : 0 = r := by simpa [hx, signed] using h
    exact .zero s
  | finite s m q pos =>
    have c := canonical_unpack hx
    cases s with
    | positive =>
      obtain rfl : m * 2 ^ q = r := by simpa [hx, signed, isNegative] using h
      exact .positive c
    | negative =>
      obtain rfl : -(m * 2 ^ q) = r := by simpa [hx, signed, isNegative] using h
      exact .negative c

theorem exists_canonical_le {n : ℕ} (pos : 0 < n) (le : n ≤ 2 ^ 53) :
    ∃ m q, Canonical m q ∧ (m : ℚ) * 2 ^ q = n := by
  rcases le.lt_or_eq with short | rfl
  · obtain ⟨m, q, c, -, value⟩ := exists_canonical pos short
    exact ⟨m, q, c, value⟩
  · exact ⟨2 ^ 52, 1, ⟨by decide, by decide, by decide, by decide, .inl le_rfl⟩, by norm_num⟩

theorem measures_rounded (s : Sign) {k : ℕ} (short : k ≤ 2 ^ 53) :
    Measures (pack (rounded s k)).unpack (s.apply k : ℤ) := by
  rcases k.eq_zero_or_pos with rfl | pos
  · rw [Nat.cast_zero, rounded_zero, unpack_pack_zero]
    have := Measures.zero s
    cases s <;> simpa [Sign.apply] using this
  · obtain ⟨m, q, c, value⟩ := exists_canonical_le pos short
    rw [← value, c.rounded_self, unpack_pack_finite c]
    cases s with
    | positive => simpa [Sign.apply, value] using Measures.positive c
    | negative => simpa [Sign.apply, value] using Measures.negative c

/-- A number whose value is an integer of up to 53 bits is not rounded. -/
theorem measures_normalize {z e w : ℤ} (short : w.natAbs ≤ 2 ^ 53) (value : (z : ℚ) * 2 ^ e = w) (s : Sign) :
    Measures (pack (UnpackedFloat.normalize .binary64 z e s)).unpack w := by
  have unit : (0 : ℚ) < 2 ^ e := by positivity
  unfold UnpackedFloat.normalize
  rcases lt_trichotomy z 0 with neg | rfl | pos
  · have below : w < 0 := by
      have : (w : ℚ) < 0 := value ▸ mul_neg_of_neg_of_pos (by exact_mod_cast neg) unit
      exact_mod_cast this
    have magnitude : (((-z).toNat : ℕ) : ℚ) * 2 ^ e = w.natAbs := by
      have whole : (((-z).toNat : ℕ) : ℚ) = -z := by exact_mod_cast Int.toNat_of_nonneg (by omega)
      rw [whole, neg_mul, value, Nat.cast_natAbs, abs_of_neg below, Int.cast_neg]
    rw [compare_lt_iff_lt.mpr neg, show w = Sign.negative.apply w.natAbs by simp only [Sign.apply]; omega]
    show Measures (pack (UnpackedFloat.round _ _ _ _)).unpack _
    rw [round_eq .negative e (by omega), magnitude]
    exact measures_rounded .negative short
  · have none : (w : ℚ) = 0 := by rw [← value, Int.cast_zero, zero_mul]
    rw [none, compare_eq_iff_eq.mpr rfl, unpack_pack_zero]
    exact .zero s
  · have above : 0 < w := by
      have : (0 : ℚ) < w := value ▸ mul_pos (by exact_mod_cast pos) unit
      exact_mod_cast this
    have magnitude : ((z.toNat : ℕ) : ℚ) * 2 ^ e = w.natAbs := by
      have whole : ((z.toNat : ℕ) : ℚ) = z := by exact_mod_cast Int.toNat_of_nonneg (by omega)
      rw [whole, value, Nat.cast_natAbs, abs_of_pos above]
    rw [compare_gt_iff_gt.mpr pos, show w = Sign.positive.apply w.natAbs by simp only [Sign.apply]; omega]
    show Measures (pack (UnpackedFloat.round _ _ _ _)).unpack _
    rw [round_eq .positive e (by omega), magnitude]
    exact measures_rounded .positive short

theorem exists_double {n : ℤ} (short : n.natAbs ≤ 2 ^ 53) : ∃ x, rational? x = some (n : ℚ) :=
  ⟨.ofModel (pack (UnpackedFloat.normalize .binary64 n 0 .positive)),
    rational?_of_measures (measures_normalize short (by rw [zpow_zero, mul_one]) _)⟩

/-! ## The remainder -/

theorem mod_scaled {a b n m : ℕ} {u : ℚ} (pos : 0 < u) (hb : b ≠ 0) (dividend : a * u = n) (divisor : b * u = m) :
    ((a % b : ℕ) : ℚ) * u = (n % m : ℕ) := by
  have unit := pos.ne'
  have whole (a b : ℕ) : ((a % b : ℕ) : ℚ) = a - b * (a / b : ℕ) := by
    rw [eq_sub_iff_add_eq]
    exact_mod_cast Nat.mod_add_div a b
  have same : a / b = n / m := by
    have ratio : (a : ℚ) / b = n / m := by
      have : (b : ℚ) ≠ 0 := by exact_mod_cast hb
      rw [← dividend, ← divisor]
      field_simp
    rw [← Nat.floor_div_eq_div (K := ℚ) a b, ratio, Nat.floor_div_eq_div]
  rw [whole, whole, ← same, ← dividend, ← divisor]
  ring

theorem shifted_eq (m : ℕ) {q t : ℤ} (h : t ≤ q) : ((m <<< (q - t).toNat : ℕ) : ℚ) * 2 ^ t = m * 2 ^ q := by
  have : ((q - t).toNat : ℤ) = q - t := by omega
  rw [Nat.shiftLeft_eq, Nat.cast_mul, Nat.cast_pow, Nat.cast_ofNat, ← zpow_natCast, this, mul_assoc,
    ← zpow_add₀ two_ne_zero, sub_add_cancel]

theorem signed_tmod (negative : Bool) {n : ℤ} (h : n = signed negative n.natAbs) (m : ℤ) :
    n.tmod m = signed negative (n.natAbs % m.natAbs) := by
  have magnitude : ((n.natAbs % m.natAbs : ℕ) : ℤ) = (n.natAbs : ℤ).tmod m := by
    rw [Int.ofNat_tmod]
    rcases Int.natAbs_eq m with hm | hm
    · rw [← hm]
    · rw [hm, Int.tmod_neg, Int.natAbs_neg, Int.natAbs_natCast]
  cases negative with
  | false =>
    show n.tmod m = ((n.natAbs % m.natAbs : ℕ) : ℤ)
    rw [magnitude, show (n.natAbs : ℤ) = n from h.symm]
  | true =>
    show n.tmod m = -((n.natAbs % m.natAbs : ℕ) : ℤ)
    rw [magnitude, ← Int.neg_tmod, show -(n.natAbs : ℤ) = n from h.symm]

section
variable {x y : Float} {n m : ℤ}

theorem natAbs_signed {negative : Bool} {a : ℕ} {q : ℤ} (h : (signed negative a : ℚ) * 2 ^ q = n) :
    (a : ℚ) * 2 ^ q = n.natAbs ∧ n = signed negative n.natAbs := by
  have nonneg : (0 : ℚ) ≤ a * 2 ^ q := by positivity
  cases negative with
  | false =>
    have value : (a : ℚ) * 2 ^ q = n := h
    have sign : 0 ≤ n := by
      rw [value] at nonneg
      exact_mod_cast nonneg
    have size : (n.natAbs : ℤ) = n := Int.natAbs_of_nonneg sign
    exact ⟨value.trans (by rw [← Int.cast_natCast, size]), size.symm⟩
  | true =>
    have value : (a : ℚ) * 2 ^ q = (-n : ℤ) := by
      rw [Int.cast_neg, ← h]
      simp [signed]
    have sign : 0 ≤ -n := by
      rw [value] at nonneg
      exact_mod_cast nonneg
    have size : (n.natAbs : ℤ) = -n := by omega
    exact ⟨value.trans (by rw [← Int.cast_natCast, size]), by simp only [signed, if_true]; omega⟩

theorem natAbs_tmod_lt (n : ℤ) (ne : m ≠ 0) : (n.tmod m).natAbs < m.natAbs := by
  rw [Int.natAbs_tmod]
  exact Nat.mod_lt _ (Int.natAbs_pos.mpr ne)

theorem rational?_remainder (hx : rational? x = some (n : ℚ)) (hy : rational? y = some (m : ℚ)) (ne : m ≠ 0)
    (short : m.natAbs ≤ 2 ^ 53) : rational? (remainder x y) = some (n.tmod m : ℚ) := by
  have keep := hx
  unfold rational? at hx hy
  cases dividend : exact x with
  | nan | infinite => simp [dividend] at hx
  | finite negative a q =>
    cases divisor : exact y with
    | nan | infinite => simp [divisor] at hy
    | finite negative' b r =>
      simp only [dividend, divisor, Option.some.injEq] at hx hy
      obtain ⟨size, sign⟩ := natAbs_signed hx
      obtain ⟨size', -⟩ := natAbs_signed hy
      have hb : b ≠ 0 := by
        rintro rfl
        rw [Nat.cast_zero, zero_mul, eq_comm, Nat.cast_eq_zero, Int.natAbs_eq_zero] at size'
        exact ne size'
      unfold remainder
      simp only [dividend, divisor, if_neg hb]
      by_cases ha : a = 0
      · rw [ha, Nat.cast_zero, zero_mul, eq_comm, Nat.cast_eq_zero, Int.natAbs_eq_zero] at size
        rw [if_pos ha, keep, size, Int.zero_tmod]
      · have rest := mod_scaled (u := 2 ^ min q r) (by positivity) (by rw [Nat.shiftLeft_eq]; positivity)
          ((shifted_eq a (min_le_left q r)).trans size) ((shifted_eq b (min_le_right q r)).trans size')
        have small : (n.tmod m).natAbs ≤ 2 ^ 53 := (natAbs_tmod_lt n ne).le.trans short
        rw [if_neg ha]
        refine rational?_of_measures (measures_normalize small ?_ _)
        rw [signed_tmod negative sign m]
        cases negative with
        | false => exact rest
        | true =>
          show ((-(_ : ℕ) : ℤ) : ℚ) * _ = ((-(_ : ℕ) : ℤ) : ℚ)
          rw [Int.cast_neg, Int.cast_neg, neg_mul, Int.cast_natCast, Int.cast_natCast, rest]

/-! ## The sign of the quotient -/

/-- Far from both ends of the range a rational is rounded to a double with all its bits. -/
theorem exists_rounded (s : Sign) {r : ℚ} (low : 2 ^ (-53 : ℤ) ≤ r) (high : r ≤ 2 ^ (53 : ℤ)) :
    ∃ m q, ∃ c : Canonical m q, rounded s r = .finite s m q c.pos := by
  have pos : 0 < r := lt_of_lt_of_le (by positivity) low
  have least := le_log pos low
  have most : Int.log 2 r < 54 := by
    have next : r < 2 ^ (54 : ℤ) := lt_of_le_of_lt high (zpow_lt_zpow_right₀ one_lt_two (by decide))
    rw [← Int.lt_zpow_iff_log_lt one_lt_two pos]
    exact_mod_cast next
  have hgrid : grid r = Int.log 2 r - 52 := by
    unfold grid
    omega
  have full : 2 ^ 52 ≤ roundEven (r / 2 ^ grid r) := by
    apply le_trans _ (floor_le_roundEven _)
    have power := Int.zpow_log_le_self (b := 2) one_lt_two pos
    rw [Nat.le_floor_iff (scaled_nonneg pos _), le_div_iff₀ (by positivity), hgrid]
    calc ((2 ^ 52 : ℕ) : ℚ) * 2 ^ (Int.log 2 r - 52) = 2 ^ Int.log 2 r := by
          rw [zpow_sub₀ two_ne_zero]
          push_cast
          field_simp
      _ ≤ r := by exact_mod_cast power
  unfold rounded
  split_ifs with zero short
  · omega
  · exact ⟨_, _, ⟨by omega, short, by omega, by omega, .inl full⟩, rfl⟩
  · exact ⟨_, _, ⟨by omega, by decide, by omega, by omega, .inl le_rfl⟩, rfl⟩

theorem exists_quotient {a b : ℕ} {p q : ℤ} (c : Canonical a p) (d : Canonical b q) {n m : ℕ}
    (dividend : (a : ℚ) * 2 ^ p = n) (divisor : (b : ℚ) * 2 ^ q = m) (short : n ≤ 2 ^ 53) (short' : m ≤ 2 ^ 53)
    (s t : Sign) :
    ∃ k e, ∃ f : Canonical k e,
      (pack (UnpackedFloat.div .binary64 (.finite s a p c.pos) (.finite t b q d.pos))).unpack =
        .finite (s / t) k e f.pos := by
  have one : (1 : ℚ) ≤ n := by
    have : (0 : ℚ) < n := dividend ▸ c.measure_pos
    exact_mod_cast this
  have one' : (1 : ℚ) ≤ m := by
    have : (0 : ℚ) < m := divisor ▸ d.measure_pos
    exact_mod_cast this
  have most : (n : ℚ) ≤ 2 ^ (53 : ℤ) := by exact_mod_cast short
  have most' : (m : ℚ) ≤ 2 ^ (53 : ℤ) := by exact_mod_cast short'
  have low : (2 : ℚ) ^ (-53 : ℤ) ≤ n / m := by
    calc (2 : ℚ) ^ (-53 : ℤ) = 1 / 2 ^ (53 : ℤ) := by rw [zpow_neg, one_div]
      _ ≤ n / m := by gcongr
  have high : (n / m : ℚ) ≤ 2 ^ (53 : ℤ) := by
    calc (n / m : ℚ) ≤ n / 1 := by gcongr
      _ ≤ 2 ^ (53 : ℤ) := by rwa [div_one]
  obtain ⟨k, e, f, value⟩ := exists_rounded (s / t) low high
  exact ⟨k, e, f, by rw [div_eq, dividend, divisor, value, unpack_pack_finite f]⟩

theorem Measures.exists_finite {u : UnpackedFloat} (h : Measures u n) (ne : n ≠ 0) :
    ∃ s a q, ∃ c : Canonical a q, u = .finite s a q c.pos ∧ (a : ℚ) * 2 ^ q = n.natAbs ∧ n = s.apply n.natAbs := by
  generalize value : (n : ℚ) = r at h
  cases h with
  | zero s => exact absurd (by exact_mod_cast value) ne
  | @positive a q c =>
    obtain ⟨size, sign⟩ := @natAbs_signed n false a q value.symm
    exact ⟨.positive, a, q, c, rfl, size, sign⟩
  | @negative a q c =>
    obtain ⟨size, sign⟩ := @natAbs_signed n true a q (by simp [signed, value])
    exact ⟨.negative, a, q, c, rfl, size, sign⟩

theorem Measures.of_zero {u : UnpackedFloat} (h : Measures u 0) : ∃ s, u = .zero s := by
  generalize value : (0 : ℚ) = r at h
  cases h with
  | zero s => exact ⟨s, rfl⟩
  | positive c => exact absurd value c.measure_pos.ne
  | negative c => exact absurd value.symm (neg_neg_of_pos c.measure_pos).ne

/-- The quotient of integers is rounded to a double with the sign of the exact one. -/
theorem Measures.quotient {u v : UnpackedFloat} (hu : Measures u n) (hv : Measures v m) (ne : m ≠ 0)
    (short : n.natAbs ≤ 2 ^ 53) (short' : m.natAbs ≤ 2 ^ 53) :
    ∃ r : ℚ, Measures (pack (UnpackedFloat.div .binary64 u v)).unpack r ∧ (r < 0 ↔ n * m < 0) := by
  obtain ⟨t, b, q, d, rfl, size', sign'⟩ := hv.exists_finite ne
  by_cases none : n = 0
  · subst none
    obtain ⟨s, rfl⟩ := Measures.of_zero (by simpa using hu)
    refine ⟨0, ?_, by simp⟩
    show Measures (pack (.zero (s / t))).unpack 0
    rw [unpack_pack_zero]
    exact .zero _
  · obtain ⟨s, a, p, c, rfl, size, sign⟩ := hu.exists_finite none
    obtain ⟨k, e, f, value⟩ := exists_quotient c d size size' short short' s t
    have above := f.measure_pos
    have below := neg_neg_of_pos above
    rw [value]
    cases s with
    | positive =>
      have hn : 0 < n := by simp only [Sign.apply] at sign; omega
      cases t with
      | positive =>
        have hm : 0 < m := by simp only [Sign.apply] at sign'; omega
        exact ⟨_, .positive f, iff_of_false above.not_gt (mul_pos hn hm).not_gt⟩
      | negative =>
        have hm : m < 0 := by simp only [Sign.apply] at sign'; omega
        exact ⟨_, .negative f, iff_of_true below (mul_neg_of_pos_of_neg hn hm)⟩
    | negative =>
      have hn : n < 0 := by simp only [Sign.apply] at sign; omega
      cases t with
      | positive =>
        have hm : 0 < m := by simp only [Sign.apply] at sign'; omega
        exact ⟨_, .negative f, iff_of_true below (mul_neg_of_neg_of_pos hn hm)⟩
      | negative =>
        have hm : m < 0 := by simp only [Sign.apply] at sign'; omega
        exact ⟨_, .positive f, iff_of_false above.not_gt (mul_pos_of_neg_of_neg hn hm).not_gt⟩

theorem quotient_neg_iff (hx : rational? x = some (n : ℚ)) (hy : rational? y = some (m : ℚ)) (ne : m ≠ 0)
    (short : n.natAbs ≤ 2 ^ 53) (short' : m.natAbs ≤ 2 ^ 53) : x / y < 0.0 ↔ n * m < 0 := by
  have zero : rational? 0.0 = some 0 := rational?_of_measures (.zero .positive)
  obtain ⟨r, measured, negative⟩ := (measures_of_rational? hx).quotient (measures_of_rational? hy) ne short short'
  have value : rational? (x / y) = some r := rational?_of_measures measured
  rw [lt_iff (point?_of_rational? value) (point?_of_rational? zero), ← negative]
  exact WithBotTop.coe_lt_coe

/-! ## The sum -/

theorem rational?_add (hx : rational? x = some (n : ℚ)) (hy : rational? y = some (m : ℚ)) (hn : n ≠ 0) (hm : m ≠ 0)
    (short : (n + m).natAbs ≤ 2 ^ 53) : rational? (x + y) = some ((n + m : ℤ) : ℚ) := by
  obtain ⟨s, a, p, c, hu, size, sign⟩ := (measures_of_rational? hx).exists_finite hn
  obtain ⟨t, b, q, d, hv, size', sign'⟩ := (measures_of_rational? hy).exists_finite hm
  have applied (s : Sign) {a : ℕ} {p : ℤ} {k : ℕ} (h : (a : ℚ) * 2 ^ p = k) :
      ((s.apply a : ℤ) : ℚ) * 2 ^ p = (s.apply k : ℤ) := by
    cases s <;> simp [Sign.apply, h]
  apply rational?_of_measures
  show Measures (pack (UnpackedFloat.add .binary64 x.toModel.unpack y.toModel.unpack)).unpack _
  rw [hu, hv]
  apply measures_normalize short
  rw [Int.cast_add, add_mul, applied s ((shifted_eq a (min_le_left p q)).trans size),
    applied t ((shifted_eq b (min_le_right p q)).trans size'), ← sign, ← sign', Int.cast_add]

/-! ## The floored remainder -/

/-- What is left of `n` when `m` is taken from it as often as the floor of their quotient says. -/
structure IsFlooredRemainder (n m r : ℤ) : Prop where
  value : r = n - m * ⌊(n / m : ℚ)⌋
  sign : r = 0 ∨ r.sign = m.sign
  small : |r| < |m|
  congruent : r ≡ n [ZMOD m]

theorem fraction_of_sign {r : ℤ} (ne : m ≠ 0) (sign : r = 0 ∨ r.sign = m.sign) (small : |r| < |m|) :
    (0 : ℚ) ≤ r / m ∧ (r / m : ℚ) < 1 := by
  rcases ne.lt_or_gt with neg | pos
  · have nonpos : r ≤ 0 := by
      rcases sign with rfl | sign
      · exact le_rfl
      · rw [Int.sign_eq_neg_one_of_neg neg, Int.sign_eq_neg_one_iff_neg] at sign
        exact sign.le
    rw [abs_of_nonpos nonpos, abs_of_neg neg, neg_lt_neg_iff] at small
    have below : (m : ℚ) < 0 := by exact_mod_cast neg
    exact ⟨div_nonneg_of_nonpos (by exact_mod_cast nonpos) below.le,
      (div_lt_one_of_neg below).mpr (by exact_mod_cast small)⟩
  · have nonneg : 0 ≤ r := by
      rcases sign with rfl | sign
      · exact le_rfl
      · rw [Int.sign_eq_one_of_pos pos, Int.sign_eq_one_iff_pos] at sign
        exact sign.le
    rw [abs_of_nonneg nonneg, abs_of_pos pos] at small
    have above : (0 : ℚ) < m := by exact_mod_cast pos
    exact ⟨div_nonneg (by exact_mod_cast nonneg) above.le, (div_lt_one above).mpr (by exact_mod_cast small)⟩

theorem isFlooredRemainder {k r : ℤ} (ne : m ≠ 0) (whole : n = m * k + r) (sign : r = 0 ∨ r.sign = m.sign)
    (small : |r| < |m|) : IsFlooredRemainder n m r := by
  have hm : (m : ℚ) ≠ 0 := by exact_mod_cast ne
  have quotient : (n / m : ℚ) = k + r / m := by
    rw [whole]
    push_cast
    field_simp
  have floor : ⌊(n / m : ℚ)⌋ = k := by
    obtain ⟨low, high⟩ := fraction_of_sign ne sign small
    rw [Int.floor_eq_iff, quotient]
    constructor <;> linarith
  refine ⟨by rw [floor]; omega, sign, small, ?_⟩
  rw [whole, Int.modEq_comm]
  exact Int.modEq_iff_dvd.mpr ⟨-k, by ring⟩

/-- A remainder whose sign is not that of the divisor is one divisor away from the floored one. -/
theorem isFlooredRemainder_tmod (n : ℤ) (ne : m ≠ 0) :
    IsFlooredRemainder n m (if n.tmod m * m < 0 then n.tmod m + m else n.tmod m) := by
  have whole := Int.mul_tdiv_add_tmod n m
  have small := natAbs_tmod_lt n ne
  split_ifs with opposite
  · have sum : (n.tmod m + m).sign = m.sign ∧ |n.tmod m + m| < |m| := by
      rcases mul_neg_iff.mp opposite with ⟨above, below⟩ | ⟨below, above⟩
      · have : n.tmod m + m < 0 := by omega
        rw [Int.sign_eq_neg_one_of_neg this, Int.sign_eq_neg_one_of_neg below, abs_of_neg this, abs_of_neg below]
        exact ⟨rfl, by omega⟩
      · have : 0 < n.tmod m + m := by omega
        rw [Int.sign_eq_one_of_pos this, Int.sign_eq_one_of_pos above, abs_of_pos this, abs_of_pos above]
        exact ⟨rfl, by omega⟩
    exact isFlooredRemainder (k := n.tdiv m - 1) ne (by rw [mul_sub]; omega) (.inr sum.1) sum.2
  · have sign : n.tmod m = 0 ∨ (n.tmod m).sign = m.sign := by
      rcases (not_lt.mp opposite).eq_or_lt with zero | same
      · exact .inl ((mul_eq_zero.mp zero.symm).resolve_right ne)
      · rcases mul_pos_iff.mp same with ⟨above, above'⟩ | ⟨below, below'⟩
        · exact .inr (by rw [Int.sign_eq_one_of_pos above, Int.sign_eq_one_of_pos above'])
        · exact .inr (by rw [Int.sign_eq_neg_one_of_neg below, Int.sign_eq_neg_one_of_neg below'])
    have less : |n.tmod m| < |m| := by
      rw [← Int.natCast_natAbs, ← Int.natCast_natAbs]
      exact_mod_cast small
    exact isFlooredRemainder ne whole.symm sign less

end

/-- On integers of up to 53 bits, which are doubles all, the floored remainder is the mathematical one. The
remainder that it starts from is exact, and so is the sum that may follow; the quotient between them has the
sign of the exact one. -/
theorem floorMod_floored {n m : ℤ} (dividend : |n| ≤ 2 ^ 53) (divisor : |m| ≤ 2 ^ 53) (ne : m ≠ 0) :
    (∃ x, rational? x = some (n : ℚ)) ∧ (∃ y, rational? y = some (m : ℚ)) ∧
    ∀ x y, rational? x = some (n : ℚ) → rational? y = some (m : ℚ) →
      (∃ r : ℤ, rational? (floorMod x y) = some (r : ℚ) ∧ IsFlooredRemainder n m r) ∧
      rational? (remainder x y) = some (n.tmod m : ℚ) ∧
      (remainder x y / y < 0.0 ↔ n.tmod m * m < 0) ∧
      (remainder x y / y < 0.0 → rational? (remainder x y + y) = some ((n.tmod m + m : ℤ) : ℚ)) := by
  rw [← Int.natCast_natAbs] at dividend divisor
  have short : n.natAbs ≤ 2 ^ 53 := by exact_mod_cast dividend
  have short' : m.natAbs ≤ 2 ^ 53 := by exact_mod_cast divisor
  have small := natAbs_tmod_lt n ne
  refine ⟨exists_double short, exists_double short', fun x y hx hy => ?_⟩
  have rest := rational?_remainder hx hy ne short'
  have quotient := quotient_neg_iff rest hy ne (by omega) short'
  have sum (opposite : n.tmod m * m < 0) :
      rational? (remainder x y + y) = some ((n.tmod m + m : ℤ) : ℚ) := by
    have some : n.tmod m ≠ 0 := left_ne_zero_of_mul opposite.ne
    apply rational?_add rest hy some ne
    rcases mul_neg_iff.mp opposite with signs | signs <;> omega
  refine ⟨⟨_, ?_, isFlooredRemainder_tmod n ne⟩, rest, quotient, fun negative => sum (quotient.mp negative)⟩
  unfold floorMod
  simp only [quotient]
  split_ifs with opposite
  · exact sum opposite
  · exact rest

theorem floorMod_floored_ends :
    ∃ r : ℤ, rational? (floorMod (-9007199254740992.0) 9007199254740991.0) = some (r : ℚ) ∧
      IsFlooredRemainder (-9007199254740992) 9007199254740991 r := by
  have least : rational? (-9007199254740992.0) = some ((-9007199254740992 : ℤ) : ℚ) := by decide +kernel
  have most : rational? 9007199254740991.0 = some ((9007199254740991 : ℤ) : ℚ) := by decide +kernel
  exact ((floorMod_floored (by decide) (by decide) (by decide)).2.2 _ _ least most).1

end BlockScript.Number
