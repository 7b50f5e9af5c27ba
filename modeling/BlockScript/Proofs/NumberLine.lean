import BlockScript.Proofs.Doubles
import BlockScript.Value.Order

/-!
# Doubles on the number line

A finite double denotes a rational, the same one for both zeros, and the infinities lie below and above all
rationals. Doubles are kept as a mantissa and an exponent and compared exponent first. As every mantissa but those
of the least exponent has all its bits, that order is the order of the line, and flooring a double is flooring its
rational.
-/

namespace BlockScript.Number

open Float.Model Float.Model.UnpackedFloat

/-- The rational that a finite double denotes; an infinity and NaN denote none. -/
def rational? (x : Float) : Option ℚ :=
  match exact x with
  | .finite negative m q => some (signed negative m * 2 ^ q)
  | _ => none

/-- Where a double lies on the line of rationals between two infinities; NaN lies nowhere. -/
def point? (x : Float) : Option (WithBotTop ℚ) :=
  match exact x with
  | .nan => none
  | .infinite negative => some (if negative then ⊥ else ⊤)
  | .finite negative m q => some (signed negative m * 2 ^ q : ℚ)

theorem isNaN_iff (x : Float) : x.isNaN = true ↔ point? x = none := by
  show x.toModel.unpack.isNaN = true ↔ _
  unfold point? exact
  cases x.toModel.unpack <;> simp [UnpackedFloat.isNaN]

theorem exists_point? {x : Float} (h : x.isNaN = false) : ∃ a, point? x = some a := by
  rw [← Option.ne_none_iff_exists', Ne, ← isNaN_iff, h]
  decide

theorem point?_of_rational? {x : Float} {r : ℚ} (h : rational? x = some r) :
    point? x = some (r : WithBotTop ℚ) := by
  unfold rational? at h
  unfold point?
  cases hx : exact x with
  | nan | infinite => simp [hx] at h
  | finite negative m q =>
    simp only [hx, Option.some.injEq] at h
    rw [← h]

/-! ## Doubles in their parts -/

inductive Measures : UnpackedFloat → ℚ → Prop where
  | zero (s : Sign) : Measures (.zero s) 0
  | positive {m : ℕ} {q : ℤ} (c : Canonical m q) : Measures (.finite .positive m q c.pos) (m * 2 ^ q)
  | negative {m : ℕ} {q : ℤ} (c : Canonical m q) : Measures (.finite .negative m q c.pos) (-(m * 2 ^ q))

inductive Lies : UnpackedFloat → WithBotTop ℚ → Prop where
  | bottom : Lies (.infinity .negative) ⊥
  | top : Lies (.infinity .positive) ⊤
  | within {u : UnpackedFloat} {r : ℚ} (h : Measures u r) : Lies u r

theorem lies_point? {x : Float} {a : WithBotTop ℚ} (h : point? x = some a) : Lies x.toModel.unpack a := by
  unfold point? exact at h
  cases hx : x.toModel.unpack with
  | notANumber => simp [hx] at h
  | infinity s =>
    simp only [hx, Option.some.injEq] at h
    subst h
    cases s with
    | negative => exact .bottom
    | positive => exact .top
  | zero s =>
    simp only [hx, Option.some.injEq] at h
    subst h
    have := Lies.within (.zero s)
    cases s <;> simpa [signed, isNegative] using this
  | finite s m q pos =>
    have c := canonical_unpack hx
    simp only [hx, Option.some.injEq] at h
    subst h
    cases s with
    | negative => simpa [signed, isNegative] using Lies.within (.negative c)
    | positive => simpa [signed, isNegative] using Lies.within (.positive c)

theorem rational?_of_unpack {x : Float} {m : ℕ} {q : ℤ} {pos : 0 < m}
    (h : x.toModel.unpack = .finite .positive m q pos) : rational? x = some (m * 2 ^ q : ℚ) := by
  simp [rational?, exact, h, signed, isNegative]

theorem exists_unpack_of_rational? {x : Float} {r : ℚ} (h : rational? x = some r) (pos : 0 < r) :
    ∃ m q, ∃ c : Canonical m q, x.toModel.unpack = .finite .positive m q c.pos ∧ (m : ℚ) * 2 ^ q = r := by
  have signs : ∀ (m : ℕ) (q : ℤ), ¬ (0 : ℚ) < -m * 2 ^ q := by
    intro m q
    have : (0 : ℚ) ≤ m * 2 ^ q := by positivity
    linarith
  unfold rational? exact at h
  cases hx : x.toModel.unpack with
  | notANumber | infinity => simp [hx] at h
  | zero s => cases s <;> simp [hx, signed, isNegative] at h <;> simp [← h] at pos
  | finite s m q mpos =>
    cases s with
    | positive => exact ⟨m, q, canonical_unpack hx, rfl, by simpa [hx, signed, isNegative] using h⟩
    | negative =>
      simp [hx, signed, isNegative] at h
      exact absurd pos (by rw [← h, ← neg_mul]; exact signs m q)

/-! ## Order -/

section
variable {m n : ℕ} {p q : ℤ}

theorem Canonical.measure_pos (c : Canonical m p) : (0 : ℚ) < m * 2 ^ p := by
  have := c.pos
  positivity

/-- A greater exponent makes a greater number, since the mantissa then has all its bits. -/
theorem Canonical.lt_of_exponent_lt (c : Canonical m p) (d : Canonical n q) (h : p < q) :
    (m : ℚ) * 2 ^ p < n * 2 ^ q := by
  have short : (m : ℚ) < 2 ^ 53 := by exact_mod_cast c.short
  have full : (2 : ℚ) ^ 52 ≤ n := by
    have least := c.least
    have : 2 ^ 52 ≤ n := by
      rcases d.full with full | finest
      · exact full
      · omega
    exact_mod_cast this
  calc (m : ℚ) * 2 ^ p < 2 ^ 53 * 2 ^ p := by gcongr
    _ = 2 ^ 52 * 2 ^ (p + 1) := by rw [zpow_add_one₀ two_ne_zero]; ring
    _ ≤ 2 ^ 52 * 2 ^ q := by
      gcongr
      · exact one_le_two
      · omega
    _ ≤ n * 2 ^ q := by gcongr

theorem Canonical.compare_eq (c : Canonical m p) (d : Canonical n q) :
    (compare p q).then (compare m n) = compare ((m : ℚ) * 2 ^ p) (n * 2 ^ q) := by
  rcases lt_trichotomy p q with less | rfl | more
  · rw [compare_lt_iff_lt.mpr less, compare_lt_iff_lt.mpr (c.lt_of_exponent_lt d less)]
    rfl
  · have unit : (0 : ℚ) < 2 ^ p := by positivity
    have scale := ((strictMono_mul_right_of_pos unit).comp Nat.strictMono_cast).cmp_map_eq m n
    simp only [Function.comp_apply, cmp_eq_compare] at scale
    rw [compare_eq_iff_eq.mpr rfl, scale]
    rfl
  · rw [compare_gt_iff_gt.mpr more, compare_gt_iff_gt.mpr (d.lt_of_exponent_lt c more)]
    rfl

end

theorem compare_neg (a b : ℚ) : compare (-a) (-b) = (compare a b).swap := by
  have anti : StrictAnti (fun a : ℚ => -a) := fun _ _ h => neg_lt_neg h
  rw [← Std.OrientedOrd.eq_swap, ← cmp_eq_compare, ← cmp_eq_compare]
  exact anti.cmp_map_eq a b

theorem Measures.compare_eq {u v : UnpackedFloat} {a b : ℚ} (hu : Measures u a) (hv : Measures v b) :
    u.compare v = some (compare a b) := by
  cases hu with
  | zero s =>
    cases hv with
    | zero t => rw [compare_eq_iff_eq.mpr rfl]; rfl
    | positive d => rw [compare_lt_iff_lt.mpr d.measure_pos]; rfl
    | negative d => rw [compare_gt_iff_gt.mpr (neg_neg_of_pos d.measure_pos)]; rfl
  | positive c =>
    cases hv with
    | zero t => rw [compare_gt_iff_gt.mpr c.measure_pos]; rfl
    | positive d => rw [← c.compare_eq d]; rfl
    | negative d => rw [compare_gt_iff_gt.mpr ((neg_neg_of_pos d.measure_pos).trans c.measure_pos)]; rfl
  | negative c =>
    cases hv with
    | zero t => rw [compare_lt_iff_lt.mpr (neg_neg_of_pos c.measure_pos)]; rfl
    | positive d => rw [compare_lt_iff_lt.mpr ((neg_neg_of_pos c.measure_pos).trans d.measure_pos)]; rfl
    | negative d => rw [compare_neg, ← c.compare_eq d]; rfl

theorem compare_coe (a b : ℚ) : compare (a : WithBotTop ℚ) b = compare a b := by
  have := WithBotTop.coe_strictMono.cmp_map_eq a b
  simpa only [cmp_eq_compare] using this

theorem Lies.compare_eq {u v : UnpackedFloat} {a b : WithBotTop ℚ} (hu : Lies u a) (hv : Lies v b) :
    u.compare v = some (compare a b) := by
  have above (r : ℚ) : (⊥ : WithBotTop ℚ) < r := WithBot.bot_lt_coe _
  have below (r : ℚ) : (r : WithBotTop ℚ) < ⊤ := WithBot.coe_lt_coe.mpr (WithTop.coe_lt_top r)
  cases hu with
  | bottom =>
    cases hv with
    | bottom => rw [compare_eq_iff_eq.mpr rfl]; rfl
    | top => rw [compare_lt_iff_lt.mpr bot_lt_top]; rfl
    | within h => rw [compare_lt_iff_lt.mpr (above _)]; cases h <;> rfl
  | top =>
    cases hv with
    | bottom => rw [compare_gt_iff_gt.mpr bot_lt_top]; rfl
    | top => rw [compare_eq_iff_eq.mpr rfl]; rfl
    | within h => rw [compare_gt_iff_gt.mpr (below _)]; cases h <;> rfl
  | within h =>
    cases hv with
    | bottom => rw [compare_gt_iff_gt.mpr (above _)]; cases h <;> rfl
    | top => rw [compare_lt_iff_lt.mpr (below _)]; cases h <;> rfl
    | within h' => rw [compare_coe, h.compare_eq h']

section
variable {x y : Float} {a b : WithBotTop ℚ}

theorem lt_iff (hx : point? x = some a) (hy : point? y = some b) : x < y ↔ a < b := by
  show decide ((x.toModel.unpack.compare y.toModel.unpack == some .lt) = true) = true ↔ _
  rw [decide_eq_true_iff, (lies_point? hx).compare_eq (lies_point? hy), beq_iff_eq, Option.some.injEq,
    compare_lt_iff_lt]

theorem beq_iff (hx : point? x = some a) (hy : point? y = some b) : (x == y) = true ↔ a = b := by
  show (x.toModel.unpack.compare y.toModel.unpack == some .eq) = true ↔ _
  rw [(lies_point? hx).compare_eq (lies_point? hy), beq_iff_eq, Option.some.injEq, compare_eq_iff_eq]

theorem compareNumbers_eq (hx : point? x = some a) (hy : point? y = some b) :
    Value.compareNumbers x y = compare a b := by
  unfold Value.compareNumbers
  simp only [lt_iff hx hy, lt_iff hy hx]
  rcases lt_trichotomy a b with less | rfl | more
  · rw [if_pos less, compare_lt_iff_lt.mpr less]
  · rw [if_neg (lt_irrefl a), if_neg (lt_irrefl a), compare_eq_iff_eq.mpr rfl]
  · rw [if_neg more.not_gt, if_pos more, compare_gt_iff_gt.mpr more]

end

/-! ## Floors -/

theorem floor_signed (negative : Bool) (m : ℕ) (q : ℤ) :
    ⌊(signed negative m * 2 ^ q : ℚ)⌋ =
      if 0 ≤ q then signed negative (m <<< q.toNat) else signed negative m >>> (-q).toNat := by
  split
  · rename_i whole
    have power : (2 : ℚ) ^ q = 2 ^ q.toNat := by rw [← zpow_natCast, Int.toNat_of_nonneg whole]
    have value : (signed negative m * 2 ^ q : ℚ) = (signed negative (m <<< q.toNat) : ℤ) := by
      rw [power, Nat.shiftLeft_eq]
      cases negative <;> simp [signed]
    rw [value, Int.floor_intCast]
  · rename_i fraction
    have power : (2 : ℚ) ^ q = ((2 ^ (-q).toNat : ℕ) : ℚ)⁻¹ := by
      rw [Nat.cast_pow, Nat.cast_ofNat, ← zpow_natCast, ← zpow_neg]
      congr 1
      omega
    rw [power, ← div_eq_mul_inv, Rat.floor_intCast_div_natCast, Int.shiftRight_eq_div_pow]

theorem floor?_eq (x : Float) : floor? x = (rational? x).map Int.floor := by
  unfold floor? rational?
  cases exact x with
  | nan => rfl
  | infinite negative => rfl
  | finite negative m q =>
    simp only [Option.map_some, floor_signed]
    split <;> rfl

end BlockScript.Number
