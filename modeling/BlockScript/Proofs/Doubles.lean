import BlockScript.Number.Decimal
import BlockScript.Number.Shortest
import BlockScript.Proofs.Rounding
import Mathlib

/-!
# Doubles as rationals
-/

namespace BlockScript.Number

open Float.Model Float.Model.UnpackedFloat

/-! ## Doubles in their parts -/

/-- The mantissas and exponents that finite doubles have. -/
structure Canonical (m : ℕ) (q : ℤ) : Prop where
  pos : 0 < m
  short : m < 2 ^ 53
  least : -1074 ≤ q
  most : q ≤ 971
  full : 2 ^ 52 ≤ m ∨ q = -1074

theorem toNat_implicit (f : BitVec 52) : (1#1 ++ f).toNat = 2 ^ 52 + f.toNat := by
  rw [BitVec.toNat_append, Nat.shiftLeft_eq, Nat.mul_comm, ← Nat.two_pow_add_eq_or_of_lt f.isLt]
  rfl

theorem unpack_components (s : Sign) (e : BitVec 11) (f : BitVec 52) :
    UnpackedFloat.unpack .binary64 (packComponents .binary64 s e f) =
      if e = -1#11 then if f = 0#52 then .infinity s else .notANumber
      else if e = 0#11 then
        if h : f = 0#52 then .zero s
        else .finite s f.toNat (-1074) (Nat.pos_of_ne_zero fun zero => h (BitVec.eq_of_toNat_eq zero))
      else .finite s (2 ^ 52 + f.toNat) (e.toNat - 1075) (by omega) := by
  simp only [UnpackedFloat.unpack, unpackMantissa_packComponents, unpackExponent_packComponents,
    unpackSign_packComponents, Sign.ofBitVec_toBitVec, toNat_implicit]
  split_ifs with top zero bottom zero
  · rfl
  · rfl
  · rfl
  · subst bottom
    rfl
  · rfl

theorem canonical_unpack {x : Float.Model} {s : Sign} {m : ℕ} {q : ℤ} {pos : 0 < m}
    (h : x.unpack = .finite s m q pos) : Canonical m q := by
  have parts := @packComponents_unpackSign_unpackExponent_unpackMantissa .binary64 x.toBits.toBitVec
  unfold Float.Model.unpack at h
  rw [← parts, unpack_components] at h
  generalize @unpackMantissa .binary64 x.toBits.toBitVec = f at h
  generalize @unpackExponent .binary64 x.toBits.toBitVec = e at h
  have bound : f.toNat < 2 ^ 52 := f.isLt
  have range : e.toNat < 2 ^ 11 := e.isLt
  split_ifs at h with top zero bottom zero
  · cases h
    exact ⟨pos, by omega, by decide, by decide, .inr rfl⟩
  · have most : e.toNat ≠ 2047 := fun h => top (BitVec.eq_of_toNat_eq h)
    have least : e.toNat ≠ 0 := fun h => bottom (BitVec.eq_of_toNat_eq h)
    cases h
    exact ⟨pos, by omega, by omega, by omega, .inl (by omega)⟩

theorem pack_finite (s : Sign) {m : ℕ} (q : ℤ) (pos : 0 < m) :
    UnpackedFloat.pack .binary64 (.finite s m q pos) =
      if 2047 ≤ (q + 1075).toNat then packedInfinity .binary64 s
      else if m.log2 = 52 then
        packComponents .binary64 s (BitVec.ofNat 11 (q + 1075).toNat) (BitVec.ofNat 52 m)
      else packComponents .binary64 s 0#11 (BitVec.ofNat 52 m) := by
  have bias : (Format.binary64.exponentBias : ℤ) + Format.binary64.mantissaBitsWithoutImplicit = 1075 := rfl
  have large : 2 ^ Format.binary64.exponentBits ≤ (q + 1075).toNat + 1 ↔ 2047 ≤ (q + 1075).toNat := by
    show 2048 ≤ _ + 1 ↔ _
    omega
  have normal : m.log2 + 1 = Format.binary64.mantissaBits ↔ m.log2 = 52 := by
    show _ + 1 = 53 ↔ _
    omega
  simp only [UnpackedFloat.pack, add_assoc, bias, large, normal]

theorem unpack_pack_finite {s : Sign} {m : ℕ} {q : ℤ} (h : Canonical m q) :
    (pack (.finite s m q h.pos)).unpack = .finite s m q h.pos := by
  obtain ⟨pos, short, least, most, full⟩ := h
  show UnpackedFloat.unpack .binary64 (UnpackedFloat.pack .binary64 _) = _
  rw [pack_finite, if_neg (by omega)]
  have bits : (BitVec.ofNat 52 m).toNat = m % 2 ^ 52 := rfl
  by_cases normal : 2 ^ 52 ≤ m
  · have exponent : (BitVec.ofNat 11 (q + 1075).toNat).toNat = (q + 1075).toNat := by
      rw [BitVec.toNat_ofNat, Nat.mod_eq_of_lt (by omega)]
    have top : BitVec.ofNat 11 (q + 1075).toNat ≠ -1#11 := by
      rw [Ne, ← BitVec.toNat_inj, exponent]
      show ¬ _ = 2047
      omega
    have bottom : BitVec.ofNat 11 (q + 1075).toNat ≠ 0#11 := by
      rw [Ne, ← BitVec.toNat_inj, exponent]
      show ¬ _ = 0
      omega
    rw [if_pos ((Nat.log2_eq_iff pos.ne').mpr ⟨normal, short⟩), unpack_components, if_neg top, if_neg bottom]
    congr 1
    · omega
    · omega
  · have nonzero : BitVec.ofNat 52 m ≠ 0#52 := by
      rw [Ne, ← BitVec.toNat_inj, bits]
      show ¬ _ = 0
      omega
    have log : m.log2 ≠ 52 := ((Nat.log2_lt pos.ne').mpr (not_le.mp normal)).ne
    rw [if_neg log, unpack_components, if_neg (by decide), if_pos rfl, dif_neg nonzero]
    congr 1
    · omega
    · omega

theorem pack_overflow {s : Sign} {m : ℕ} {q : ℤ} (pos : 0 < m) (h : 971 < q) :
    pack (.finite s m q pos) = pack (.infinity s) := by
  have packed : UnpackedFloat.pack .binary64 (.finite s m q pos) = packedInfinity .binary64 s := by
    rw [pack_finite, if_pos (by omega)]
  unfold Float.Model.pack
  congr 2

theorem pack_unpack_model (x : Float.Model) : pack x.unpack = x := by
  have bits := pack_unpack_of_valid x.valid
  unfold Float.Model.pack
  cases x
  congr 1
  exact UInt64.toBitVec_inj.mp bits

theorem pack_rounded_overflow (s : Sign) {x : ℚ} (h : 2 ^ (1024 : ℤ) ≤ x) :
    pack (rounded s x) = pack (.infinity s) := by
  have pos : 0 < x := lt_of_lt_of_le (by positivity) h
  have large := le_grid pos h
  have log : grid x = Int.log 2 x - 52 := by
    unfold grid at large ⊢
    omega
  have one : 1 ≤ roundEven (x / 2 ^ grid x) := by
    apply le_trans _ (floor_le_roundEven _)
    rw [Nat.one_le_floor_iff, le_div_iff₀ (by positivity), one_mul]
    have power := Int.zpow_log_le_self one_lt_two pos
    push_cast at power
    exact le_trans (zpow_le_zpow_right₀ one_le_two (by omega)) power
  unfold rounded
  rw [dif_neg (by omega)]
  split
  · exact pack_overflow _ (by omega)
  · exact pack_overflow _ (by omega)

/-! ## Intervals -/

section
variable {m : ℕ} {q : ℤ} {x : ℚ}

def Interval.Holds (i : Interval) (z : ℚ) : Prop :=
  if i.closed then i.low ≤ z ∧ z ≤ i.high else i.low < z ∧ z < i.high

/-- The interval around `m`: half a unit, or a quarter below a power of two, the ends only for an even one. -/
theorem Interval.Holds.bounds {y : ℚ} (pos : 0 < m) (h : (interval m q).Holds (4 * y)) :
    m - 1 / 2 ≤ y ∧ y ≤ m + 1 / 2 ∧ (m % 2 = 1 → m - 1 / 2 < y ∧ y < m + 1 / 2) ∧
      (m = 2 ^ 52 → -1074 < q → m - 1 / 4 ≤ y) := by
  have low : ((4 * m - 2 : ℕ) : ℚ) = 4 * m - 2 := by
    rw [Nat.cast_sub (by omega)]
    push_cast
    rfl
  have low' : ((4 * m - 1 : ℕ) : ℚ) = 4 * m - 1 := by
    rw [Nat.cast_sub (by omega)]
    push_cast
    rfl
  have high : ((4 * m + 2 : ℕ) : ℚ) = 4 * m + 2 := by push_cast; rfl
  have shifted : (1 <<< 52 : ℕ) = 2 ^ 52 := rfl
  simp only [Interval.Holds, interval, shifted, decide_eq_true_eq] at h
  by_cases even : m % 2 = 0
  · rw [if_pos even] at h
    by_cases power : m = 2 ^ 52 ∧ -1074 < q
    · rw [if_pos power, low', high] at h
      refine ⟨by linarith, by linarith, by omega, fun _ _ => by linarith⟩
    · rw [if_neg power, low, high] at h
      exact ⟨by linarith, by linarith, by omega, fun hm hq => absurd ⟨hm, hq⟩ power⟩
  · have power : ¬ (m = 2 ^ 52 ∧ -1074 < q) := by
      rintro ⟨rfl, -⟩
      exact even (by decide)
    rw [if_neg even, if_neg power, low, high] at h
    exact ⟨by linarith, by linarith, fun _ => ⟨by linarith, by linarith⟩, fun hm hq => absurd ⟨hm, hq⟩ power⟩

theorem Canonical.rounded_eq (c : Canonical m q) (s : Sign) (h : (interval m q).Holds (x / 2 ^ (q - 2))) :
    rounded s x = .finite s m q c.pos := by
  have unit : (0 : ℚ) < 2 ^ q := zpow_pos two_pos q
  have quarter : x / 2 ^ (q - 2) = 4 * (x / 2 ^ q) := by
    rw [zpow_sub₀ two_ne_zero]
    field_simp
    norm_num
  rw [quarter] at h
  obtain ⟨low, high, ends, power⟩ := h.bounds c.pos
  have one : (1 : ℚ) ≤ m := by exact_mod_cast c.pos
  have ypos : 0 < x / 2 ^ q := by linarith
  have pos : 0 < x := (div_pos_iff_of_pos_right unit).mp ypos
  have most : (m : ℚ) + 1 ≤ 2 ^ 53 := by exact_mod_cast c.short
  by_cases below : m = 2 ^ 52 ∧ -1074 < q ∧ x / 2 ^ q < m
  · -- below a power of two the grid is twice as fine
    obtain ⟨hm, hq, below⟩ := below
    have near := power hm hq
    have finer : x / 2 ^ (q - 1) = 2 * (x / 2 ^ q) := by
      rw [zpow_sub₀ two_ne_zero]
      field_simp
    subst hm
    push_cast at below near
    have hgrid : grid x = q - 1 := by
      apply grid_eq pos (by omega)
      · left
        rw [finer]
        linarith
      · rw [finer]
        linarith
    apply rounded_carry s (by omega)
    rw [hgrid, finer]
    apply roundEven_eq
    · push_cast
      linarith
    · push_cast
      linarith
    · intro odd
      exact absurd odd (by decide)
    · linarith
  · have hgrid : grid x = q := by
      apply grid_eq pos c.least
      · rcases c.full with full | full
        · by_cases hq : q = -1074
          · exact .inr hq
          · left
            by_cases hm : m = 2 ^ 52
            · have : ¬ x / 2 ^ q < m := fun h => below ⟨hm, by have := c.least; omega, h⟩
              subst hm
              push_cast at this
              linarith
            · have : ((2 ^ 52 + 1 : ℕ) : ℚ) ≤ m := by exact_mod_cast (by omega : 2 ^ 52 + 1 ≤ m)
              push_cast at this
              linarith
        · exact .inr full
      · linarith
    exact BlockScript.Number.rounded_eq s c.pos c.short hgrid (roundEven_eq low high ends ypos.le)

theorem Interval.holds_of_lt {i : Interval} {z : ℚ} (low : i.low < z) (high : z < i.high) : i.Holds z := by
  unfold Interval.Holds
  split
  · exact ⟨low.le, high.le⟩
  · exact ⟨low, high⟩

theorem interval_low_lt {m : ℕ} (q : ℤ) (pos : 0 < m) : (interval m q).low < 4 * m := by
  show (if m = 1 <<< 52 ∧ -1074 < q then 4 * m - 1 else 4 * m - 2) < 4 * m
  split <;> omega

theorem Canonical.rounded_self {m : ℕ} {q : ℤ} (c : Canonical m q) (s : Sign) :
    rounded s (m * 2 ^ q) = .finite s m q c.pos := by
  have scaled : (m : ℚ) * 2 ^ q / 2 ^ (q - 2) = 4 * m := by
    rw [zpow_sub₀ two_ne_zero]
    field_simp
    norm_num
  apply c.rounded_eq
  rw [scaled]
  apply Interval.holds_of_lt
  · exact_mod_cast interval_low_lt q c.pos
  · show (4 * m : ℚ) < (4 * m + 2 : ℕ)
    push_cast
    linarith

end

theorem exists_canonical {n : ℕ} (pos : 0 < n) (short : n < 2 ^ 53) :
    ∃ m q, Canonical m q ∧ 2 ^ 52 ≤ m ∧ (m : ℚ) * 2 ^ q = n := by
  have log : n.log2 ≤ 52 := Nat.lt_succ_iff.mp ((Nat.log2_lt pos.ne').mpr short)
  have low : 2 ^ n.log2 * 2 ^ (52 - n.log2) ≤ n * 2 ^ (52 - n.log2) :=
    Nat.mul_le_mul_right _ (Nat.log2_self_le pos.ne')
  have high : n * 2 ^ (52 - n.log2) < 2 ^ (n.log2 + 1) * 2 ^ (52 - n.log2) :=
    Nat.mul_lt_mul_of_pos_right Nat.lt_log2_self (by positivity)
  rw [← pow_add, show n.log2 + (52 - n.log2) = 52 by omega] at low
  rw [← pow_add, show n.log2 + 1 + (52 - n.log2) = 53 by omega] at high
  refine ⟨n * 2 ^ (52 - n.log2), -((52 - n.log2 : ℕ) : ℤ), ⟨by omega, high, by omega, by omega, .inl low⟩, low, ?_⟩
  rw [zpow_neg, zpow_natCast]
  push_cast
  field_simp

/-! ## Decimals -/

/-- The double nearest to a rational that is not negative, an infinity beyond the range. -/
def ofRat (x : ℚ) : Float :=
  .ofModel (pack (rounded .positive x))

theorem unpack_of_exact {x : Float} {negative : Bool} {m : ℕ} {q : ℤ} (h : exact x = .finite negative m q)
    (pos : 0 < m) : x.toModel.unpack = .finite (if negative then .negative else .positive) m q pos := by
  unfold exact at h
  split at h
  · cases h
  · cases h
  · cases h
    exact absurd pos (lt_irrefl 0)
  · rename_i s _ _ _ heq
    cases h
    rw [heq]
    cases s <;> rfl

theorem exact_powersOfTen : ∀ e : Fin 23,
    exact Float.exactlyRepresentablePowersOfTen[e] =
        .finite false (10 ^ e.val * 2 ^ 52 / 2 ^ (10 ^ e.val).log2) ((10 ^ e.val).log2 - 52) ∧
      2 ^ 52 ≤ 10 ^ e.val * 2 ^ 52 / 2 ^ (10 ^ e.val).log2 ∧
      10 ^ e.val * 2 ^ 52 / 2 ^ (10 ^ e.val).log2 * 2 ^ (10 ^ e.val).log2 = 10 ^ e.val * 2 ^ 52 := by
  decide +kernel

theorem exists_powerOfTen {e : ℕ} (h : e < 23) :
    ∃ m q pos, (Float.exactlyRepresentablePowersOfTen[e]).toModel.unpack = .finite .positive m q pos ∧
      2 ^ 52 ≤ m ∧ (m : ℚ) * 2 ^ q = 10 ^ e := by
  obtain ⟨value, full, exact⟩ := exact_powersOfTen ⟨e, h⟩
  refine ⟨_, _, by omega, unpack_of_exact value (by omega), full, ?_⟩
  have cast : (((10 ^ e * 2 ^ 52 / 2 ^ (10 ^ e).log2 * 2 ^ (10 ^ e).log2 : ℕ)) : ℚ) =
      ((10 ^ e * 2 ^ 52 : ℕ) : ℚ) := by
    exact_mod_cast exact
  rw [zpow_sub₀ two_ne_zero, zpow_natCast]
  push_cast at cast ⊢
  field_simp
  linarith

theorem toModel_mul (x y : Float) : x * y = .ofModel (pack (mul .binary64 x.toModel.unpack y.toModel.unpack)) := rfl

theorem toModel_div (x y : Float) : x / y = .ofModel (pack (div .binary64 x.toModel.unpack y.toModel.unpack)) := rfl

theorem exists_unpack_ofRat {n : ℕ} (pos : 0 < n) (short : n < 2 ^ 53) :
    ∃ m q h, (ofRat n).toModel.unpack = .finite .positive m q h ∧ 2 ^ 52 ≤ m ∧ (m : ℚ) * 2 ^ q = n := by
  obtain ⟨m, q, c, full, value⟩ := exists_canonical pos short
  refine ⟨m, q, c.pos, ?_, full, value⟩
  show (pack (rounded .positive n)).unpack = _
  rw [← value, c.rounded_self, unpack_pack_finite c]

theorem toFloat_toUInt64 {n : ℕ} (pos : 0 < n) (short : n < 2 ^ 53) : n.toUInt64.toFloat = ofRat n := by
  have word : n.toUInt64.toNat = n := by
    simp [Nat.toUInt64]
    omega
  show Float.ofModel (pack (normalize .binary64 ((n.toUInt64.toNat : ℕ) : ℤ) 0 .positive)) = _
  rw [word, normalize_eq pos, zpow_zero, mul_one]
  rfl

theorem pack_ofScientific (m : ℕ) (e : ℤ) :
    pack (UnpackedFloat.ofScientific .binary64 m e) = pack (rounded .positive (m * 10 ^ e)) := by
  unfold UnpackedFloat.ofScientific
  have ten : (2 : ℚ) ≤ 10 := by norm_num
  split_ifs with zero large small whole
  · rw [zero, Nat.cast_zero, zero_mul, rounded_zero]
  · -- a power of ten this large is beyond the range already
    symm
    apply pack_rounded_overflow
    have one : (1 : ℚ) ≤ m := by exact_mod_cast Nat.pos_of_ne_zero zero
    have large : (2048 : ℤ) < e := large
    calc (2 : ℚ) ^ (1024 : ℤ) ≤ 2 ^ e := zpow_le_zpow_right₀ one_le_two (by omega)
      _ ≤ 10 ^ e := zpow_le_zpow_left₀ (by omega) two_pos.le ten
      _ ≤ m * 10 ^ e := le_mul_of_one_le_left (by positivity) one
  · have pos : 0 < m := Nat.pos_of_ne_zero zero
    rw [rounded_underflow _ (by positivity)]
    have small : e < -(2048 + m.log2) := small
    have power : (10 : ℚ) ^ e ≤ 2 ^ e := by
      obtain ⟨n, rfl⟩ : ∃ n : ℕ, e = -n := ⟨e.natAbs, by omega⟩
      rw [zpow_neg, zpow_neg, zpow_natCast, zpow_natCast]
      gcongr
    calc (m : ℚ) * 10 ^ e ≤ 2 ^ ((m.log2 : ℤ) + 1) * 2 ^ e := by
          gcongr
          exact le_two_pow_log2 m
      _ = 2 ^ ((m.log2 : ℤ) + 1 + e) := (zpow_add₀ two_ne_zero _ _).symm
      _ < 2 ^ (-1075 : ℤ) := zpow_lt_zpow_right₀ one_lt_two (by omega)
  · have pos : 0 < m := Nat.pos_of_ne_zero zero
    have value : ((m <<< 53 : ℕ) : ℚ) * 2 ^ (-53 : ℤ) * ((10 ^ e.toNat : ℕ) * 2 ^ (0 : ℤ)) = m * 10 ^ e := by
      have : (10 : ℚ) ^ e.toNat = 10 ^ e := by rw [← zpow_natCast, Int.toNat_of_nonneg whole]
      rw [Nat.shiftLeft_eq]
      push_cast
      rw [this, zpow_neg]
      field_simp
      norm_num
    have one : (2 : ℚ) ^ (0 : ℤ) ≤ m * 10 ^ e := by
      rw [zpow_zero]
      exact one_le_mul_of_one_le_of_one_le (by exact_mod_cast pos) (one_le_zpow₀ (by norm_num) whole)
    have fine := le_grid (by positivity) one
    have product := @mul_eq .positive .positive (m <<< 53) (10 ^ e.toNat) (-53) 0
      (by rw [Nat.shiftLeft_eq]; positivity) (by positivity) (by rw [value]; omega)
    rw [value] at product
    exact congrArg pack product
  · have pos : 0 < m := Nat.pos_of_ne_zero zero
    have value : (m : ℚ) * 2 ^ (0 : ℤ) / ((10 ^ (-e).toNat : ℕ) * 2 ^ (0 : ℤ)) = m * 10 ^ e := by
      have : (10 : ℚ) ^ (-e).toNat = (10 ^ e)⁻¹ := by
        rw [← zpow_natCast, Int.toNat_of_nonneg (by omega), zpow_neg]
      push_cast
      rw [this, mul_one, mul_one, div_inv_eq_mul]
    have quotient := @div_eq .positive .positive m (10 ^ (-e).toNat) 0 0 pos (by positivity)
    rw [value] at quotient
    exact congrArg pack quotient

theorem unpack_zero_toFloat : (0 : ℕ).toUInt64.toFloat.toModel.unpack = .zero .positive := by
  rfl

theorem ofScientific_fast {m : ℕ} {e : ℤ} (short : m < 2 ^ 53) (h : e.natAbs < 23) :
    (if e < 0 then m.toUInt64.toFloat / Float.exactlyRepresentablePowersOfTen[e.natAbs]
      else m.toUInt64.toFloat * Float.exactlyRepresentablePowersOfTen[e.natAbs]) = ofRat (m * 10 ^ e) := by
  obtain ⟨p, q, ppos, power, pfull, pvalue⟩ := exists_powerOfTen h
  by_cases zero : m = 0
  · subst zero
    rw [toModel_div, toModel_mul, power, unpack_zero_toFloat, Nat.cast_zero, zero_mul, ofRat, rounded_zero]
    split <;> rfl
  · obtain ⟨n, r, npos, number, nfull, nvalue⟩ := exists_unpack_ofRat (Nat.pos_of_ne_zero zero) short
    rw [toFloat_toUInt64 (Nat.pos_of_ne_zero zero) short, toModel_div, toModel_mul, power, number,
      div_eq npos ppos, mul_eq npos ppos (le_grid_mul r q nfull pfull), nvalue, pvalue]
    split
    · have : (10 : ℚ) ^ e = (10 ^ e.natAbs)⁻¹ := by
        rw [← zpow_natCast, ← zpow_neg]
        congr 1
        omega
      rw [this, ← div_eq_mul_inv]
      rfl
    · have : (10 : ℚ) ^ e = 10 ^ e.natAbs := by
        rw [← zpow_natCast]
        congr 1
        omega
      rw [this]
      rfl

/-- The double that a decimal reads as depends only on the rational it denotes: it is the nearest one. -/
theorem Decimal.toFloat_eq (d : Decimal) : d.toFloat = ofRat (d.mantissa * 10 ^ d.exponent) := by
  obtain ⟨m, e⟩ := d
  unfold Decimal.toFloat Float.ofScientific
  simp only [decide_eq_true_eq]
  by_cases fast : m < 2 ^ 53 ∧ e.natAbs ≤ 22
  · rw [dif_pos fast]
    exact ofScientific_fast fast.1 (by omega)
  · have sign : (if e < 0 then Int.negOfNat e.natAbs else Int.ofNat e.natAbs) = e := by
      rw [Int.negOfNat_eq, Int.ofNat_eq_natCast]
      split <;> omega
    rw [dif_neg fast, sign]
    exact congrArg Float.ofModel (pack_ofScientific m e)

/-! ## Signs -/

def Signed (s : Sign) : UnpackedFloat → Prop
  | .notANumber => False
  | .infinity t => t = s
  | .zero t => t = s
  | .finite t _ _ _ => t = s

theorem Signed.isNaN {s : Sign} {x : Float} (h : Signed s x.toModel.unpack) : x.isNaN = false := by
  show x.toModel.unpack.isNaN = false
  cases hx : x.toModel.unpack <;> simp_all [Signed, UnpackedFloat.isNaN]

theorem unpack_pack_infinity (s : Sign) : (pack (.infinity s)).unpack = .infinity s := by
  cases s <;> rfl

theorem unpack_pack_zero (s : Sign) : (pack (.zero s)).unpack = .zero s := by
  cases s <;> rfl

theorem signed_pack_finite (s : Sign) {m : ℕ} (q : ℤ) (pos : 0 < m) :
    Signed s (pack (.finite s m q pos)).unpack ∧ (q ≤ 971 → (pack (.finite s m q pos)).unpack.isFinite) := by
  by_cases large : 971 < q
  · rw [pack_overflow pos large, unpack_pack_infinity]
    exact ⟨rfl, fun h => by omega⟩
  · show Signed s (UnpackedFloat.unpack .binary64 (UnpackedFloat.pack .binary64 _)) ∧
      (_ → UnpackedFloat.isFinite (UnpackedFloat.unpack .binary64 (UnpackedFloat.pack .binary64 _)))
    have exponent : (BitVec.ofNat 11 (q + 1075).toNat).toNat = (q + 1075).toNat := by
      rw [BitVec.toNat_ofNat, Nat.mod_eq_of_lt (by omega)]
    have top : BitVec.ofNat 11 (q + 1075).toNat ≠ -1#11 := by
      rw [Ne, ← BitVec.toNat_inj, exponent]
      show ¬ _ = 2047
      omega
    rw [pack_finite, if_neg (by omega)]
    split_ifs
    · rw [unpack_components, if_neg top]
      split_ifs <;> exact ⟨rfl, fun _ => rfl⟩
    · rw [unpack_components, if_neg (by decide), if_pos rfl]
      split_ifs <;> exact ⟨rfl, fun _ => rfl⟩

theorem Signed.pack {s : Sign} {u : UnpackedFloat} (h : Signed s u) : Signed s (pack u).unpack := by
  cases u with
  | notANumber => exact h
  | infinity t => rwa [unpack_pack_infinity]
  | zero t => rwa [unpack_pack_zero]
  | finite t m q pos =>
    obtain rfl : t = s := h
    exact (signed_pack_finite t q pos).1

theorem signed_rounded (s : Sign) (x : ℚ) : Signed s (rounded s x) := by
  unfold rounded
  split_ifs <;> rfl

theorem signed_roundWithAccuracy (s : Sign) (m : ℕ) (e : ℤ) (accuracy : Accuracy) :
    Signed s (roundWithAccuracy .binary64 s m e accuracy) := by
  unfold roundWithAccuracy
  simp only
  split_ifs <;> rfl

theorem signed_ofRat (x : ℚ) : Signed .positive (ofRat x).toModel.unpack :=
  (signed_rounded _ x).pack

theorem signed_normalize {n : ℤ} (pos : 0 < n) (e : ℤ) (s : Sign) :
    Signed .positive (UnpackedFloat.normalize .binary64 n e s) := by
  have order : compare n 0 = .gt := compare_gt_iff_gt.mpr pos
  unfold UnpackedFloat.normalize
  rw [order]
  exact signed_roundWithAccuracy _ _ _ _

/-- In a sum of two numbers of one sign no infinity meets its opposite. -/
theorem signed_add {u v : UnpackedFloat} (hu : Signed .positive u) (hv : Signed .positive v) :
    Signed .positive (UnpackedFloat.add .binary64 u v) := by
  cases u with
  | notANumber => exact hu.elim
  | infinity t =>
    cases hu
    cases v with
    | notANumber => exact hv.elim
    | infinity t => cases hv; rfl
    | zero | finite => rfl
  | zero t =>
    cases hu
    cases v with
    | notANumber => exact hv.elim
    | zero t => cases hv; rfl
    | infinity | finite => exact hv
  | finite t m e pos =>
    cases hu
    cases v with
    | notANumber => exact hv.elim
    | infinity => exact hv
    | zero => rfl
    | finite t m' e' pos' =>
      cases hv
      apply signed_normalize
      show 0 < ((m <<< _ : ℕ) : ℤ) + ((m' <<< _ : ℕ) : ℤ)
      rw [Nat.shiftLeft_eq]
      positivity

theorem signed_mul {u : UnpackedFloat} (hu : Signed .positive u) (m : ℕ) (q : ℤ) (pos : 0 < m) :
    Signed .positive (UnpackedFloat.mul .binary64 u (.finite .positive m q pos)) := by
  cases u with
  | notANumber => exact hu.elim
  | infinity t => cases hu; rfl
  | zero t => cases hu; rfl
  | finite t => cases hu; exact signed_roundWithAccuracy _ _ _ _

theorem ofNat_eq (n : ℕ) : Float.ofNat n = ofRat n := by
  have := Decimal.toFloat_eq ⟨n, 0⟩
  rw [zpow_zero, mul_one] at this
  exact this

theorem isFinite_ofRat {x : ℚ} (nonneg : 0 ≤ x) (h : x < 2 ^ (64 : ℤ)) : (ofRat x).isFinite = true := by
  show (pack (rounded .positive x)).unpack.isFinite = true
  rcases nonneg.eq_or_lt with rfl | pos
  · rw [rounded_zero, unpack_pack_zero]
    rfl
  · have log : Int.log 2 x < 64 := by
      rw [← Int.lt_zpow_iff_log_lt one_lt_two pos]
      exact_mod_cast h
    have small : grid x ≤ 970 := by
      unfold grid
      omega
    unfold rounded
    split_ifs
    · rw [unpack_pack_zero]
      rfl
    · exact (signed_pack_finite _ _ _).2 (by omega)
    · exact (signed_pack_finite _ _ _).2 (by omega)

theorem unpack_neg (x : Float) : (-x).toModel.unpack = x.toModel.unpack.neg := by
  show (pack x.toModel.unpack.neg).unpack = _
  cases hx : x.toModel.unpack with
  | notANumber => rfl
  | infinity s => exact unpack_pack_infinity (-s)
  | zero s => exact unpack_pack_zero (-s)
  | finite s m q pos => exact unpack_pack_finite (canonical_unpack hx)

theorem isFinite_neg (x : Float) : (-x).isFinite = x.isFinite := by
  show (-x).toModel.unpack.isFinite = x.toModel.unpack.isFinite
  rw [unpack_neg]
  cases x.toModel.unpack <;> rfl

theorem isNaN_neg (x : Float) : (-x).isNaN = x.isNaN := by
  show (-x).toModel.unpack.isNaN = x.toModel.unpack.isNaN
  rw [unpack_neg]
  cases x.toModel.unpack <;> rfl

/-- A factor of one is lost: the product of the two mantissas is rounded back to the one it came from. -/
theorem unit_mul {m : ℕ} {q : ℤ} (c : Canonical m q) (s t : Sign) (pos : 0 < 2 ^ 52) :
    UnpackedFloat.mul .binary64 (.finite s (2 ^ 52) (-52) pos) (.finite t m q c.pos) =
      .finite (s * t) m q c.pos := by
  have value : ((2 ^ 52 : ℕ) : ℚ) * 2 ^ (-52 : ℤ) * (m * 2 ^ q) = m * 2 ^ q := by
    push_cast
    rw [zpow_neg]
    norm_num
  have least : (2 : ℚ) ^ ((m.log2 : ℤ) + q) ≤ m * 2 ^ q := by
    rw [zpow_add₀ two_ne_zero]
    gcongr
    exact two_pow_log2_le c.pos
  have mpos := c.pos
  have fine := le_grid (by positivity) least
  rw [mul_eq pos c.pos (by rw [value]; omega), value, c.rounded_self]

theorem one_mul_float (x : Float) : 1.0 * x = x := by
  have one : (1.0 : Float).toModel.unpack = .finite .positive (2 ^ 52) (-52) (by decide) := rfl
  have keep (t : Sign) : Sign.positive * t = t := by cases t <;> rfl
  have product : UnpackedFloat.mul .binary64 (1.0 : Float).toModel.unpack x.toModel.unpack = x.toModel.unpack := by
    rw [one]
    cases hx : x.toModel.unpack with
    | notANumber => rfl
    | infinity t => exact congrArg UnpackedFloat.infinity (keep t)
    | zero t => exact congrArg UnpackedFloat.zero (keep t)
    | finite t m q pos => rw [unit_mul (canonical_unpack hx), keep]
  rw [toModel_mul, product, pack_unpack_model]

theorem neg_one_mul_float (x : Float) : -1.0 * x = -x := by
  have one : (-1.0 : Float).toModel.unpack = .finite .negative (2 ^ 52) (-52) (by decide) := rfl
  have turn (t : Sign) : Sign.negative * t = -t := by cases t <;> rfl
  have product : UnpackedFloat.mul .binary64 (-1.0 : Float).toModel.unpack x.toModel.unpack =
      x.toModel.unpack.neg := by
    rw [one]
    cases hx : x.toModel.unpack with
    | notANumber => rfl
    | infinity t => exact congrArg UnpackedFloat.infinity (turn t)
    | zero t => exact congrArg UnpackedFloat.zero (turn t)
    | finite t m q pos =>
      rw [unit_mul (canonical_unpack hx), turn]
      rfl
  rw [toModel_mul, product]
  rfl

end BlockScript.Number
