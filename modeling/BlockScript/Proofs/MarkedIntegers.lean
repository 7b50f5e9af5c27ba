import BlockScript.Proofs.Literals
import BlockScript.Proofs.NearestIntegers

/-!
# Integers with a marked base

Digits of base 16, 8 or 2 are taken in from the left, and the sum is rounded at each of them. The factor is
a power of two, so a product is exact and there is one rounding a digit. The first digit that takes the
integer past 53 bits is rounded off like any rest. From then on a digit is worth less than half of the last
bit that is kept, and is lost. So the double is the one nearest to the integer with zeros for the digits
that come too late. It is the nearest to the integer itself unless the digits before them are half-way
between two doubles, and the even one is the lower.
-/

namespace BlockScript.Number

open Float.Model Float.Model.UnpackedFloat

/-! ## One rounding a digit -/

theorem toModel_add (x y : Float) : x + y = .ofModel (pack (add .binary64 x.toModel.unpack y.toModel.unpack)) := rfl

theorem add_eq {m m' : ℕ} {e e' : ℤ} (pos : 0 < m) (pos' : 0 < m') :
    add .binary64 (.finite .positive m e pos) (.finite .positive m' e' pos') =
      rounded .positive (m * 2 ^ e + m' * 2 ^ e') := by
  set t := min e e' with ht
  have shifted (m : ℕ) {e : ℤ} (h : t ≤ e) : ((m <<< (e - t).toNat : ℕ) : ℚ) = m * 2 ^ e / 2 ^ t := by
    have : ((e - t).toNat : ℤ) = e - t := by omega
    rw [Nat.shiftLeft_eq, Nat.cast_mul, Nat.cast_pow, Nat.cast_ofNat, ← zpow_natCast, this, zpow_sub₀ two_ne_zero]
    ring
  have sum := @normalize_eq (m <<< (e - t).toNat + m' <<< (e' - t).toNat)
    (by rw [Nat.shiftLeft_eq]; positivity) t .positive
  have value : ((m <<< (e - t).toNat + m' <<< (e' - t).toNat : ℕ) : ℚ) * 2 ^ t = m * 2 ^ e + m' * 2 ^ e' := by
    rw [Nat.cast_add, shifted m (by omega), shifted m' (by omega)]
    field_simp
  rw [value] at sum
  exact sum

theorem ofRat_unpack {x : Float} {u : UnpackedFloat} (h : x.toModel.unpack = u) : Float.ofModel (pack u) = x := by
  rw [← h, pack_unpack_model]

section
variable {k e : ℕ}

theorem unpack_short (pos : 0 < k) (short : k < 2 ^ 53) :
    ((2 : ℚ) ^ (1024 : ℤ) ≤ k * 2 ^ e ∧ (ofRat (k * 2 ^ e)).toModel.unpack = .infinity .positive) ∨
    ∃ m q, ∃ c : Canonical m q, (ofRat (k * 2 ^ e)).toModel.unpack = .finite .positive m q c.pos ∧ 2 ^ 52 ≤ m ∧
      (m : ℚ) * 2 ^ q = k * 2 ^ e := by
  rcases le_or_gt ((2 : ℚ) ^ (1024 : ℤ)) (k * 2 ^ e) with beyond | range
  · exact .inl ⟨beyond, unpack_ofRat_overflow beyond⟩
  · obtain ⟨m, q, c, full, value⟩ := exists_canonical_short pos short range
    exact .inr ⟨m, q, c, by rw [← value, c.unpack_ofRat], full, value⟩

theorem ofRat_zero_unpack : (ofRat 0).toModel.unpack = .zero .positive := by
  show (pack (rounded .positive 0)).unpack = _
  rw [rounded_zero, unpack_pack_zero]

theorem ofRat_mul_two_pow (short : k < 2 ^ 53) {b : ℕ} (small : b < 53) :
    ofRat (k * 2 ^ e) * Float.ofNat (2 ^ b) = ofRat (k * 2 ^ e * 2 ^ b) := by
  obtain ⟨m, q, pos, power, full, value⟩ :=
    @exists_unpack_ofRat (2 ^ b) (by positivity) (Nat.pow_lt_pow_right (by decide) small)
  rw [toModel_mul, ofNat_eq, power]
  by_cases zero : k = 0
  · simp only [zero, Nat.cast_zero, zero_mul, ofRat_zero_unpack]
    exact ofRat_unpack ofRat_zero_unpack
  · rcases unpack_short (e := e) (Nat.pos_of_ne_zero zero) short with
      ⟨beyond, unpack⟩ | ⟨m', q', c, unpack, full', value'⟩
    · have further : (2 : ℚ) ^ (1024 : ℤ) ≤ k * 2 ^ e * 2 ^ b :=
        beyond.trans (le_mul_of_one_le_right (by positivity) (one_le_pow₀ one_le_two))
      rw [unpack]
      exact ofRat_unpack (unpack_ofRat_overflow further)
    · rw [unpack, mul_eq c.pos pos (le_grid_mul q' q full' full), value', value]
      push_cast
      rfl

theorem ofRat_add_ofNat (short : k < 2 ^ 53) {d : ℕ} (small : d < 2 ^ 53) :
    ofRat (k * 2 ^ e) + Float.ofNat d = ofRat (k * 2 ^ e + d) := by
  have signed : Signed .positive (ofRat d).toModel.unpack := signed_ofRat d
  rw [toModel_add, ofNat_eq]
  by_cases zero : k = 0
  · simp only [zero, Nat.cast_zero, zero_mul, zero_add, ofRat_zero_unpack]
    apply ofRat_unpack
    cases h : (ofRat d).toModel.unpack with
    | notANumber => simp [h, Signed] at signed
    | infinity s | finite s => rfl
    | zero s =>
      rw [h] at signed
      cases signed
      rfl
  · rcases unpack_short (e := e) (Nat.pos_of_ne_zero zero) short with
      ⟨beyond, unpack⟩ | ⟨m, q, c, unpack, full, value⟩
    · have further : (2 : ℚ) ^ (1024 : ℤ) ≤ k * 2 ^ e + d := beyond.trans (le_add_of_nonneg_right (by positivity))
      apply ofRat_unpack
      rw [unpack_ofRat_overflow further, unpack]
      cases h : (ofRat d).toModel.unpack with
      | notANumber => simp [h, Signed] at signed
      | zero s | finite s => rfl
      | infinity s =>
        rw [h] at signed
        cases signed
        rfl
    · by_cases none : d = 0
      · simp only [none, Nat.cast_zero, add_zero, ofRat_zero_unpack]
        apply ofRat_unpack
        rw [unpack]
        rfl
      · obtain ⟨m', q', pos, digit, -, value'⟩ := exists_unpack_ofRat (Nat.pos_of_ne_zero none) small
        rw [unpack, digit, add_eq c.pos pos, value, value']
        rfl

end

/-! ## Digits from the left -/

def digitOf (base : ℕ) (c : Char) : ℕ :=
  (digitIn? base c).getD 0

def integerFrom (base n : ℕ) (digits : List Char) : ℕ :=
  digits.foldl (fun n c => n * base + digitOf base c) n

def integerOf (base : ℕ) (digits : List Char) : ℕ :=
  integerFrom base 0 digits

/-- The same, rounded to 53 bits at every digit. -/
def roundedFrom (base n : ℕ) (digits : List Char) : ℕ :=
  digits.foldl (fun n c => nearest (n * base + digitOf base c)) n

theorem digitIn?_eq {base : ℕ} {c : Char} (h : (digitIn? base c).isSome) :
    digitIn? base c = some (digitOf base c) := by
  unfold digitOf
  cases hc : digitIn? base c with
  | none => simp [hc] at h
  | some d => rfl

theorem digitOf_lt {base : ℕ} (pos : 0 < base) (c : Char) : digitOf base c < base := by
  unfold digitOf digitIn?
  dsimp only
  generalize (if '0' ≤ c ∧ c ≤ '9' then c.toNat - '0'.toNat else _) = value
  split_ifs with h
  · exact h
  · exact pos

theorem integerFrom_eq (base n : ℕ) (digits : List Char) :
    integerFrom base n digits = n * base ^ digits.length + integerOf base digits := by
  unfold integerOf
  induction digits generalizing n with
  | nil => simp [integerFrom]
  | cons c rest ih =>
    show integerFrom base (n * base + digitOf base c) rest = _ + integerFrom base (0 * base + digitOf base c) rest
    rw [ih, ih (0 * base + digitOf base c), List.length_cons]
    ring

theorem integerOf_lt {base : ℕ} (pos : 0 < base) (digits : List Char) :
    integerOf base digits < base ^ digits.length := by
  induction digits with
  | nil => simp [integerOf, integerFrom]
  | cons c rest ih =>
    have digit : digitOf base c + 1 ≤ base := digitOf_lt pos c
    have : integerOf base (c :: rest) = digitOf base c * base ^ rest.length + integerOf base rest := by
      show integerFrom base (0 * base + digitOf base c) rest = _
      rw [integerFrom_eq, zero_mul, zero_add]
    calc integerOf base (c :: rest) < (digitOf base c + 1) * base ^ rest.length := by rw [this, add_mul]; omega
      _ ≤ base * base ^ rest.length := Nat.mul_le_mul_right _ digit
      _ = base ^ (c :: rest).length := by rw [List.length_cons, pow_succ, mul_comm]

section
variable {b : ℕ}

/-- Digits taken in by doubles are digits taken in by integers of 53 bits. -/
theorem accumulate_eq (small : b ≤ 4) {digits : List Char} (all : ∀ c ∈ digits, (digitIn? (2 ^ b) c).isSome)
    {k e : ℕ} (short : k < 2 ^ 53) :
    accumulate (2 ^ b) (ofRat (k * 2 ^ e)) digits = some (ofRat (roundedFrom (2 ^ b) (k * 2 ^ e) digits)) := by
  induction digits generalizing k e with
  | nil =>
    simp only [accumulate, roundedFrom, List.foldl_nil]
    push_cast
    rfl
  | cons c rest ih =>
    rw [List.forall_mem_cons] at all
    have base : 2 ^ b ≤ 2 ^ 4 := Nat.pow_le_pow_right (by decide) small
    have digit : digitOf (2 ^ b) c < 2 ^ 53 := (digitOf_lt (by positivity) c).trans_le (by omega)
    have product := ofRat_mul_two_pow (e := e) short (show b < 53 by omega)
    have sum := ofRat_add_ofNat (e := e + b) short digit
    have merged : ((k * 2 ^ e * 2 ^ b : ℚ)) = k * 2 ^ (e + b) := by rw [pow_add, mul_assoc]
    obtain ⟨k', e', hk, short'⟩ := exists_short_nearest (k * 2 ^ e * 2 ^ b + digitOf (2 ^ b) c)
    have nearest := ofRat_nearest (k * 2 ^ e * 2 ^ b + digitOf (2 ^ b) c)
    rw [hk] at nearest
    push_cast at nearest
    unfold accumulate
    simp only [digitIn?_eq all.1]
    rw [product, merged, sum, ← merged, ← nearest, ih all.2 short', ← hk]
    rfl

/-! ## Digits that come too late -/

/-- Past 53 bits a digit is worth less than half of the last bit. -/
theorem Cut.nearest_late {n k e d : ℕ} (c : Cut n k e 0) (late : 0 < e) (digit : d < 2 ^ b) :
    nearest (n * 2 ^ b + d) = n * 2 ^ b := by
  have exact : n = k * 2 ^ e := c.sum
  have half : 2 * 2 ^ b ≤ 2 ^ (e + b) := by
    rw [← pow_succ', add_comm]
    exact Nat.pow_le_pow_right (by decide) (by omega)
  have scaled : n * 2 ^ b = k * 2 ^ (e + b) := by rw [exact, pow_add, mul_assoc]
  have wider : Cut (n * 2 ^ b + d) k (e + b) d := ⟨by rw [scaled], c.full, c.short, by omega⟩
  rw [wider.nearest_eq, carried, if_pos (by omega), scaled]

theorem Cut.roundedFrom_late {n k e : ℕ} (c : Cut n k e 0) (late : 0 < e) (digits : List Char) :
    roundedFrom (2 ^ b) n digits = n * (2 ^ b) ^ digits.length := by
  induction digits generalizing n e with
  | nil => simp [roundedFrom]
  | cons d rest ih =>
    have exact : n = k * 2 ^ e := c.sum
    have next : Cut (n * 2 ^ b) k (e + b) 0 := by
      rw [exact, mul_assoc, ← pow_add]
      exact cut_exact c.full c.short _
    show roundedFrom (2 ^ b) (nearest (n * 2 ^ b + digitOf (2 ^ b) d)) rest = _
    rw [c.nearest_late late (digitOf_lt (by positivity) d), ih next (by omega), List.length_cons]
    ring

theorem exists_late {n : ℕ} (h : 2 ^ 53 ≤ n) : ∃ k e, 0 < e ∧ Cut (nearest n) k e 0 := by
  obtain ⟨k, e, r, c⟩ := exists_cut (n := n) (by omega)
  have most := (carried_le k e r).trans c.short
  have late : 0 < e := by
    rw [Nat.pos_iff_ne_zero]
    rintro rfl
    have short := c.short
    have := c.lt
    omega
  rw [c.nearest_eq]
  rcases most.lt_or_eq with short | long
  · exact ⟨_, e, late, cut_exact (c.full.trans (le_carried k e r)) short e⟩
  · refine ⟨2 ^ 52, e + 1, by omega, ?_⟩
    rw [long, show 2 ^ 53 * 2 ^ e = 2 ^ 52 * 2 ^ (e + 1) by ring]
    exact cut_exact le_rfl (by decide) _

/-- The digits up to the first that does not fit in 53 bits are rounded, and zeros stand for the others. -/
theorem roundedFrom_eq {n : ℕ} (fits : n < 2 ^ 53) (digits : List Char) :
    ∃ j, (j = 0 ∨ 2 ^ 53 ≤ integerFrom (2 ^ b) n digits / (2 ^ b) ^ j) ∧
      integerFrom (2 ^ b) n digits / (2 ^ b) ^ (j + 1) < 2 ^ 53 ∧
      roundedFrom (2 ^ b) n digits = nearest (integerFrom (2 ^ b) n digits / (2 ^ b) ^ j) * (2 ^ b) ^ j := by
  have base : 0 < 2 ^ b := by positivity
  induction digits generalizing n with
  | nil =>
    refine ⟨0, .inl rfl, ?_, ?_⟩
    · exact (Nat.div_le_self _ _).trans_lt fits
    · simp [roundedFrom, integerFrom, nearest_of_lt fits]
  | cons c rest ih =>
    have digit := digitOf_lt base c
    set next := n * 2 ^ b + digitOf (2 ^ b) c with hnext
    have taken : integerFrom (2 ^ b) n (c :: rest) = integerFrom (2 ^ b) next rest := rfl
    have rounded : roundedFrom (2 ^ b) n (c :: rest) = roundedFrom (2 ^ b) (nearest next) rest := rfl
    rw [taken, rounded]
    by_cases short : next < 2 ^ 53
    · rw [nearest_of_lt short]
      exact ih short
    · obtain ⟨k, e, late, cut⟩ := exists_late (n := next) (by omega)
      have before : next / 2 ^ b = n := by
        rw [hnext, mul_comm, Nat.mul_add_div base, Nat.div_eq_of_lt digit, add_zero]
      have first : integerFrom (2 ^ b) next rest / (2 ^ b) ^ rest.length = next := by
        rw [integerFrom_eq, mul_comm, Nat.mul_add_div (by positivity),
          Nat.div_eq_of_lt (integerOf_lt base rest), add_zero]
      refine ⟨rest.length, .inr (by rw [first]; omega), ?_, ?_⟩
      · rwa [pow_succ, ← Nat.div_div_eq_div_mul, first, before]
      · rw [first, cut.roundedFrom_late late]

end

/-! ## Halves that are lost -/

/-- The digits up to the first that does not fit in 53 bits are half-way between two doubles of which the lower is
even, and not all digits after them are zeros. -/
def LosesHalf (base n : ℕ) : Prop :=
  ∃ j k s, n / base ^ j = (4 * k + 1) * 2 ^ s ∧ 2 ^ 51 ≤ k ∧ k < 2 ^ 52 ∧ n / base ^ (j + 1) < 2 ^ 53 ∧
    n % base ^ j ≠ 0

theorem Cut.unique {n k e r k' e' r' : ℕ} (c : Cut n k e r) (c' : Cut n k' e' r') : k = k' ∧ e = e' ∧ r = r' := by
  have log := c.log2_eq
  rw [c'.log2_eq] at log
  obtain rfl : e' = e := by omega
  exact ⟨c.div_eq.symm.trans c'.div_eq, rfl, c.mod_eq.symm.trans c'.mod_eq⟩

theorem carried_scaled (k f r : ℕ) {t d : ℕ} (rest : d < 2 ^ t) :
    carried k (f + 1 + t) (r * 2 ^ t + d) = if r = 2 ^ f ∧ d ≠ 0 then k + 1 else carried k (f + 1) r := by
  have whole : 2 ^ (f + 1 + t) = 2 * (2 ^ f * 2 ^ t) := by ring
  have half : 2 ^ (f + 1) = 2 * 2 ^ f := by ring
  unfold carried
  rw [whole, half]
  rcases lt_trichotomy r (2 ^ f) with less | rfl | more
  · have : (r + 1) * 2 ^ t ≤ 2 ^ f * 2 ^ t := Nat.mul_le_mul_right _ less
    rw [add_mul, one_mul] at this
    rw [if_pos (by omega), if_neg (by omega), if_pos (by omega)]
  · by_cases none : d = 0
    · simp [none]
    · rw [if_neg (by omega), if_pos (by omega), if_pos ⟨rfl, none⟩]
  · have : (2 ^ f + 1) * 2 ^ t ≤ r * 2 ^ t := Nat.mul_le_mul_right _ more
    rw [add_mul, one_mul] at this
    rw [if_neg (by omega), if_pos (by omega), if_neg (by omega), if_neg (by omega), if_pos (by omega)]

theorem cut_half {k s : ℕ} (least : 2 ^ 51 ≤ k) (most : k < 2 ^ 52) :
    Cut ((4 * k + 1) * 2 ^ s) (2 * k) (s + 1) (2 ^ s) :=
  ⟨by ring, by omega, by omega, Nat.pow_lt_pow_right (by decide) (by omega)⟩

theorem carried_half (k s : ℕ) : carried (2 * k) (s + 1) (2 ^ s) = 2 * k := by
  unfold carried
  rw [pow_succ', if_neg (lt_irrefl _), if_neg (lt_irrefl _), Nat.mul_mod_right, add_zero]

section
variable {p t d : ℕ}

theorem Cut.scaled {k e r : ℕ} (c : Cut p k e r) (rest : d < 2 ^ t) :
    Cut (p * 2 ^ t + d) k (e + t) (r * 2 ^ t + d) := by
  refine ⟨by rw [c.sum]; ring, c.full, c.short, ?_⟩
  have : (r + 1) * 2 ^ t ≤ 2 ^ e * 2 ^ t := Nat.mul_le_mul_right _ c.rest
  rw [add_mul, one_mul] at this
  rw [pow_add]
  omega

theorem nearest_scaled (long : 2 ^ 53 ≤ p) (rest : d < 2 ^ t)
    (kept : ¬ (d ≠ 0 ∧ ∃ k s, p = (4 * k + 1) * 2 ^ s ∧ 2 ^ 51 ≤ k ∧ k < 2 ^ 52)) :
    nearest (p * 2 ^ t + d) = nearest p * 2 ^ t := by
  obtain ⟨k, e, r, c⟩ := exists_cut (n := p) (by omega)
  obtain ⟨f, rfl⟩ : ∃ f, e = f + 1 := by
    cases e with
    | zero =>
      have short := c.short
      have := c.lt
      omega
    | succ f => exact ⟨f, rfl⟩
  have carries : carried k (f + 1 + t) (r * 2 ^ t + d) = carried k (f + 1) r := by
    rw [carried_scaled k f r rest]
    split
    · rename_i half
      obtain ⟨rfl, behind⟩ := half
      -- an even number of kept bits was ruled out, and an odd one grows either way
      have odd : k % 2 = 1 := by
        by_contra even
        refine kept ⟨behind, k / 2, f, ?_, ?_, ?_⟩
        · rw [c.sum, pow_succ, show 4 * (k / 2) + 1 = k * 2 + 1 by omega]
          ring
        · have := c.full
          omega
        · have := c.short
          omega
      unfold carried
      rw [pow_succ', if_neg (lt_irrefl _), if_neg (lt_irrefl _), odd]
    · rfl
  rw [(c.scaled rest).nearest_eq, c.nearest_eq, carries, pow_add, mul_assoc]

end

section
variable {b n : ℕ}

theorem late_unique {j j' : ℕ} (h : j = 0 ∨ 2 ^ 53 ≤ n / (2 ^ b) ^ j) (next : n / (2 ^ b) ^ (j + 1) < 2 ^ 53)
    (h' : 2 ^ 53 ≤ n / (2 ^ b) ^ j') (next' : n / (2 ^ b) ^ (j' + 1) < 2 ^ 53) : j = j' := by
  have less {i i' : ℕ} (h : i ≤ i') : n / (2 ^ b) ^ i' ≤ n / (2 ^ b) ^ i :=
    Nat.div_le_div_left (Nat.pow_le_pow_right (by positivity) h) (by positivity)
  rcases lt_trichotomy j j' with below | rfl | above
  · have := less (show j + 1 ≤ j' from below)
    omega
  · rfl
  · have := less (show j' + 1 ≤ j from above)
    omega

theorem roundedFrom_nearest {digits : List Char} (kept : ¬ LosesHalf (2 ^ b) (integerOf (2 ^ b) digits)) :
    roundedFrom (2 ^ b) 0 digits = nearest (integerOf (2 ^ b) digits) := by
  obtain ⟨j, late, next, value⟩ := roundedFrom_eq (b := b) (show 0 < 2 ^ 53 by decide) digits
  rw [show integerFrom (2 ^ b) 0 digits = integerOf (2 ^ b) digits from rfl] at late next value
  set n := integerOf (2 ^ b) digits
  rcases late with rfl | long
  · rw [value, pow_zero, Nat.div_one, mul_one]
  · have split : n = n / (2 ^ b) ^ j * 2 ^ (b * j) + n % (2 ^ b) ^ j := by
      rw [pow_mul, mul_comm, Nat.div_add_mod]
    have rest : n % (2 ^ b) ^ j < 2 ^ (b * j) := by
      rw [pow_mul]
      exact Nat.mod_lt _ (by positivity)
    have scaled := nearest_scaled long rest fun ⟨behind, k, s, half, least, most⟩ =>
      kept ⟨j, k, s, half, least, most, next, behind⟩
    rw [← split] at scaled
    rw [scaled, value, pow_mul]

theorem roundedFrom_lost {digits : List Char} (lost : LosesHalf (2 ^ b) (integerOf (2 ^ b) digits)) :
    ∃ k e, 2 ^ 52 ≤ k ∧ k + 1 < 2 ^ 53 ∧ roundedFrom (2 ^ b) 0 digits = k * 2 ^ e ∧
      nearest (integerOf (2 ^ b) digits) = (k + 1) * 2 ^ e ∧ ∃ r, Cut (integerOf (2 ^ b) digits) k e r := by
  obtain ⟨j, late, next, value⟩ := roundedFrom_eq (b := b) (show 0 < 2 ^ 53 by decide) digits
  rw [show integerFrom (2 ^ b) 0 digits = integerOf (2 ^ b) digits from rfl] at late next value
  set n := integerOf (2 ^ b) digits
  obtain ⟨j', k, s, half, least, most, next', behind⟩ := lost
  have cut := cut_half (s := s) least most
  have long : 2 ^ 53 ≤ n / (2 ^ b) ^ j' := by
    have : 1 ≤ 2 ^ s := Nat.one_le_two_pow
    rw [half]
    nlinarith
  obtain rfl := late_unique late next long next'
  rw [← half] at cut
  have split : n = n / (2 ^ b) ^ j * 2 ^ (b * j) + n % (2 ^ b) ^ j := by
    rw [pow_mul, mul_comm, Nat.div_add_mod]
  have rest : n % (2 ^ b) ^ j < 2 ^ (b * j) := by
    rw [pow_mul]
    exact Nat.mod_lt _ (by positivity)
  have scaled := cut.scaled rest
  rw [← split] at scaled
  refine ⟨2 * k, s + 1 + b * j, by omega, by omega, ?_, ?_, _, scaled⟩
  · rw [value, cut.nearest_eq, carried_half, pow_add _ (s + 1), pow_mul, mul_assoc]
  · rw [scaled.nearest_eq, carried_scaled (2 * k) s (2 ^ s) rest, if_pos ⟨rfl, behind⟩]

end

/-! ## The range -/

section
variable {n k e r : ℕ}

theorem Cut.exponent_le (c : Cut n k e r) (range : n < 2 ^ 1024) : e ≤ 971 := by
  have log := (Nat.log2_lt c.pos.ne').mpr range
  rw [c.log2_eq] at log
  omega

theorem Cut.kept_beyond (c : Cut n k e r) (beyond : 2 ^ 1024 ≤ n) : 2 ^ 1024 ≤ k * 2 ^ e := by
  have log := (Nat.le_log2 c.pos.ne').mpr beyond
  have kept := cut_exact c.full c.short e
  rwa [← Nat.le_log2 kept.pos.ne', kept.log2_eq, ← c.log2_eq]

theorem ofRat_succ_ne (c : Cut n k e r) (range : n < 2 ^ 1024) (room : k + 1 < 2 ^ 53) :
    ofRat (k * 2 ^ e : ℕ) ≠ ofRat ((k + 1) * 2 ^ e : ℕ) := by
  have full := c.full
  have small := c.exponent_le range
  have power : (2 : ℚ) ^ e ≤ 2 ^ 971 := pow_le_pow_right₀ one_le_two small
  have unit : (0 : ℚ) < 2 ^ e := by positivity
  have within {i : ℕ} (h : i < 2 ^ 53) : (i * 2 ^ e : ℚ) < 2 ^ (1024 : ℤ) := by
    have : (i : ℚ) < 2 ^ 53 := by exact_mod_cast h
    calc (i * 2 ^ e : ℚ) < 2 ^ 53 * 2 ^ e := by gcongr
      _ ≤ 2 ^ 53 * 2 ^ 971 := by gcongr
      _ = 2 ^ (1024 : ℤ) := by rw [← pow_add, zpow_ofNat]
  have lower := rational?_ofRat_short (e := e) (show 0 < k by omega) c.short (within c.short)
  have upper := rational?_ofRat_short (e := e) (Nat.succ_pos k) room (within room)
  push_cast at lower upper ⊢
  intro same
  rw [same, upper, Option.some.injEq, mul_left_inj' unit.ne'] at lower
  linarith

theorem ofRat_beyond {x y : ℚ} (hx : 2 ^ (1024 : ℤ) ≤ x) (hy : 2 ^ (1024 : ℤ) ≤ y) : ofRat x = ofRat y := by
  rw [← ofRat_unpack (unpack_ofRat_overflow hx), ofRat_unpack (unpack_ofRat_overflow hy)]

end

theorem exists_power {base : ℕ} (h : base ∈ [16, 8, 2]) : ∃ b ≤ 4, base = 2 ^ b := by
  simp only [List.mem_cons, List.not_mem_nil, or_false] at h
  rcases h with rfl | rfl | rfl
  · exact ⟨4, by decide, rfl⟩
  · exact ⟨3, by decide, rfl⟩
  · exact ⟨1, by decide, rfl⟩

theorem ofRat_roundedFrom_iff {b : ℕ} {digits : List Char} :
    ofRat (roundedFrom (2 ^ b) 0 digits) = ofRat (integerOf (2 ^ b) digits) ↔
      ¬ (LosesHalf (2 ^ b) (integerOf (2 ^ b) digits) ∧ integerOf (2 ^ b) digits < 2 ^ 1024) := by
  set n := integerOf (2 ^ b) digits with hn
  by_cases lost : LosesHalf (2 ^ b) n
  · obtain ⟨k, e, full, room, value, nearest, r, cut⟩ := roundedFrom_lost lost
    rw [← ofRat_nearest n, value, nearest]
    rcases lt_or_ge n (2 ^ 1024) with range | beyond
    · exact iff_of_false (ofRat_succ_ne cut range room) fun h => h ⟨lost, range⟩
    · refine iff_of_true ?_ fun h => absurd h.2 beyond.not_gt
      have kept : (2 : ℚ) ^ (1024 : ℤ) ≤ (k * 2 ^ e : ℕ) := by
        rw [zpow_ofNat]
        exact_mod_cast cut.kept_beyond beyond
      apply ofRat_beyond kept
      exact kept.trans (by exact_mod_cast Nat.mul_le_mul_right _ (Nat.le_succ k))
  · rw [roundedFrom_nearest lost, ofRat_nearest]
    exact iff_of_true rfl fun h => lost h.1

end BlockScript.Number

namespace BlockScript

open Number

/-- A marked integer is read with one rounding to 53 bits at every digit. That gives the double nearest to the
integer, unless a half is lost to digits that come after it. -/
theorem marked_integers_nearest {c : Char} {base : ℕ} {digits : List Char} (mark : (c, base) ∈ marks)
    (ne_nil : digits ≠ []) (all : ∀ d ∈ digits, d ∈ digitsOf base) :
    markedInteger? ('0' :: c :: digits) = some (ofRat (roundedFrom base 0 digits)) ∧
    (markedInteger? ('0' :: c :: digits) = some (ofRat (integerOf base digits)) ↔
      ¬ (LosesHalf base (integerOf base digits) ∧ integerOf base digits < 2 ^ 1024)) := by
  obtain ⟨b, small, rfl⟩ := exists_power (mem_bases mark)
  have known : ∀ d ∈ digits, (digitIn? (2 ^ b) d).isSome := fun d hd =>
    (digitIn?_isSome (mem_bases mark) d).mpr (all d hd)
  have read : markedInteger? ('0' :: c :: digits) = some (ofRat (roundedFrom (2 ^ b) 0 digits)) := by
    have start : (0.0 : Float) = ofRat ((0 : ℕ) * 2 ^ 0) := by
      rw [Nat.cast_zero, zero_mul]
      exact ofRat_unpack ofRat_zero_unpack
    rw [markedInteger?_eq mark ne_nil, start, accumulate_eq small known (by decide), zero_mul]
  refine ⟨read, ?_⟩
  rw [read, Option.some.injEq, ofRat_roundedFrom_iff]

/-- `2 ^ 57 + 17` loses its half: the digits before the last are `2 ^ 53 + 1`, and the last is not zero. -/
theorem marked_integers_nearest_lost :
    (markedInteger? "0x200000000000011".toList = some (ofRat 144115188075855889) ↔
      ¬ (LosesHalf 16 144115188075855889 ∧ 144115188075855889 < 2 ^ 1024)) ∧
    LosesHalf 16 144115188075855889 := by
  have digits : integerOf 16 "200000000000011".toList = 144115188075855889 := by decide +kernel
  refine ⟨?_, 1, 2 ^ 51, 0, by decide, by decide, by decide, by decide, by decide⟩
  have := (@marked_integers_nearest 'x' 16 "200000000000011".toList (by decide) (by decide) (by simp [digitsOf])).2
  rw [digits] at this
  exact_mod_cast this

theorem marked_integer_below_nearest :
    markedInteger? "0x200000000000011".toList = some 144115188075855872.0 ∧
    integerOf 16 "200000000000011".toList = 144115188075855889 ∧
    ofRat 144115188075855889 = 144115188075855904.0 ∧ (144115188075855872.0 : Float) ≠ 144115188075855904.0 := by
  refine ⟨by decide +kernel, by decide +kernel, ?_, by decide +kernel⟩
  have := ofNat_eq 144115188075855889
  exact_mod_cast this.symm

end BlockScript
