import BlockScript.ItemList
import BlockScript.Proofs.NearestIntegers

/-!
# Slots of a list

A position is a double, and it is checked against the length as a double. Up to `2 ^ 53` that is the length
itself. Above, a length may lie between two doubles. All positions up to the length pass, and at most one
beyond it: the double nearest to the length, if it is the one above. That position is resolved to the offset
after the last slot, or to the last slot if the length is the greatest of all.
-/

namespace BlockScript

namespace Number

/-! ## Positions around a length -/

section
variable {x : Float} {r : ℚ} {n k e l : ℕ}

theorem dvd_floor (h : rational? x = some r) (large : 2 ^ (e + 52) ≤ ⌊r⌋) : (2 : ℤ) ^ e ∣ ⌊r⌋ := by
  have low : (2 : ℚ) ^ ((e : ℤ) + 52) ≤ r := by
    have := Int.le_floor.mp large
    push_cast at this
    exact_mod_cast this
  obtain ⟨m, q, c, -, rfl⟩ := exists_unpack_of_rational? h (lt_of_lt_of_le (by positivity) low)
  have high : (m : ℚ) * 2 ^ q < 2 ^ (q + 53) := by
    have short : (m : ℚ) < 2 ^ 53 := by exact_mod_cast c.short
    calc (m : ℚ) * 2 ^ q < 2 ^ 53 * 2 ^ q := by gcongr
      _ = 2 ^ (q + 53) := by rw [zpow_add₀ two_ne_zero, mul_comm]; rfl
  -- 53 bits reach the bit `e + 52` only if none of them lies below the bit `e`
  have exponent : (e : ℤ) + 52 < q + 53 := (zpow_lt_zpow_iff_right₀ one_lt_two).mp (low.trans_lt high)
  obtain ⟨d, rfl⟩ : ∃ d : ℕ, q = e + d := Int.le.dest (by omega) |>.imp fun d h => h.symm
  have whole : (m : ℚ) * 2 ^ ((e : ℤ) + d) = (m * 2 ^ d * 2 ^ e : ℤ) := by
    rw [← Nat.cast_add, zpow_natCast, pow_add]
    push_cast
    ring
  rw [whole, Int.floor_intCast]
  exact dvd_mul_left _ _

theorem Cut.floor_eq (c : Cut n k e l) (h : rational? x = some r) (low : k * 2 ^ e ≤ ⌊r⌋)
    (high : ⌊r⌋ < (k + 1) * 2 ^ e) : ⌊r⌋ = k * 2 ^ e := by
  have full : (2 : ℤ) ^ 52 ≤ k := by exact_mod_cast c.full
  have large : (2 : ℤ) ^ (e + 52) ≤ ⌊r⌋ := by
    calc (2 : ℤ) ^ (e + 52) = 2 ^ 52 * 2 ^ e := by ring
      _ ≤ k * 2 ^ e := by gcongr
      _ ≤ ⌊r⌋ := low
  obtain ⟨u, hu⟩ := dvd_floor h large
  rw [hu, mul_comm (2 ^ e) u] at low high ⊢
  have unit : (0 : ℤ) < 2 ^ e := by positivity
  have least := le_of_mul_le_mul_right low unit
  have most := lt_of_mul_lt_mul_right high unit.le
  rw [show u = k by omega]

theorem floor_le_nearest (h : rational? x = some r) (le : ⌊r⌋ ≤ n) : ⌊r⌋ ≤ nearest n := by
  rcases small_or_cut n with small | ⟨k, e, l, c⟩
  · rwa [nearest_of_lt small]
  · have kept : (k * 2 ^ e : ℤ) ≤ nearest n := by
      rw [c.nearest_eq]
      exact_mod_cast Nat.mul_le_mul_right (2 ^ e) (le_carried k e l)
    have next : (n : ℤ) < (k + 1) * 2 ^ e := by exact_mod_cast c.lt
    by_cases below : ⌊r⌋ < k * 2 ^ e
    · omega
    · rw [c.floor_eq h (not_lt.mp below) (le.trans_lt next)]
      exact kept

-- no double lies strictly between the length and its own
theorem floor_eq_nearest (h : rational? x = some r) (lt : n < ⌊r⌋) (le : ⌊r⌋ ≤ nearest n) : ⌊r⌋ = nearest n := by
  rcases small_or_cut n with small | ⟨k, e, l, c⟩
  · rw [nearest_of_lt small] at le
    omega
  · have kept : (k * 2 ^ e : ℤ) ≤ n := by exact_mod_cast c.le
    have next : (nearest n : ℤ) ≤ (k + 1) * 2 ^ e := by
      rw [c.nearest_eq]
      exact_mod_cast Nat.mul_le_mul_right (2 ^ e) (carried_le k e l)
    by_contra ne
    have := c.floor_eq h (kept.trans lt.le) (lt_of_lt_of_le (lt_of_le_of_ne le ne) next)
    omega

end

/-! ## A length as a double -/

theorem rational?_ofNat {n : ℕ} (word : n ≤ maxCount) : rational? (Float.ofNat n) = some (nearest n : ℚ) := by
  rw [ofNat_eq, ← ofRat_nearest]
  by_cases zero : nearest n = 0
  · rw [zero]
    decide +kernel
  · obtain ⟨k, e, value, short⟩ := exists_short_nearest n
    have range : (nearest n : ℚ) < 2 ^ (1024 : ℤ) := by
      have most := nearest_le n
      have : (nearest n : ℚ) < 2 ^ (65 : ℤ) := by
        have : nearest n < 2 ^ 65 := by
          unfold maxCount UInt64.size at word
          omega
        exact_mod_cast this
      exact this.trans (zpow_lt_zpow_right₀ one_lt_two (by decide))
    have cast : (nearest n : ℚ) = k * 2 ^ e := by
      rw [value]
      push_cast
      rfl
    have pos : 0 < k := by
      apply Nat.pos_of_ne_zero
      rintro rfl
      simp [value] at zero
    rw [cast] at range ⊢
    exact rational?_ofRat_short pos short range

end Number

open Number

/-! ## Offsets -/

/-- The position `p`, counted from one, is that of the slot with the offset `i`. -/
def Names (p : ℤ) (length i : ℕ) : Prop :=
  1 ≤ p ∧ p ≤ length ∧ (i : ℤ) = p - 1

/-- The position `p` lies beyond the length, but not beyond the double nearest to it. -/
def Overshoots (p : ℤ) (length i : ℕ) : Prop :=
  length < nearest length ∧ p = nearest length ∧ i = min (nearest length) maxCount - 1

theorem positionOffset?_eq_some {x : Float} {length i : ℕ} (word : length ≤ maxCount) :
    positionOffset? x length = some i ↔
      ∃ r, rational? x = some r ∧ (Names ⌊r⌋ length i ∨ Overshoots ⌊r⌋ length i) := by
  unfold positionOffset?
  rw [floor?_eq]
  cases h : rational? x with
  | none => simp
  | some r =>
    have passes := fun le => floor_le_nearest (n := length) h le
    have beyond := fun lt le => floor_eq_nearest (n := length) h lt le
    simp only [Option.map_some, Option.some.injEq, exists_eq_left', Names, Overshoots]
    split_ifs with out
    · simp only [false_iff]
      omega
    · simp only [Option.some.injEq]
      constructor
      · rintro rfl
        by_cases within : ⌊r⌋ ≤ length
        · left
          omega
        · right
          have := beyond (by omega) (by omega)
          omega
      · rintro (within | above) <;> omega

theorem toNumber_num {x : Float} {r : ℚ} (h : rational? x = some r) (ne : r ≠ 0) : (Value.num x).toNumber = x := by
  have point := point?_of_rational? h
  have zero : point? 0.0 = some ((0 : ℚ) : WithBotTop ℚ) := point?_of_rational? (by decide +kernel)
  have nan : x.isNaN = false := by
    rw [Bool.eq_false_iff, Ne, isNaN_iff, point]
    simp
  have nonzero : (x == 0.0) = false := by
    rw [Bool.eq_false_iff, Ne, beq_iff point zero]
    exact WithBotTop.coe_strictMono.injective.ne ne
  show Value.notNaN x = x
  rw [Value.notNaN, nan, nonzero]
  rfl

/-! ## Indices -/

def wordIndices : List Value :=
  [.str "last", .str "random", .str "any"]

section
variable {pick : Pick} {length i : ℕ}

theorem resolveIndex?_last : resolveIndex? pick (.str "last") length = some i ↔ i + 1 = length := by
  cases length with
  | zero => simp [resolveIndex?]
  | succ n => simp [resolveIndex?, eq_comm]

theorem resolveIndex?_lot {name : String} (h : name = "random" ∨ name = "any") :
    resolveIndex? pick (.str name) length = some i ↔ ∃ n, length = n + 1 ∧ i = (pick n).val := by
  rcases h with rfl | rfl <;> cases length with
  | zero => simp [resolveIndex?]
  | succ n => simp [resolveIndex?, eq_comm]

theorem resolveIndex?_position {index : Value} (h : index ∉ wordIndices) :
    resolveIndex? pick index length = positionOffset? index.toNumber length := by
  simp only [wordIndices, List.mem_cons, List.not_mem_nil, or_false, not_or] at h
  unfold resolveIndex?
  rw [if_neg h.1, if_neg (not_or.mpr h.2)]

theorem resolveIndex?_eq_some (word : length ≤ maxCount) {index : Value} (h : index ∉ wordIndices) :
    resolveIndex? pick index length = some i ↔
      ∃ r, rational? index.toNumber = some r ∧ (Names ⌊r⌋ length i ∨ Overshoots ⌊r⌋ length i) := by
  rw [resolveIndex?_position h, positionOffset?_eq_some word]

/-- A length whose double lies above it is itself a position beyond the end that passes. -/
theorem resolveIndex?_overshoot (pick : Pick) (word : length ≤ maxCount) (above : length < nearest length) :
    ∃ index ∉ wordIndices, rational? index.toNumber = some (nearest length : ℚ) ∧
      resolveIndex? pick index length = some (min (nearest length) maxCount - 1) := by
  have value := rational?_ofNat word
  have ne : (nearest length : ℚ) ≠ 0 := by
    have : nearest length ≠ 0 := by omega
    exact_mod_cast this
  have position : Value.num (Float.ofNat length) ∉ wordIndices := by simp [wordIndices]
  have number := toNumber_num value ne
  refine ⟨_, position, number.symm ▸ value, ?_⟩
  rw [resolveIndex?_eq_some word position, number]
  exact ⟨_, value, .inr ⟨above, Int.floor_natCast _, rfl⟩⟩

theorem positions_exact_iff (word : length ≤ maxCount) :
    (∀ index, index ∉ wordIndices → ∀ i, resolveIndex? pick index length = some i ↔
      ∃ r, rational? index.toNumber = some r ∧ Names ⌊r⌋ length i) ↔ nearest length ≤ length := by
  constructor
  · intro slots
    by_contra above
    obtain ⟨index, position, value, resolved⟩ := resolveIndex?_overshoot pick word (not_le.mp above)
    obtain ⟨r, value', -, within, -⟩ := (slots index position _).mp resolved
    obtain rfl : (nearest length : ℚ) = r := Option.some.inj (value.symm.trans value')
    rw [Int.floor_natCast] at within
    omega
  · intro le index position i
    rw [resolveIndex?_eq_some word position]
    have none {p : ℤ} : ¬ Overshoots p length i := fun h => absurd h.1 (not_lt.mpr le)
    simp only [none, or_false]

theorem offsets_within_iff (word : length ≤ maxCount) :
    (∀ index i, resolveIndex? pick index length = some i → i < length) ↔
      nearest length ≤ length ∨ length = maxCount := by
  constructor
  · intro within
    by_contra out
    obtain ⟨index, -, -, resolved⟩ := resolveIndex?_overshoot pick word (by omega)
    have := within index _ resolved
    omega
  · intro fits index i resolved
    by_cases position : index ∈ wordIndices
    · simp only [wordIndices, List.mem_cons, List.not_mem_nil, or_false] at position
      rcases position with rfl | rfl | rfl
      · rw [resolveIndex?_last] at resolved
        omega
      · obtain ⟨n, rfl, rfl⟩ := (resolveIndex?_lot (.inl rfl)).mp resolved
        exact (pick n).isLt
      · obtain ⟨n, rfl, rfl⟩ := (resolveIndex?_lot (.inr rfl)).mp resolved
        exact (pick n).isLt
    · obtain ⟨r, -, named | ⟨above, -, offset⟩⟩ := (resolveIndex?_eq_some word position).mp resolved
      · obtain ⟨first, last, offset⟩ := named
        omega
      · have : 0 < maxCount := by decide
        omega

end

/-- A word is resolved to the last slot or to one by lot, if there is any. A position is resolved to the slot
that it names; besides, only the double nearest to the length is resolved, if it lies above the length, and
then to the offset one below it, as far as words reach. So exactly those lengths whose doubles do not lie
above them are addressed exactly, all up to `2 ^ 53` among them; there, and at the greatest word, every offset
is one of a slot. -/
theorem indices_name_slots (pick : Pick) (length : ℕ) (word : length ≤ maxCount) :
    (∀ i, resolveIndex? pick (.str "last") length = some i ↔ i + 1 = length) ∧
    (∀ name, name = "random" ∨ name = "any" → ∀ i,
      resolveIndex? pick (.str name) length = some i ↔ ∃ n, length = n + 1 ∧ i = (pick n).val) ∧
    (∀ index, index ∉ wordIndices → ∀ i, resolveIndex? pick index length = some i ↔
      ∃ r, rational? index.toNumber = some r ∧ (Names ⌊r⌋ length i ∨ Overshoots ⌊r⌋ length i)) ∧
    ((∀ index, index ∉ wordIndices → ∀ i, resolveIndex? pick index length = some i ↔
      ∃ r, rational? index.toNumber = some r ∧ Names ⌊r⌋ length i) ↔ nearest length ≤ length) ∧
    ((∀ index i, resolveIndex? pick index length = some i → i < length) ↔
      nearest length ≤ length ∨ length = maxCount) ∧
    rational? (Float.ofNat length) = some (nearest length : ℚ) ∧
    (length ≤ 2 ^ 53 → nearest length = length) := by
  refine ⟨fun i => resolveIndex?_last, fun name lot i => resolveIndex?_lot lot, ?_, positions_exact_iff word,
    offsets_within_iff word, rational?_ofNat word, nearest_of_le⟩
  intro index position i
  exact resolveIndex?_eq_some word position

/-- Three slots past `2 ^ 53` the nearest double is a fourth, and as a position it is resolved to the offset
after the last. -/
theorem indices_name_slots_beyond :
    2 ^ 53 + 3 ≤ maxCount ∧
    (∀ i, resolveIndex? (fun _ => 0) (.str "last") (2 ^ 53 + 3) = some i ↔ i = 2 ^ 53 + 2) ∧
    ¬ ∀ index i, resolveIndex? (fun _ => 0) index (2 ^ 53 + 3) = some i → i < 2 ^ 53 + 3 := by
  have word : 2 ^ 53 + 3 ≤ maxCount := by decide
  obtain ⟨last, -, -, -, within, -, -⟩ := indices_name_slots (fun _ => 0) (2 ^ 53 + 3) word
  refine ⟨word, ?_, ?_⟩
  · intro i
    rw [last]
    omega
  · rw [within]
    decide

theorem position_past_end_resolved :
    ¬ ∀ (pick : Pick) (index : Value) (length i : ℕ), length ≤ maxCount →
      resolveIndex? pick index length = some i → i < length := by
  intro within
  have resolved : resolveIndex? (fun _ => 0) (.num 9007199254740996) 9007199254740995 = some 9007199254740995 := by
    decide +kernel
  exact absurd (within _ _ _ _ (by decide) resolved) (by decide)

end BlockScript
