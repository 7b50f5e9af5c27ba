import BlockScript.Number.Numeral
import BlockScript.Proofs.Doubles

/-!
# The grammar of numbers

What a text has to look like to denote a number, said without reference to how it is read, and the rational that
a decimal literal denotes. The reader takes exactly these texts, and takes each for what it denotes.
-/

namespace BlockScript.Number

open Float.Model.UnpackedFloat

/-! ## Digit strings -/

structure Digits (text : List Char) : Prop where
  ne_nil : text ≠ []
  all : ∀ c ∈ text, c.isDigit

theorem ofDigits_eq (digits : List Char) : ofDigits digits = Nat.ofDigitChars 10 digits 0 :=
  Nat.ofDigitChars_eq_foldl.symm

theorem ofDigits_append (front back : List Char) :
    ofDigits (front ++ back) = ofDigits front * 10 ^ back.length + ofDigits back := by
  rw [ofDigits_eq, ofDigits_eq, ofDigits_eq, Nat.ofDigitChars_append, Nat.ofDigitChars_eq_ofDigitChars_zero,
    mul_comm]

theorem ofDigits_nil : ofDigits [] = 0 := rfl

theorem spanDigits_append {digits rest : List Char} (all : ∀ c ∈ digits, c.isDigit)
    (stop : ∀ c ∈ rest.head?, c.isDigit = false) : spanDigits (digits ++ rest) = (digits, rest) := by
  have take : rest.takeWhile Char.isDigit = [] := by
    cases rest with
    | nil => rfl
    | cons c rest => rw [List.takeWhile_cons, stop c rfl]; rfl
  have drop : rest.dropWhile Char.isDigit = rest := by
    cases rest with
    | nil => rfl
    | cons c rest => rw [List.dropWhile_cons, stop c rfl]; rfl
  unfold spanDigits
  rw [List.takeWhile_append_of_pos all, List.dropWhile_append_of_pos all, take, drop, List.append_nil]

theorem spanDigits_spec (text : List Char) :
    (spanDigits text).1 ++ (spanDigits text).2 = text ∧ (∀ c ∈ (spanDigits text).1, c.isDigit) ∧
      ∀ c ∈ (spanDigits text).2.head?, c.isDigit = false := by
  refine ⟨List.takeWhile_append_dropWhile, fun c hc => List.mem_takeWhile_imp hc, fun c hc => ?_⟩
  have := List.head?_dropWhile_not Char.isDigit text
  rw [show text.dropWhile Char.isDigit = (spanDigits text).2 from rfl, Option.mem_def.mp hc] at this
  simpa using this

/-! ## Decimal literals -/

/-- `D+ [. D*] | . D+`, and what it denotes. -/
inductive Significand : List Char → ℚ → Prop where
  | whole {w : List Char} (h : Digits w) : Significand w (ofDigits w)
  | point {w f : List Char} (h : Digits w) (all : ∀ c ∈ f, c.isDigit) :
      Significand (w ++ '.' :: f) (ofDigits w + ofDigits f / 10 ^ f.length)
  | fraction {f : List Char} (h : Digits f) : Significand ('.' :: f) (ofDigits f / 10 ^ f.length)

/-- `[+|-] D+`, and what it denotes. -/
inductive Power : List Char → ℤ → Prop where
  | plain {d : List Char} (h : Digits d) : Power d (ofDigits d)
  | plus {d : List Char} (h : Digits d) : Power ('+' :: d) (ofDigits d)
  | minus {d : List Char} (h : Digits d) : Power ('-' :: d) (-ofDigits d)

/-- A significand, and optionally `e` or `E` with a power of ten. -/
inductive Literal : List Char → ℚ → Prop where
  | plain {s : List Char} {x : ℚ} (h : Significand s x) : Literal s x
  | scaled {s p : List Char} {x : ℚ} {n : ℤ} {marker : Char} (h : Significand s x)
      (mark : marker = 'e' ∨ marker = 'E') (power : Power p n) : Literal (s ++ marker :: p) (x * 10 ^ n)

def Decimal.value (d : Decimal) : ℚ :=
  d.mantissa * 10 ^ d.exponent

theorem Digits.head {d : List Char} (h : Digits d) : ∃ c rest, d = c :: rest ∧ c.isDigit := by
  cases d with
  | nil => exact absurd rfl h.ne_nil
  | cons c rest => exact ⟨c, rest, rfl, h.all c List.mem_cons_self⟩

theorem unsigned_eq_some {text after : List Char} {n : ℤ} (h : exponentValue?.unsigned text = some (n, after)) :
    ∃ d, Digits d ∧ text = d ++ after ∧ n = ofDigits d ∧ spanDigits text = (d, after) := by
  obtain ⟨whole, all, -⟩ := spanDigits_spec text
  unfold exponentValue?.unsigned at h
  split at h
  · cases h
  · rename_i d rest hd heq
    cases h
    rw [heq] at whole all
    refine ⟨d, ⟨?_, all⟩, whole.symm, rfl, heq⟩
    rintro rfl
    exact hd rfl

theorem unsigned_digits {d after : List Char} (h : Digits d) (stop : ∀ c ∈ after.head?, c.isDigit = false) :
    exponentValue?.unsigned (d ++ after) = some (↑(ofDigits d), after) := by
  unfold exponentValue?.unsigned
  rw [spanDigits_append h.all stop]
  obtain ⟨c, rest, rfl, -⟩ := h.head
  rfl

theorem exponentValue?_eq_some {text after : List Char} {n : ℤ} (h : exponentValue? text = some (n, after)) :
    ∃ p, Power p n ∧ text = p ++ after := by
  unfold exponentValue? at h
  split at h
  · obtain ⟨d, digits, rfl, rfl, -⟩ := unsigned_eq_some h
    exact ⟨_, .plus digits, rfl⟩
  · rw [Option.map_eq_some_iff] at h
    obtain ⟨⟨n', after'⟩, h, heq⟩ := h
    obtain ⟨d, digits, rfl, rfl, -⟩ := unsigned_eq_some h
    cases heq
    exact ⟨_, .minus digits, rfl⟩
  · obtain ⟨d, digits, rfl, rfl, -⟩ := unsigned_eq_some h
    exact ⟨_, .plain digits, rfl⟩

theorem exponentValue?_power {p after : List Char} {n : ℤ} (h : Power p n)
    (stop : ∀ c ∈ after.head?, c.isDigit = false) : exponentValue? (p ++ after) = some (n, after) := by
  cases h with
  | plain h =>
    have value := unsigned_digits h stop
    obtain ⟨c, rest, rfl, digit⟩ := h.head
    rw [← value, List.cons_append]
    unfold exponentValue?
    split
    · rename_i heq
      cases heq
      exact absurd digit (by decide)
    · rename_i heq
      cases heq
      exact absurd digit (by decide)
    · rfl
  | plus h => exact unsigned_digits h stop
  | minus h =>
    show (exponentValue?.unsigned (_ ++ after)).map _ = _
    rw [unsigned_digits h stop]
    rfl

theorem spanExponent?_eq_some {text after : List Char} {n : ℤ} (h : spanExponent? text = some (n, after)) :
    (n = 0 ∧ text = after) ∨ ∃ marker p, (marker = 'e' ∨ marker = 'E') ∧ Power p n ∧
      text = marker :: p ++ after := by
  unfold spanExponent? at h
  split at h
  · obtain ⟨p, power, rfl⟩ := exponentValue?_eq_some h
    exact .inr ⟨_, p, .inl rfl, power, rfl⟩
  · obtain ⟨p, power, rfl⟩ := exponentValue?_eq_some h
    exact .inr ⟨_, p, .inr rfl, power, rfl⟩
  · cases h
    exact .inl ⟨rfl, rfl⟩

theorem spanExponent?_marker {marker : Char} {p : List Char} {n : ℤ} (mark : marker = 'e' ∨ marker = 'E')
    (power : Power p n) : spanExponent? (marker :: p) = some (n, []) := by
  have value := @exponentValue?_power p [] n power (by simp)
  rw [List.append_nil] at value
  rcases mark with rfl | rfl
  · exact value
  · exact value

theorem ofDigits_point (w f : List Char) (n : ℤ) :
    (ofDigits (w ++ f) : ℚ) * 10 ^ (n - f.length) = (ofDigits w + ofDigits f / 10 ^ f.length) * 10 ^ n := by
  have ten : (10 : ℚ) ≠ 0 := by norm_num
  rw [ofDigits_append, zpow_sub₀ ten, zpow_natCast]
  push_cast
  field_simp

theorem spanFraction_of_ne {text : List Char} (h : text.head? ≠ some '.') : spanFraction text = ([], text) := by
  unfold spanFraction
  split
  · exact absurd rfl h
  · rfl

theorem read?_eq {text w rest f tail : List Char} {n : ℤ} (digits : spanDigits text = (w, rest))
    (fraction : spanFraction rest = (f, tail)) (nonempty : w ≠ [] ∨ f ≠ [])
    (power : spanExponent? tail = some (n, [])) :
    Decimal.read? text = some ⟨ofDigits (w ++ f), n - f.length⟩ := by
  have empty : (w.isEmpty && f.isEmpty) = false := by
    rcases nonempty with h | h
    · simp [h]
    · simp [h]
  simp only [Decimal.read?, digits, fraction, empty, power]
  rfl

theorem Significand.read? {s tail : List Char} {x : ℚ} {n : ℤ} (h : Significand s x)
    (power : spanExponent? tail = some (n, [])) (stop : ∀ c ∈ tail.head?, c.isDigit = false ∧ c ≠ '.') :
    ∃ d, Decimal.read? (s ++ tail) = some d ∧ d.value = x * 10 ^ n := by
  have digit (c : Char) (hc : c ∈ tail.head?) : c.isDigit = false := (stop c hc).1
  cases h with
  | whole h =>
    have fraction := @spanFraction_of_ne tail fun h => (stop _ h).2 rfl
    refine ⟨⟨_, _⟩, read?_eq (spanDigits_append h.all digit) fraction (.inl h.ne_nil) power, ?_⟩
    rw [Decimal.value, ofDigits_point]
    simp [ofDigits_nil]
  | @point w f h all =>
    have point : ∀ c ∈ ('.' :: (f ++ tail)).head?, c.isDigit = false := by
      rintro c ⟨⟩
      decide
    have fraction : spanFraction ('.' :: (f ++ tail)) = (f, tail) := spanDigits_append all digit
    rw [List.append_assoc]
    exact ⟨⟨_, _⟩, read?_eq (spanDigits_append h.all point) fraction (.inl h.ne_nil) power, ofDigits_point w f n⟩
  | @fraction f h =>
    have fraction : spanFraction ('.' :: (f ++ tail)) = (f, tail) := spanDigits_append h.all digit
    refine ⟨⟨_, _⟩, @read?_eq _ [] ('.' :: (f ++ tail)) _ _ _ rfl fraction (.inr h.ne_nil) power, ?_⟩
    rw [Decimal.value, ofDigits_point]
    simp [ofDigits_nil]

theorem Literal.read? {text : List Char} {x : ℚ} (h : Literal text x) :
    ∃ d, Decimal.read? text = some d ∧ d.value = x := by
  cases h with
  | plain h =>
    obtain ⟨d, read, value⟩ := @Significand.read? text [] x 0 h rfl (by simp)
    rw [List.append_nil] at read
    rw [zpow_zero, mul_one] at value
    exact ⟨d, read, value⟩
  | scaled h mark power =>
    apply h.read? (spanExponent?_marker mark power)
    rintro c ⟨⟩
    rcases mark with rfl | rfl
    · decide
    · decide

theorem spanFraction_eq {rest f tail : List Char} (h : spanFraction rest = (f, tail)) :
    (f = [] ∧ rest = tail) ∨ (rest = '.' :: (f ++ tail) ∧ ∀ c ∈ f, c.isDigit) := by
  unfold spanFraction at h
  split at h
  · rename_i after
    obtain ⟨parts, all, -⟩ := spanDigits_spec after
    rw [h] at parts all
    exact .inr ⟨by rw [parts], all⟩
  · cases h
    exact .inl ⟨rfl, rfl⟩

theorem exists_significand {text w rest f tail : List Char} (digits : spanDigits text = (w, rest))
    (fraction : spanFraction rest = (f, tail)) (nonempty : w ≠ [] ∨ f ≠ []) :
    ∃ s, Significand s (ofDigits w + ofDigits f / 10 ^ f.length) ∧ text = s ++ tail := by
  obtain ⟨parts, all, -⟩ := spanDigits_spec text
  rw [digits] at parts all
  subst parts
  rcases spanFraction_eq fraction with ⟨rfl, rfl⟩ | ⟨rfl, allf⟩
  · refine ⟨w, ?_, rfl⟩
    simpa [ofDigits_nil] using Significand.whole ⟨by simpa using nonempty, all⟩
  · by_cases hw : w = []
    · subst hw
      refine ⟨'.' :: f, ?_, rfl⟩
      simpa [ofDigits_nil] using Significand.fraction ⟨by simpa using nonempty, allf⟩
    · exact ⟨w ++ '.' :: f, .point ⟨hw, all⟩ allf, by simp⟩

theorem literal_of_read? {text : List Char} {d : Decimal} (h : Decimal.read? text = some d) :
    Literal text d.value := by
  obtain ⟨⟨w, rest⟩, digits⟩ : ∃ p, spanDigits text = p := ⟨_, rfl⟩
  obtain ⟨⟨f, tail⟩, fraction⟩ : ∃ p, spanFraction rest = p := ⟨_, rfl⟩
  simp only [Decimal.read?, digits, fraction] at h
  split at h
  · cases h
  · rename_i nonempty
    have nonempty : w ≠ [] ∨ f ≠ [] := by
      simpa [List.isEmpty_iff, imp_iff_not_or] using nonempty
    split at h
    · rename_i n power
      cases h
      obtain ⟨s, significand, rfl⟩ := exists_significand digits fraction nonempty
      rw [Decimal.value, ofDigits_point]
      rcases spanExponent?_eq_some power with ⟨rfl, rfl⟩ | ⟨marker, p, mark, scale, rfl⟩
      · simpa using Literal.plain significand
      · rw [List.append_nil]
        exact .scaled significand mark scale
    · cases h

theorem Literal.head {text : List Char} {x : ℚ} (h : Literal text x) :
    ∃ c rest, text = c :: rest ∧ (c.isDigit ∨ c = '.') := by
  have significand {s : List Char} {x : ℚ} (h : Significand s x) :
      ∃ c rest, s = c :: rest ∧ (c.isDigit ∨ c = '.') := by
    cases h with
    | whole h =>
      obtain ⟨c, rest, rfl, digit⟩ := h.head
      exact ⟨c, rest, rfl, .inl digit⟩
    | point h =>
      obtain ⟨c, rest, rfl, digit⟩ := h.head
      exact ⟨c, _, rfl, .inl digit⟩
    | fraction h => exact ⟨_, _, rfl, .inr rfl⟩
  cases h with
  | plain h => exact significand h
  | scaled h =>
    obtain ⟨c, rest, rfl, first⟩ := significand h
    exact ⟨c, _, rfl, first⟩

/-! ## Numbers -/

/-- The marks of a base, and its digits. -/
def marks : List (Char × Nat) :=
  [('x', 16), ('X', 16), ('o', 8), ('O', 8), ('b', 2), ('B', 2)]

def digitsOf (base : Nat) : List Char :=
  ['0', '1', '2', '3', '4', '5', '6', '7', '8', '9'].take base ++
    if base = 16 then ['a', 'b', 'c', 'd', 'e', 'f', 'A', 'B', 'C', 'D', 'E', 'F'] else []

/-- The texts that denote a number once the blanks around them are gone. -/
inductive Numeral : List Char → Prop where
  | empty : Numeral []
  | marked {c : Char} {base : Nat} {digits : List Char} (mark : (c, base) ∈ marks) (ne_nil : digits ≠ [])
      (all : ∀ d ∈ digits, d ∈ digitsOf base) : Numeral ('0' :: c :: digits)
  | infinity {sign : List Char} (h : sign = [] ∨ sign = ['+'] ∨ sign = ['-']) : Numeral (sign ++ "Infinity".toList)
  | decimal {sign text : List Char} {x : ℚ} (h : sign = [] ∨ sign = ['+'] ∨ sign = ['-'])
      (literal : Literal text x) : Numeral (sign ++ text)

theorem digitIn?_ascii : ∀ base ∈ [16, 8, 2], ∀ n < 128,
    ((digitIn? base (Char.ofNat n)).isSome ↔ Char.ofNat n ∈ digitsOf base) := by
  decide +kernel

theorem digitsOf_ascii {base : Nat} (h : base ∈ [16, 8, 2]) : ∀ d ∈ digitsOf base, d.toNat < 128 := by
  simp only [List.mem_cons, List.not_mem_nil, or_false] at h
  rcases h with rfl | rfl | rfl <;> simp [digitsOf]

theorem digitIn?_isSome {base : Nat} (h : base ∈ [16, 8, 2]) (c : Char) :
    (digitIn? base c).isSome ↔ c ∈ digitsOf base := by
  by_cases ascii : c.toNat < 128
  · have := digitIn?_ascii base h c.toNat ascii
    rwa [Char.ofNat_toNat] at this
  · have above (d : Char) (hd : d.toNat < 128) : ¬ c ≤ d := by
      intro le
      have : c.toNat ≤ d.toNat := le
      omega
    have none : digitIn? base c = none := by
      simp [digitIn?, above]
    rw [none]
    constructor
    · intro h
      cases h
    · intro hc
      exact absurd (digitsOf_ascii h c hc) ascii

theorem accumulate_isSome (base : Nat) (total : Float) (digits : List Char) :
    (accumulate base total digits).isSome ↔ ∀ d ∈ digits, (digitIn? base d).isSome := by
  induction digits generalizing total with
  | nil => simp [accumulate]
  | cons c rest ih =>
    unfold accumulate
    cases h : digitIn? base c with
    | none => simp [h]
    | some d => simp [h, ih]

theorem mem_bases {c : Char} {base : Nat} (h : (c, base) ∈ marks) : base ∈ [16, 8, 2] := by
  have : ∀ mark ∈ marks, mark.2 ∈ [16, 8, 2] := by decide
  exact this _ h

theorem signed_ofNat (n : ℕ) : Signed .positive (Float.ofNat n).toModel.unpack := by
  rw [ofNat_eq]
  exact signed_ofRat n

theorem accumulate_signed {base : Nat} (pos : 0 < base) (small : base ≤ 16) {total x : Float} {digits : List Char}
    (signed : Signed .positive total.toModel.unpack) (h : accumulate base total digits = some x) :
    Signed .positive x.toModel.unpack := by
  obtain ⟨m, q, mpos, unpack, -, -⟩ := exists_unpack_ofRat pos (show base < 2 ^ 53 by omega)
  induction digits generalizing total with
  | nil =>
    cases h
    exact signed
  | cons c rest ih =>
    unfold accumulate at h
    split at h
    · apply ih _ h
      apply Signed.pack
      apply signed_add _ (signed_ofNat _)
      rw [toModel_mul, ofNat_eq, unpack]
      exact (signed_mul signed m q mpos).pack
    · cases h

theorem markedInteger?_eq {c : Char} {base : Nat} {digits : List Char} (mark : (c, base) ∈ marks)
    (ne_nil : digits ≠ []) : markedInteger? ('0' :: c :: digits) = accumulate base 0.0 digits := by
  have marked : marked? ('0' :: c :: digits) = some (base, digits) := by
    simp only [marks, List.mem_cons, Prod.mk.injEq, List.not_mem_nil, or_false] at mark
    rcases mark with ⟨rfl, rfl⟩ | ⟨rfl, rfl⟩ | ⟨rfl, rfl⟩ | ⟨rfl, rfl⟩ | ⟨rfl, rfl⟩ | ⟨rfl, rfl⟩ <;> rfl
  unfold markedInteger?
  rw [marked]
  cases digits with
  | nil => exact absurd rfl ne_nil
  | cons d rest => rfl

theorem marked?_eq_some {text digits : List Char} {base : Nat} (h : marked? text = some (base, digits)) :
    ∃ c, (c, base) ∈ marks ∧ text = '0' :: c :: digits := by
  unfold marked? at h
  split at h
  · rename_i c rest
    split_ifs at h with hx ho hb
    · cases h
      exact ⟨c, by rcases hx with rfl | rfl <;> decide, rfl⟩
    · cases h
      exact ⟨c, by rcases ho with rfl | rfl <;> decide, rfl⟩
    · cases h
      exact ⟨c, by rcases hb with rfl | rfl <;> decide, rfl⟩
  · cases h

theorem markedInteger?_eq_some {text : List Char} {x : Float} (h : markedInteger? text = some x) :
    ∃ c base digits, (c, base) ∈ marks ∧ digits ≠ [] ∧ text = '0' :: c :: digits ∧
      accumulate base 0.0 digits = some x := by
  unfold markedInteger? at h
  split at h
  · rename_i base d rest marked
    obtain ⟨c, mark, rfl⟩ := marked?_eq_some marked
    exact ⟨c, base, d :: rest, mark, List.cons_ne_nil d rest, rfl, h⟩
  · cases h

theorem markedInteger?_isNaN {text : List Char} {x : Float} (h : markedInteger? text = some x) :
    x.isNaN = false := by
  obtain ⟨c, base, digits, mark, -, -, total⟩ := markedInteger?_eq_some h
  have range : ∀ base ∈ [16, 8, 2], 0 < base ∧ base ≤ 16 := by decide
  have zero : Signed .positive (0.0 : Float).toModel.unpack := rfl
  obtain ⟨pos, small⟩ := range base (mem_bases mark)
  exact (accumulate_signed pos small zero total).isNaN

theorem unsigned_isNaN (text : List Char) :
    (unsigned text).isNaN = false ↔ text = "Infinity".toList ∨ ∃ x, Literal text x := by
  unfold unsigned
  split
  · rename_i h
    exact ⟨fun _ => .inl h, fun _ => rfl⟩
  · rename_i h
    split
    · rename_i d read
      refine ⟨fun _ => .inr ⟨_, literal_of_read? read⟩, fun _ => ?_⟩
      rw [Decimal.toFloat_eq]
      exact (signed_ofRat _).isNaN
    · rename_i none
      constructor
      · intro nan
        exact absurd nan (by decide)
      · rintro (infinity | ⟨x, literal⟩)
        · exact absurd infinity h
        · obtain ⟨d, read, -⟩ := literal.read?
          rw [none] at read
          cases read

theorem numeral_cons {c : Char} {rest : List Char} (unmarked : markedInteger? (c :: rest) = none) :
    Numeral (c :: rest) ↔
      (unsigned (if c = '+' ∨ c = '-' then rest else c :: rest)).isNaN = false := by
  rw [unsigned_isNaN]
  constructor
  · intro h
    generalize htext : c :: rest = text at h
    cases h with
    | empty => cases htext
    | @marked d base digits mark ne_nil all =>
      -- such an integer would have been read
      have some : (accumulate base 0.0 digits).isSome := by
        rw [accumulate_isSome]
        intro d hd
        exact (digitIn?_isSome (mem_bases mark) d).mpr (all d hd)
      rw [← markedInteger?_eq mark ne_nil, ← htext, unmarked] at some
      cases some
    | infinity h =>
      left
      rcases h with rfl | rfl | rfl
      · cases htext
        rfl
      · cases htext
        rfl
      · cases htext
        rfl
    | decimal h literal =>
      right
      rcases h with rfl | rfl | rfl
      · obtain ⟨d, tail, rfl, first⟩ := literal.head
        cases htext
        rw [if_neg]
        · exact ⟨_, literal⟩
        · rintro (rfl | rfl) <;> exact absurd first (by decide)
      · cases htext
        exact ⟨_, literal⟩
      · cases htext
        exact ⟨_, literal⟩
  · split
    · rename_i sign
      have sign : [c] = [] ∨ [c] = ['+'] ∨ [c] = ['-'] := by
        rcases sign with rfl | rfl
        · exact .inr (.inl rfl)
        · exact .inr (.inr rfl)
      rintro (rfl | ⟨x, literal⟩)
      · exact .infinity sign
      · exact .decimal sign literal
    · rintro (h | ⟨x, literal⟩)
      · rw [h]
        exact .infinity (.inl rfl)
      · exact .decimal (.inl rfl) literal

/-- Exactly the texts of the grammar denote a number. -/
theorem ofTrimmed_isNaN (text : List Char) : (ofTrimmed text).isNaN = false ↔ Numeral text := by
  cases text with
  | nil => exact ⟨fun _ => .empty, fun _ => rfl⟩
  | cons c rest =>
    unfold ofTrimmed
    cases marked : markedInteger? (c :: rest) with
    | some x =>
      refine ⟨fun _ => ?_, fun _ => markedInteger?_isNaN marked⟩
      obtain ⟨d, base, digits, mark, ne_nil, heq, total⟩ := markedInteger?_eq_some marked
      rw [heq]
      refine .marked mark ne_nil fun d hd => ?_
      rw [← digitIn?_isSome (mem_bases mark) d]
      have all := (accumulate_isSome base 0.0 digits).mp (by rw [total]; rfl)
      exact all d hd
    | none =>
      rw [numeral_cons marked]
      by_cases plus : c = '+'
      · simp only [plus, true_or, if_true]
      · by_cases minus : c = '-'
        · subst minus
          show (-unsigned rest).isNaN = false ↔ (unsigned rest).isNaN = false
          rw [isNaN_neg]
        · simp only [plus, minus, or_false, if_false]

/-! ## Blanks around a number -/

/-- The white space and line ends of scripts: controls, spaces, separators and the byte order mark. -/
def whiteSpace : List ℕ :=
  [0x9, 0xA, 0xB, 0xC, 0xD, 0x20, 0xA0, 0x1680, 0x2000, 0x2001, 0x2002, 0x2003, 0x2004, 0x2005, 0x2006, 0x2007,
    0x2008, 0x2009, 0x200A, 0x2028, 0x2029, 0x202F, 0x205F, 0x3000, 0xFEFF]

theorem isBlank_iff (c : Char) : Text.isBlank c ↔ c.toNat ∈ whiteSpace := by
  simp only [Text.isBlank, Text.isSpace, whiteSpace, Bool.or_eq_true, Bool.and_eq_true, decide_eq_true_eq,
    beq_iff_eq, bne_iff_ne, List.mem_cons, List.not_mem_nil, or_false]
  omega

structure Trimmed (text middle : List Char) : Prop where
  ends : ∃ front back, text = front ++ middle ++ back ∧ (∀ c ∈ front, c.toNat ∈ whiteSpace) ∧
    ∀ c ∈ back, c.toNat ∈ whiteSpace
  first : ∀ c ∈ middle.head?, c.toNat ∉ whiteSpace
  last : ∀ c ∈ middle.getLast?, c.toNat ∉ whiteSpace

theorem not_blank_of_dropWhile {text : List Char} {c : Char} (h : c ∈ (text.dropWhile Text.isBlank).head?) :
    c.toNat ∉ whiteSpace := by
  have := List.head?_dropWhile_not Text.isBlank text
  rw [Option.mem_def.mp h] at this
  rw [← isBlank_iff]
  simpa using this

theorem blank_of_takeWhile {text : List Char} {c : Char} (h : c ∈ text.takeWhile Text.isBlank) :
    c.toNat ∈ whiteSpace :=
  (isBlank_iff c).mp (List.mem_takeWhile_imp h)

theorem trimmed_trim (text : List Char) : Trimmed text (Text.trim text) := by
  set u := text.dropWhile Text.isBlank with hu
  have split : u = Text.trim text ++ (u.reverse.takeWhile Text.isBlank).reverse := by
    rw [Text.trim, Text.strip, ← hu, ← List.reverse_append, List.takeWhile_append_dropWhile, List.reverse_reverse]
  refine ⟨⟨text.takeWhile Text.isBlank, (u.reverse.takeWhile Text.isBlank).reverse, ?_, ?_, ?_⟩, ?_, ?_⟩
  · rw [List.append_assoc, ← split, List.takeWhile_append_dropWhile]
  · exact fun c hc => blank_of_takeWhile hc
  · exact fun c hc => blank_of_takeWhile (List.mem_reverse.mp hc)
  · intro c hc
    apply @not_blank_of_dropWhile text
    rw [← hu, split, List.head?_append, Option.mem_def.mp hc]
    rfl
  · intro c hc
    apply @not_blank_of_dropWhile u.reverse
    rwa [← List.getLast?_reverse]

end BlockScript.Number
