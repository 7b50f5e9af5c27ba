import BlockScript.Proofs.Scanner
import BlockScript.Proofs.ShortestDigits

/-!
# Numbers written and read back

Whatever the digits and wherever the point falls, the text that is laid out for them is a literal and denotes
exactly the rational they stand for. The shortest digits of a double read as that double, so a number that is
written out comes back as itself.
-/

namespace BlockScript.Number

open Float.Model Float.Model.UnpackedFloat Scanner

/-! ## Layouts that check their bounds -/

/-- So many zeros, which must not be fewer than none. -/
def repeatZero? (n : ℤ) : Option (List Char) :=
  if 0 ≤ n then some (List.replicate n.toNat '0') else none

/-- The digits before and after an offset, which must be in their range. -/
def splitAt? (digits : List Char) (n : ℤ) : Option (List Char × List Char) :=
  if 0 ≤ n then cut? digits n.toNat else none

/-- The layout of a number's digits, every count of zeros and every place to split them checked. -/
def layOut? (digits : List Char) (exponent : ℤ) : Option (List Char) := do
  let point := exponent + 1
  if digits.length ≤ point ∧ point ≤ 21 then
    return digits ++ (← repeatZero? (point - digits.length))
  else if 0 < point ∧ point ≤ 21 then
    let (whole, fraction) ← splitAt? digits point
    return whole ++ '.' :: fraction
  else if -6 < point ∧ point ≤ 0 then
    return '0' :: '.' :: (← repeatZero? (-point)) ++ digits
  else
    let (first, rest) ← splitAt? digits 1
    let power := 'e' :: (if point - 1 < 0 then '-' else '+') :: Nat.toDigits 10 (point - 1).natAbs
    if rest.isEmpty then return first ++ power else return first ++ '.' :: rest ++ power

section
variable {digits : List Char} {exponent : ℤ}

theorem place_whole (long : digits.length ≤ exponent + 1) (some : digits ≠ []) (most : exponent + 1 ≤ 21) :
    script.place digits exponent = digits ++ zeros (exponent + 1 - digits.length).toNat := by
  have length := List.length_pos_iff.mpr some
  have range : script.least ≤ exponent ∧ exponent < script.most := by
    show -6 ≤ exponent ∧ exponent < 21
    omega
  have count : (exponent + 1).toNat - digits.length = (exponent + 1 - digits.length).toNat := by omega
  rw [Layout.place, if_pos range, inPlace, if_neg (by omega)]
  simp only
  rw [if_pos (by omega), count]
  exact List.append_nil _

theorem place_point (short : exponent + 1 < digits.length) (pos : 0 < exponent + 1) (most : exponent + 1 ≤ 21) :
    script.place digits exponent =
      digits.take (exponent + 1).toNat ++ '.' :: digits.drop (exponent + 1).toNat := by
  have range : script.least ≤ exponent ∧ exponent < script.most := by
    show -6 ≤ exponent ∧ exponent < 21
    omega
  rw [Layout.place, if_pos range, inPlace, if_neg (by omega)]
  exact if_neg (by omega)

theorem place_small (least : -6 < exponent + 1) (most : exponent + 1 ≤ 0) :
    script.place digits exponent = '0' :: '.' :: (zeros (-(exponent + 1)).toNat ++ digits) := by
  have range : script.least ≤ exponent ∧ exponent < script.most := by
    show -6 ≤ exponent ∧ exponent < 21
    omega
  rw [Layout.place, if_pos range, inPlace, if_pos (by omega)]
  rfl

theorem place_power (h : exponent + 1 ≤ -6 ∨ 21 < exponent + 1) :
    script.place digits exponent = withExponent digits exponent := by
  apply if_neg
  show ¬ (-6 ≤ exponent ∧ exponent < 21)
  omega

theorem cut?_digits (all : ∀ c ∈ digits, c.isDigit) {n : ℕ} (h : n ≤ digits.length) :
    cut? digits n = some (digits.take n, digits.drop n) := by
  have cut := cut?_append (digits.take n) (digits.drop n)
  rw [List.take_append_drop, length_bytes_digits fun c hc => all c (List.mem_of_mem_take hc), List.length_take,
    min_eq_left h] at cut
  exact cut

/-- No layout asks for fewer than no zeros, or splits the digits anywhere but between two of them. -/
theorem layOut?_eq (h : Digits digits) (exponent : ℤ) :
    layOut? digits exponent = some (script.place digits exponent) := by
  have length := List.length_pos_iff.mpr h.ne_nil
  unfold layOut?
  by_cases whole : digits.length ≤ exponent + 1 ∧ exponent + 1 ≤ 21
  · rw [place_whole whole.1 h.ne_nil whole.2, if_pos whole, repeatZero?, if_pos (by omega)]
    rfl
  by_cases point : 0 < exponent + 1 ∧ exponent + 1 ≤ 21
  · rw [place_point (by omega) point.1 point.2, if_neg whole, if_pos point, splitAt?, if_pos (by omega),
      cut?_digits h.all (by omega)]
    rfl
  by_cases small : -6 < exponent + 1 ∧ exponent + 1 ≤ 0
  · rw [place_small small.1 small.2, if_neg whole, if_neg point, if_pos small, repeatZero?, if_pos (by omega)]
    rfl
  · rw [place_power (by omega), if_neg whole, if_neg point, if_neg small, splitAt?, if_pos (by omega),
      cut?_digits h.all (by omega), add_sub_cancel_right, withExponent]
    obtain ⟨c, rest, rfl, -⟩ := h.head
    cases rest with
    | nil => rfl
    | cons d rest =>
      show some (_ ++ _ ++ _) = some (_ ++ _ ++ _)
      simp

/-! ## Layouts are literals -/

theorem ofDigits_zeros (n : ℕ) : ofDigits (zeros n) = 0 := by
  rw [ofDigits_eq, zeros, Nat.ofDigitChars_replicate_zero, mul_zero]

theorem isDigit_zeros {n : ℕ} {c : Char} (h : c ∈ zeros n) : c.isDigit := by
  rw [List.eq_of_mem_replicate h]
  rfl

theorem digits_toDigits (n : ℕ) : Digits (Nat.toDigits 10 n) ∧ ofDigits (Nat.toDigits 10 n) = n := by
  refine ⟨⟨Nat.toDigits_ne_nil, fun c hc => Nat.isDigit_of_mem_toDigits (by decide) (by decide) hc⟩, ?_⟩
  rw [ofDigits_eq, Nat.ofDigitChars_ten_toDigits]

theorem power_toDigits (n : ℤ) : Power ((if n < 0 then '-' else '+') :: Nat.toDigits 10 n.natAbs) n := by
  obtain ⟨digits, value⟩ := digits_toDigits n.natAbs
  split
  · have := Power.minus digits
    rw [value] at this
    rwa [show -(n.natAbs : ℤ) = n by omega] at this
  · have := Power.plus digits
    rw [value] at this
    rwa [show (n.natAbs : ℤ) = n by omega] at this

theorem literal_withExponent (h : Digits digits) (exponent : ℤ) :
    Literal (withExponent digits exponent) (ofDigits digits * 10 ^ (exponent + 1 - digits.length)) := by
  obtain ⟨c, rest, rfl, digit⟩ := h.head
  have first : Digits [c] := ⟨by simp, by simpa using digit⟩
  have all : ∀ d ∈ rest, d.isDigit := fun d hd => h.all d (List.mem_cons_of_mem c hd)
  have value : (ofDigits (c :: rest) : ℚ) * 10 ^ (exponent + 1 - (c :: rest).length) =
      (ofDigits [c] + ofDigits rest / 10 ^ rest.length) * 10 ^ exponent := by
    rw [← ofDigits_point, List.length_cons]
    congr 2
    push_cast
    ring
  rw [value]
  cases rest with
  | nil =>
    have := Literal.scaled (.whole first) (.inl rfl) (power_toDigits exponent)
    simpa [withExponent, ofDigits_nil] using this
  | cons d rest => exact .scaled (.point first all) (.inl rfl) (power_toDigits exponent)

theorem literal_point {w f : List Char} (h : Digits w) (all : ∀ c ∈ f, c.isDigit) :
    Literal (w ++ '.' :: f) (ofDigits (w ++ f) * 10 ^ (0 - (f.length : ℤ))) := by
  have literal := Literal.plain (.point h all)
  rwa [← mul_one (_ + _), ← zpow_zero (10 : ℚ), ← ofDigits_point] at literal

theorem literal_small (h : Digits digits) (n : ℕ) :
    Literal ('0' :: '.' :: (zeros n ++ digits)) (ofDigits digits * 10 ^ (-(n : ℤ) - digits.length)) := by
  have zero : Digits ['0'] := ⟨by simp, by simp⟩
  have all : ∀ c ∈ zeros n ++ digits, c.isDigit := by
    intro c hc
    rcases List.mem_append.mp hc with hc | hc
    · exact isDigit_zeros hc
    · exact h.all c hc
  have literal := literal_point zero all
  have value : ofDigits (['0'] ++ (zeros n ++ digits)) = ofDigits digits := by
    rw [← List.append_assoc, ofDigits_append, ofDigits_append, ofDigits_zeros, show ofDigits ['0'] = 0 from rfl]
    ring
  have exponent : (0 : ℤ) - (zeros n ++ digits).length = -(n : ℤ) - digits.length := by
    rw [List.length_append, zeros, List.length_replicate]
    push_cast
    ring
  rwa [value, exponent] at literal

theorem literal_whole (h : Digits digits) (n : ℕ) :
    Literal (digits ++ zeros n) (ofDigits digits * 10 ^ (n : ℤ)) := by
  have all : Digits (digits ++ zeros n) := by
    refine ⟨by simp [h.ne_nil], fun c hc => ?_⟩
    rcases List.mem_append.mp hc with hc | hc
    · exact h.all c hc
    · exact isDigit_zeros hc
  have value : ofDigits (digits ++ zeros n) = ofDigits digits * 10 ^ n := by
    rw [ofDigits_append, ofDigits_zeros, add_zero, zeros, List.length_replicate]
  have literal := Literal.plain (.whole all)
  rw [value] at literal
  rw [zpow_natCast]
  exact_mod_cast literal

theorem literal_split (h : Digits digits) {n : ℕ} (pos : 0 < n) (short : n ≤ digits.length) :
    Literal (digits.take n ++ '.' :: digits.drop n) (ofDigits digits * 10 ^ ((n : ℤ) - digits.length)) := by
  have first : Digits (digits.take n) := by
    refine ⟨?_, fun c hc => h.all c (List.mem_of_mem_take hc)⟩
    rw [Ne, List.take_eq_nil_iff]
    rintro (zero | nil)
    · omega
    · exact h.ne_nil nil
  have literal := @literal_point _ (digits.drop n) first fun c hc => h.all c (List.mem_of_mem_drop hc)
  have exponent : (0 : ℤ) - (digits.drop n).length = n - digits.length := by
    rw [List.length_drop]
    omega
  rwa [List.take_append_drop, exponent] at literal

/-- Wherever the point falls, what is laid out denotes the digits times their power of ten. -/
theorem literal_place (h : Digits digits) (exponent : ℤ) :
    Literal (script.place digits exponent) (ofDigits digits * 10 ^ (exponent + 1 - digits.length)) := by
  by_cases power : exponent + 1 ≤ -6 ∨ 21 < exponent + 1
  · rw [place_power power]
    exact literal_withExponent h exponent
  by_cases small : exponent + 1 ≤ 0
  · have := literal_small h (-(exponent + 1)).toNat
    rwa [Int.toNat_of_nonneg (by omega), neg_neg, ← place_small (by omega) small] at this
  by_cases whole : digits.length ≤ exponent + 1
  · have := literal_whole h (exponent + 1 - digits.length).toNat
    rwa [Int.toNat_of_nonneg (by omega), ← place_whole whole h.ne_nil (by omega)] at this
  · have := @literal_split _ h (exponent + 1).toNat (by omega) (by omega)
    rwa [Int.toNat_of_nonneg (by omega), ← place_point (by omega) (by omega) (by omega)] at this

end

/-! ## Reading what was laid out -/

theorem Significand.chars {text : List Char} {x : ℚ} (h : Significand text x) :
    ∀ c ∈ text, c.isDigit ∨ c ∈ ['.', 'e', 'E', '+', '-'] := by
  intro c hc
  cases h with
  | whole h => exact .inl (h.all c hc)
  | point h all =>
    rcases List.mem_append.mp hc with hc | hc
    · exact .inl (h.all c hc)
    · rcases List.mem_cons.mp hc with rfl | hc
      · exact .inr (by simp)
      · exact .inl (all c hc)
  | fraction h =>
    rcases List.mem_cons.mp hc with rfl | hc
    · exact .inr (by simp)
    · exact .inl (h.all c hc)

theorem Power.chars {text : List Char} {n : ℤ} (h : Power text n) :
    ∀ c ∈ text, c.isDigit ∨ c ∈ ['.', 'e', 'E', '+', '-'] := by
  intro c hc
  cases h with
  | plain h => exact .inl (h.all c hc)
  | plus h | minus h =>
    rcases List.mem_cons.mp hc with rfl | hc
    · exact .inr (by simp)
    · exact .inl (h.all c hc)

theorem Literal.not_blank {text : List Char} {x : ℚ} (h : Literal text x) : ∀ c ∈ text, Text.isBlank c = false := by
  have chars : ∀ c ∈ text, c.isDigit ∨ c ∈ ['.', 'e', 'E', '+', '-'] := by
    intro c hc
    cases h with
    | plain h => exact h.chars c hc
    | scaled h mark power =>
      rcases List.mem_append.mp hc with hc | hc
      · exact h.chars c hc
      · rcases List.mem_cons.mp hc with rfl | hc
        · right
          rcases mark with rfl | rfl <;> simp
        · exact power.chars c hc
  intro c hc
  rcases chars c hc with digit | other
  · have range := (isDigit_iff c).mp digit
    rw [Bool.eq_false_iff, Ne, isBlank_iff]
    simp only [whiteSpace, List.mem_cons, List.not_mem_nil, or_false]
    omega
  · revert other
    generalize c = d
    revert d
    simp only [List.mem_cons, List.not_mem_nil, or_false, forall_eq_or_imp, forall_eq]
    decide

theorem trim_eq {text : List Char} (h : ∀ c ∈ text, Text.isBlank c = false) : Text.trim text = text := by
  have drop {l : List Char} (h : ∀ c ∈ l, Text.isBlank c = false) : l.dropWhile Text.isBlank = l := by
    cases l with
    | nil => rfl
    | cons c rest => exact List.dropWhile_cons_of_neg (by rw [h c List.mem_cons_self]; decide)
  rw [Text.trim, Text.strip, drop h, drop fun c hc => h c (List.mem_reverse.mp hc), List.reverse_reverse]

theorem Literal.ofTrimmed_eq {text : List Char} {x : ℚ} (h : Literal text x) :
    ofTrimmed text = ofRat x ∧ ofTrimmed ('-' :: text) = -ofRat x := by
  have read (sign : List Char) (signs : sign = [] ∨ sign = ['+'] ∨ sign = ['-']) :
      ofTrimmed (sign ++ text) = (if sign = ['-'] then -1.0 else 1.0) * ofRat x := by
    obtain ⟨normal, denotes, handed⟩ := number?_literal signs h
    have scanned := number?_eq reads_parse? (sign ++ text)
    rw [handed, reads_parse? normal x denotes] at scanned
    exact (Option.some.inj scanned).symm
  refine ⟨?_, ?_⟩
  · exact (read [] (.inl rfl)).trans (one_mul_float _)
  · exact (read ['-'] (.inr (.inr rfl))).trans (neg_one_mul_float _)

theorem literal_shortest {m : ℕ} {q : ℤ} (c : Canonical m q) :
    ∃ x, Literal (script.placeScaled (shortest script.tie m q)) x ∧
      ofRat x = .ofModel (pack (.finite .positive m q c.pos)) := by
  obtain ⟨digits, value⟩ := digits_toDigits (shortest script.tie m q).digits
  refine ⟨_, literal_place digits _, ?_⟩
  rw [value, ← ofRat_shortest script.tie c]
  congr 3
  ring

theorem ofText_format (x : Float) : ofText (script.format x) = if x = -0.0 then 0.0 else x := by
  have packed : Float.ofModel (pack x.toModel.unpack) = x := by rw [pack_unpack_model]
  unfold Layout.format exact
  cases hx : x.toModel.unpack with
  | notANumber =>
    rw [hx] at packed
    rw [← packed]
    rfl
  | infinity s =>
    rw [hx] at packed
    rw [← packed]
    cases s <;> rfl
  | zero s =>
    rw [hx] at packed
    rw [← packed]
    cases s <;> rfl
  | finite s m q pos =>
    have c := canonical_unpack hx
    obtain ⟨y, literal, value⟩ := literal_shortest c
    have ne : x ≠ -0.0 := by
      rintro rfl
      cases hx
    rw [hx] at packed
    have trim := trim_eq literal.not_blank
    simp only [c.pos.ne', if_false, ne, ofText, String.toList_ofList, ne_eq, not_false_eq_true, true_or, and_true]
    cases s with
    | positive =>
      rw [if_neg (by decide), trim, literal.ofTrimmed_eq.1, value, packed]
    | negative =>
      have minus : Text.trim ('-' :: script.placeScaled (shortest script.tie m q)) = _ := trim_eq (by
        intro d hd
        rcases List.mem_cons.mp hd with rfl | hd
        · decide
        · exact literal.not_blank d hd)
      rw [if_pos (by decide), minus, literal.ofTrimmed_eq.2, value, ← packed]
      show Float.ofModel (pack (Float.Model.pack _).unpack.neg) = _
      rw [unpack_pack_finite c]
      rfl

end BlockScript.Number

namespace BlockScript

open Number Number.Scanner

/-- A number that is written out and read comes back as itself, a negative zero as zero. Whatever the digits
and their exponent, the layout stays within them, is read as a number, and is handed over as a text that
denotes exactly the digits at their place. -/
theorem written_numbers_return :
    (∀ n : Float, Value.number (.str (script.format n)) = if n = -0.0 then 0.0 else n) ∧
    ∀ (digits : List Char) (exponent : ℤ), Digits digits →
      layOut? digits exponent = some (script.place digits exponent) ∧
      (Value.number (.str (.ofList (script.place digits exponent)))).isNaN = false ∧
      ∃ normal, Normal normal (ofDigits digits * 10 ^ (exponent + 1 - digits.length)) ∧
        ∀ parse, number? parse (Text.trim (script.place digits exponent)) =
          some ((parse normal).elim (0.0 / 0.0) fun y => 1.0 * y) := by
  refine ⟨ofText_format, fun digits exponent h => ?_⟩
  have literal := literal_place h exponent
  have trim := trim_eq literal.not_blank
  obtain ⟨normal, denotes, handed⟩ := number?_literal (.inl rfl) literal
  refine ⟨layOut?_eq h exponent, ?_, normal, denotes, ?_⟩
  · show (ofText _).isNaN = false
    rw [ofText, String.toList_ofList, trim, ofTrimmed_isNaN]
    exact .decimal (.inl rfl) literal
  · intro parse
    rw [trim]
    exact handed parse

end BlockScript
