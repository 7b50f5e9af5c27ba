import BlockScript.Proofs.Literals
import BlockScript.Value

/-!
# Reading a number byte by byte

The scanner that works on the bytes of a text: every byte is read by an index that has to be in range, and every
part is cut out between two offsets that have to be in range, in order and at the ends of characters. Where one is
not, the scanner has no result. It always has one, and it is the number that the text denotes.
-/

namespace BlockScript.Number.Scanner

/-! ## The scanner -/

def bytes (text : List Char) : List UInt8 :=
  text.flatMap String.utf8EncodeChar

/-- What lies before an offset and what lies after it, if no character lies across it. -/
def cut? : List Char → ℕ → Option (List Char × List Char)
  | text, 0 => some ([], text)
  | [], _ + 1 => none
  | c :: rest, n + 1 =>
    if c.utf8Size ≤ n + 1 then (cut? rest (n + 1 - c.utf8Size)).map fun (front, back) => (c :: front, back)
    else none

def slice? (text : List Char) (i j : ℕ) : Option (List Char) := do
  let (front, _) ← cut? text j
  let (_, part) ← cut? front i
  return part

def byteIs? (bytes : List UInt8) (i : ℕ) (wanted : List Char) : Option Bool :=
  if i < bytes.length then bytes[i]?.map fun b => wanted.any fun c => b == c.toUInt8
  else some false

def isDigitByte (b : UInt8) : Bool :=
  '0'.toUInt8 ≤ b && b ≤ '9'.toUInt8

def digitsFrom? (bytes : List UInt8) (i : ℕ) : Option ℕ :=
  if i < bytes.length then
    match bytes[i]? with
    | some b => if isDigitByte b then digitsFrom? bytes (i + 1) else some i
    | none => none
  else some i
termination_by bytes.length - i

def orZero (digits : List Char) : List Char :=
  if digits.isEmpty then ['0'] else digits

def fraction? (text : List Char) (i : ℕ) : Option (List Char × ℕ) := do
  if ← byteIs? (bytes text) i ['.'] then
    let last ← digitsFrom? (bytes text) (i + 1)
    return (← slice? text (i + 1) last, last)
  else return ([], i)

def signed? (text : List Char) (i : ℕ) : Option (Option (List Char × ℕ)) := do
  let first := if ← byteIs? (bytes text) i ['+', '-'] then i + 1 else i
  let last ← digitsFrom? (bytes text) first
  if last = first then return none
  else return some (← slice? text i last, last)

def power? (text : List Char) (i : ℕ) : Option (Option (List Char × ℕ)) := do
  if ← byteIs? (bytes text) i ['e', 'E'] then signed? text (i + 1)
  else return some (['0'], i)

/-- The text `D+.D+e[+|-]D+` that a decimal literal is turned into; inside, nothing when it is none. -/
def normal? (text : List Char) : Option (Option (List Char)) := do
  let last ← digitsFrom? (bytes text) 0
  let whole ← slice? text 0 last
  let (fraction, i) ← fraction? text last
  if whole.isEmpty && fraction.isEmpty then return none
  else
    match ← power? text i with
    | none => return none
    | some (power, i) =>
      if i ≠ (bytes text).length then return none
      else return some (orZero whole ++ '.' :: (orZero fraction ++ 'e' :: power))

def marked? (text : List Char) : Option (Option Float) :=
  match cut? text 2 with
  | some (['0', c], _) =>
    match marks.lookup c with
    | some base => do
      let digits ← slice? text 2 (bytes text).length
      if digits.isEmpty then return none else return accumulate base 0.0 digits
    | none => some none
  | _ => some none

def unsigned? (parse : List Char → Option Float) (sign : Float) (text : List Char) : Option Float := do
  if text = "Infinity".toList then return sign * (1.0 / 0.0)
  else
    match ← normal? text with
    | none => return 0.0 / 0.0
    | some normal =>
      match parse normal with
      | none => return 0.0 / 0.0
      | some x => return sign * x

def number? (parse : List Char → Option Float) (text : List Char) : Option Float := do
  if text.isEmpty then return 0.0
  else
    match ← marked? text with
    | some x => return x
    | none =>
      let first ← (bytes text)[0]?
      if first = '+'.toUInt8 then unsigned? parse 1.0 (← slice? text 1 (bytes text).length)
      else if first = '-'.toUInt8 then unsigned? parse (-1.0) (← slice? text 1 (bytes text).length)
      else unsigned? parse 1.0 text

/-! ## Bytes and characters -/

theorem bytes_append (front back : List Char) : bytes (front ++ back) = bytes front ++ bytes back :=
  List.flatMap_append

theorem bytes_cons (c : Char) (rest : List Char) : bytes (c :: rest) = String.utf8EncodeChar c ++ bytes rest :=
  List.flatMap_cons

theorem length_bytes_cons (c : Char) (rest : List Char) :
    (bytes (c :: rest)).length = c.utf8Size + (bytes rest).length := by
  rw [bytes_cons, List.length_append, String.length_utf8EncodeChar]

/-- A byte that a character starts with: itself when it has seven bits, and otherwise one with an eighth. -/
def Leads (b : UInt8) (c : Char) : Prop :=
  (c.toNat < 128 → b.toNat = c.toNat) ∧ (128 ≤ c.toNat → 128 ≤ b.toNat)

theorem exists_leads (c : Char) : ∃ b rest, String.utf8EncodeChar c = b :: rest ∧ Leads b c := by
  have value : c.val.toNat = c.toNat := rfl
  unfold String.utf8EncodeChar Leads
  simp only [value]
  split_ifs
  all_goals
    refine ⟨_, _, rfl, fun _ => ?_, fun _ => ?_⟩ <;>
      rw [UInt8.toNat_ofNat'] <;> omega

theorem utf8Size_ascii {c : Char} (h : c.toNat < 128) : c.utf8Size = 1 := by
  rw [Char.utf8Size_eq_one_iff, UInt32.le_iff_toNat_le]
  exact Nat.lt_succ_iff.mp h

theorem toNat_toUInt8 {c : Char} (h : c.toNat < 128) : c.toUInt8.toNat = c.toNat := by
  show c.val.toUInt8.toNat = _
  rw [UInt32.toNat_toUInt8]
  exact Nat.mod_eq_of_lt (by show c.toNat < 256; omega)

theorem isDigit_iff (c : Char) : c.isDigit = true ↔ 48 ≤ c.toNat ∧ c.toNat ≤ 57 := by
  simp [Char.isDigit, UInt32.le_iff_toNat_le]

theorem isDigitByte_iff (b : UInt8) : isDigitByte b = true ↔ 48 ≤ b.toNat ∧ b.toNat ≤ 57 := by
  simp only [isDigitByte, Bool.and_eq_true, decide_eq_true_eq, UInt8.le_iff_toNat_le]
  rfl

theorem Leads.eq_iff {b : UInt8} {c d : Char} (h : Leads b c) (ascii : d.toNat < 128) : b = d.toUInt8 ↔ c = d := by
  rw [← UInt8.toNat_inj, toNat_toUInt8 ascii, ← Char.toNat_inj]
  by_cases small : c.toNat < 128
  · rw [h.1 small]
  · have := h.2 (by omega)
    omega

theorem Leads.isDigit {b : UInt8} {c : Char} (h : Leads b c) : isDigitByte b = c.isDigit := by
  rw [Bool.eq_iff_iff, isDigitByte_iff, isDigit_iff]
  by_cases small : c.toNat < 128
  · rw [h.1 small]
  · have := h.2 (by omega)
    omega

theorem length_bytes_digits {digits : List Char} (all : ∀ c ∈ digits, c.isDigit) :
    (bytes digits).length = digits.length := by
  induction digits with
  | nil => rfl
  | cons c rest ih =>
    have digit := (isDigit_iff c).mp (all c List.mem_cons_self)
    rw [length_bytes_cons, utf8Size_ascii (by omega), ih fun d hd => all d (List.mem_cons_of_mem c hd),
      List.length_cons]
    omega

/-- An offset of a text at the end of a character, and what lies after it. -/
def At (text : List Char) (i : ℕ) (rest : List Char) : Prop :=
  ∃ front, text = front ++ rest ∧ (bytes front).length = i

section
variable {text rest : List Char} {i : ℕ}

theorem at_zero (text : List Char) : At text 0 text :=
  ⟨[], rfl, rfl⟩

theorem At.length_eq (h : At text i rest) : (bytes text).length = i + (bytes rest).length := by
  obtain ⟨front, rfl, rfl⟩ := h
  rw [bytes_append, List.length_append]

theorem At.append {part : List Char} (h : At text i (part ++ rest)) : At text (i + (bytes part).length) rest := by
  obtain ⟨front, rfl, rfl⟩ := h
  exact ⟨front ++ part, by simp, by rw [bytes_append, List.length_append]⟩

theorem At.next {c : Char} (h : At text i (c :: rest)) (ascii : c.toNat < 128) : At text (i + 1) rest := by
  have := @At.append text rest i [c] h
  rwa [length_bytes_cons, utf8Size_ascii ascii] at this

theorem At.end_iff (h : At text i rest) : i = (bytes text).length ↔ rest = [] := by
  rw [h.length_eq]
  cases rest with
  | nil => simp [bytes]
  | cons c rest =>
    have := c.utf8Size_pos
    rw [length_bytes_cons]
    simp
    omega

theorem At.byte {c : Char} (h : At text i (c :: rest)) :
    i < (bytes text).length ∧ ∃ b, (bytes text)[i]? = some b ∧ Leads b c := by
  have length := h.length_eq
  obtain ⟨front, rfl, rfl⟩ := h
  obtain ⟨b, more, lead, leads⟩ := exists_leads c
  have pos := c.utf8Size_pos
  rw [length_bytes_cons] at length
  refine ⟨by omega, b, ?_, leads⟩
  rw [bytes_append, List.getElem?_append_right le_rfl, bytes_cons, lead, Nat.sub_self]
  rfl

theorem byteIs?_at (h : At text i rest) {wanted : List Char} (ascii : ∀ c ∈ wanted, c.toNat < 128) :
    byteIs? (bytes text) i wanted = some (rest.head?.any fun c => wanted.contains c) := by
  cases rest with
  | nil =>
    rw [byteIs?, if_neg (by rw [h.end_iff.mpr rfl]; exact lt_irrefl _)]
    rfl
  | cons c rest =>
    obtain ⟨range, b, byte, leads⟩ := h.byte
    rw [byteIs?, if_pos range, byte]
    simp only [Option.map_some, List.head?_cons, Option.any_some, Option.some.injEq]
    rw [Bool.eq_iff_iff, List.any_eq_true, List.contains_iff_mem]
    constructor
    · rintro ⟨w, mem, same⟩
      rwa [(leads.eq_iff (ascii w mem)).mp (beq_iff_eq.mp same)]
    · intro mem
      exact ⟨c, mem, beq_iff_eq.mpr ((leads.eq_iff (ascii c mem)).mpr rfl)⟩

theorem digitsFrom?_at (h : At text i rest) :
    digitsFrom? (bytes text) i = some (i + (spanDigits rest).1.length) := by
  induction rest generalizing i with
  | nil =>
    rw [digitsFrom?, if_neg (by rw [h.end_iff.mpr rfl]; exact lt_irrefl _)]
    rfl
  | cons c rest ih =>
    obtain ⟨range, b, byte, leads⟩ := h.byte
    rw [digitsFrom?, if_pos range, byte]
    simp only [leads.isDigit]
    by_cases digit : c.isDigit
    · have := (isDigit_iff c).mp digit
      have more : (spanDigits (c :: rest)).1.length = (spanDigits rest).1.length + 1 := by
        simp [spanDigits, digit]
      rw [if_pos digit, ih (h.next (by omega)), more]
      congr 1
      omega
    · rw [if_neg digit, spanDigits, List.takeWhile_cons_of_neg digit]
      rfl

theorem cut?_append (front back : List Char) : cut? (front ++ back) (bytes front).length = some (front, back) := by
  induction front with
  | nil => cases back <;> rfl
  | cons c front ih =>
    have pos := c.utf8Size_pos
    obtain ⟨n, hn⟩ : ∃ n, (bytes (c :: front)).length = n + 1 :=
      Nat.exists_eq_add_one.mpr (by rw [length_bytes_cons]; omega)
    have rest : n + 1 - c.utf8Size = (bytes front).length := by
      rw [← hn, length_bytes_cons]
      omega
    rw [hn, List.cons_append, cut?, if_pos (by rw [← hn, length_bytes_cons]; omega), rest, ih]
    rfl

theorem slice?_at {part : List Char} (h : At text i (part ++ rest)) :
    slice? text i (i + (bytes part).length) = some part := by
  obtain ⟨front, rfl, rfl⟩ := h
  have outer := cut?_append (front ++ part) rest
  rw [bytes_append, List.length_append, List.append_assoc] at outer
  unfold slice?
  rw [outer]
  simp [cut?_append]

/-! ## The parts of a decimal -/

theorem At.digits (h : At text i rest) : ∃ j, digitsFrom? (bytes text) i = some j ∧
    j = i + (spanDigits rest).1.length ∧ slice? text i j = some (spanDigits rest).1 ∧
      At text j (spanDigits rest).2 := by
  obtain ⟨whole, all, -⟩ := spanDigits_spec rest
  have parts : At text i ((spanDigits rest).1 ++ (spanDigits rest).2) := by rwa [whole]
  have slice := slice?_at parts
  have after := parts.append
  rw [length_bytes_digits all] at slice after
  exact ⟨_, digitsFrom?_at h, rfl, slice, after⟩

theorem fraction?_at (h : At text i rest) :
    ∃ j, fraction? text i = some ((spanFraction rest).1, j) ∧ At text j (spanFraction rest).2 := by
  have byte := @byteIs?_at _ _ _ h ['.'] (by simp)
  unfold fraction?
  rw [byte]
  by_cases point : rest.head? = some '.'
  · obtain ⟨after, rfl⟩ : ∃ after, rest = '.' :: after := by
      cases rest with
      | nil => cases point
      | cons c after =>
        cases point
        exact ⟨after, rfl⟩
    obtain ⟨j, last, -, slice, there⟩ := (h.next (by simp)).digits
    refine ⟨j, ?_, there⟩
    simp [last, slice, spanFraction]
  · refine ⟨i, ?_, ?_⟩
    · rw [spanFraction_of_ne point]
      cases rest with
      | nil => rfl
      | cons c after =>
        have : ¬ c = '.' := fun h => point (by rw [h]; rfl)
        simp [this]
    · rwa [spanFraction_of_ne point]

theorem exists_sign (after : List Char) : ∃ (sign body : List Char) (apply : ℤ → ℤ), after = sign ++ body ∧
    (∀ i : ℕ, (if after.head?.any fun c => ['+', '-'].contains c then i + 1 else i) = i + (bytes sign).length) ∧
    exponentValue? after = (exponentValue?.unsigned body).map (fun (n, rest) => (apply n, rest)) ∧
    ∀ d, Digits d → Power (sign ++ d) (apply (ofDigits d)) := by
  by_cases plus : ∃ body, after = '+' :: body
  · obtain ⟨body, rfl⟩ := plus
    refine ⟨['+'], body, id, rfl, fun i => rfl, ?_, fun d h => .plus h⟩
    simp [exponentValue?]
  by_cases minus : ∃ body, after = '-' :: body
  · obtain ⟨body, rfl⟩ := minus
    exact ⟨['-'], body, fun n => -n, rfl, fun i => rfl, rfl, fun d h => .minus h⟩
  have value : exponentValue? after = exponentValue?.unsigned after := by
    unfold exponentValue?
    split
    · exact absurd ⟨_, rfl⟩ plus
    · exact absurd ⟨_, rfl⟩ minus
    · rfl
  refine ⟨[], after, id, rfl, fun i => ?_, by simp [value], fun d h => .plain h⟩
  cases after with
  | nil => rfl
  | cons c body =>
    have plus : ¬ c = '+' := fun h => plus ⟨body, by rw [h]⟩
    have minus : ¬ c = '-' := fun h => minus ⟨body, by rw [h]⟩
    simp [plus, minus, bytes]

theorem signed?_at {after : List Char} (h : At text i after) :
    (exponentValue? after = none ∧ signed? text i = some none) ∨
      ∃ n p j rest, exponentValue? after = some (n, rest) ∧ signed? text i = some (some (p, j)) ∧ At text j rest ∧
        Power p n := by
  have byte := @byteIs?_at _ _ _ h ['+', '-'] (by simp)
  obtain ⟨sign, body, apply, rfl, first, value, power⟩ := exists_sign after
  obtain ⟨j, last, hj, -, there⟩ := h.append.digits
  obtain ⟨whole, all, -⟩ := spanDigits_spec body
  have scan : signed? text i =
      if j = i + (bytes sign).length then some none else (slice? text i j).map fun part => some (part, j) := by
    unfold signed?
    rw [byte]
    simp only [bind, Option.bind_some, first, last, pure]
    split
    · rfl
    · cases slice? text i j <;> rfl
  rw [value, scan]
  by_cases none : (spanDigits body).1 = []
  · left
    have unsigned : exponentValue?.unsigned body = Option.none := by
      unfold exponentValue?.unsigned
      rw [← Prod.eta (spanDigits body), none]
    rw [unsigned, if_pos (by rw [hj, none]; rfl)]
    exact ⟨rfl, rfl⟩
  · right
    have digits : Digits (spanDigits body).1 := ⟨none, all⟩
    have unsigned := unsigned_digits digits (spanDigits_spec body).2.2
    have slice := @slice?_at text (spanDigits body).2 i (sign ++ (spanDigits body).1)
        (by rwa [List.append_assoc, whole])
    rw [bytes_append, List.length_append, length_bytes_digits all, ← add_assoc, ← hj] at slice
    have more : j ≠ i + (bytes sign).length := by
      have := List.length_pos_iff.mpr none
      omega
    rw [whole] at unsigned
    refine ⟨_, _, j, _, ?_, ?_, there, power _ digits⟩
    · rw [unsigned]
      rfl
    · rw [if_neg more, slice]
      rfl

theorem power?_at (h : At text i rest) :
    (spanExponent? rest = none ∧ power? text i = some none) ∨
      ∃ n p j after, spanExponent? rest = some (n, after) ∧ power? text i = some (some (p, j)) ∧ At text j after ∧
        Power p n := by
  have byte := @byteIs?_at _ _ _ h ['e', 'E'] (by simp)
  unfold power?
  rw [byte]
  by_cases mark : ∃ marker after, rest = marker :: after ∧ (marker = 'e' ∨ marker = 'E')
  · obtain ⟨marker, after, rfl, mark⟩ := mark
    have next : At text (i + 1) after := h.next (by rcases mark with rfl | rfl <;> simp)
    have span : spanExponent? (marker :: after) = exponentValue? after := by rcases mark with rfl | rfl <;> rfl
    have found : (['e', 'E'].contains marker) = true := by rcases mark with rfl | rfl <;> rfl
    rw [span]
    simp only [List.head?_cons, Option.any_some, found]
    exact signed?_at next
  · have span : spanExponent? rest = some (0, rest) := by
      unfold spanExponent?
      split
      · exact absurd ⟨_, _, rfl, .inl rfl⟩ mark
      · exact absurd ⟨_, _, rfl, .inr rfl⟩ mark
      · rfl
    refine .inr ⟨0, ['0'], i, rest, span, ?_, h, .plain ⟨by simp, by simp⟩⟩
    cases rest with
    | nil => rfl
    | cons c after =>
      have : ¬ (c = 'e' ∨ c = 'E') := fun h => mark ⟨c, after, rfl, h⟩
      simp [this]

end

/-- The texts that decimals are turned into, and what they denote. -/
inductive Normal : List Char → ℚ → Prop where
  | mk {w f p : List Char} {n : ℤ} (whole : Digits w) (fraction : Digits f) (power : Power p n) :
      Normal (w ++ '.' :: (f ++ 'e' :: p)) ((ofDigits w + ofDigits f / 10 ^ f.length) * 10 ^ n)

theorem Normal.literal {text : List Char} {x : ℚ} (h : Normal text x) : Literal text x := by
  obtain ⟨whole, fraction, power⟩ := h
  have := Literal.scaled (.point whole fraction.all) (.inl rfl) power
  rwa [List.append_assoc] at this

theorem digits_orZero {digits : List Char} (all : ∀ c ∈ digits, c.isDigit) :
    Digits (orZero digits) ∧ ofDigits (orZero digits) = ofDigits digits ∧
      (ofDigits (orZero digits) : ℚ) / 10 ^ (orZero digits).length = ofDigits digits / 10 ^ digits.length := by
  cases digits with
  | nil => exact ⟨⟨by simp [orZero], by simp [orZero]⟩, rfl, by simp [orZero, ofDigits, digitValue]⟩
  | cons c rest => exact ⟨⟨by simp [orZero], all⟩, rfl, rfl⟩

theorem normal?_eq (text : List Char) :
    (Decimal.read? text = none ∧ normal? text = some none) ∨
      ∃ d normal, Decimal.read? text = some d ∧ normal? text = some (some normal) ∧ Normal normal d.value := by
  obtain ⟨i, last, -, whole, afterWhole⟩ := (at_zero text).digits
  obtain ⟨j, fraction, afterFraction⟩ := fraction?_at afterWhole
  obtain ⟨⟨w, rest⟩, digits⟩ : ∃ p, spanDigits text = p := ⟨_, rfl⟩
  obtain ⟨⟨f, tail⟩, point⟩ : ∃ p, spanFraction rest = p := ⟨_, rfl⟩
  have allw : ∀ c ∈ w, c.isDigit := by
    have := (spanDigits_spec text).2.1
    rwa [digits] at this
  have allf : ∀ c ∈ f, c.isDigit := by
    rcases spanFraction_eq point with ⟨rfl, -⟩ | ⟨-, all⟩
    · simp
    · exact all
  simp only [digits, point] at whole fraction afterFraction
  simp only [Decimal.read?, digits, point, normal?, last, whole, fraction, Option.bind_eq_bind, Option.bind_some]
  by_cases empty : (w.isEmpty && f.isEmpty) = true
  · left
    simp only [empty, if_true]
    exact ⟨trivial, rfl⟩
  · simp only [empty, Bool.false_eq_true, if_false]
    rcases power?_at afterFraction with ⟨noSpan, noPower⟩ | ⟨n, p, k, after, span, scan, there, power⟩
    · left
      rw [noSpan, noPower]
      exact ⟨rfl, rfl⟩
    · rw [span, scan]
      by_cases done : after = []
      · right
        subst done
        obtain ⟨wDigits, wValue, -⟩ := digits_orZero allw
        obtain ⟨fDigits, -, fValue⟩ := digits_orZero allf
        refine ⟨_, orZero w ++ '.' :: (orZero f ++ 'e' :: p), rfl, ?_, ?_⟩
        · exact if_neg (not_not.mpr (there.end_iff.mpr rfl))
        · rw [Decimal.value, ofDigits_point, ← wValue, ← fValue]
          exact .mk wDigits fDigits power
      · left
        constructor
        · cases after with
          | nil => exact absurd rfl done
          | cons c after => rfl
        · exact if_pos (mt there.end_iff.mp done)

/-! ## Whole numbers of text -/

theorem append_of_cut? {text front back : List Char} {n : ℕ} (h : cut? text n = some (front, back)) :
    text = front ++ back := by
  fun_induction cut? text n generalizing front with
  | case1 text => cases h; rfl
  | case2 n => cases h
  | case3 c rest n fits ih =>
    rw [Option.map_eq_some_iff] at h
    obtain ⟨⟨front', back'⟩, h, heq⟩ := h
    cases heq
    rw [ih h]
    rfl
  | case4 c rest n fits => cases h

theorem lookup_marks {c : Char} {base : ℕ} : marks.lookup c = some base ↔ (c, base) ∈ marks := by
  constructor
  · intro h
    obtain ⟨front, back, heq, -⟩ := List.lookup_eq_some_iff.mp h
    rw [heq]
    simp
  · have : ∀ mark ∈ marks, marks.lookup mark.1 = some mark.2 := by decide
    exact this (c, base)

theorem marks_ascii {c : Char} {base : ℕ} (h : (c, base) ∈ marks) : c.toNat < 128 := by
  have : ∀ mark ∈ marks, mark.1.toNat < 128 := by simp [marks]
  exact this (c, base) h

theorem marked?_eq (text : List Char) : marked? text = some (markedInteger? text) := by
  unfold marked?
  split
  · rename_i c digits cut
    obtain rfl := append_of_cut? cut
    show _ = some (markedInteger? ('0' :: c :: digits))
    split
    · rename_i base lookup
      have mark := lookup_marks.mp lookup
      have zero : ('0' : Char).toNat < 128 := by simp
      have first : At (['0', c] ++ digits) 2 (digits ++ []) := by
        rw [List.append_nil]
        exact ((at_zero _).next zero).next (marks_ascii mark)
      have slice := slice?_at first
      have length := first.length_eq
      rw [List.append_nil] at length
      rw [length, slice]
      cases digits with
      | nil =>
        have : markedInteger? ['0', c] = none := by
          unfold markedInteger?
          split
          · rename_i marked
            obtain ⟨d, -, heq⟩ := marked?_eq_some marked
            cases heq
          · rfl
        rw [this]
        rfl
      | cons d rest =>
        rw [markedInteger?_eq mark (List.cons_ne_nil d rest)]
        rfl
    · rename_i lookup
      cases marked : markedInteger? ('0' :: c :: digits) with
      | none => rfl
      | some x =>
        obtain ⟨d, base, _, mark, -, heq, -⟩ := markedInteger?_eq_some marked
        cases heq
        rw [lookup_marks.mpr mark] at lookup
        cases lookup
  · rename_i uncut
    cases marked : markedInteger? text with
    | none => rfl
    | some x =>
      -- a mark is two characters of a byte each, and there the text is cut
      obtain ⟨c, base, digits, mark, -, rfl, -⟩ := markedInteger?_eq_some marked
      have cut := cut?_append ['0', c] digits
      have zero : ('0' : Char).utf8Size = 1 := rfl
      rw [length_bytes_cons, length_bytes_cons, zero, utf8Size_ascii (marks_ascii mark)] at cut
      exact absurd cut (uncut c digits)

/-- A parser takes every text that a decimal is turned into, and rounds what it denotes to the nearest double. -/
def Reads (parse : List Char → Option Float) : Prop :=
  ∀ text x, Normal text x → parse text = some (ofRat x)

def parse? (text : List Char) : Option Float :=
  (Decimal.read? text).map Decimal.toFloat

theorem reads_parse? : Reads parse? := by
  intro text x normal
  obtain ⟨d, read, rfl⟩ := normal.literal.read?
  rw [parse?, read, Option.map_some, Decimal.toFloat_eq]
  rfl

section
variable {parse : List Char → Option Float}

theorem unsigned?_isSome (parse : List Char → Option Float) (sign : Float) (text : List Char) :
    (unsigned? parse sign text).isSome := by
  unfold unsigned?
  split
  · rfl
  · rcases normal?_eq text with ⟨-, scan⟩ | ⟨d, normal, -, scan, -⟩
    · rw [scan]
      rfl
    · simp only [scan, Option.bind_eq_bind, Option.bind_some]
      split <;> rfl

theorem unsigned?_eq (reads : Reads parse) {sign : Float} (nan : sign * (0.0 / 0.0) = 0.0 / 0.0)
    (text : List Char) : unsigned? parse sign text = some (sign * unsigned text) := by
  unfold unsigned? unsigned
  split
  · rfl
  · rcases normal?_eq text with ⟨unread, scan⟩ | ⟨d, normal, read, scan, denotes⟩
    · rw [unread, scan]
      exact congrArg some nan.symm
    · simp only [read, scan, Option.bind_eq_bind, Option.bind_some, reads _ _ denotes, Decimal.toFloat_eq]
      rfl

theorem unsigned?_literal {text : List Char} {x : ℚ} (h : Literal text x) : ∃ normal, Normal normal x ∧
    ∀ parse sign, unsigned? parse sign text = some ((parse normal).elim (0.0 / 0.0) fun y => sign * y) := by
  obtain ⟨d, read, rfl⟩ := h.read?
  have ne : text ≠ "Infinity".toList := by
    rintro rfl
    cases read
  rcases normal?_eq text with ⟨unread, -⟩ | ⟨e, normal, read', scan, denotes⟩
  · rw [read] at unread
    cases unread
  · rw [read] at read'
    cases read'
    refine ⟨normal, denotes, fun parse sign => ?_⟩
    simp only [unsigned?, ne, if_false, scan, Option.bind_eq_bind, Option.bind_some]
    cases parse normal <;> rfl

theorem number?_cons (parse : List Char → Option Float) (c : Char) (rest : List Char) :
    number? parse (c :: rest) =
      match markedInteger? (c :: rest) with
      | some x => some x
      | none =>
        if c = '+' then unsigned? parse 1.0 rest
        else if c = '-' then unsigned? parse (-1.0) rest
        else unsigned? parse 1.0 (c :: rest) := by
  have here := at_zero (c :: rest)
  obtain ⟨-, b, byte, leads⟩ := here.byte
  have plus : ('+' : Char).toNat < 128 := by simp
  have minus : ('-' : Char).toNat < 128 := by simp
  have slice (ascii : c.toNat < 128) : slice? (c :: rest) 1 (bytes (c :: rest)).length = some rest := by
    have next : At (c :: rest) 1 (rest ++ []) := by
      rw [List.append_nil]
      exact here.next ascii
    rw [length_bytes_cons, utf8Size_ascii ascii]
    exact slice?_at next
  simp only [number?, List.isEmpty_cons, Bool.false_eq_true, if_false, marked?_eq, Option.bind_eq_bind,
    Option.bind_some]
  cases markedInteger? (c :: rest) with
  | some x => rfl
  | none =>
    simp only [byte, Option.bind_some, leads.eq_iff plus, leads.eq_iff minus]
    split_ifs with h h'
    · rw [slice (h ▸ plus), Option.bind_some]
    · rw [slice (h' ▸ minus), Option.bind_some]
    · rfl

theorem number?_isSome (parse : List Char → Option Float) (text : List Char) : (number? parse text).isSome := by
  cases text with
  | nil => rfl
  | cons c rest =>
    rw [number?_cons]
    split
    · rfl
    · split_ifs <;> exact unsigned?_isSome _ _ _

theorem number?_eq (reads : Reads parse) (text : List Char) : number? parse text = some (ofTrimmed text) := by
  cases text with
  | nil => rfl
  | cons c rest =>
    rw [number?_cons]
    unfold ofTrimmed
    cases markedInteger? (c :: rest) with
    | some x => rfl
    | none =>
      simp only
      split_ifs
      · rw [unsigned?_eq reads (by decide), one_mul_float]
      · rw [unsigned?_eq reads (by decide), neg_one_mul_float]
      · rw [unsigned?_eq reads (by decide), one_mul_float]

theorem markedInteger?_literal {text : List Char} {x : ℚ} (h : Literal text x) : markedInteger? text = none := by
  cases marked : markedInteger? text with
  | none => rfl
  | some y =>
    -- no literal has the mark of a base after its first digit
    obtain ⟨c, base, digits, mark, -, rfl, -⟩ := markedInteger?_eq_some marked
    obtain ⟨d, read, -⟩ := h.read?
    simp only [marks, List.mem_cons, Prod.mk.injEq, List.not_mem_nil, or_false] at mark
    rcases mark with ⟨rfl, -⟩ | ⟨rfl, -⟩ | ⟨rfl, -⟩ | ⟨rfl, -⟩ | ⟨rfl, -⟩ | ⟨rfl, -⟩ <;> cases read

theorem number?_literal {sign text : List Char} {x : ℚ} (h : sign = [] ∨ sign = ['+'] ∨ sign = ['-'])
    (literal : Literal text x) : ∃ normal, Normal normal x ∧ ∀ parse, number? parse (sign ++ text) =
      some ((parse normal).elim (0.0 / 0.0) fun y => (if sign = ['-'] then -1.0 else 1.0) * y) := by
  obtain ⟨normal, denotes, handed⟩ := unsigned?_literal literal
  refine ⟨normal, denotes, fun parse => ?_⟩
  rcases h with rfl | rfl | rfl
  · obtain ⟨c, rest, rfl, first⟩ := literal.head
    have plus : c ≠ '+' := by
      rintro rfl
      exact absurd first (by decide)
    have minus : c ≠ '-' := by
      rintro rfl
      exact absurd first (by decide)
    rw [List.nil_append, number?_cons, markedInteger?_literal literal]
    simp only [plus, minus, if_false, handed]
    rfl
  · have unmarked : markedInteger? ('+' :: text) = none := rfl
    rw [List.singleton_append, number?_cons, unmarked]
    exact handed parse 1.0
  · have unmarked : markedInteger? ('-' :: text) = none := rfl
    rw [List.singleton_append, number?_cons, unmarked]
    exact handed parse (-1.0)

end

end BlockScript.Number.Scanner

namespace BlockScript

open Number Number.Scanner

/-- A text denotes a number exactly when it is in the grammar, once the white space around it is gone. The scanner
never leaves the text or cuts a character, and hands over for a decimal a text that denotes the same rational. -/
theorem numerals_exact (s : String) :
    Trimmed s.toList (Text.trim s.toList) ∧
    ((Value.number (.str s)).isNaN = false ↔ Numeral (Text.trim s.toList)) ∧
    (∀ parse, (number? parse (Text.trim s.toList)).isSome) ∧
    (∀ parse, Reads parse → number? parse (Text.trim s.toList) = some (Value.number (.str s))) ∧
    ∀ sign text x, (sign = [] ∨ sign = ['+'] ∨ sign = ['-']) → Text.trim s.toList = sign ++ text → Literal text x →
      ∃ normal, Normal normal x ∧ ∀ parse, number? parse (Text.trim s.toList) =
        some ((parse normal).elim (0.0 / 0.0) fun y => (if sign = ['-'] then -1.0 else 1.0) * y) := by
  refine ⟨trimmed_trim _, ofTrimmed_isNaN _, fun parse => number?_isSome parse _, fun parse reads => ?_, ?_⟩
  · exact number?_eq reads _
  · intro sign text x signs heq literal
    rw [heq]
    exact number?_literal signs literal

end BlockScript
