import BlockScript.Proofs.NumberLine
import BlockScript.Proofs.RoundTrip
import BlockScript.Proofs.Woven

/-!
# The order of values

There are two sorts of values: those that denote a number and are not blank, and all others. Two values of
the first sort are ordered as points of the number line. As soon as one is of the second sort, both are
ordered as texts, by the 16-bit units of their lower-case forms. Either order is total and transitive, and a
text is determined by its units. Every value has the order of its own text: the text of a number denotes
that number, and the texts of all other values denote none.
-/

namespace BlockScript

/-! ## Texts by their units -/

namespace Text

theorem compareUnits_eq (a b : List ℕ) : compareUnits a b = List.compareLex compare a b := by
  fun_induction compareUnits a b with
  | case1 | case2 | case3 => rfl
  | case4 a as b bs less => rw [List.compareLex_cons_cons, compare_lt_iff_lt.mpr less]; rfl
  | case5 a as b bs _ more => rw [List.compareLex_cons_cons, compare_gt_iff_gt.mpr more]; rfl
  | case6 a as b bs less more ih =>
    obtain rfl : a = b := by omega
    rw [List.compareLex_cons_cons, compare_eq_iff_eq.mpr rfl, ih]
    rfl

/-- The first unit tells a surrogate pair from a single unit, so no character starts like another. -/
theorem charUnits_append {c d : Char} {us vs : List ℕ} (h : charUnits c ++ us = charUnits d ++ vs) :
    c = d ∧ us = vs := by
  have range (c : Char) : c.toNat < 0xD800 ∨ 0xDFFF < c.toNat ∧ c.toNat < 0x110000 := c.valid
  have hc := range c
  have hd := range d
  unfold charUnits at h
  simp only at h
  split_ifs at h with small small' small'
  · simp only [List.cons_append, List.nil_append, List.cons.injEq] at h
    exact ⟨Char.toNat_inj.mp h.1, h.2⟩
  · simp only [List.cons_append, List.nil_append, List.cons.injEq] at h
    omega
  · simp only [List.cons_append, List.nil_append, List.cons.injEq] at h
    omega
  · simp only [List.cons_append, List.nil_append, List.cons.injEq] at h
    exact ⟨Char.toNat_inj.mp (by omega), h.2.2⟩

theorem units_injective {s t : String} (h : units s = units t) : s = t := by
  have first (c : Char) : charUnits c ≠ [] := by
    unfold charUnits
    simp only
    split_ifs <;> simp
  apply String.toList_injective
  unfold units at h
  generalize s.toList = cs at h ⊢
  generalize t.toList = ds at h ⊢
  induction cs generalizing ds with
  | nil =>
    cases ds with
    | nil => rfl
    | cons d ds => simp [first] at h
  | cons c cs ih =>
    cases ds with
    | nil => simp [first] at h
    | cons d ds =>
      obtain ⟨rfl, rest⟩ := charUnits_append h
      rw [ih ds rest]

end Text

namespace Value

open Number

/-! ## Two sorts of values -/

def Numeric (v : Value) : Prop :=
  v.number.isNaN = false ∧ v.isBlank = false

instance (v : Value) : Decidable v.Numeric :=
  inferInstanceAs (Decidable (_ ∧ _))

def foldedUnits (v : Value) : List ℕ :=
  Text.units (Text.lowercase v.toText)

section
variable {a b c : Value}

theorem Numeric.exists_point? (h : a.Numeric) : ∃ x, point? a.number = some x :=
  Number.exists_point? h.1

theorem compare_numeric (ha : a.Numeric) (hb : b.Numeric) {x y : WithBotTop ℚ} (hx : point? a.number = some x)
    (hy : point? b.number = some y) : a.compare b = Ord.compare x y := by
  simp only [compare, numeric?, ha.1, ha.2, hb.1, hb.2, Bool.or_false, Bool.false_eq_true, if_false]
  exact compareNumbers_eq hx hy

theorem numeric?_eq_none (h : ¬ a.Numeric) : a.numeric? = none := by
  unfold numeric? Numeric at *
  cases nan : a.number.isNaN <;> cases blank : a.isBlank <;> simp_all

theorem compare_of_not_numeric (h : ¬ (a.Numeric ∧ b.Numeric)) : a.compare b = compareTexts a b := by
  unfold compare
  rcases not_and_or.mp h with ha | hb
  · rw [numeric?_eq_none ha]
  · rw [numeric?_eq_none hb]
    cases a.numeric? <;> rfl

theorem compare_texts (h : ¬ (a.Numeric ∧ b.Numeric)) :
    a.compare b = List.compareLex Ord.compare a.foldedUnits b.foldedUnits := by
  rw [compare_of_not_numeric h, compareTexts, Text.compareUnits_eq]
  rfl

theorem compare_texts_eq (h : ¬ (a.Numeric ∧ b.Numeric)) :
    a.compare b = .eq ↔ Text.lowercase a.toText = Text.lowercase b.toText := by
  rw [compare_texts h, Std.LawfulEqCmp.compare_eq_iff_eq]
  exact ⟨Text.units_injective, congrArg Text.units⟩

theorem compare_swap (a b : Value) : b.compare a = (a.compare b).swap := by
  by_cases h : a.Numeric ∧ b.Numeric
  · obtain ⟨x, hx⟩ := h.1.exists_point?
    obtain ⟨y, hy⟩ := h.2.exists_point?
    rw [compare_numeric h.1 h.2 hx hy, compare_numeric h.2 h.1 hy hx]
    exact Std.OrientedOrd.eq_swap
  · rw [compare_texts h, compare_texts (mt And.symm h)]
    exact Std.OrientedCmp.eq_swap

theorem compare_self (a : Value) : a.compare a = .eq := by
  by_cases h : a.Numeric ∧ a.Numeric
  · obtain ⟨x, hx⟩ := h.1.exists_point?
    rw [compare_numeric h.1 h.1 hx hx, compare_eq_iff_eq]
  · rw [compare_texts_eq h]

/-- Within one sort, less than less is less, and equal values compare alike with every third. -/
theorem compare_trans (sort : (a.Numeric ∧ b.Numeric ∧ c.Numeric) ∨ (¬ a.Numeric ∧ ¬ b.Numeric ∧ ¬ c.Numeric)) :
    (a.compare b = .lt → b.compare c = .lt → a.compare c = .lt) ∧
    (a.compare b = .eq → a.compare c = b.compare c) := by
  rcases sort with ⟨ha, hb, hc⟩ | ⟨ha, hb, hc⟩
  · obtain ⟨x, hx⟩ := ha.exists_point?
    obtain ⟨y, hy⟩ := hb.exists_point?
    obtain ⟨z, hz⟩ := hc.exists_point?
    rw [compare_numeric ha hb hx hy, compare_numeric hb hc hy hz, compare_numeric ha hc hx hz]
    exact ⟨Std.TransCmp.lt_trans, Std.TransCmp.congr_left⟩
  · have left {u v : Value} (h : ¬ u.Numeric) : ¬ (u.Numeric ∧ v.Numeric) := fun both => h both.1
    rw [compare_texts (left ha), compare_texts (left hb), compare_texts (left ha)]
    exact ⟨Std.TransCmp.lt_trans, Std.TransCmp.congr_left⟩

/-! ## Blanks set aside one side at a time -/

/-- The order of two numbers, if they have one. -/
def order? (m n : Float) : Option Ordering :=
  if m < n then some .lt else if n < m then some .gt else if m == n then some .eq else none

/-- The numbers of two values. A zero that is only a blank counts as NaN, but not on both sides: if the first
value is such a zero, the second is left as it is. -/
def numbersInTurn (a b : Value) : Float × Float :=
  if a.number == 0.0 && a.isBlank then (0.0 / 0.0, b.number)
  else if b.number == 0.0 && b.isBlank then (a.number, 0.0 / 0.0)
  else (a.number, b.number)

def compareInTurn (a b : Value) : Ordering :=
  let (m, n) := numbersInTurn a b
  if m.isNaN || n.isNaN then compareTexts a b
  else if m.isInf && m == n then .eq
  else (order? m n).getD .eq

theorem number_of_isBlank (h : a.isBlank = true) : a.number = 0.0 := by
  cases a with
  | null => rfl
  | bool _ | num _ => cases h
  | str s =>
    have empty : Text.trim s.toList = [] := List.isEmpty_iff.mp h
    show ofTrimmed (Text.trim s.toList) = 0.0
    rw [empty]
    rfl

theorem numbersInTurn_of_numeric (ha : a.Numeric) (hb : b.Numeric) : numbersInTurn a b = (a.number, b.number) := by
  simp [numbersInTurn, ha.2, hb.2]

theorem numbersInTurn_of_not_numeric (h : ¬ (a.Numeric ∧ b.Numeric)) :
    ((numbersInTurn a b).1.isNaN || (numbersInTurn a b).2.isNaN) = true := by
  have nan : (0.0 / 0.0 : Float).isNaN = true := by decide +kernel
  have zero : ((0.0 : Float) == 0.0) = true := by decide +kernel
  unfold numbersInTurn
  cases blank : a.isBlank with
  | true => simp only [number_of_isBlank blank, zero, Bool.and_self, if_true, nan, Bool.true_or]
  | false =>
    cases blank' : b.isBlank with
    | true => simp only [number_of_isBlank blank', zero, Bool.and_false, Bool.false_eq_true, Bool.and_self, if_true,
        if_false, nan, Bool.or_true]
    | false =>
      unfold Numeric at h
      simp only [blank, blank', and_true, not_and_or, Bool.not_eq_false] at h
      simpa only [Bool.and_false, Bool.false_eq_true, if_false, Bool.or_eq_true] using h

theorem compareInTurn_eq (a b : Value) : a.compareInTurn b = a.compare b := by
  unfold compareInTurn
  by_cases h : a.Numeric ∧ b.Numeric
  · obtain ⟨x, hx⟩ := h.1.exists_point?
    obtain ⟨y, hy⟩ := h.2.exists_point?
    have numbers : (order? a.number b.number).getD .eq = compareNumbers a.number b.number := by
      unfold order? compareNumbers
      split_ifs <;> rfl
    rw [compare_numeric h.1 h.2 hx hy, ← compareNumbers_eq hx hy]
    simp only [numbersInTurn_of_numeric h.1 h.2, h.1.1, h.2.1, Bool.or_self, Bool.false_eq_true, if_false, numbers]
    split_ifs with infinite
    · rw [Bool.and_eq_true, beq_iff hx hy] at infinite
      rw [compareNumbers_eq hx hy, compare_eq_iff_eq.mpr infinite.2]
    · rfl
  · simp only [compare_of_not_numeric h, numbersInTurn_of_not_numeric h, if_true]

end

/-! ## A value and its text -/

theorem point?_number_toText (n : Float) : point? (number (.str (toText (.num n)))) = point? n := by
  have read : number (.str (toText (.num n))) = if n = -0.0 then 0.0 else n := ofText_format n
  rw [read]
  split_ifs with zero
  · rw [zero]
    decide +kernel
  · rfl

theorem compare_toText (v : Value) : v.compare (.str v.toText) = .eq := by
  by_cases h : v.Numeric ∧ (Value.str v.toText).Numeric
  · cases v with
    | null => cases h.1.2
    | bool b =>
      have nan : (number (.str (toText (.bool b)))).isNaN = true := by
        cases b <;> decide +kernel
      rw [h.2.1] at nan
      cases nan
    | num n =>
      obtain ⟨x, hx⟩ := h.1.exists_point?
      have hy : point? (number (.str (toText (.num n)))) = some x := (point?_number_toText n).trans hx
      rw [compare_numeric h.1 h.2 hx hy, compare_eq_iff_eq]
    | str s => exact compare_self (.str s)
  · rw [compare_texts_eq h]
    rfl

end Value

namespace Machine

variable {σ : Type}

theorem eval_compare_toText {m m₁ m₂ : Machine σ} {left right : Expr} {v : Value}
    (hl : m.perform (eval left) = (.ok v, m₁)) (hr : m₁.perform (eval right) = (.ok v, m₂)) :
    m.perform (eval (.compare .eq left (.cast .text right))) = (.ok (.bool true), m₂) := by
  rw [eval, perform_bind_ok hl, eval]
  have cast : m₁.perform (do return CastKind.text.apply (← eval right)) = (.ok (.str v.toText), m₂) := by
    rw [perform_bind_ok hr]
    rfl
  rw [perform_bind_ok cast, Value.compare_toText]
  rfl

/-- Without queries an expression has a value, and the same one when it is evaluated once more. -/
theorem eval_twice {e : Expr} (quiet : e.queries = []) {m : Machine σ} (steady : m.dice.Steady) :
    ∃ (v : Value) (m₁ m₂ : Machine σ), m.perform (eval e) = (.ok v, m₁) ∧ m₁.perform (eval e) = (.ok v, m₂) := by
  have none : ∀ q ∈ e.queries, False := by simp [quiet]
  have woven : Woven (fun _ => False) False (eval e : Exec σ Value) := eval_woven e none
  rcases h : m.perform (eval e) with ⟨f | v, m₁⟩
  · obtain ⟨_, _, _, _, asked, _⟩ := (eval_safe e none).of_error h
    cases asked
  · have target := woven.target_eq m
    have thread := (eval_local e).thread_eq m
    have rolls := woven.rolls m
    rw [h] at target thread rolls
    obtain ⟨again, _⟩ := woven.sameSight ⟨target, congrArg Thread.args thread, rolls, steady⟩
    rw [h] at again
    exact ⟨v, m₁, (m₁.perform (eval e)).2, rfl, Prod.ext again rfl⟩

end Machine

open Number Machine

/-- Values are ordered in two sorts. Numeric values have the order of the number line; a pair with a value of
the other sort has the order of its lower-case texts, unit by unit, so that such values are equal only if
those texts are the same. The order is total and within each sort transitive. It is of no account that a blank
is set aside on one side only. -/
theorem values_ordered_by_sort :
    (∀ a b : Value, b.compare a = (a.compare b).swap) ∧
    (∀ a : Value, a.compare a = .eq) ∧
    (∀ a b : Value, a.Numeric → b.Numeric →
      ∃ x y, point? a.number = some x ∧ point? b.number = some y ∧ a.compare b = compare x y) ∧
    (∀ a b : Value, ¬ (a.Numeric ∧ b.Numeric) →
      a.compare b = List.compareLex compare a.foldedUnits b.foldedUnits ∧
      (a.compare b = .eq ↔ Text.lowercase a.toText = Text.lowercase b.toText)) ∧
    (∀ a b c : Value, (a.Numeric ∧ b.Numeric ∧ c.Numeric) ∨ (¬ a.Numeric ∧ ¬ b.Numeric ∧ ¬ c.Numeric) →
      (a.compare b = .lt → b.compare c = .lt → a.compare c = .lt) ∧
      (a.compare b = .eq → a.compare c = b.compare c)) ∧
    ∀ a b : Value, a.compareInTurn b = a.compare b := by
  refine ⟨Value.compare_swap, Value.compare_self, ?_, ?_, ?_, Value.compareInTurn_eq⟩
  · intro a b ha hb
    obtain ⟨x, hx⟩ := ha.exists_point?
    obtain ⟨y, hy⟩ := hb.exists_point?
    exact ⟨x, y, hx, hy, Value.compare_numeric ha hb hx hy⟩
  · intro a b h
    exact ⟨Value.compare_texts h, Value.compare_texts_eq h⟩
  · intro a b c sort
    exact Value.compare_trans sort

/-- A value equals its own text, so an expression equals its cast to a text wherever both evaluate to the same
value; an expression without queries always does, if draws depend on the number of slots alone. -/
theorem values_equal_their_texts :
    (∀ v : Value, v.compare (.str v.toText) = .eq) ∧
    (∀ (σ : Type) (m m₁ m₂ : Machine σ) (left right : Expr) (v : Value),
      m.perform (eval left) = (.ok v, m₁) → m₁.perform (eval right) = (.ok v, m₂) →
      m.perform (eval (.compare .eq left (.cast .text right))) = (.ok (.bool true), m₂)) ∧
    ∀ (σ : Type) (m : Machine σ) (e : Expr), e.queries = [] → m.dice.Steady →
      ∃ m', m.perform (eval (.compare .eq e (.cast .text e))) = (.ok (.bool true), m') := by
  refine ⟨Value.compare_toText, ?_, ?_⟩
  · intro σ m m₁ m₂ left right v hl hr
    exact eval_compare_toText hl hr
  · intro σ m e quiet steady
    obtain ⟨v, m₁, m₂, once, twice⟩ := eval_twice quiet steady
    exact ⟨m₂, eval_compare_toText once twice⟩

end BlockScript
