import BlockScript.Toml.Scalar
import BlockScript.Toml.Writer
import Mathlib

/-!
# Quoted strings read back

A string is written in one of four forms, and each reads back whatever follows it, a quotation mark aside.
Between single marks, the first mark that is not escaped is the one that closes. Between three marks, up to
two may stand for themselves at any place: the writer escapes the next one, or does not choose this form, so
three in a row close the string, and up to two more that come before those three still belong to it.
-/

namespace BlockScript.Toml

/-! ## Escapes -/

theorem scalar?_hex4 : ∀ n < 128, scalar? (hex4 n) = some (Char.ofNat n) := by
  decide +kernel

theorem isInline_of_not_control {c : Char} (h : ¬ (c.toNat < 0x20 || c.toNat == 0x7F) = true) :
    isInline c = true := by
  simp only [Bool.or_eq_true, decide_eq_true_eq, beq_iff_eq, not_or, not_lt] at h
  simp [isInline, h]

/-- How a character can stand between quotation marks: as it is, or escaped by a letter or by its number. -/
inductive Escaped (c : Char) : List Char → Prop where
  | plain (inline : isInline c) (mark : c ≠ '"') (slash : c ≠ '\\') : Escaped c [c]
  | letter {e : Char} (h : simpleEscape? e = some c) : Escaped c ['\\', e]
  | number {a b d e : Char} (h : scalar? [a, b, d, e] = some c) : Escaped c ['\\', 'u', a, b, d, e]

theorem escaped_escapeControl {c : Char} (mark : c ≠ '"') : Escaped c (escapeControl c) := by
  unfold escapeControl
  split
  · exact .letter rfl
  · exact .letter rfl
  · exact .letter rfl
  · exact .letter rfl
  · exact .letter rfl
  · exact .letter rfl
  · rename_i slash
    split_ifs with control
    · have small : c.toNat < 128 := by
        simp only [Bool.or_eq_true, decide_eq_true_eq, beq_iff_eq] at control
        omega
      have named := scalar?_hex4 c.toNat small
      rw [Char.ofNat_toNat] at named
      exact .number named
    · exact .plain (isInline_of_not_control control) mark slash

theorem Escaped.basic? {c : Char} {text : List Char} (h : Escaped c text) (rest : List Char) :
    basic? (text ++ rest) = prepend c (basic? rest) := by
  cases h with
  | plain inline mark slash => simp [Toml.basic?, inline, slash]
  | letter h =>
    unfold simpleEscape? at h
    split at h <;> cases h <;> simp [Toml.basic?, simpleEscape?]
  | number h => simp [Toml.basic?, h]

theorem Escaped.multiBasic? {c : Char} {text : List Char} (h : Escaped c text) (rest : List Char) :
    multiBasic? false (text ++ rest) = prepend c (multiBasic? false rest) := by
  cases h with
  | plain inline mark slash =>
    have turn : c ≠ '\r' := by
      rintro rfl
      cases inline
    have feed : c ≠ '\n' := by
      rintro rfl
      cases inline
    simp [Toml.multiBasic?, inline, mark, slash, turn]
  | letter h =>
    unfold simpleEscape? at h
    split at h <;> cases h <;> simp [Toml.multiBasic?, simpleEscape?, endsLine, skipBlanks, isBlank, newline?]
  | number h => simp [Toml.multiBasic?, h]

theorem Escaped.head {c : Char} {text : List Char} (h : Escaped c text) :
    ∃ d rest, text = d :: rest ∧ d ≠ '"' ∧ isInline d := by
  cases h with
  | plain inline mark slash => exact ⟨c, [], rfl, mark, inline⟩
  | letter h => exact ⟨_, _, rfl, by decide, rfl⟩
  | number h => exact ⟨_, _, rfl, by decide, rfl⟩

/-! ## Between single marks -/

theorem escape_cons (multi : Bool) (allowed run : ℕ) {c : Char} (mark : c ≠ '"') (feed : c ≠ '\n')
    (rest : List Char) :
    escape multi allowed run (c :: rest) = escapeControl c ++ escape multi allowed 0 rest := by
  simp [escape]

/-- What is escaped up to a closing mark reads back. -/
theorem basic?_escape (text after : List Char) :
    basic? (escape false 0 0 text ++ '"' :: after) = some (text, after) := by
  induction text with
  | nil => simp [escape, basic?]
  | cons c rest ih =>
    have next {escaped : List Char} (h : Escaped c escaped) :
        basic? (escaped ++ escape false 0 0 rest ++ '"' :: after) = some (c :: rest, after) := by
      rw [List.append_assoc, h.basic?, ih]
      rfl
    by_cases mark : c = '"'
    · subst mark
      exact next (.letter rfl)
    · by_cases feed : c = '\n'
      · subst feed
        exact next (.letter rfl)
      · rw [escape_cons false 0 0 mark feed]
        exact next (escaped_escapeControl mark)

theorem literal?_append {text : List Char} (h : ∀ c ∈ text, isInline c ∧ c ≠ '\'') (after : List Char) :
    literal? (text ++ '\'' :: after) = some (text, after) := by
  induction text with
  | nil => simp [literal?]
  | cons c rest ih =>
    obtain ⟨inline, mark⟩ := h c List.mem_cons_self
    rw [List.cons_append, literal?, ih fun d mem => h d (List.mem_cons_of_mem c mem), if_pos inline]
    · rfl
    · exact fun h => mark h

/-! ## Between three marks -/

/-- At most `room` marks come before something else, or before the three that close and what is after them. -/
inductive Spaced (mark : Char) (after : List Char) : ℕ → List Char → Prop where
  | other {c : Char} {rest : List Char} {room : ℕ} (h : c ≠ mark) : Spaced mark after room (c :: rest)
  | closing {room : ℕ} : Spaced mark after room (mark :: mark :: mark :: after)
  | mark {room : ℕ} {rest : List Char} (h : Spaced mark after room rest) :
      Spaced mark after (room + 1) (mark :: rest)

theorem Spaced.mono {mark : Char} {after text : List Char} {room room' : ℕ} (h : Spaced mark after room text)
    (le : room ≤ room') : Spaced mark after room' text := by
  induction h generalizing room' with
  | other h => exact .other h
  | closing => exact .closing
  | mark h ih =>
    obtain ⟨k, rfl⟩ : ∃ k, room' = k + 1 := ⟨room' - 1, by omega⟩
    exact .mark (ih (by omega))

section
variable {after : List Char}

/-- A mark with at most one after it stands for itself, also when the closing ones follow. -/
theorem multiBasic?_mark (stop : after.head? ≠ some '"') {text : List Char} (h : Spaced '"' after 1 text) :
    multiBasic? false ('"' :: text) = prepend '"' (multiBasic? false text) := by
  have inline : isInline '"' = true := rfl
  cases h with
  | other ne => simp [multiBasic?, ne, inline]
  | closing =>
    cases after with
    | nil => simp [multiBasic?, prepend]
    | cons d after =>
      have ne : d ≠ '"' := by simpa using stop
      simp [multiBasic?, prepend, ne]
  | mark h =>
    cases h with
    | other ne => simp [multiBasic?, ne, inline]
    | closing =>
      cases after with
      | nil => simp [multiBasic?, prepend]
      | cons d after =>
        have ne : d ≠ '"' := by simpa using stop
        simp [multiBasic?, prepend, ne]

theorem multiLiteral?_mark (stop : after.head? ≠ some '\'') {text : List Char} (h : Spaced '\'' after 1 text) :
    multiLiteral? ('\'' :: text) = prepend '\'' (multiLiteral? text) := by
  have inline : isInline '\'' = true := rfl
  cases h with
  | other ne => simp [multiLiteral?, ne, inline]
  | closing =>
    cases after with
    | nil => simp [multiLiteral?, prepend]
    | cons d after =>
      have ne : d ≠ '\'' := by simpa using stop
      simp [multiLiteral?, prepend, ne]
  | mark h =>
    cases h with
    | other ne => simp [multiLiteral?, ne, inline]
    | closing =>
      cases after with
      | nil => simp [multiLiteral?, prepend]
      | cons d after =>
        have ne : d ≠ '\'' := by simpa using stop
        simp [multiLiteral?, prepend, ne]

theorem spaced_escape (after text : List Char) {run : ℕ} (le : run ≤ 2) :
    Spaced '"' after (2 - run) (escape true 2 run text ++ '"' :: '"' :: '"' :: after) := by
  induction text generalizing run with
  | nil => exact .closing
  | cons c rest ih =>
    by_cases mark : c = '"'
    · subst mark
      rw [escape]
      split_ifs with room
      · have next := ih (show run + 1 ≤ 2 by omega)
        rw [show 2 - run = 2 - (run + 1) + 1 by omega]
        exact .mark next
      · exact .other (by decide)
    · by_cases feed : c = '\n'
      · subst feed
        exact .other (by decide)
      · obtain ⟨d, tail, head, ne, -⟩ := (escaped_escapeControl mark).head
        rw [escape_cons true 2 run mark feed, head]
        exact .other ne

/-- What is escaped over several lines up to three closing marks reads back. -/
theorem multiBasic?_escape (stop : after.head? ≠ some '"') (text : List Char) {run : ℕ} (le : run ≤ 2) :
    multiBasic? false (escape true 2 run text ++ '"' :: '"' :: '"' :: after) = some (text, after) := by
  induction text generalizing run with
  | nil =>
    cases after with
    | nil => simp [escape, multiBasic?]
    | cons d after =>
      have ne : d ≠ '"' := by simpa using stop
      simp [escape, multiBasic?, ne]
  | cons c rest ih =>
    have next {escaped : List Char} (h : Escaped c escaped) :
        multiBasic? false (escaped ++ escape true 2 0 rest ++ '"' :: '"' :: '"' :: after) =
          some (c :: rest, after) := by
      rw [List.append_assoc, h.multiBasic?, ih (by decide)]
      rfl
    by_cases mark : c = '"'
    · subst mark
      rw [escape]
      split_ifs with room
      · have spaced := (spaced_escape after rest (show run + 1 ≤ 2 by omega)).mono (show _ ≤ 1 by omega)
        rw [List.cons_append, multiBasic?_mark stop spaced, ih (by omega)]
        rfl
      · exact next (.letter rfl)
    · by_cases feed : c = '\n'
      · subst feed
        have : multiBasic? false ('\n' :: (escape true 2 0 rest ++ '"' :: '"' :: '"' :: after)) =
            prepend '\n' (multiBasic? false (escape true 2 0 rest ++ '"' :: '"' :: '"' :: after)) := by
          simp [multiBasic?]
        rw [escape, if_pos rfl]
        exact this.trans (by rw [ih (by decide)]; rfl)
      · rw [escape_cons true 2 run mark feed]
        exact next (escaped_escapeControl mark)

theorem le_longestRun (mark : Char) (run : ℕ) (text : List Char) : run ≤ longestRun.go mark run text := by
  induction text generalizing run with
  | nil => exact le_rfl
  | cons c rest ih =>
    unfold longestRun.go
    split_ifs
    · exact (Nat.le_succ run).trans (ih (run + 1))
    · exact le_max_left _ _

theorem spaced_longestRun (mark : Char) (after text : List Char) {run : ℕ} (le : longestRun.go mark run text ≤ 2) :
    Spaced mark after (2 - run) (text ++ mark :: mark :: mark :: after) := by
  induction text generalizing run with
  | nil => exact .closing
  | cons c rest ih =>
    unfold longestRun.go at le
    split_ifs at le with same
    · have next := ih le
      have room := le_longestRun mark (run + 1) rest
      rw [show 2 - run = 2 - (run + 1) + 1 by omega, same]
      exact .mark next
    · exact .other same

theorem not_mem_of_longestRun {mark : Char} {text : List Char} (h : longestRun mark text = 0) : mark ∉ text := by
  unfold longestRun at h
  induction text with
  | nil => exact List.not_mem_nil
  | cons c rest ih =>
    unfold longestRun.go at h
    split_ifs at h with same
    · have := le_longestRun mark (0 + 1) rest
      omega
    · rw [List.mem_cons, not_or]
      exact ⟨fun h => same h.symm, ih (by omega)⟩

theorem isInline_of_not_isControl {c : Char} (h : ¬ isControl c) (feed : c ≠ '\n') : isInline c = true := by
  by_cases tab : c = '\t'
  · rw [tab]
    rfl
  · apply isInline_of_not_control
    simpa [isControl, tab, feed] using h

theorem multiLiteral?_append (stop : after.head? ≠ some '\'') {text : List Char} (plain : ∀ c ∈ text, ¬ isControl c)
    {run : ℕ} (le : longestRun.go '\'' run text ≤ 2) :
    multiLiteral? (text ++ '\'' :: '\'' :: '\'' :: after) = some (text, after) := by
  induction text generalizing run with
  | nil =>
    cases after with
    | nil => simp [multiLiteral?]
    | cons d after =>
      have ne : d ≠ '\'' := by simpa using stop
      simp [multiLiteral?, ne]
  | cons c rest ih =>
    have control := plain c List.mem_cons_self
    replace ih := @ih fun d mem => plain d (List.mem_cons_of_mem c mem)
    unfold longestRun.go at le
    split_ifs at le with mark
    · have spaced := (spaced_longestRun '\'' after rest le).mono (show _ ≤ 1 by omega)
      rw [mark, List.cons_append, multiLiteral?_mark stop spaced, ih le]
      rfl
    · have step : multiLiteral? (c :: (rest ++ '\'' :: '\'' :: '\'' :: after)) =
          prepend c (multiLiteral? (rest ++ '\'' :: '\'' :: '\'' :: after)) := by
        by_cases feed : c = '\n'
        · simp [multiLiteral?, feed]
        · have inline := isInline_of_not_isControl control feed
          have turn : c ≠ '\r' := by
            rintro rfl
            cases inline
          simp [multiLiteral?, inline, mark, turn]
      rw [List.cons_append, step, ih ((le_max_right _ _).trans le)]
      rfl

end

/-! ## The form that is chosen -/

theorem chooseForm_literal {text : List Char} (h : chooseForm text = .literal) :
    ∀ c ∈ text, isInline c ∧ c ≠ '\'' := by
  unfold chooseForm at h
  simp only at h
  split_ifs at h with basic literal
  simp only [Bool.and_eq_true, Bool.not_eq_true', List.any_eq_false, decide_eq_true_eq, List.contains_eq_mem,
    decide_eq_false_iff_not] at literal
  obtain ⟨⟨plain, none⟩, line⟩ := literal
  intro c mem
  exact ⟨isInline_of_not_isControl (plain c mem) fun feed => line (feed ▸ mem),
    fun mark => not_mem_of_longestRun none (mark ▸ mem)⟩

theorem chooseForm_multiLiteral {text : List Char} (h : chooseForm text = .multiLiteral) :
    (∀ c ∈ text, ¬ isControl c) ∧ longestRun '\'' text ≤ 2 := by
  unfold chooseForm at h
  simp only at h
  split_ifs at h with basic literal multiBasic multiLiteral
  simpa using multiLiteral

theorem string?_basic {text : List Char} (h : ∀ rest, text ≠ '"' :: '"' :: rest) :
    string? ('"' :: text) = basic? text := by
  unfold string?
  split
  · rename_i eq
    cases eq
    exact absurd rfl (h _)
  · rename_i eq
    cases eq
  · rfl

theorem string?_literal {text : List Char} (h : ∀ rest, text ≠ '\'' :: '\'' :: rest) :
    string? ('\'' :: text) = literal? text := by
  unfold string?
  split
  · rename_i eq
    cases eq
  · rename_i eq
    cases eq
    exact absurd rfl (h _)
  · rfl

theorem newline?_inline {c : Char} (h : isInline c) (rest : List Char) : newline? (c :: rest) = none := by
  unfold newline?
  split
  · rename_i eq
    cases eq
    cases h
  · rename_i eq
    cases eq
    cases h
  · rfl

/-- The line end that comes first is dropped, whether it belongs to the string or not. -/
theorem skipFirstNewline_firstLine {text written : List Char} (h : '\n' ∉ text → newline? written = none) :
    skipFirstNewline (firstLine text ++ written) = written := by
  unfold firstLine
  by_cases line : '\n' ∈ text
  · rw [if_pos (by simpa using line)]
    rfl
  · rw [if_neg (by simpa using line), List.nil_append, skipFirstNewline, h line]
    rfl

theorem escape_head (c : Char) (rest : List Char) :
    ∃ d tail, escape false 0 0 (c :: rest) = d :: tail ∧ d ≠ '"' := by
  by_cases mark : c = '"'
  · subst mark
    exact ⟨_, _, rfl, by decide⟩
  · by_cases feed : c = '\n'
    · subst feed
      exact ⟨_, _, rfl, by decide⟩
    · obtain ⟨d, tail, head, ne, -⟩ := (escaped_escapeControl mark).head
      exact ⟨d, tail ++ escape false 0 0 rest, by rw [escape_cons false 0 0 mark feed, head]; rfl, ne⟩

theorem newline?_escape {text : List Char} (line : '\n' ∉ text) (after : List Char) :
    newline? (escape true 2 0 text ++ '"' :: '"' :: '"' :: after) = none := by
  cases text with
  | nil => rfl
  | cons c rest =>
    by_cases mark : c = '"'
    · subst mark
      rfl
    · have feed : c ≠ '\n' := fun h => line (h ▸ List.mem_cons_self)
      obtain ⟨d, tail, head, -, inline⟩ := (escaped_escapeControl mark).head
      rw [escape_cons true 2 0 mark feed, head]
      exact newline?_inline inline _

theorem newline?_append {text : List Char} (plain : ∀ c ∈ text, ¬ isControl c) (line : '\n' ∉ text)
    (after : List Char) : newline? (text ++ '\'' :: after) = none := by
  cases text with
  | nil => rfl
  | cons c rest =>
    have feed : c ≠ '\n' := fun h => line (h ▸ List.mem_cons_self)
    exact newline?_inline (isInline_of_not_isControl (plain c List.mem_cons_self) feed) _

/-- A quoted string reads back, if no mark follows it. -/
theorem string?_quote (s : String) {after : List Char} (stop : after.head? ≠ some '"')
    (stop' : after.head? ≠ some '\'') : string? ((quote s).toList ++ after) = some (s.toList, after) := by
  unfold quote
  simp only [String.toList_ofList]
  generalize s.toList = text
  cases form : chooseForm text with
  | basic =>
    simp only [List.cons_append, List.append_assoc, List.nil_append]
    rw [string?_basic, basic?_escape]
    intro rest eq
    cases text with
    | nil =>
      cases eq
      exact stop rfl
    | cons c text =>
      obtain ⟨d, tail, head, ne⟩ := escape_head c text
      rw [head, List.cons_append, List.cons.injEq] at eq
      exact ne eq.1
  | literal =>
    have plain := chooseForm_literal form
    simp only [List.cons_append, List.append_assoc, List.nil_append]
    rw [string?_literal, literal?_append plain]
    intro rest eq
    cases text with
    | nil =>
      cases eq
      exact stop' rfl
    | cons c text =>
      rw [List.cons_append, List.cons.injEq] at eq
      exact (plain c List.mem_cons_self).2 eq.1
  | multiBasic =>
    have skipped := skipFirstNewline_firstLine fun line : '\n' ∉ text => newline?_escape line after
    simp only [List.append_assoc]
    show multiBasic? false
        (skipFirstNewline (firstLine text ++ (escape true 2 0 text ++ '"' :: '"' :: '"' :: after))) = _
    rw [skipped, multiBasic?_escape stop text (by decide)]
  | multiLiteral =>
    obtain ⟨plain, few⟩ := chooseForm_multiLiteral form
    have skipped := skipFirstNewline_firstLine fun line : '\n' ∉ text =>
      newline?_append plain line ('\'' :: '\'' :: after)
    simp only [List.append_assoc]
    show multiLiteral? (skipFirstNewline (firstLine text ++ (text ++ '\'' :: '\'' :: '\'' :: after))) = _
    rw [skipped, multiLiteral?_append stop' plain few]

end BlockScript.Toml
