import BlockScript.Proofs.Layering
import BlockScript.Proofs.Quotation
import BlockScript.Proofs.RoundTrip
import BlockScript.Settings.Printer

/-!
# Printed settings read back

A printed document is read line by line, and each line is read for what it was printed for: a header, a
number without leading zeros, or a quoted string. What has been read stands in a draft, so a line leads from
one draft to the next.
-/

namespace BlockScript

namespace Toml

open Number (Digits ofDigits digits_toDigits)

theorem ne_of_class {p : Char → Bool} {c d : Char} (hc : p c) (hd : p d = false) : c ≠ d :=
  ne_of_apply_ne p (by rw [hc, hd]; decide)

/-! ## Numbers -/

structure Whole (digits : List Char) : Prop extends Digits digits where
  lead : digits = ['0'] ∨ digits.head? ≠ some '0'

theorem digitChar_ne_zero : ∀ n < 10, n ≠ 0 → Nat.digitChar n ≠ '0' := by
  decide

theorem whole_toDigits (n : ℕ) : Whole (Nat.toDigits 10 n) := by
  refine ⟨(digits_toDigits n).1, ?_⟩
  by_cases zero : n = 0
  · exact .inl (by rw [zero]; rfl)
  · right
    induction n using Nat.strongRecOn with
    | ind n ih =>
      by_cases small : n < 10
      · rw [Nat.toDigits_of_lt_base small]
        simpa using digitChar_ne_zero n small zero
      · have digits := (digits_toDigits (n / 10)).1.head
        obtain ⟨c, rest, cons, -⟩ := digits
        have head := ih (n / 10) (by omega) (by omega)
        rw [Nat.toDigits_of_base_le (by decide) (by omega), cons]
        rwa [cons] at head

theorem digits_append {text : List Char} (all : ∀ c ∈ text, c.isDigit) (after : List Char) :
    digits Char.isDigit (text ++ '\n' :: after) = (text, '\n' :: after) := by
  induction text with
  | nil => rfl
  | cons c rest ih =>
    have digit := all c List.mem_cons_self
    have line : c ≠ '_' := ne_of_class digit rfl
    have more := ih fun d mem => all d (List.mem_cons_of_mem c mem)
    simp [digits, line, digit, more]

section
variable {text : List Char} (h : Whole text) (after : List Char)
include h

theorem Whole.fixed? {width k : ℕ} {rest : List Char}
    (found : fixed? width (text ++ '\n' :: after) = some (k, rest)) :
    ∃ c tail, rest = c :: tail ∧ c ≠ '-' ∧ c ≠ ':' := by
  unfold Toml.fixed? at found
  simp only [Bool.and_eq_true, decide_eq_true_eq, Option.ite_none_right_eq_some, Option.some.injEq,
    Prod.mk.injEq] at found
  obtain ⟨⟨-, all⟩, -, rfl⟩ := found
  by_cases short : width ≤ text.length
  · rw [List.drop_append_of_le_length short]
    cases left : text.drop width with
    | nil => exact ⟨_, _, rfl, by decide, by decide⟩
    | cons c tail =>
      have digit : c.isDigit := h.all c (List.mem_of_mem_drop (left ▸ List.mem_cons_self))
      exact ⟨c, _, rfl, ne_of_class digit rfl, ne_of_class digit rfl⟩
  · obtain ⟨k, hk⟩ : ∃ k, width = text.length + (k + 1) := ⟨width - text.length - 1, by omega⟩
    rw [hk, List.take_length_add_append, List.all_append, List.take_succ_cons, List.all_cons] at all
    simp at all

theorem Whole.date? : Date.read? (text ++ '\n' :: after) = none := by
  unfold Date.read?
  cases found : Toml.fixed? 4 (text ++ '\n' :: after) with
  | none => rfl
  | some p =>
    obtain ⟨year, rest⟩ := p
    obtain ⟨c, tail, rfl, dash, -⟩ := h.fixed? after found
    simp [dash]

theorem Whole.time? : Time.read? (text ++ '\n' :: after) = none := by
  unfold Time.read?
  cases found : Toml.fixed? 2 (text ++ '\n' :: after) with
  | none => rfl
  | some p =>
    obtain ⟨hour, rest⟩ := p
    obtain ⟨c, tail, rfl, -, colon⟩ := h.fixed? after found
    simp [colon]

theorem Whole.sign : sign (text ++ '\n' :: after) = (false, text ++ '\n' :: after) := by
  obtain ⟨c, rest, rfl, digit⟩ := h.toDigits.head
  have plus : c ≠ '+' := ne_of_class digit rfl
  have minus : c ≠ '-' := ne_of_class digit rfl
  simp [Toml.sign, plus, minus]

theorem Whole.wholeDigits? : wholeDigits? (text ++ '\n' :: after) = some (text, '\n' :: after) := by
  rcases h.lead with rfl | lead
  · rfl
  · obtain ⟨c, rest, rfl, digit⟩ := h.toDigits.head
    have zero : c ≠ '0' := by simpa using lead
    have all := digits_append h.all after
    simp only [List.cons_append] at all ⊢
    simp [Toml.wholeDigits?, zero, someDigits?, digit, all]

theorem Whole.unmarked {c : Char} {rest : List Char} (eq : text ++ '\n' :: after = '0' :: c :: rest) :
    c = '\n' := by
  rcases h.lead with rfl | lead
  · cases eq
    rfl
  · obtain ⟨d, tail, rfl, -⟩ := h.toDigits.head
    rw [List.cons_append, List.cons.injEq] at eq
    exact absurd (by rw [eq.1]; rfl) lead

theorem Whole.moment? : Moment.literal? (text ++ '\n' :: after) = none := by
  simp [Moment.literal?, Moment.read?, h.date? after, h.time? after]

theorem Whole.float? : float? (text ++ '\n' :: after) = none := by
  simp [Toml.float?, h.sign after, h.wholeDigits? after, fraction?, exponent?]

theorem Whole.integer? {n : ℕ} (value : ofDigits text = n) (word : Number.isWord n) :
    integer? (text ++ '\n' :: after) = some (.int n, '\n' :: after) := by
  -- Stated apart: under the binds, `ofInteger?` would be unfolded to a comparison with `2 ^ 63` in unary.
  have whole : ofInteger? (if false then -ofDigits text else ofDigits text) = some (.int n) := by
    simp [ofInteger?, value, word]
  unfold Toml.integer?
  split
  · rename_i eq
    exact absurd (h.unmarked after eq) (by decide)
  · rename_i eq
    exact absurd (h.unmarked after eq) (by decide)
  · rename_i eq
    exact absurd (h.unmarked after eq) (by decide)
  · rw [h.sign after]
    exact Option.bind_eq_some_iff.mpr ⟨_, h.wholeDigits? after, Option.bind_eq_some_iff.mpr ⟨_, whole, rfl⟩⟩

theorem Whole.number? {n : ℕ} (value : ofDigits text = n) (word : Number.isWord n) :
    number? (text ++ '\n' :: after) = some (.int n, '\n' :: after) := by
  simp only [Toml.number?, h.moment? after, h.float? after, h.integer? after value word]

end

/-! ## Values -/

theorem not_isBlank {p : Char → Bool} {c : Char} (hc : p c) (space : p ' ' = false) (tab : p '\t' = false) :
    ¬ isBlank c := by
  simp [isBlank, ne_of_class hc space, ne_of_class hc tab]

structure Writes (v : Setting) (text : List Char) : Prop where
  front : ∃ c rest, text = c :: rest ∧ ¬ isBlank c
  reads : ∀ fuel depth after, value? (fuel + 1) depth (text ++ '\n' :: after) = some (v, '\n' :: after)

theorem value?_digit {c : Char} (digit : c.isDigit) (fuel depth : ℕ) (rest : List Char) :
    value? (fuel + 1) depth (c :: rest) = number? (c :: rest) := by
  have bracket : c ≠ '[' := ne_of_class digit rfl
  have brace : c ≠ '\x7b' := ne_of_class digit rfl
  have mark : c ≠ '"' := ne_of_class digit rfl
  have mark' : c ≠ '\'' := ne_of_class digit rfl
  have t : c ≠ 't' := ne_of_class digit rfl
  have f : c ≠ 'f' := ne_of_class digit rfl
  simp [value?, bracket, brace, mark, mark', t, f]

theorem Whole.writes {text : List Char} (h : Whole text) {n : ℕ} (value : ofDigits text = n)
    (word : Number.isWord n) : Writes (.int n) text := by
  obtain ⟨c, rest, cons, digit⟩ := h.toDigits.head
  refine ⟨⟨c, rest, cons, not_isBlank digit rfl rfl⟩, fun fuel depth after => ?_⟩
  have number := h.number? after value word
  rw [cons, List.cons_append] at number ⊢
  rw [value?_digit digit, number]

theorem writes_toString {n : ℕ} (word : Number.isWord n) : Writes (.int n) (toString n).toList := by
  have digits : (toString n).toList = Nat.toDigits 10 n := by
    rw [Nat.toString_eq_repr, Nat.toList_repr]
  rw [digits]
  exact (whole_toDigits n).writes (digits_toDigits n).2 word

theorem quote_head (s : String) : ∃ c rest, (quote s).toList = c :: rest ∧ (c = '"' ∨ c = '\'') := by
  unfold quote
  simp only [String.toList_ofList]
  cases chooseForm s.toList with
  | basic => exact ⟨_, _, rfl, .inl rfl⟩
  | literal => exact ⟨_, _, rfl, .inr rfl⟩
  | multiBasic => exact ⟨_, _, rfl, .inl rfl⟩
  | multiLiteral => exact ⟨_, _, rfl, .inr rfl⟩

theorem writes_quote (s : String) : Writes (.text s) (quote s).toList := by
  obtain ⟨c, rest, cons, mark⟩ := quote_head s
  refine ⟨⟨c, rest, cons, by rcases mark with rfl | rfl <;> decide⟩, fun fuel depth after => ?_⟩
  have read := string?_quote s (show ('\n' :: after).head? ≠ some '"' by simp) (by simp)
  rw [cons, List.cons_append] at read ⊢
  rcases mark with rfl | rfl <;> simp [value?, read]

/-! ## Keys -/

/-- A key that needs no quotation marks. -/
structure Bare (key : String) : Prop where
  front : key.toList ≠ []
  all : ∀ c ∈ key.toList, isBare c

theorem Bare.cons {key : String} (h : Bare key) : ∃ c rest, key.toList = c :: rest ∧ isBare c := by
  cases chars : key.toList with
  | nil => exact absurd chars h.front
  | cons c rest => exact ⟨c, rest, rfl, h.all c (chars ▸ List.mem_cons_self)⟩

theorem skipBlanks_cons {c : Char} (blank : ¬ isBlank c) (rest : List Char) :
    skipBlanks (c :: rest) = c :: rest := by
  simp [skipBlanks, blank]

theorem Bare.skipBlanks {key : String} (h : Bare key) (rest : List Char) :
    skipBlanks (key.toList ++ rest) = key.toList ++ rest := by
  obtain ⟨c, tail, cons, bare⟩ := h.cons
  rw [cons]
  exact skipBlanks_cons (not_isBlank bare rfl rfl) _

theorem Bare.simpleKey? {key : String} (h : Bare key) {stop : Char} (hstop : isBare stop = false)
    (after : List Char) : simpleKey? (key.toList ++ stop :: after) = some (key, stop :: after) := by
  have taken : (key.toList ++ stop :: after).takeWhile isBare = key.toList := by
    rw [List.takeWhile_append_of_pos h.all, List.takeWhile_cons_of_neg (by simp [hstop]), List.append_nil]
  have left : (key.toList ++ stop :: after).dropWhile isBare = stop :: after := by
    rw [List.dropWhile_append_of_pos h.all, List.dropWhile_cons_of_neg (by simp [hstop])]
  obtain ⟨c, tail, cons, bare⟩ := h.cons
  rw [cons] at taken left ⊢
  rw [List.cons_append] at taken left ⊢
  simp only [Toml.simpleKey?, bare, if_true, taken, left, ← cons, String.ofList_toList]

theorem Bare.key? {key : String} (h : Bare key) {stop next : Char} (hstop : isBare stop = false)
    {after rest : List Char} (skipped : Toml.skipBlanks (stop :: after) = next :: rest) (point : next ≠ '.') :
    key? (key.toList ++ stop :: after) = some ([key], next :: rest) := by
  show keyOf? (78 + 1) _ = _
  rw [keyOf?, h.skipBlanks]
  simp [h.simpleKey? hstop, skipped, point]

/-! ## Lines -/

theorem Bare.line?_header {key : String} (h : Bare key) {d d' : Draft} (opened : d.open? openTable [key] = some d')
    (size : ℕ) (after : List Char) : line? size d ('[' :: (key.toList ++ ']' :: after)) = some (d', after) := by
  have closed : Toml.skipBlanks (']' :: after) = ']' :: after := rfl
  have found := h.key? (by decide) closed (by decide)
  have read : header? (key.toList ++ ']' :: after) = some ([key], after) := by
    simp [header?, found]
  obtain ⟨c, tail, cons, bare⟩ := h.cons
  have bracket : c ≠ '[' := ne_of_class bare rfl
  rw [cons, List.cons_append] at read ⊢
  simp [line?, bracket, read, opened]

theorem Bare.line?_value {key : String} (h : Bare key) {v : Setting} {text : List Char} (writes : Writes v text)
    {d d' : Draft} (defined : d.define? [key] v = some d') (size : ℕ) (after : List Char) :
    line? size d (key.toList ++ ' ' :: '=' :: ' ' :: (text ++ '\n' :: after)) = some (d', '\n' :: after) := by
  have spaced : Toml.skipBlanks (' ' :: '=' :: ' ' :: (text ++ '\n' :: after)) =
      '=' :: ' ' :: (text ++ '\n' :: after) := rfl
  have found := h.key? (by decide) spaced (by decide)
  have value : value? (2 * size + 1) maxDepth (Toml.skipBlanks (' ' :: (text ++ '\n' :: after))) =
      some (v, '\n' :: after) := by
    obtain ⟨c, rest, cons, blank⟩ := writes.front
    have skipped : Toml.skipBlanks (' ' :: (text ++ '\n' :: after)) = text ++ '\n' :: after := by
      rw [cons]
      exact skipBlanks_cons blank _
    rw [skipped, writes.reads]
  obtain ⟨c, tail, cons, bare⟩ := h.cons
  have bracket : c ≠ '[' := ne_of_class bare rfl
  rw [cons, List.cons_append] at found ⊢
  simp [line?, bracket, found, value, defined]

/-- A draft whose last section is open and holds values. -/
def Draft.within (before : Entries) (sec : String) (pairs : List (String × Setting)) : Draft :=
  ⟨before ++ [(sec, .table false false (pairs.map fun p => (p.1, .value p.2)))], [sec]⟩

theorem lookup_eq_none {key : String} {entries : Entries} (fresh : key ∉ entries.map (·.1)) :
    entries.lookup key = none := by
  rw [List.lookup_eq_none_iff]
  intro p mem
  simpa using fun eq : key = p.1 => fresh (eq ▸ List.mem_map_of_mem mem)

theorem setIn_append {key : String} {before : Entries} (fresh : key ∉ before.map (·.1)) (old new : Node) :
    Table.setIn key new (before ++ [(key, old)]) = before ++ [(key, new)] := by
  induction before with
  | nil => simp [Table.setIn]
  | cons p rest ih =>
    simp only [List.map_cons, List.mem_cons, not_or] at fresh
    simp [Table.setIn, Ne.symm fresh.1, ih fresh.2]

theorem open?_within {d : Draft} {sec : String} (fresh : sec ∉ d.root.map (·.1)) :
    d.open? openTable [sec] = some (.within d.root sec []) := by
  simp [Draft.open?, splitLast?, descend, openTable, lookup_eq_none fresh, Draft.within]

theorem define?_within {before : Entries} {sec key : String} {pairs : List (String × Setting)}
    (fresh : sec ∉ before.map (·.1)) (fresh' : key ∉ pairs.map (·.1)) (v : Setting) :
    (Draft.within before sec pairs).define? [key] v = some (.within before sec (pairs ++ [(key, v)])) := by
  have missing : (pairs.map fun p => (p.1, Node.value p.2)).lookup key = none :=
    lookup_eq_none (by simpa using fresh')
  simp [Draft.define?, Draft.within, splitLast?, descend, define, List.lookup_append, lookup_eq_none fresh, missing,
    setIn_append fresh]

/-! ## Documents -/

def printed (lines : List String) : List Char :=
  lines.flatMap fun line => line.toList ++ ['\n']

theorem join_eq_printed (lines : List String) : String.join (lines.map (· ++ "\n")) = .ofList (printed lines) := by
  apply String.toList_injective
  simp [printed, String.toList_join, List.flatMap_map]

/-- Lines take one draft to another, whatever follows them. Each takes one unit of fuel. -/
def Leads (d : Draft) (lines : List String) (d' : Draft) : Prop :=
  ∀ fuel after, lines? (fuel + lines.length) d (printed lines ++ after) = lines? fuel d' after

theorem Leads.nil (d : Draft) : Leads d [] d :=
  fun _ _ => rfl

theorem Leads.append {d d' d'' : Draft} {first later : List String} (h : Leads d first d')
    (h' : Leads d' later d'') : Leads d (first ++ later) d'' := by
  intro fuel after
  have fuels : fuel + (first ++ later).length = fuel + later.length + first.length := by
    rw [List.length_append]
    omega
  have texts : printed (first ++ later) ++ after = printed first ++ (printed later ++ after) := by
    simp [printed]
  rw [fuels, texts, h, h']

theorem Leads.blank (d : Draft) : Leads d [""] d :=
  fun _ _ => rfl

theorem Leads.line {d d' : Draft} {line : String} {c : Char} {rest : List Char} (front : line.toList = c :: rest)
    (start : c = '[' ∨ isBare c)
    (reads : ∀ size after, line? size d (line.toList ++ '\n' :: after) = some (d', '\n' :: after)) :
    Leads d [line] d' := by
  intro fuel after
  have text : printed [line] ++ after = c :: (rest ++ '\n' :: after) := by
    simp [printed, front]
  have plain : ¬ isBlank c ∧ c ≠ '#' ∧ c ≠ '\n' ∧ c ≠ '\r' := by
    rcases start with rfl | bare
    · decide
    · exact ⟨not_isBlank bare rfl rfl, ne_of_class bare rfl, ne_of_class bare rfl, ne_of_class bare rfl⟩
  have read := reads fuel after
  rw [front, List.cons_append] at read
  rw [text, List.length_singleton, lines?, skipBlanks_cons plain.1]
  simp [plain, read, lineEnd?, Toml.skipBlanks, isBlank, skipComment, newline?]

theorem Leads.header {d : Draft} {sec line : String} (bare : Bare sec) (eq : line = "[" ++ sec ++ "]")
    (fresh : sec ∉ d.root.map (·.1)) : Leads d [line] (.within d.root sec []) := by
  have chars : line.toList = '[' :: (sec.toList ++ [']']) := by
    simp [eq]
  refine .line chars (.inl rfl) fun size after => ?_
  have text : line.toList ++ '\n' :: after = '[' :: (sec.toList ++ ']' :: '\n' :: after) := by
    simp [chars]
  rw [text, bare.line?_header (open?_within fresh)]

theorem Leads.value {before : Entries} {sec key line text : String} {pairs : List (String × Setting)} {v : Setting}
    (bare : Bare key) (writes : Writes v text.toList) (eq : line = key ++ " = " ++ text)
    (fresh : sec ∉ before.map (·.1)) (fresh' : key ∉ pairs.map (·.1)) :
    Leads (.within before sec pairs) [line] (.within before sec (pairs ++ [(key, v)])) := by
  have chars : line.toList = key.toList ++ ' ' :: '=' :: ' ' :: text.toList := by
    simp [eq]
  obtain ⟨c, rest, cons, start⟩ := bare.cons
  have front : line.toList = c :: (rest ++ ' ' :: '=' :: ' ' :: text.toList) := by
    rw [chars, cons, List.cons_append]
  refine .line front (.inr start) fun size after => ?_
  have line : line.toList ++ '\n' :: after = key.toList ++ ' ' :: '=' :: ' ' :: (text.toList ++ '\n' :: after) := by
    simp [chars]
  rw [line, bare.line?_value writes (define?_within fresh fresh' v)]

theorem length_le_printed (lines : List String) : lines.length ≤ (printed lines).length := by
  induction lines with
  | nil => exact Nat.zero_le _
  | cons line rest ih =>
    simp only [printed, List.flatMap_cons, List.length_append, List.length_cons, List.length_nil] at ih ⊢
    omega

theorem read?_printed {lines : List String} {d : Draft} {pairs : List (String × Setting)} (h : Leads .empty lines d)
    {c : Char} {rest : List Char} (front : printed lines = c :: rest) (mark : c ≠ '\uFEFF')
    (dated : dated? (.table (settings d.root)) = some (.table pairs)) :
    read? (.ofList (printed lines)) = some (.table pairs) := by
  have long := length_le_printed lines
  have drafted : lines? ((printed lines).length + 1) .empty (printed lines) = some d := by
    obtain ⟨more, fuel⟩ : ∃ more, (printed lines).length + 1 = more + 1 + lines.length :=
      ⟨(printed lines).length - lines.length, by omega⟩
    have read := h (more + 1) []
    rw [List.append_nil] at read
    rw [fuel, read]
    rfl
  rw [front, List.length_cons] at drafted
  rw [front]
  simp [read?, mark, drafted, dated]

theorem settings_append (first later : Entries) : settings (first ++ later) = settings first ++ settings later := by
  induction first with
  | nil => rfl
  | cons p rest ih => simp [settings, ih]

theorem settings_values (pairs : List (String × Setting)) :
    settings (pairs.map fun p => (p.1, .value p.2)) = pairs := by
  induction pairs with
  | nil => rfl
  | cons p rest ih => simp [settings, Node.setting, ih]

theorem settings_within (before : Entries) (sec : String) (pairs : List (String × Setting)) :
    settings (Draft.within before sec pairs).root = settings before ++ [(sec, .table pairs)] := by
  simp [Draft.within, settings_append, settings, Node.setting, settings_values]

end Toml

open Toml

/-! ## Settings -/

def optionPairs (key : String) (value : Option UInt64) : List (String × Setting) :=
  value.toList.map fun n => (key, .int n.toNat)

def SchedulerSettings.pairs (s : SchedulerSettings) : List (String × Setting) :=
  [("framerate", .int s.framerate.toNat)] ++ optionPairs "max_transfers_per_step" s.maxTransfers ++
    optionPairs "max_ticks" s.maxTicks

def Settings.pairs (s : Settings) : List (String × Setting) :=
  [("scheduler", .table s.scheduler.pairs), ("logging", .table [("filter", .text s.logging.filter)])]

theorem isWord_of_lt {n : ℕ} (small : n < 2 ^ 63) : Number.isWord n := by
  simp only [Number.isWord, Bool.and_eq_true, decide_eq_true_eq]
  omega

theorem optionLine?_leads {key : String} (bare : Bare key) (value : Option UInt64)
    (small : ∀ n ∈ value, n.toNat ≤ 2 ^ 63 - 1) :
    ∃ lines, optionLine? key value = some lines ∧
      ∀ before sec pairs, sec ∉ before.map (·.1) → key ∉ pairs.map (·.1) →
        Leads (.within before sec pairs) lines (.within before sec (pairs ++ optionPairs key value)) := by
  cases value with
  | none =>
    refine ⟨[], rfl, fun before sec pairs _ _ => ?_⟩
    simpa [optionPairs] using Leads.nil (.within before sec pairs)
  | some n =>
    have word := isWord_of_lt (n := n.toNat) (by have := small n rfl; omega)
    refine ⟨[key ++ " = " ++ toString n.toNat], by simp [optionLine?, tomlInteger?, word], ?_⟩
    intro before sec pairs fresh fresh'
    exact .value bare (writes_toString word) rfl fresh fresh'

def settingNames : List String :=
  ["scheduler", "framerate", "max_transfers_per_step", "max_ticks", "logging", "filter"]

theorem bare_settingNames : ∀ name ∈ settingNames, Bare name := by
  have all : ∀ name ∈ settingNames, name.toList ≠ [] ∧ ∀ c ∈ name.toList, isBare c := by
    simp [settingNames, isBare]
  exact fun name mem => ⟨(all name mem).1, (all name mem).2⟩

theorem dated?_pairs (s : Settings) : dated? (.table s.pairs) = some (.table s.pairs) := by
  obtain ⟨⟨framerate, transfers, ticks⟩, ⟨filter⟩⟩ := s
  cases transfers <;> cases ticks <;>
    simp [Settings.pairs, SchedulerSettings.pairs, optionPairs, dated?, datedPairs?, reservedKey]

section
variable {s : Settings} (transfers : ∀ n ∈ s.scheduler.maxTransfers, n.toNat ≤ 2 ^ 63 - 1)
  (ticks : ∀ n ∈ s.scheduler.maxTicks, n.toNat ≤ 2 ^ 63 - 1)
include transfers ticks

theorem SchedulerSettings.lines?_leads :
    ∃ lines, s.scheduler.lines? = some lines ∧
      Leads (.within [] "scheduler" []) lines (.within [] "scheduler" s.scheduler.pairs) := by
  obtain ⟨first, hfirst, leads⟩ :=
    optionLine?_leads (bare_settingNames "max_transfers_per_step" (by decide)) _ transfers
  obtain ⟨second, hsecond, leads'⟩ := optionLine?_leads (bare_settingNames "max_ticks" (by decide)) _ ticks
  have framerate : Leads (.within [] "scheduler" []) ["framerate = " ++ toString s.scheduler.framerate.toNat]
      (.within [] "scheduler" [("framerate", .int s.scheduler.framerate.toNat)]) := by
    have small := s.scheduler.framerate.toNat_lt
    exact .value (bare_settingNames _ (by decide)) (writes_toString (isWord_of_lt (by omega))) rfl (by simp)
      (by simp)
  refine ⟨_, by simp only [SchedulerSettings.lines?, hfirst, hsecond]; rfl, ?_⟩
  refine (framerate.append (leads _ _ _ (by simp) (by simp))).append (leads' _ _ _ (by simp) ?_)
  cases s.scheduler.maxTransfers <;> simp [optionPairs]

theorem Settings.toToml?_read : ∃ text, s.toToml? = some text ∧ Toml.read? text = some (.table s.pairs) := by
  obtain ⟨lines, hlines, scheduler⟩ := SchedulerSettings.lines?_leads transfers ticks
  have opened : Leads .empty ["[scheduler]"] (.within [] "scheduler" []) :=
    .header (bare_settingNames _ (by decide)) rfl (by simp [Draft.empty])
  have logging : Leads (.within [] "scheduler" s.scheduler.pairs) ["[logging]"]
      (.within (Draft.within [] "scheduler" s.scheduler.pairs).root "logging" []) :=
    .header (bare_settingNames _ (by decide)) rfl (by simp [Draft.within])
  have filter : Leads (.within (Draft.within [] "scheduler" s.scheduler.pairs).root "logging" [])
      ["filter = " ++ quote s.logging.filter]
      (.within (Draft.within [] "scheduler" s.scheduler.pairs).root "logging"
        [("filter", .text s.logging.filter)]) :=
    .value (bare_settingNames _ (by decide)) (writes_quote s.logging.filter) rfl (by simp [Draft.within]) (by simp)
  have leads := (opened.append scheduler).append (((Leads.blank _).append logging).append filter)
  refine ⟨.ofList (printed _), ?_, read?_printed leads rfl (by decide) ?_⟩
  · simp only [Settings.toToml?, hlines]
    rw [← join_eq_printed]
    rfl
  · rw [settings_within, settings_within]
    exact dated?_pairs s

end


/-! ## The settings of a document -/

open Setting

theorem path_settingNames : ∀ name ∈ settingNames, path name = [.key name] ∧ Text.lowercase name = name := by
  decide +kernel

theorem assigned_scheduler (s : Settings) (key : String) :
    (Setting.table s.pairs).assigned "scheduler" key =
      (s.scheduler.pairs.filter fun p => Text.lowercase p.1 = key).map fun p => ⟨[], p.2⟩ := by
  obtain ⟨hscheduler, lower⟩ := path_settingNames "scheduler" (by decide)
  obtain ⟨hlogging, lower'⟩ := path_settingNames "logging" (by decide)
  simp [assigned, Setting.pairs, Settings.pairs, hscheduler, hlogging, assignedAt, lower, lower']

theorem assigned_logging (s : Settings) :
    (Setting.table s.pairs).assigned "logging" "filter" = [⟨[], .text s.logging.filter⟩] := by
  obtain ⟨hscheduler, lower⟩ := path_settingNames "scheduler" (by decide)
  obtain ⟨hlogging, lower'⟩ := path_settingNames "logging" (by decide)
  obtain ⟨-, hfilter⟩ := path_settingNames "filter" (by decide)
  simp [assigned, Setting.pairs, Settings.pairs, hscheduler, hlogging, assignedAt, lower, lower', hfilter]

theorem filter_optionPairs {key : String} (lower : Text.lowercase key = key) (value : Option UInt64)
    (name : String) : (optionPairs key value).filter (fun p => Text.lowercase p.1 = name) =
      if key = name then optionPairs key value else [] := by
  cases value with
  | none => simp [optionPairs]
  | some n => simp [optionPairs, lower, List.filter_cons]

theorem map_optionPairs (key : String) (value : Option UInt64) :
    (optionPairs key value).map (fun p => (⟨[], p.2⟩ : Assignment)) =
      (value.map fun n => .int n.toNat).toList.map fun v => ⟨[], v⟩ := by
  cases value <;> rfl

theorem assigned_fields (s : Settings) :
    (Setting.table s.pairs).assigned "scheduler" "framerate" = [⟨[], .int s.scheduler.framerate.toNat⟩] ∧
    (Setting.table s.pairs).assigned "scheduler" "max_transfers_per_step" =
      (s.scheduler.maxTransfers.map fun n => .int n.toNat).toList.map (fun v => ⟨[], v⟩) ∧
    (Setting.table s.pairs).assigned "scheduler" "max_ticks" =
      (s.scheduler.maxTicks.map fun n => .int n.toNat).toList.map (fun v => ⟨[], v⟩) := by
  obtain ⟨-, framerate⟩ := path_settingNames "framerate" (by decide)
  obtain ⟨-, transfers⟩ := path_settingNames "max_transfers_per_step" (by decide)
  obtain ⟨-, ticks⟩ := path_settingNames "max_ticks" (by decide)
  simp [assigned_scheduler, SchedulerSettings.pairs, filter_optionPairs, framerate, transfers, ticks,
    map_optionPairs]

theorem selected_alone {source : Setting} {sec key : String} (value : Option Setting)
    (only : source.assigned sec key = value.toList.map fun v => ⟨[], v⟩) (single : ∀ v ∈ value, v.isTable = false) :
    selected [source, .table []] sec key = value := by
  have nothing : (Setting.table []).assigned sec key = [] := rfl
  cases value with
  | none => simp [selected, override?, first?, only, nothing]
  | some v =>
    have kept : Assignment.isIdle ⟨[], v⟩ = false ∧ Assignment.given ⟨[], v⟩ = v := by
      have noTable := single v rfl
      cases v with
      | table pairs => cases noTable
      | _ => exact ⟨rfl, rfl⟩
    simp [selected, override?, only, kept]

theorem word32?_toNat (n : UInt32) : word32? (.int n.toNat) = some n := by
  simp [word32?, nat?, UInt32.size, n.toNat_lt, Option.filter]

theorem option?_word64? (value : Option UInt64) :
    orDefault none (option? word64?) (value.map fun n => .int n.toNat) = some value := by
  cases value with
  | none => rfl
  | some n => simp [orDefault, option?, word64?, nat?]

theorem Settings.selectedFrom_pairs (s : Settings) : s.SelectedFrom [.table s.pairs, .table []] := by
  obtain ⟨framerate, transfers, ticks⟩ := assigned_fields s
  refine ⟨?_, ?_, ?_, ?_⟩
  · rw [selected_alone (some (.int s.scheduler.framerate.toNat)) framerate (by simp [isTable])]
    exact word32?_toNat s.scheduler.framerate
  · rw [selected_alone _ transfers (by simp [isTable])]
    exact option?_word64? s.scheduler.maxTransfers
  · rw [selected_alone _ ticks (by simp [isTable])]
    exact option?_word64? s.scheduler.maxTicks
  · rw [selected_alone (some (.text s.logging.filter)) (assigned_logging s) (by simp [isTable])]
    rfl

theorem Settings.sectioned_pairs (s : Settings) : (Setting.table s.pairs).sectioned := by
  obtain ⟨scheduler, -⟩ := path_settingNames "scheduler" (by decide)
  obtain ⟨logging, -⟩ := path_settingNames "logging" (by decide)
  simp [sectioned, Setting.pairs, Settings.pairs, scheduler, logging, keepsTables, isTable]

/-- Printed settings read back. Where there is no file and the environment is left out, settings whose limits
are signed words can be printed, and what is printed gives the same settings again, whatever the filter is. -/
theorem printed_settings_return (s : Settings) (host : Host) (unnamed : host.environment.find? pathVariable = none)
    (missing : host.findFile? defaultPath [.toml] (some .toml) = none)
    (transfers : ∀ n ∈ s.scheduler.maxTransfers, n.toNat ≤ 2 ^ 63 - 1)
    (ticks : ∀ n ∈ s.scheduler.maxTicks, n.toNat ≤ 2 ^ 63 - 1) :
    ∃ text, s.toToml? = some text ∧ host.settings { inline := some text, skipEnvironment := true } = .ok s := by
  obtain ⟨text, written, read⟩ := Settings.toToml?_read transfers ticks
  have tables : ∀ source ∈ [Setting.table s.pairs, .table []], source.sectioned := by
    simpa using ⟨s.sectioned_pairs, rfl⟩
  have same := Settings.ofSetting?_stack tables
  rw [Settings.ofCells?_eq_some.mpr s.selectedFrom_pairs] at same
  refine ⟨text, written, ?_⟩
  rw [Host.settings_eq (.missing unnamed missing) (.text rfl read)]
  simp [SettingsSources.layers, same]

theorem printed_settings_return_quoted :
    let s : Settings :=
      { scheduler := { framerate := 0, maxTransfers := some 9223372036854775807 },
        logging := { filter := "\'\'\'\"\"\"\"\\\n\r\t\x00\x7f = é\"" } }
    let host : Host := ⟨fun _ => none, .empty⟩
    ∃ text, s.toToml? = some text ∧ host.settings { inline := some text, skipEnvironment := true } = .ok s := by
  intro s host
  exact printed_settings_return s host rfl rfl (by simp [s]) (by simp [s])

end BlockScript
