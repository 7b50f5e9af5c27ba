import BlockScript.Number.Decimal
import BlockScript.Setting

/-!
# TOML dates and times

A date, a time, or both with an offset from universal time. While a document is read, each stands
as a table with a reserved key, under which its text is kept; in the end all such tables become
texts. A document may also spell out such a table, and then the text in it must be a date or time.
-/

namespace BlockScript.Toml

structure Date where
  year : Nat
  month : Nat
  day : Nat

structure Time where
  hour : Nat
  minute : Nat
  second : Nat
  /-- The digits of a fraction of the second, nine of which count. -/
  fraction : List Char

inductive Offset where
  | zero
  | shift (negative : Bool) (hours minutes : Nat)

inductive Moment where
  | date (d : Date)
  | time (t : Time)
  | both (d : Date) (t : Time) (offset : Option Offset)

/-! ## Which are real -/

def daysIn (year month : Nat) : Nat :=
  let leap := year % 4 = 0 ∧ (year % 100 ≠ 0 ∨ year % 400 = 0)
  if month = 2 then (if leap then 29 else 28)
  else if month ∈ [4, 6, 9, 11] then 30
  else 31

def Date.isReal (d : Date) : Bool :=
  1 ≤ d.month && d.month ≤ 12 && 1 ≤ d.day && d.day ≤ daysIn d.year d.month

/-- A second may be a leap second. In a text the hour may be 24. -/
def Time.isReal (inText : Bool) (t : Time) : Bool :=
  t.hour ≤ (if inText then 24 else 23) && t.minute ≤ 59 && t.second ≤ 60

/-- In a text only the whole offset is bounded, by a day. -/
def Offset.isReal (inText : Bool) : Offset → Bool
  | .zero => true
  | .shift _ hours minutes =>
    if inText then 60 * hours + minutes ≤ 24 * 60 else hours ≤ 23 && minutes ≤ 59

def Moment.isReal (inText : Bool) : Moment → Bool
  | .date d => d.isReal
  | .time t => t.isReal inText
  | .both d t offset => d.isReal && t.isReal inText && offset.all (·.isReal inText)

/-! ## Writing -/

def padded (width n : Nat) : List Char :=
  let digits := (toString n).toList
  List.replicate (width - digits.length) '0' ++ digits

def Date.chars (d : Date) : List Char :=
  padded 4 d.year ++ '-' :: padded 2 d.month ++ '-' :: padded 2 d.day

/-- The fraction loses the zeros at its end, and its point when nothing is left. -/
def Time.chars (t : Time) : List Char :=
  let clock := padded 2 t.hour ++ ':' :: padded 2 t.minute ++ ':' :: padded 2 t.second
  match ((t.fraction.take 9).reverse.dropWhile (· == '0')).reverse with
  | [] => clock
  | digits => clock ++ '.' :: digits

/-- No shift at all is written with a plus sign. -/
def Offset.chars : Offset → List Char
  | .zero => ['Z']
  | .shift negative hours minutes =>
    let total := 60 * hours + minutes
    (if negative && total != 0 then '-' else '+') ::
      padded 2 (total / 60) ++ ':' :: padded 2 (total % 60)

def Moment.chars : Moment → List Char
  | .date d => d.chars
  | .time t => t.chars
  | .both d t offset => d.chars ++ 'T' :: t.chars ++ (offset.map Offset.chars).getD []

def Moment.text (m : Moment) : String :=
  .ofList m.chars

/-! ## Reading -/

def fixed? (width : Nat) (text : List Char) : Option (Nat × List Char) :=
  let digits := text.take width
  if digits.length = width && digits.all Char.isDigit then
    some (Number.ofDigits digits, text.drop width)
  else none

def Date.read? (text : List Char) : Option (Date × List Char) := do
  let (year, rest) ← fixed? 4 text
  let '-' :: rest := rest | none
  let (month, rest) ← fixed? 2 rest
  let '-' :: rest := rest | none
  let (day, rest) ← fixed? 2 rest
  return (⟨year, month, day⟩, rest)

def Time.read? (text : List Char) : Option (Time × List Char) := do
  let (hour, rest) ← fixed? 2 text
  let ':' :: rest := rest | none
  let (minute, rest) ← fixed? 2 rest
  let ':' :: rest := rest | none
  let (second, rest) ← fixed? 2 rest
  match rest with
  | '.' :: after =>
    match Number.spanDigits after with
    | ([], _) => none
    | (digits, rest) => return (⟨hour, minute, second, digits⟩, rest)
  | _ => return (⟨hour, minute, second, []⟩, rest)

def Offset.read? : List Char → Option (Offset × List Char)
  | 'Z' :: rest => some (.zero, rest)
  | 'z' :: rest => some (.zero, rest)
  | c :: rest =>
    if c = '+' ∨ c = '-' then do
      let (hours, rest) ← fixed? 2 rest
      let ':' :: rest := rest | none
      let (minutes, rest) ← fixed? 2 rest
      return (.shift (c == '-') hours minutes, rest)
    else none
  | [] => none

def timeAfter? : List Char → Option (Time × List Char)
  | c :: rest => if c = 'T' ∨ c = 't' ∨ c = ' ' then Time.read? rest else none
  | [] => none

def Moment.read? (text : List Char) : Option (Moment × List Char) :=
  match Date.read? text with
  | none => (Time.read? text).map fun (t, rest) => (.time t, rest)
  | some (d, rest) =>
    match timeAfter? rest with
    | none => some (.date d, rest)
    | some (t, rest) =>
      match Offset.read? rest with
      | none => some (.both d t none, rest)
      | some (offset, rest) => some (.both d t (some offset), rest)

def Moment.literal? (text : List Char) : Option (Moment × List Char) :=
  (Moment.read? text).filter (·.1.isReal false)

def Moment.ofText? (s : String) : Option Moment :=
  match Moment.read? s.toList with
  | some (m, []) => if m.isReal true then some m else none
  | _ => none

/-! ## Tables that stand for dates and times -/

/-- A table whose first key is this one stands for a date or time. -/
def reservedKey : String := "$__toml_private_datetime"

def Moment.setting (m : Moment) : Setting :=
  .table [(reservedKey, .text m.text)]

def momentText? : Setting → Option Setting
  | .text s => (Moment.ofText? s).map fun m => .text m.text
  | _ => none

mutual

/-- Puts texts for the tables that stand for dates and times. Whatever else is in such a table does
not count. -/
def dated? : Setting → Option Setting
  | .table pairs =>
    match pairs.head? with
    | some (key, value) =>
      if key = reservedKey then momentText? value else (datedPairs? pairs).map .table
    | none => some (.table [])
  | .list items => (datedItems? items).map .list
  | s => some s

def datedItems? : List Setting → Option (List Setting)
  | [] => some []
  | s :: rest =>
    match dated? s, datedItems? rest with
    | some s, some rest => some (s :: rest)
    | _, _ => none

def datedPairs? : List (String × Setting) → Option (List (String × Setting))
  | [] => some []
  | (key, s) :: rest =>
    match dated? s, datedPairs? rest with
    | some s, some rest => some ((key, s) :: rest)
    | _, _ => none

end

end BlockScript.Toml
