import BlockScript.Number.Decimal
import BlockScript.Text.Blank

/-!
# Text as a number

Blanks around it aside, a text denotes a number when it is empty (zero), an integer in base 16, 8
or 2 marked `0x`, `0o` or `0b`, or `Infinity` or a decimal literal under an optional sign. Every
other text is NaN. A marked integer is accumulated digit by digit in doubles, so one beyond 53
bits is rounded at each digit.
-/

namespace BlockScript.Number

/-- The value of a digit of a base up to sixteen. -/
def digitIn? (base : Nat) (c : Char) : Option Nat :=
  let value :=
    if '0' ≤ c ∧ c ≤ '9' then c.toNat - '0'.toNat
    else if 'a' ≤ c ∧ c ≤ 'z' then c.toNat - 'a'.toNat + 10
    else if 'A' ≤ c ∧ c ≤ 'Z' then c.toNat - 'A'.toNat + 10
    else base
  if value < base then some value else none

/-- The base that two leading characters announce, and the digits after them. -/
def marked? : List Char → Option (Nat × List Char)
  | '0' :: c :: digits =>
    if c = 'x' ∨ c = 'X' then some (16, digits)
    else if c = 'o' ∨ c = 'O' then some (8, digits)
    else if c = 'b' ∨ c = 'B' then some (2, digits)
    else none
  | _ => none

def accumulate (base : Nat) : Float → List Char → Option Float
  | total, [] => some total
  | total, c :: rest =>
    match digitIn? base c with
    | some d => accumulate base (total * Float.ofNat base + Float.ofNat d) rest
    | none => none

def markedInteger? (text : List Char) : Option Float :=
  match marked? text with
  | some (base, c :: rest) => accumulate base 0.0 (c :: rest)
  | _ => none

def unsigned (text : List Char) : Float :=
  if text = "Infinity".toList then 1.0 / 0.0
  else
    match Decimal.read? text with
    | some d => d.toFloat
    | none => 0.0 / 0.0

/-- The number that a text without blanks around it denotes. -/
def ofTrimmed (text : List Char) : Float :=
  match text with
  | [] => 0.0
  | c :: rest =>
    match markedInteger? text with
    | some x => x
    | none =>
      if c = '+' then unsigned rest
      else if c = '-' then -unsigned rest
      else unsigned text

def ofText (text : String) : Float :=
  ofTrimmed (Text.trim text.toList)

end BlockScript.Number
