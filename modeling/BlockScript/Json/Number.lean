import BlockScript.Json
import BlockScript.Number.Decimal

/-!
# Numbers in JSON text

A number without fraction and exponent that fits a word of 64 bits is an integer. Of any other one
the leading digits are kept, as many as fit such a word. The word is rounded to a double, and the
double multiplied or divided by a power of ten. Each step rounds, so that the result is near the
number that is written but not always the double nearest to it.
-/

namespace BlockScript.Json

/-! ## Digits -/

/-- Adds digits to a word while they fit, and gives the word with the digits that are left. -/
def fill (word : Nat) : List Char → Nat × List Char
  | [] => (word, [])
  | c :: rest =>
    let next := 10 * word + Number.digitValue c
    if next < UInt64.size then fill next rest else (word, c :: rest)

/-- What is kept of the digits before and after the point. A whole digit that is left still counts
as a place; one of the fraction counts for nothing. -/
def leading (whole fraction : List Char) : Number.Decimal :=
  let (word, places) := fill 0 whole
  let (word, unread) := fill word fraction
  ⟨word, places.length + unread.length - fraction.length⟩

/-! ## Doubles -/

/-- The greatest exponent of ten whose power is a finite double. -/
def maxPower : Nat := 308

def tenTo (n : Nat) : Float :=
  Float.ofScientific 1 false n

/-- `x * 10 ^ e` for a finite `x`, in steps of one multiplication or division; nothing when it is
too large for a double. -/
def scale? (x : Float) (e : Int) : Option Float :=
  if e.natAbs ≤ maxPower then
    let y := if 0 ≤ e then x * tenTo e.natAbs else x / tenTo e.natAbs
    if y.isFinite then some y else none
  else if x == 0.0 then some x
  else if 0 ≤ e then none
  else scale? (x / tenTo maxPower) (e + maxPower)
termination_by e.natAbs
decreasing_by simp only [maxPower] at *; omega

def ofDigits (negative : Bool) (whole fraction : List Char) (exponent : Int) : Json :=
  let d := leading whole fraction
  match scale? (Float.ofNat d.mantissa) (d.exponent + exponent) with
  | some x => .real (if negative then -x else x)
  | none => .unreadable

/-! ## Integers -/

/-- The integer with the digits given, if a word holds it; zero under a minus sign is none. -/
def integer? (negative : Bool) (digits : List Char) : Option Json :=
  match fill 0 digits with
  | (n, []) =>
    if !negative then some (.int n)
    else if n ≠ 0 ∧ Number.isWord (-n) then some (.int (-n))
    else none
  | _ => none

/-! ## Literals -/

def wholeDigits? (text : List Char) : Option (List Char × List Char) :=
  match Number.spanDigits text with
  | ([], _) => none
  | (['0'], rest) => some (['0'], rest)
  | ('0' :: _, _) => none
  | (digits, rest) => some (digits, rest)

def fraction? : List Char → Option (List Char × List Char)
  | '.' :: rest =>
    match Number.spanDigits rest with
    | ([], _) => none
    | (digits, after) => some (digits, after)
  | text => some ([], text)

/-- Neither a fraction nor an exponent follows. -/
def isPlain : List Char → Bool
  | '.' :: _ => false
  | 'e' :: _ => false
  | 'E' :: _ => false
  | _ => true

def number? (text : List Char) : Option (Json × List Char) := do
  let (negative, text) := match text with
    | '-' :: rest => (true, rest)
    | _ => (false, text)
  let (whole, rest) ← wholeDigits? text
  match (if isPlain rest then integer? negative whole else none) with
  | some j => return (j, rest)
  | none =>
    let (fraction, rest) ← fraction? rest
    let (exponent, rest) ← Number.spanExponent? rest
    return (ofDigits negative whole fraction exponent, rest)

end BlockScript.Json
