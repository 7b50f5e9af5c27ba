/-!
# Decimal literals

`D+ [. D*] | . D+`, then optionally `e` or `E`, a sign and digits. A literal denotes a rational
`mantissa * 10 ^ exponent`, and reads as the double nearest to it.
-/

namespace BlockScript.Number

/-- `mantissa * 10 ^ exponent`, as a literal denotes it. -/
structure Decimal where
  mantissa : Nat
  exponent : Int
deriving DecidableEq

/-- The double nearest to the rational, a half going to even; an infinity beyond the range. -/
def Decimal.toFloat (d : Decimal) : Float :=
  Float.ofScientific d.mantissa (d.exponent < 0) d.exponent.natAbs

def digitValue (c : Char) : Nat :=
  c.toNat - '0'.toNat

def ofDigits (digits : List Char) : Nat :=
  digits.foldl (fun n c => 10 * n + digitValue c) 0

def spanDigits (text : List Char) : List Char × List Char :=
  (text.takeWhile Char.isDigit, text.dropWhile Char.isDigit)

def natural? (text : List Char) : Option Nat :=
  let digits := match text with
    | '+' :: rest => rest
    | _ => text
  if !digits.isEmpty && digits.all Char.isDigit then some (ofDigits digits) else none

def integer? : List Char → Option Int
  | '-' :: '+' :: _ => none
  | '-' :: rest => (natural? rest).map fun n => -n
  | text => (natural? text).map fun n => n

/-- The integers that a signed word of 64 bits holds. -/
def isWord (n : Int) : Bool :=
  -0x8000000000000000 ≤ n && n < 0x8000000000000000

def spanFraction : List Char → List Char × List Char
  | '.' :: rest => spanDigits rest
  | text => ([], text)

/-- An exponent with its sign; nothing when it has no digits. -/
def exponentValue? : List Char → Option (Int × List Char)
  | '+' :: rest => unsigned rest
  | '-' :: rest => (unsigned rest).map fun (n, after) => (-n, after)
  | rest => unsigned rest
where
  unsigned (text : List Char) : Option (Int × List Char) :=
    match spanDigits text with
    | ([], _) => none
    | (digits, after) => some (ofDigits digits, after)

/-- The exponent part, zero when there is none. -/
def spanExponent? : List Char → Option (Int × List Char)
  | 'e' :: rest => exponentValue? rest
  | 'E' :: rest => exponentValue? rest
  | text => some (0, text)

def Decimal.read? (text : List Char) : Option Decimal :=
  let (whole, rest) := spanDigits text
  let (fraction, rest) := spanFraction rest
  if whole.isEmpty && fraction.isEmpty then none
  else
    match spanExponent? rest with
    | some (exponent, []) =>
      some ⟨ofDigits (whole ++ fraction), exponent - fraction.length⟩
    | _ => none

end BlockScript.Number
