import BlockScript.Toml.Date

/-!
# TOML scalars

Strings in their four forms, numbers, and dates and times. Every reader takes what it can from the
front of a text and leaves the rest.
-/

namespace BlockScript.Toml

open Number (ofDigits)

/-! ## Characters -/

def isBlank (c : Char) : Bool :=
  c == ' ' || c == '\t'

def skipBlanks (text : List Char) : List Char :=
  text.dropWhile isBlank

/-- What may stand in a line: no control character but the tab. -/
def isInline (c : Char) : Bool :=
  c == '\t' || (0x20 ≤ c.toNat && c.toNat != 0x7F)

def newline? : List Char → Option (List Char)
  | '\n' :: rest => some rest
  | '\r' :: '\n' :: rest => some rest
  | _ => none

def hexValue? (c : Char) : Option Nat :=
  if '0' ≤ c ∧ c ≤ '9' then some (c.toNat - '0'.toNat)
  else if 'a' ≤ c ∧ c ≤ 'f' then some (c.toNat - 'a'.toNat + 10)
  else if 'A' ≤ c ∧ c ≤ 'F' then some (c.toNat - 'A'.toNat + 10)
  else none

def scalar? (digits : List Char) : Option Char := do
  let n := (← digits.mapM hexValue?).foldl (fun n d => 16 * n + d) 0
  if n.isValidChar then return Char.ofNat n else none

def simpleEscape? : Char → Option Char
  | 'b' => some '\x08'
  | 't' => some '\t'
  | 'n' => some '\n'
  | 'f' => some '\x0c'
  | 'r' => some '\r'
  | '"' => some '"'
  | '\\' => some '\\'
  | _ => none

/-! ## Strings -/

def prepend (c : Char) : Option (List Char × List Char) → Option (List Char × List Char)
  | some (s, rest) => some (c :: s, rest)
  | none => none

def basic? : List Char → Option (List Char × List Char)
  | '"' :: rest => some ([], rest)
  | '\\' :: 'u' :: a :: b :: c :: d :: rest =>
    match scalar? [a, b, c, d] with
    | some e => prepend e (basic? rest)
    | none => none
  | '\\' :: 'U' :: a :: b :: c :: d :: e :: f :: g :: h :: rest =>
    match scalar? [a, b, c, d, e, f, g, h] with
    | some e => prepend e (basic? rest)
    | none => none
  | '\\' :: c :: rest =>
    match simpleEscape? c with
    | some e => prepend e (basic? rest)
    | none => none
  | c :: rest => if isInline c then prepend c (basic? rest) else none
  | [] => none

def literal? : List Char → Option (List Char × List Char)
  | '\'' :: rest => some ([], rest)
  | c :: rest => if isInline c then prepend c (literal? rest) else none
  | [] => none

def endsLine (text : List Char) : Bool :=
  (newline? (skipBlanks text)).isSome

/-- After three quotation marks. Up to two more may stand before the closing ones. `skipping` is set
after a backslash at the end of a line, and drops blanks and line ends. -/
def multiBasic? (skipping : Bool) : List Char → Option (List Char × List Char)
  | '"' :: '"' :: '"' :: '"' :: '"' :: rest => some (['"', '"'], rest)
  | '"' :: '"' :: '"' :: '"' :: rest => some (['"'], rest)
  | '"' :: '"' :: '"' :: rest => some ([], rest)
  | '\r' :: '\n' :: rest =>
    if skipping then multiBasic? true rest else prepend '\n' (multiBasic? false rest)
  | '\n' :: rest =>
    if skipping then multiBasic? true rest else prepend '\n' (multiBasic? false rest)
  | '\\' :: 'u' :: a :: b :: c :: d :: rest =>
    match scalar? [a, b, c, d] with
    | some e => prepend e (multiBasic? false rest)
    | none => none
  | '\\' :: 'U' :: a :: b :: c :: d :: e :: f :: g :: h :: rest =>
    match scalar? [a, b, c, d, e, f, g, h] with
    | some e => prepend e (multiBasic? false rest)
    | none => none
  | '\\' :: c :: rest =>
    if endsLine (c :: rest) then multiBasic? true (c :: rest)
    else
      match simpleEscape? c with
      | some e => prepend e (multiBasic? false rest)
      | none => none
  | c :: rest =>
    if skipping && isBlank c then multiBasic? true rest
    else if isInline c then prepend c (multiBasic? false rest)
    else none
  | [] => none

/-- After three apostrophes. Up to two more may stand before the closing ones. -/
def multiLiteral? : List Char → Option (List Char × List Char)
  | '\'' :: '\'' :: '\'' :: '\'' :: '\'' :: rest => some (['\'', '\''], rest)
  | '\'' :: '\'' :: '\'' :: '\'' :: rest => some (['\''], rest)
  | '\'' :: '\'' :: '\'' :: rest => some ([], rest)
  | '\r' :: '\n' :: rest => prepend '\n' (multiLiteral? rest)
  | '\n' :: rest => prepend '\n' (multiLiteral? rest)
  | c :: rest => if isInline c then prepend c (multiLiteral? rest) else none
  | [] => none

/-- A line end right after three opening marks does not count. -/
def skipFirstNewline (text : List Char) : List Char :=
  (newline? text).getD text

def lineString? : List Char → Option (List Char × List Char)
  | '"' :: rest => basic? rest
  | '\'' :: rest => literal? rest
  | _ => none

def string? : List Char → Option (List Char × List Char)
  | '"' :: '"' :: '"' :: rest => multiBasic? false (skipFirstNewline rest)
  | '\'' :: '\'' :: '\'' :: rest => multiLiteral? (skipFirstNewline rest)
  | text => lineString? text

/-! ## Numbers -/

/-- Digits, with underscores between two of them dropped. -/
def digits (isDigit : Char → Bool) : List Char → List Char × List Char
  | '_' :: c :: rest =>
    if isDigit c then
      let (more, rest) := digits isDigit (c :: rest)
      (more, rest)
    else ([], '_' :: c :: rest)
  | c :: rest =>
    if isDigit c then
      let (more, rest) := digits isDigit rest
      (c :: more, rest)
    else ([], c :: rest)
  | [] => ([], [])

def someDigits? (isDigit : Char → Bool) (text : List Char) : Option (List Char × List Char) :=
  match text with
  | c :: _ => if isDigit c then some (digits isDigit text) else none
  | [] => none

/-- Zero alone, or digits that start with another one. -/
def wholeDigits? : List Char → Option (List Char × List Char)
  | '0' :: rest => some (['0'], rest)
  | text => someDigits? Char.isDigit text

def sign : List Char → Bool × List Char
  | '+' :: rest => (false, rest)
  | '-' :: rest => (true, rest)
  | text => (false, text)

/-- The digits of a fraction and its length; none when there is no point. -/
def fraction? : List Char → Option (List Char × List Char)
  | '.' :: rest => someDigits? Char.isDigit rest
  | _ => none

def exponent? : List Char → Option (Int × List Char)
  | c :: rest =>
    if c = 'e' ∨ c = 'E' then
      let (negative, rest) := sign rest
      match someDigits? Char.isDigit rest with
      | some (ds, rest) => some (if negative then -ofDigits ds else ofDigits ds, rest)
      | none => none
    else none
  | [] => none

/-- Infinity as a result is refused, but not its opposite. -/
def ofDecimal? (negative : Bool) (d : Number.Decimal) : Option Setting :=
  let x := d.toFloat
  if negative then some (.float (-x)) else if x.isInf then none else some (.float x)

def float? (text : List Char) : Option (Setting × List Char) := do
  let (negative, text) := sign text
  let (whole, rest) ← wholeDigits? text
  match fraction? rest with
  | some (fraction, rest) =>
    let (e, rest) := (exponent? rest).getD (0, rest)
    return (← ofDecimal? negative ⟨ofDigits (whole ++ fraction), e - fraction.length⟩, rest)
  | none =>
    let (e, rest) ← exponent? rest
    return (← ofDecimal? negative ⟨ofDigits whole, e⟩, rest)

def ofInteger? (n : Int) : Option Setting :=
  if Number.isWord n then some (.int n) else none

def based? (base : Nat) (text : List Char) : Option (Setting × List Char) := do
  let isDigit (c : Char) : Bool := (hexValue? c).any (· < base)
  let (ds, rest) ← someDigits? isDigit text
  return (← ofInteger? (ds.foldl (fun n c => base * n + (hexValue? c).getD 0) 0), rest)

def integer? : List Char → Option (Setting × List Char)
  | '0' :: 'x' :: rest => based? 16 rest
  | '0' :: 'o' :: rest => based? 8 rest
  | '0' :: 'b' :: rest => based? 2 rest
  | text => do
    let (negative, text) := sign text
    let (ds, rest) ← wholeDigits? text
    return (← ofInteger? (if negative then -ofDigits ds else ofDigits ds), rest)

def special? (text : List Char) : Option (Setting × List Char) :=
  let (negative, text) := sign text
  match text with
  | 'i' :: 'n' :: 'f' :: rest => some (.float (if negative then -(1.0 / 0.0) else 1.0 / 0.0), rest)
  | 'n' :: 'a' :: 'n' :: rest => some (.float (0.0 / 0.0), rest)
  | _ => none

/-! ## All of them -/

def number? (text : List Char) : Option (Setting × List Char) :=
  match Moment.literal? text with
  | some (m, rest) => some (m.setting, rest)
  | none =>
    match float? text with
    | some found => some found
    | none =>
      match integer? text with
      | some found => some found
      | none => special? text

end BlockScript.Toml
