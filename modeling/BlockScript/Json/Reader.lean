import BlockScript.Json.Number

/-!
# Reading JSON text

Strict JSON: no comments, no trailing commas, no control characters in strings, and nothing but
white space after the value. At most 127 containers may be open at once; a deeper one is well
formed but unreadable, as are a number too large for a double and a lone surrogate.
-/

namespace BlockScript.Json

def isSpace (c : Char) : Bool :=
  c == ' ' || c == '\t' || c == '\n' || c == '\r'

def skipSpace (text : List Char) : List Char :=
  text.dropWhile isSpace

/-! ## Strings -/

def hex4? (a b c d : Char) : Option Nat := do
  let digit (c : Char) : Option Nat :=
    if '0' ≤ c ∧ c ≤ '9' then some (c.toNat - '0'.toNat)
    else if 'a' ≤ c ∧ c ≤ 'f' then some (c.toNat - 'a'.toNat + 10)
    else if 'A' ≤ c ∧ c ≤ 'F' then some (c.toNat - 'A'.toNat + 10)
    else none
  return (((← digit a) * 16 + (← digit b)) * 16 + (← digit c)) * 16 + (← digit d)

def escape? : Char → Option Char
  | '"' => some '"'
  | '\\' => some '\\'
  | '/' => some '/'
  | 'b' => some '\x08'
  | 'f' => some '\x0c'
  | 'n' => some '\n'
  | 'r' => some '\r'
  | 't' => some '\t'
  | _ => none

/-- The characters of a string up to its closing quote, as code points; a surrogate escape is left
as the half it is. -/
def codes? : List Char → Option (List Nat × List Char)
  | [] => none
  | '"' :: rest => some ([], rest)
  | '\\' :: 'u' :: a :: b :: c :: d :: rest =>
    match hex4? a b c d, codes? rest with
    | some n, some (codes, after) => some (n :: codes, after)
    | _, _ => none
  | '\\' :: e :: rest =>
    match escape? e, codes? rest with
    | some c, some (codes, after) => some (c.toNat :: codes, after)
    | _, _ => none
  | c :: rest =>
    if c.toNat < 0x20 then none
    else
      match codes? rest with
      | some (codes, after) => some (c.toNat :: codes, after)
      | none => none

/-- Joins surrogate pairs; a half that stands alone is refused. -/
def joinPairs? : List Nat → Option (List Char)
  | [] => some []
  | [n] => if 0xD800 ≤ n ∧ n < 0xE000 then none else some [Char.ofNat n]
  | n :: k :: rest =>
    if 0xD800 ≤ n ∧ n < 0xDC00 then
      if 0xDC00 ≤ k ∧ k < 0xE000 then
        (joinPairs? rest).map (Char.ofNat (0x10000 + (n - 0xD800) * 0x400 + (k - 0xDC00)) :: ·)
      else none
    else if 0xDC00 ≤ n ∧ n < 0xE000 then none
    else (joinPairs? (k :: rest)).map (Char.ofNat n :: ·)

/-- A string after its opening quote, with its text if it has one. -/
def string? (text : List Char) : Option (Option String × List Char) :=
  (codes? text).map fun (codes, after) => ((joinPairs? codes).map String.ofList, after)

/-! ## Values -/

def expect? : List Char → List Char → Option (List Char)
  | [], text => some text
  | w :: word, c :: text => if w = c then expect? word text else none
  | _ :: _, [] => none

mutual

/-- A value at the start of the text. Each call takes a character or hands on to one that does, so
`fuel` twice the length of the text is enough. `depth` is how many more containers may open. -/
def value? (fuel depth : Nat) (text : List Char) : Option (Json × List Char) :=
  match fuel with
  | 0 => none
  | fuel + 1 =>
    match skipSpace text with
    | '"' :: rest => do
      let (s, rest) ← string? rest
      return (s.elim .unreadable .str, rest)
    | '[' :: rest => do
      let (items, rest) ← match skipSpace rest with
        | ']' :: rest => some ([], rest)
        | rest => items? fuel (depth - 1) rest
      return (if depth = 0 then .unreadable else .arr items, rest)
    | '{' :: rest => do
      let (fields, rest) ← match skipSpace rest with
        | '}' :: rest => some ([], rest)
        | rest => fields? fuel (depth - 1) rest
      return (if depth = 0 ∨ fields.any (·.1.isNone) then .unreadable
        else .obj (fields.map fun (k, j) => (k.getD "", j)), rest)
    | 'n' :: rest => (expect? "ull".toList rest).map (.null, ·)
    | 't' :: rest => (expect? "rue".toList rest).map (.bool true, ·)
    | 'f' :: rest => (expect? "alse".toList rest).map (.bool false, ·)
    | rest => number? rest

def items? (fuel depth : Nat) (text : List Char) : Option (List Json × List Char) :=
  match fuel with
  | 0 => none
  | fuel + 1 => do
    let (j, rest) ← value? fuel depth text
    match skipSpace rest with
    | ',' :: rest =>
      let (items, rest) ← items? fuel depth rest
      return (j :: items, rest)
    | ']' :: rest => return ([j], rest)
    | _ => none

def fields? (fuel depth : Nat) (text : List Char) :
    Option (List (Option String × Json) × List Char) :=
  match fuel with
  | 0 => none
  | fuel + 1 =>
    match skipSpace text with
    | '"' :: rest => do
      let (key, rest) ← string? rest
      match skipSpace rest with
      | ':' :: rest =>
        let (j, rest) ← value? fuel depth rest
        match skipSpace rest with
        | ',' :: rest =>
          let (fields, rest) ← fields? fuel depth rest
          return ((key, j) :: fields, rest)
        | '}' :: rest => return ([(key, j)], rest)
        | _ => none
      | _ => none
    | _ => none

end

/-- How many containers may be open at once. -/
def maxDepth : Nat := 127

def read? (text : String) : Option Json :=
  let chars := text.toList
  match value? (2 * chars.length + 2) maxDepth chars with
  | some (j, rest) => if (skipSpace rest).isEmpty then some j else none
  | none => none

end BlockScript.Json
