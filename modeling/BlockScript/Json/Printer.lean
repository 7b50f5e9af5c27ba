import BlockScript.Json

/-!
# Writing JSON text

One item a line, two spaces deeper in each container; an empty container stays on its line.
-/

namespace BlockScript.Json

/-- Doubles in JSON: written out from `0.00001` to just below `1e+16`, a whole number ending in
`.0`. -/
def layout : Number.Layout where
  tie := .even
  least := -5
  most := 16
  point := true
  nan := "null"
  infinity := "null"
  signedZero := true

/-- JSON has no infinities and no NaN; they are written as null. -/
def floatText (x : Float) : String :=
  if x.isFinite then layout.format x else "null"

def hexDigit (n : Nat) : Char :=
  Nat.digitChar (n % 16)

def escapeChar (c : Char) : List Char :=
  match c with
  | '"' => ['\\', '"']
  | '\\' => ['\\', '\\']
  | '\x08' => ['\\', 'b']
  | '\x0c' => ['\\', 'f']
  | '\n' => ['\\', 'n']
  | '\r' => ['\\', 'r']
  | '\t' => ['\\', 't']
  | c =>
    if c.toNat < 0x20 then ['\\', 'u', '0', '0', hexDigit (c.toNat / 16), hexDigit c.toNat]
    else [c]

def quote (s : String) : String :=
  .ofList ('"' :: s.toList.flatMap escapeChar ++ ['"'])

/-- A new line at a depth. -/
def newline (depth : Nat) : String :=
  "\n" ++ .ofList (List.replicate (2 * depth) ' ')

/-- A container: its items on lines of their own one level deeper. -/
def enclose (opening closing : String) (depth : Nat) (items : List String) : String :=
  if items.isEmpty then opening ++ closing
  else
    opening ++ newline (depth + 1) ++ (("," ++ newline (depth + 1)).intercalate items)
      ++ newline depth ++ closing

mutual

def prettyAt (depth : Nat) : Json → String
  | .null => "null"
  | .bool b => if b then "true" else "false"
  | .int n => toString n
  | .real x => floatText x
  | .str s => quote s
  | .arr items => enclose "[" "]" depth (prettyItems (depth + 1) items)
  | .obj fields => enclose "\x7b" "\x7d" depth (prettyFields (depth + 1) fields)
  | .unreadable => "null"

def prettyItems (depth : Nat) : List Json → List String
  | [] => []
  | j :: rest => prettyAt depth j :: prettyItems depth rest

def prettyFields (depth : Nat) : List (String × Json) → List String
  | [] => []
  | (k, j) :: rest => (quote k ++ ": " ++ prettyAt depth j) :: prettyFields depth rest

end

def pretty (j : Json) : String :=
  prettyAt 0 j

end BlockScript.Json
