/-!
# Writing TOML

A string is written in the plainest form that needs no escapes: between quotation marks, between
apostrophes, or between three of either, over several lines when it has line ends. Only a string
that fits none of these is escaped.
-/

namespace BlockScript.Toml

/-! ## What a string contains -/

/-- The length of the longest run of a character. -/
def longestRun (c : Char) (text : List Char) : Nat :=
  go 0 text
where
  go (run : Nat) : List Char → Nat
    | [] => run
    | d :: rest => if d = c then go (run + 1) rest else max run (go 0 rest)

/-- Control characters that no form shows as they are. -/
def isControl (c : Char) : Bool :=
  (c.toNat < 0x20 && c != '\t' && c != '\n') || c.toNat == 0x7F

inductive Form where
  | basic
  | literal
  | multiBasic
  | multiLiteral
deriving DecidableEq

/-- The form that a string is written in. -/
def chooseForm (text : List Char) : Form :=
  let control := text.any isControl
  let lines := text.contains '\n'
  let slashes := text.contains '\\'
  let quotes := longestRun '"' text
  let apostrophes := longestRun '\'' text
  if !control && !slashes && quotes = 0 && !lines then .basic
  else if !control && apostrophes = 0 && !lines then .literal
  else if !control && !slashes && quotes ≤ 2 then .multiBasic
  else if !control && apostrophes ≤ 2 then .multiLiteral
  else if lines then .multiBasic
  else .basic

/-! ## Escapes -/

/-- Four hexadecimal digits in upper case. -/
def hex4 (n : Nat) : List Char :=
  let digit (n : Nat) : Char := (Nat.digitChar (n % 16)).toUpper
  [digit (n / 4096), digit (n / 256), digit (n / 16), digit n]

def escapeControl (c : Char) : List Char :=
  match c with
  | '\x08' => ['\\', 'b']
  | '\t' => ['\\', 't']
  | '\n' => ['\\', 'n']
  | '\x0c' => ['\\', 'f']
  | '\r' => ['\\', 'r']
  | '\\' => ['\\', '\\']
  | c => if c.toNat < 0x20 || c.toNat == 0x7F then '\\' :: 'u' :: hex4 c.toNat else [c]

/-- Escapes what cannot stand between quotation marks. Of a run of those, `allowed` stand as they
are before one is escaped; over several lines a line end stands as it is. -/
def escape (multi : Bool) (allowed : Nat) (run : Nat) : List Char → List Char
  | [] => []
  | '"' :: rest =>
    if run < allowed then '"' :: escape multi allowed (run + 1) rest
    else '\\' :: '"' :: escape multi allowed 0 rest
  | '\n' :: rest =>
    (if multi then ['\n'] else ['\\', 'n']) ++ escape multi allowed 0 rest
  | c :: rest => escapeControl c ++ escape multi allowed 0 rest

/-- A string of several lines starts on the line after its opening marks. -/
def firstLine (text : List Char) : List Char :=
  if text.contains '\n' then ['\n'] else []

def quote (s : String) : String :=
  let text := s.toList
  .ofList <| match chooseForm text with
    | .basic => '"' :: escape false 0 0 text ++ ['"']
    | .literal => '\'' :: text ++ ['\'']
    | .multiBasic => "\"\"\"".toList ++ firstLine text ++ escape true 2 0 text ++ "\"\"\"".toList
    | .multiLiteral => "'''".toList ++ firstLine text ++ text ++ "'''".toList

end BlockScript.Toml
