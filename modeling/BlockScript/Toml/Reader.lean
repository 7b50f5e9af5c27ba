import BlockScript.Toml.Scalar
import BlockScript.Toml.Section

/-!
# Reading TOML

A document is a sequence of lines: comments, headers and keys with their values. Reading gives a
table, or nothing when the text is malformed or defines something twice. A key has fewer than 80
parts, and fewer than 80 arrays and tables in braces may be open at once.
-/

namespace BlockScript.Toml

/-- How many parts a key may have, and how many values may be open at once. -/
def maxDepth : Nat := 79

/-! ## Keys -/

def isBare (c : Char) : Bool :=
  c.isAlphanum || c == '_' || c == '-'

def simpleKey? (text : List Char) : Option (String × List Char) :=
  match text with
  | [] => none
  | c :: _ =>
    if isBare c then some (.ofList (text.takeWhile isBare), text.dropWhile isBare)
    else (lineString? text).map fun (s, rest) => (.ofList s, rest)

/-- A key of one or more parts with points between them, and no more than `parts`. -/
def keyOf? (parts : Nat) (text : List Char) : Option (List String × List Char) :=
  match parts with
  | 0 => none
  | parts + 1 => do
    let (part, rest) ← simpleKey? (skipBlanks text)
    match skipBlanks rest with
    | '.' :: rest =>
      let (more, rest) ← keyOf? parts rest
      return (part :: more, rest)
    | rest => return ([part], rest)

def key? (text : List Char) : Option (List String × List Char) :=
  keyOf? maxDepth text

/-! ## Values -/

def skipComment : List Char → List Char
  | '#' :: rest => rest.dropWhile isInline
  | text => text

def skipLines (comment : Bool) : List Char → List Char
  | [] => []
  | '\n' :: rest => skipLines false rest
  | '\r' :: '\n' :: rest => skipLines false rest
  | c :: rest =>
    if comment then if isInline c then skipLines true rest else c :: rest
    else if c = '#' then skipLines true rest
    else if isBlank c then skipLines false rest
    else c :: rest

mutual

/-- A value at the front. Each call takes a character or hands on to one that does, so `fuel` twice
the length of the text is enough. `depth` is how many more arrays and tables may open. -/
def value? (fuel depth : Nat) (text : List Char) : Option (Setting × List Char) :=
  match fuel with
  | 0 => none
  | fuel + 1 =>
    match text with
    | '[' :: rest => do
      if depth = 0 then none
      let (items, rest) ← items? fuel (depth - 1) rest
      return (.list items, rest)
    | '\x7b' :: rest => do
      if depth = 0 then none
      match skipBlanks rest with
      | '\x7d' :: rest => return (.table [], rest)
      | rest =>
        let (entries, rest) ← pairs? fuel (depth - 1) [] rest
        return (.table (settings entries), rest)
    | 't' :: 'r' :: 'u' :: 'e' :: rest => some (.bool true, rest)
    | 'f' :: 'a' :: 'l' :: 's' :: 'e' :: rest => some (.bool false, rest)
    | '"' :: _ => (string? text).map fun (s, rest) => (.text (.ofList s), rest)
    | '\'' :: _ => (string? text).map fun (s, rest) => (.text (.ofList s), rest)
    | _ => number? text

def items? (fuel depth : Nat) (text : List Char) : Option (List Setting × List Char) :=
  match fuel with
  | 0 => none
  | fuel + 1 =>
    match skipLines false text with
    | ']' :: rest => some ([], rest)
    | text => do
      let (item, rest) ← value? fuel depth text
      match skipLines false rest with
      | ',' :: rest =>
        let (items, rest) ← items? fuel depth rest
        return (item :: items, rest)
      | ']' :: rest => return ([item], rest)
      | _ => none

def pairs? (fuel depth : Nat) (entries : Entries) (text : List Char) :
    Option (Entries × List Char) :=
  match fuel with
  | 0 => none
  | fuel + 1 => do
    let (keys, rest) ← key? text
    let '=' :: rest := rest | none
    let (v, rest) ← value? fuel depth (skipBlanks rest)
    let (path, key) ← splitLast? keys
    let entries ← define path key v false entries
    match skipBlanks rest with
    | ',' :: rest => pairs? fuel depth entries rest
    | '\x7d' :: rest => return (entries, rest)
    | _ => none

end

/-! ## Lines -/

def lineEnd? (text : List Char) : Option (List Char) :=
  match skipComment (skipBlanks text) with
  | [] => some []
  | rest => newline? rest

def header? (text : List Char) : Option (List String × List Char) := do
  let (keys, rest) ← key? text
  let ']' :: rest := rest | none
  return (keys, rest)

/-- One line at the front of a text of at most `size` characters; it is not empty. -/
def line? (size : Nat) (d : Draft) (text : List Char) : Option (Draft × List Char) :=
  match text with
  | '[' :: '[' :: rest => do
    let (keys, rest) ← header? rest
    let ']' :: rest := rest | none
    return (← d.open? openTables keys, rest)
  | '[' :: rest => do
    let (keys, rest) ← header? rest
    return (← d.open? openTable keys, rest)
  | _ => do
    let (keys, rest) ← key? text
    let '=' :: rest := rest | none
    let (v, rest) ← value? (2 * size + 1) maxDepth (skipBlanks rest)
    return (← d.define? keys v, rest)

/-- All lines. Each takes a character at least, so what is left is never longer than `fuel`. -/
def lines? : Nat → Draft → List Char → Option Draft
  | 0, _, _ => none
  | fuel + 1, d, text =>
    let text := skipBlanks text
    match text with
    | [] => some d
    | '#' :: _ => (lineEnd? text).bind (lines? fuel d)
    | '\n' :: rest => lines? fuel d rest
    | '\r' :: '\n' :: rest => lines? fuel d rest
    | _ => do
      let (d, rest) ← line? fuel d text
      lines? fuel d (← lineEnd? rest)

/-- The table that a document denotes. A byte order mark in front does not count. -/
def read? (text : String) : Option Setting :=
  let chars := match text.toList with
    | '\uFEFF' :: rest => rest
    | chars => chars
  match (lines? (chars.length + 1) .empty chars).bind fun d => dated? (.table (settings d.root)) with
  | some (.table pairs) => some (.table pairs)
  | _ => none

end BlockScript.Toml
