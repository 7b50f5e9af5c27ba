import BlockScript.Settings.Layers
import BlockScript.Text.Alphanumeric
import BlockScript.Text.Blank

/-!
# Environment files

A file of lines `NAME=value` adds variables to an environment, but changes none that is set. A
value may be quoted, and a quotation may run over several lines; outside single quotes a backslash
escapes and `$NAME` or `$` with a name in braces stands for a variable. The first malformed line
ends the file, and what came before it counts.
-/

namespace BlockScript.EnvironmentFile

open Text (isSpace)

/-! ## Lines -/

inductive Context where
  | plain
  | blank
  | escape
  | single
  | singleEscape
  | double
  | doubleEscape
  | comment
deriving DecidableEq

def Context.next : Context → Char → Context
  | .plain, '\\' => .escape
  | .plain, '"' => .double
  | .plain, '\'' => .single
  | .plain, c => if isSpace c && c != '\n' && c != '\r' then .blank else .plain
  | .blank, '#' => .comment
  | .blank, '\\' => .escape
  | .blank, '"' => .double
  | .blank, '\'' => .single
  | .blank, _ => .plain
  | .escape, _ => .plain
  | .single, '\\' => .singleEscape
  | .single, '\'' => .plain
  | .single, _ => .single
  | .singleEscape, _ => .single
  | .double, '\\' => .doubleEscape
  | .double, '"' => .plain
  | .double, _ => .double
  | .doubleEscape, _ => .double
  | .comment, _ => .comment

/-- Reads a line up to a comment, and says in what it ends. -/
def scan (context : Context) : List Char → List Char × Context
  | [] => ([], context)
  | c :: rest =>
    match context.next c with
    | .comment => ([], .comment)
    | next =>
      let (kept, last) := scan next rest
      (c :: kept, last)

/-- Cuts a text after each line end, which stays. -/
def cutLines : List Char → List (List Char)
  | [] => []
  | c :: rest =>
    if c = '\n' then [c] :: cutLines rest
    else
      match cutLines rest with
      | [] => [[c]]
      | line :: lines => (c :: line) :: lines

def dropLineEnd (line : List Char) : List Char :=
  match line.reverse with
  | '\n' :: '\r' :: rest => rest.reverse
  | '\n' :: rest => rest.reverse
  | _ => line

/-- Lines as they are read, a quotation that is open at the end of one going on in the next.
Nothing stands for what the end of the file cuts off. -/
def joinLines (before : List Char) (context : Context) :
    List (List Char) → List (Option (List Char))
  | [] => if context = .plain then [] else [none]
  | line :: rest =>
    let all := before ++ line
    if (all.dropWhile isSpace).head? = some '#' then joinLines [] .plain rest
    else
      match scan context line with
      | (kept, .comment) => some (before ++ kept) :: joinLines [] .plain rest
      | (_, .plain) => some (dropLineEnd all) :: joinLines [] .plain rest
      | (_, open_) => joinLines all open_ rest

/-! ## Values -/

inductive Naming where
  | none
  | bare (name : List Char)
  | braced (name : List Char)

structure Reading where
  single : Bool := false
  double : Bool := false
  escaped : Bool := false
  /-- After a blank only a comment may follow. -/
  ended : Bool := false
  naming : Naming := .none

def escaped? : Char → Option Char
  | 'n' => some '\n'
  | c => if c ∈ ['\\', '\'', '"', '$', ' '] then some c else none

/-- What one character of a value leads to, and what it adds to the value. -/
def Reading.step (lookup : List Char → List Char) (r : Reading) (c : Char) :
    Option (List Char × Reading) :=
  if r.escaped then (escaped? c).map fun e => ([e], { r with escaped := false })
  else if r.single then
    some (if c = '\'' then ([], { r with single := false }) else ([c], r))
  else
    match r.naming with
    | .bare name =>
      if Text.isAlphanumeric c then some ([], { r with naming := .bare (name ++ [c]) })
      else if c = '\x7b' ∧ name = [] then some ([], { r with naming := .braced [] })
      else if c = '$' then some (lookup name, { r with naming := .bare [] })
      else some (lookup name ++ [c], { r with naming := .none })
    | .braced name =>
      some (if c = '\x7d' then (lookup name, { r with naming := .none })
        else ([], { r with naming := .braced (name ++ [c]) }))
    | .none =>
      if c = '$' then some ([], { r with naming := .bare [] })
      else if r.double then
        some (if c = '"' then ([], { r with double := false })
          else if c = '\\' then ([], { r with escaped := true })
          else ([c], r))
      else if c = '\'' then some ([], { r with single := true })
      else if c = '"' then some ([], { r with double := true })
      else if c = '\\' then some ([], { r with escaped := true })
      else if c = ' ' ∨ c = '\t' then some ([], { r with ended := true })
      else some ([c], r)

def readValue (lookup : List Char → List Char) (r : Reading) : List Char → Option (List Char)
  | [] =>
    if r.single || r.double then none
    else
      match r.naming with
      | .none => some []
      | .bare name => some (lookup name)
      | .braced _ => none
  | c :: rest =>
    if r.ended then
      if c = ' ' ∨ c = '\t' then readValue lookup r rest
      else if c = '#' then some []
      else none
    else
      match r.step lookup c with
      | some (added, r) => (readValue lookup r rest).map (added ++ ·)
      | none => none

/-! ## Variables -/

def isNameStart (c : Char) : Bool :=
  c.isAlpha || c == '_'

def isNameChar (c : Char) : Bool :=
  c.isAlphanum || c == '_' || c == '.'

def name? (text : List Char) : Option (List Char × List Char) :=
  match text with
  | c :: _ =>
    if isNameStart c then
      some (text.takeWhile isNameChar, (text.dropWhile isNameChar).dropWhile isSpace)
    else none
  | [] => none

/-- The name of a line and what follows its equals sign. The word `export` may stand in front. -/
def assignment? (text : List Char) : Option (List Char × List Char) := do
  let (name, rest) ← name? text
  match rest with
  | '=' :: rest => return (name, rest.dropWhile isSpace)
  | rest =>
    if name = "export".toList then
      let (name, rest) ← name? rest
      let '=' :: rest := rest | none
      return (name, rest.dropWhile isSpace)
    else none

/-- The variables of a file so far: all of its own, and the environment with those it has added. -/
structure Loading where
  own : Environment
  environment : Environment

def Loading.lookup (l : Loading) (name : List Char) : List Char :=
  let name := String.ofList name
  ((l.environment.find? name <|> l.own.find? name).getD "").toList

def Loading.add (l : Loading) (name : List Char) (value : List Char) : Loading :=
  let name := String.ofList name
  let value := String.ofList value
  { own := l.own.insert name value
    environment :=
      if l.environment.contains name then l.environment else l.environment.insert name value }

def Loading.line? (l : Loading) (line : List Char) : Option Loading :=
  let text := Text.strip isSpace line
  match text with
  | [] => some l
  | '#' :: _ => some l
  | _ => do
    let (name, rest) ← assignment? text
    match rest with
    | [] => return l.add name []
    | '#' :: _ => return l.add name []
    | _ => return l.add name (← readValue l.lookup {} rest)

def Loading.lines (l : Loading) : List (Option (List Char)) → Loading
  | some line :: rest =>
    match l.line? line with
    | some l => l.lines rest
    | none => l
  | _ => l

def load (environment : Environment) (text : String) : Environment :=
  let chars := match text.toList with
    | '\uFEFF' :: rest => rest
    | chars => chars
  ((Loading.mk .empty environment).lines (joinLines [] .plain (cutLines chars))).environment

end BlockScript.EnvironmentFile
