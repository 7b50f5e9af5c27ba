import BlockScript.Number.Decimal
import BlockScript.Table
import BlockScript.Text.Lowercase

/-!
# Raw settings

What a configuration source says, before it is known what for. Sources are laid one over the
other: a later table is merged into an earlier one key by key, and anything else replaces what was
there. Keys are compared without regard to case.
-/

namespace BlockScript

inductive Setting where
  | nil
  | bool (b : Bool)
  | int (n : Int)
  | float (x : Float)
  | text (s : String)
  | list (items : List Setting)
  | table (pairs : List (String × Setting))
deriving Inhabited

namespace Setting

def pairs : Setting → List (String × Setting)
  | .table pairs => pairs
  | _ => []

def items : Setting → List Setting
  | .list items => items
  | _ => []

def find? (s : Setting) (key : String) : Option Setting :=
  s.pairs.lookup key

/-- A table with one key given anew. What was no table is one from then on. -/
def put (s : Setting) (key : String) (value : Setting) : Setting :=
  .table (Table.setIn key value s.pairs)

/-! ## Laying one over another -/

mutual

/-- Sets a key. A table goes into what is there key by key. -/
def set (root : Setting) (key : String) : Setting → Setting
  | .table pairs =>
    let key := Text.lowercase key
    root.put key (setAll ((root.find? key).getD (.table [])) pairs)
  | value => root.put (Text.lowercase key) value

def setAll (root : Setting) : List (String × Setting) → Setting
  | [] => root
  | (key, value) :: rest => setAll (root.set key value) rest

end

/-! ## Keys with a path in them -/

inductive Step where
  | key (name : String)
  | slot (index : Int)
deriving DecidableEq

def isNameChar (c : Char) : Bool :=
  c.isAlphanum || c == ' ' || c == '_' || c == '-'

def isGap (c : Char) : Bool :=
  c == ' ' || c == '\t'

/-- An index in brackets, after the opening one. It is a signed word. -/
def slot? (text : List Char) : Option (Int × List Char) :=
  let (negative, text) := match text.dropWhile isGap with
    | '-' :: rest => (true, rest)
    | rest => (false, rest)
  match Number.spanDigits text with
  | ([], _) => none
  | (digits, rest) =>
    let n : Int := if negative then -Number.ofDigits digits else Number.ofDigits digits
    match rest.dropWhile isGap with
    | ']' :: rest => if Number.isWord n then some (n, rest) else none
    | _ => none

/-- The steps after the first name, each of which takes a character at least. -/
def steps? : Nat → List Char → Option (List Step)
  | _, [] => some []
  | 0, _ => none
  | fuel + 1, '.' :: rest =>
    match rest.takeWhile isNameChar with
    | [] => none
    | name => (steps? fuel (rest.dropWhile isNameChar)).map (.key (.ofList name) :: ·)
  | fuel + 1, '[' :: rest =>
    match slot? rest with
    | some (index, rest) => (steps? fuel rest).map (.slot index :: ·)
    | none => none
  | _, _ => none

/-- A key such as `a.b[0]` leads through several settings; one that is no such path is a name. -/
def path (key : String) : List Step :=
  let text := key.toList
  match text.takeWhile isNameChar, steps? text.length (text.dropWhile isNameChar) with
  | [], _ => [.key key]
  | name, some steps => .key (.ofList name) :: steps
  | _, none => [.key key]

def slotOffset? (index : Int) (length : Nat) : Option Nat :=
  if 0 ≤ index then some index.toNat
  else if index.natAbs ≤ length then some (length - index.natAbs)
  else none

/-- Changes a slot of a list, which grows until it has it, but not at its start. What was no list is one
from then on. -/
def putSlot (s : Setting) (index : Int) (change : Setting → Setting) : Setting :=
  match slotOffset? index s.items.length with
  | none => .list s.items
  | some i =>
    let grown := s.items ++ List.replicate (i + 1 - s.items.length) .nil
    .list (grown.set i (change (grown.getD i .nil)))

def setAt (s : Setting) (path : List Step) (value : Setting) : Setting :=
  match path with
  | [] => value
  | [.key name] => s.set name value
  | .key name :: rest =>
    let key := Text.lowercase name
    s.put key (setAt ((s.find? key).getD .nil) rest value)
  | .slot index :: rest => s.putSlot index fun old => setAt old rest value

/-- Lays a source over what is there. Only its outermost keys are read as paths. -/
def layer (root source : Setting) : Setting :=
  source.pairs.foldl (fun root (key, value) => root.setAt (path key) value) root

end Setting

end BlockScript
