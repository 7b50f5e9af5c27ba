import BlockScript.Setting

/-!
# Defining TOML tables

A table may be defined once: by a header, by the dotted keys of one section, or in a line with its
braces. A header also makes the tables on the way to its own, and one of these may still get a
header of its own later; a table made by dotted keys may not. A list of tables grows by one table
with each header in double brackets, and a path through it leads to the last of them.
-/

namespace BlockScript.Toml

inductive Node where
  | value (v : Setting)
  /-- `implicit` until it has a header; `dotted` when dotted keys have made it. -/
  | table (implicit dotted : Bool) (entries : List (String × Node))
  /-- A list of tables, of which only the last can grow. -/
  | tables (earlier : List Setting) (last : List (String × Node))
deriving Inhabited

abbrev Entries := List (String × Node)

mutual

def Node.setting : Node → Setting
  | .value v => v
  | .table _ _ entries => .table (settings entries)
  | .tables earlier last => .list (earlier ++ [.table (settings last)])

def settings : List (String × Node) → List (String × Setting)
  | [] => []
  | (k, n) :: rest => (k, n.setting) :: settings rest

end

/-- Changes the table that a path leads to, given whether dotted keys have made it. Tables on the
way are made where there are none; dotted keys may not enter one that has a header. -/
def descend (dotted : Bool) (change : Bool → Entries → Option Entries) :
    (path : List String) → (made : Bool) → Entries → Option Entries
  | [], made, entries => change made entries
  | key :: path, _, entries =>
    match entries.lookup key with
    | none => do
      let sub ← descend dotted change path dotted []
      return entries ++ [(key, .table true dotted sub)]
    | some (.table implicit made sub) =>
      if dotted && !implicit then none
      else do
        let sub ← descend dotted change path made sub
        return Table.setIn key (.table implicit made sub) entries
    | some (.tables earlier last) => do
      let last ← descend dotted change path false last
      return Table.setIn key (.tables earlier last) entries
    | some (.value _) => none

/-- Gives a key its value. A table holds either dotted keys of its own section or plain ones. -/
def define (path : List String) (key : String) (v : Setting) (made : Bool) (entries : Entries) :
    Option Entries :=
  descend true
    (fun made entries =>
      if made == path.isEmpty || (entries.lookup key).isSome then none
      else some (entries ++ [(key, .value v)]))
    path made entries

/-- Opens the table of a header. One that was made on the way to another moves to the end. -/
def openTable (key : String) (_ : Bool) (entries : Entries) : Option Entries :=
  match entries.lookup key with
  | none => some (entries ++ [(key, .table false false [])])
  | some (.table true false sub) =>
    some (entries.filter (·.1 != key) ++ [(key, .table false false sub)])
  | _ => none

def openTables (key : String) (_ : Bool) (entries : Entries) : Option Entries :=
  match entries.lookup key with
  | none => some (entries ++ [(key, .tables [] [])])
  | some (.tables earlier last) =>
    some (Table.setIn key (.tables (earlier ++ [.table (settings last)]) []) entries)
  | _ => none

/-! ## Documents in the making -/

structure Draft where
  root : Entries
  current : List String

def Draft.empty : Draft := ⟨[], []⟩

def splitLast? : List String → Option (List String × String)
  | [] => none
  | [key] => some ([], key)
  | key :: rest => (splitLast? rest).map fun (path, last) => (key :: path, last)

def Draft.define? (d : Draft) (keys : List String) (v : Setting) : Option Draft := do
  let (path, key) ← splitLast? keys
  let root ← descend false (define path key v) d.current false d.root
  return { d with root }

def Draft.open? (d : Draft) (change : String → Bool → Entries → Option Entries)
    (keys : List String) : Option Draft := do
  let (path, key) ← splitLast? keys
  let root ← descend false (change key) path false d.root
  return ⟨root, keys⟩

end BlockScript.Toml
