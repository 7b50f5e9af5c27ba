import BlockScript.Value

/-!
# Lists

A list is addressed by a position counted from one, by `last`, or by `random` or `any`, which take
a slot by lot; to delete, also by `all`. An index that names no slot is no fault: reading gives an
empty text, and writing does nothing. The dirty flag is set by every change, for whoever shows the
list.
-/

namespace BlockScript

/-- A draw by lot: for each `n`, one of `n + 1` slots. -/
abbrev Pick := (n : Nat) → Fin (n + 1)

/-! ## Indices -/

/-- The greatest count a machine word holds. -/
def maxCount : Nat := UInt64.size - 1

/-- The offset of a position. It is checked against the length as a double, which above `2 ^ 53`
need not be the length itself. -/
def positionOffset? (position : Float) (length : Nat) : Option Nat :=
  match Number.floor? position with
  | some p =>
    if p < 1 ∨ (Number.nearest length : Int) < p then none
    else some (min p.toNat maxCount - 1)
  | none => none

/-- The offset that an index names in a list of a given length. -/
def resolveIndex? (pick : Pick) (index : Value) (length : Nat) : Option Nat :=
  if index = .str "last" then
    match length with
    | 0 => none
    | n + 1 => some n
  else if index = .str "random" ∨ index = .str "any" then
    match length with
    | 0 => none
    | n + 1 => some (pick n).val
  else positionOffset? index.toNumber length

/-! ## Operations -/

structure ItemList where
  items : List Value
  dirty : Bool
deriving DecidableEq, Inhabited

namespace ItemList

def empty : ItemList := ⟨[], false⟩

def length (l : ItemList) : Nat :=
  l.items.length

def get (pick : Pick) (l : ItemList) (index : Value) : Value :=
  match resolveIndex? pick index l.length with
  | some i => l.items.getD i (.str "")
  | none => .str ""

def replace (pick : Pick) (l : ItemList) (index value : Value) : ItemList :=
  match resolveIndex? pick index l.length with
  | some i => ⟨l.items.set i value, true⟩
  | none => l

/-- Puts a value before the slot; the slot after the last one counts too. -/
def insert (pick : Pick) (l : ItemList) (index value : Value) : ItemList :=
  match resolveIndex? pick index (l.length + 1) with
  | some i => ⟨l.items.insertIdx i value, true⟩
  | none => l

def delete (pick : Pick) (l : ItemList) (index : Value) : ItemList :=
  if index = .str "all" then ⟨[], true⟩
  else
    match resolveIndex? pick index l.length with
    | some i => ⟨l.items.eraseIdx i, true⟩
    | none => l

def push (l : ItemList) (value : Value) : ItemList :=
  ⟨l.items ++ [value], true⟩

end ItemList

end BlockScript
