import BlockScript.Number.Layout

/-!
# JSON values

A number written without fraction or exponent that fits a 64-bit word, signed or unsigned, is an
integer; every other number is a double. The fields of an object keep their order and may repeat,
so that whoever reads an object decides what a repetition means.
-/

namespace BlockScript

inductive Json where
  | null
  | bool (b : Bool)
  | int (n : Int)
  | real (x : Float)
  | str (s : String)
  | arr (items : List Json)
  | obj (fields : List (String × Json))
  /-- Well-formed text that denotes no value: a number beyond the doubles, half of a surrogate
  pair, a container nested too deep. It may be skipped but not read. -/
  | unreadable
deriving Inhabited

namespace Json

mutual

/-- Nothing in the value is unreadable. -/
def readable : Json → Bool
  | .unreadable => false
  | .arr items => readableItems items
  | .obj fields => readableFields fields
  | _ => true

def readableItems : List Json → Bool
  | [] => true
  | j :: rest => j.readable && readableItems rest

def readableFields : List (String × Json) → Bool
  | [] => true
  | (_, j) :: rest => j.readable && readableFields rest

end

mutual

/-- How many containers are open at the deepest place. -/
def depth : Json → Nat
  | .arr items => depthItems items + 1
  | .obj fields => depthFields fields + 1
  | _ => 0

def depthItems : List Json → Nat
  | [] => 0
  | j :: rest => max j.depth (depthItems rest)

def depthFields : List (String × Json) → Nat
  | [] => 0
  | (_, j) :: rest => max j.depth (depthFields rest)

end

/-! ## Records -/

/-- The values given for a field. -/
def occurrences (fields : List (String × Json)) (name : String) : List Json :=
  (fields.filter (·.1 == name)).map (·.2)

/-- The fields of a record, each at most once, in the order of `names`. They come from an object,
whose other fields are skipped, or from an array that gives the first few of them in order. -/
def record? (names : List String) : Json → Option (List (Option Json))
  | .obj fields => names.mapM fun name =>
      match occurrences fields name with
      | [] => some none
      | [j] => some (some j)
      | _ => none
  | .arr items =>
    if items.length ≤ names.length then
      some (items.map some ++ List.replicate (names.length - items.length) none)
    else none
  | _ => none

/-! ## Scalars -/

def bool? : Json → Option Bool
  | .bool b => some b
  | _ => none

def str? : Json → Option String
  | .str s => some s
  | _ => none

/-- An integer from zero to below `bound`. -/
def nat? (bound : Nat) : Json → Option Nat
  | .int n => if 0 ≤ n ∧ n.toNat < bound then some n.toNat else none
  | _ => none

def float? : Json → Option Float
  | .int n => some (Float.ofInt n)
  | .real x => some x
  | _ => none

def arr? : Json → Option (List Json)
  | .arr items => some items
  | _ => none

end Json

end BlockScript
