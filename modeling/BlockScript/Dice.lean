import BlockScript.ItemList

/-!
# Dice

A supply of draws by lot, numbered from zero. Every list operation takes the next draw, so equal
dice give equal runs.
-/

namespace BlockScript

structure Dice where
  roll : Nat → Pick
  /-- How many draws have been made. -/
  drawn : Nat

namespace Dice

def pick (d : Dice) : Pick := d.roll d.drawn

def next (d : Dice) : Dice := { d with drawn := d.drawn + 1 }

/-- Dice that always show the first slot. -/
def first : Dice := ⟨fun _ _ => 0, 0⟩

instance : Inhabited Dice := ⟨first⟩

/-- Spreads the bits of a word evenly. -/
def scatter (word : UInt64) : UInt64 :=
  let a := (word ^^^ (word >>> 30)) * 0xBF58476D1CE4E5B9
  let b := (a ^^^ (a >>> 27)) * 0x94D049BB133111EB
  b ^^^ (b >>> 31)

/-- Dice whose draws look random, but are the same for the same seed. -/
def seeded (seed : UInt64) : Dice where
  roll i n := Fin.ofNat (n + 1) (scatter (seed + UInt64.ofNat (i + 1) * 0x9E3779B97F4A7C15)).toNat
  drawn := 0

end Dice

end BlockScript
