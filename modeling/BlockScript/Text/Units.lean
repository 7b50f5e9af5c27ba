/-!
# Order by 16-bit units

Texts are ordered by their 16-bit code units. A character beyond U+FFFF is two units, both below
U+E000, so it comes before the characters from U+E000 to U+FFFF.
-/

namespace BlockScript.Text

/-- The 16-bit units of a character: itself, or a surrogate pair. -/
def charUnits (c : Char) : List Nat :=
  let n := c.toNat
  if n < 0x10000 then [n]
  else [0xD800 + (n - 0x10000) / 0x400, 0xDC00 + (n - 0x10000) % 0x400]

def units (text : String) : List Nat :=
  text.toList.flatMap charUnits

/-- The order of the first units that differ; a text comes before what extends it. -/
def compareUnits : List Nat → List Nat → Ordering
  | [], [] => .eq
  | [], _ :: _ => .lt
  | _ :: _, [] => .gt
  | a :: as, b :: bs => if a < b then .lt else if b < a then .gt else compareUnits as bs

end BlockScript.Text
