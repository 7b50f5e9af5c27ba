import BlockScript.Value
import BlockScript.Text.Units

/-!
# Comparing values

Two values that both denote a number compare as numbers. A blank denotes none here, though it
casts to zero, so an empty text never equals `0`. All other pairs compare as texts in lower case,
by 16-bit units.
-/

namespace BlockScript.Value

/-- The number a value brings to a comparison, if it brings one. -/
def numeric? (v : Value) : Option Float :=
  if v.number.isNaN || v.isBlank then none else some v.number

def compareNumbers (a b : Float) : Ordering :=
  if a < b then .lt else if b < a then .gt else .eq

def compareTexts (a b : Value) : Ordering :=
  Text.compareUnits (Text.units (Text.lowercase a.toText)) (Text.units (Text.lowercase b.toText))

def compare (a b : Value) : Ordering :=
  match a.numeric?, b.numeric? with
  | some m, some n => compareNumbers m n
  | _, _ => compareTexts a b

end BlockScript.Value
