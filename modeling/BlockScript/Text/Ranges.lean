/-!
# Ranges of characters

A class of characters as the Unicode character database gives it: ranges of code points in
ascending order, ends included.
-/

namespace BlockScript.Text

/-- A code point is in one of the ranges. -/
def inRanges (ranges : List (Nat × Nat)) (n : Nat) : Bool :=
  ranges.any fun (first, last) => first ≤ n && n ≤ last

end BlockScript.Text
