/-!
# Blanks

The characters that count for nothing at either end of a number: the Unicode white space except
the next-line control U+0085, and the byte order mark U+FEFF.
-/

namespace BlockScript.Text

/-- Unicode white space. -/
def isSpace (c : Char) : Bool :=
  let n := c.toNat
  (0x9 ≤ n && n ≤ 0xD) || n == 0x20 || n == 0x85 || n == 0xA0 || n == 0x1680
    || (0x2000 ≤ n && n ≤ 0x200A) || n == 0x2028 || n == 0x2029 || n == 0x202F || n == 0x205F
    || n == 0x3000

def isBlank (c : Char) : Bool :=
  c.toNat == 0xFEFF || (isSpace c && c.toNat != 0x85)

/-- What is left when `drop` has taken all it can from both ends. -/
def strip (drop : Char → Bool) (text : List Char) : List Char :=
  ((text.dropWhile drop).reverse.dropWhile drop).reverse

/-- The text without the blanks at its ends. -/
def trim (text : List Char) : List Char :=
  strip isBlank text

end BlockScript.Text
