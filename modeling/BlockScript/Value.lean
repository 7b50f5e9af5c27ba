import BlockScript.Number.Layout
import BlockScript.Number.Numeral
import BlockScript.Text.Lowercase

/-!
# Script values

Scripts are dynamically typed: every variable, list item and argument holds one of these, and any
of them can stand where a number, a truth value or a text is wanted. The casts never fail.
-/

namespace BlockScript

inductive Value where
  | null
  | bool (b : Bool)
  | num (n : Float)
  | str (s : String)
deriving DecidableEq, Inhabited

/-- Numbers as scripts see them: written out from `0.000001` to just below `1e+21`. -/
def Number.script : Number.Layout where
  tie := .up
  least := -6
  most := 21
  point := false
  nan := "NaN"
  infinity := "Infinity"
  signedZero := false

namespace Value

/-! ## Casts -/

/-- The number a value denotes, NaN when a text denotes none. -/
def number : Value → Float
  | .null => 0.0
  | .bool b => if b then 1.0 else 0.0
  | .num n => n
  | .str s => Number.ofText s

/-- NaN and both zeros become zero. -/
def notNaN (n : Float) : Float :=
  if n.isNaN || n == 0.0 then 0.0 else n

def toNumber (v : Value) : Float :=
  notNaN v.number

def toBool : Value → Bool
  | .null => false
  | .bool b => b
  | .num n => !(n.isNaN || n == 0.0)
  | .str s => !(s == "" || s == "0" || Text.lowercase s == "false")

def toText : Value → String
  | .null => "null"
  | .bool b => if b then "true" else "false"
  | .num n => Number.script.format n
  | .str s => s

/-- Null, or a text of blanks alone. -/
def isBlank : Value → Bool
  | .null => true
  | .str s => (Text.trim s.toList).isEmpty
  | _ => false

end Value

end BlockScript
