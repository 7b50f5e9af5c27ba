import BlockScript.Number.Shortest

/-!
# Number text

A layout says how the shortest digits of a double are set out: between which exponents the point
is put in its place, and whether a whole number keeps `.0`. Outside that range a number is written
with an exponent, whose sign always stands: `1e+21`, `1.5e-7`.
-/

namespace BlockScript.Number

structure Layout where
  tie : Tie
  /-- Least exponent of the first digit that is written out in place. -/
  least : Int
  /-- First exponent of the first digit that is too large to be written out. -/
  most : Int
  /-- Whole numbers end in `.0`. -/
  point : Bool
  nan : String
  infinity : String
  /-- Zero keeps its sign. -/
  signedZero : Bool

/-! ## Digits in place -/

def zeros (n : Nat) : List Char :=
  List.replicate n '0'

/-- The point after the `point`-th digit, zeros filling what the digits do not reach. -/
def inPlace (whole : Bool) (digits : List Char) (point : Int) : List Char :=
  if point ≤ 0 then '0' :: '.' :: zeros (-point).toNat ++ digits
  else
    let n := point.toNat
    if digits.length ≤ n then
      digits ++ zeros (n - digits.length) ++ (if whole then ['.', '0'] else [])
    else digits.take n ++ '.' :: digits.drop n

/-- The first digit, the others after a point, and the exponent of the first. -/
def withExponent (digits : List Char) (exponent : Int) : List Char :=
  let fraction := match digits.drop 1 with
    | [] => []
    | rest => '.' :: rest
  digits.take 1 ++ fraction ++ 'e' :: (if exponent < 0 then '-' else '+')
    :: Nat.toDigits 10 exponent.natAbs

/-- Sets out digits whose first one counts `10 ^ exponent`. -/
def Layout.place (layout : Layout) (digits : List Char) (exponent : Int) : List Char :=
  if layout.least ≤ exponent ∧ exponent < layout.most then
    inPlace layout.point digits (exponent + 1)
  else withExponent digits exponent

def Layout.placeScaled (layout : Layout) (n : Scaled) : List Char :=
  let digits := Nat.toDigits 10 n.digits
  layout.place digits (n.exponent + digits.length - 1)

/-! ## Whole numbers of text -/

def Layout.format (layout : Layout) (x : Float) : String :=
  match exact x with
  | .nan => layout.nan
  | .infinite negative => if negative then "-" ++ layout.infinity else layout.infinity
  | .finite negative m q =>
    let magnitude :=
      if m = 0 then inPlace layout.point ['0'] 1
      else layout.placeScaled (shortest layout.tie m q)
    let minus := negative ∧ (m ≠ 0 ∨ layout.signedZero)
    .ofList (if minus then '-' :: magnitude else magnitude)

/-- Every digit in place and nothing after a whole number: `0.0000001`, `1000`, `-0`. -/
def Layout.plain : Layout where
  tie := .up
  least := -400
  most := 400
  point := false
  nan := "NaN"
  infinity := "inf"
  signedZero := true

end BlockScript.Number
