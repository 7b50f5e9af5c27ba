import BlockScript.Number.Exact

/-!
# Fixed places

A double rounded to a number of decimal places, a half going to the even neighbour.
-/

namespace BlockScript.Number

/-- The natural number nearest to `n / d`, a half going to the even one. -/
def roundDiv (n d : Nat) : Nat :=
  let whole := n / d
  let left := n % d
  if 2 * left < d then whole
  else if d < 2 * left then whole + 1
  else whole + whole % 2

def fixed (places : Nat) (x : Float) : String :=
  match exact x with
  | .nan => "NaN"
  | .infinite negative => if negative then "-inf" else "inf"
  | .finite negative m q =>
    let unit := Nat.pow 10 places
    let scaled := roundDiv ((m <<< q.toNat) * unit) (1 <<< (-q).toNat)
    let whole := toString (scaled / unit)
    let fraction := toString (scaled % unit)
    let zeros := String.ofList (List.replicate (places - fraction.length) '0')
    let point := if places = 0 then "" else "." ++ zeros ++ fraction
    (if negative then "-" else "") ++ whole ++ point

end BlockScript.Number
