/-!
# Doubles as exact integers

A finite double is `± m * 2 ^ q` with natural `m` and integer `q`. Taking it apart this way turns
flooring, rounding and the remainder into integer arithmetic with no rounding of its own; only the
last step, putting a double together again, rounds, and the remainder never needs it.
-/

namespace BlockScript.Number

open Float.Model (UnpackedFloat Format)
open Float.Model.UnpackedFloat (Sign)

/-! ## Taking a double apart -/

/-- What a double denotes: `finite negative m q` is `± m * 2 ^ q`, with `m = 0` for both zeros. -/
inductive Exact where
  | nan
  | infinite (negative : Bool)
  | finite (negative : Bool) (m : Nat) (q : Int)
deriving DecidableEq

def isNegative : Sign → Bool
  | .negative => true
  | .positive => false

def exact (x : Float) : Exact :=
  match x.toModel.unpack with
  | .notANumber => .nan
  | .infinity s => .infinite (isNegative s)
  | .zero s => .finite (isNegative s) 0 0
  | .finite s m q _ => .finite (isNegative s) m q

/-- The double `± m * 2 ^ q`, rounded to nearest when it is not one already. -/
def ofExact (negative : Bool) (m : Nat) (q : Int) : Float :=
  let s := if negative then Sign.negative else Sign.positive
  .ofModel <| .pack <| UnpackedFloat.normalize .binary64 (s.apply m) q s

def signed (negative : Bool) (m : Nat) : Int :=
  if negative then -m else m

/-! ## Integers near a double -/

/-- `⌊x⌋`; an infinity and NaN have none. -/
def floor? (x : Float) : Option Int :=
  match exact x with
  | .finite negative m q =>
    if 0 ≤ q then some (signed negative (m <<< q.toNat))
    else some (signed negative m >>> (-q).toNat)
  | _ => none

/-- The integer nearest to `x`, a half going away from zero; an infinity and NaN have none. -/
def round? (x : Float) : Option Int :=
  match exact x with
  | .finite negative m q =>
    if 0 ≤ q then some (signed negative (m <<< q.toNat))
    else
      let unit := 1 <<< (-q).toNat
      some (signed negative ((2 * m + unit) / (2 * unit)))
  | _ => none

/-- The integer that the double nearest to `n` denotes: 53 leading bits, a half going to even. -/
def nearest (n : Nat) : Nat :=
  if n.log2 < 53 then n
  else
    let unit := 1 <<< (n.log2 - 52)
    let kept := n / unit
    let left := n % unit
    if 2 * left < unit then kept * unit
    else if unit < 2 * left then (kept + 1) * unit
    else (kept + kept % 2) * unit

/-! ## Remainders -/

/-- The remainder of `x` by `y` for a quotient cut off toward zero; it has the sign of `x`. -/
def remainder (x y : Float) : Float :=
  match exact x, exact y with
  | .finite negative m q, .finite _ n r =>
    if n = 0 then 0.0 / 0.0
    else if m = 0 then x
    else
      let least := min q r
      let a := m <<< (q - least).toNat
      let b := n <<< (r - least).toNat
      ofExact negative (a % b) least
  | .finite _ _ _, .infinite _ => x
  | _, _ => 0.0 / 0.0

/-- The remainder that has the sign of the divisor. -/
def floorMod (n modulus : Float) : Float :=
  let result := remainder n modulus
  if result / modulus < 0.0 then result + modulus else result

end BlockScript.Number
