import BlockScript.Number.Exact

/-!
# Shortest digits

Of all decimals that read back as a given double, the shortest one nearest to it. The double is
`m * 2 ^ q`; what reads back as it is the interval half way to its two neighbours, with its ends
when `m` is even. Going down the powers of ten, the first whose grid has a point in the interval
gives the fewest digits, and on that grid only the two points next to the double can be in it.
-/

namespace BlockScript.Number

/-- Where a double lies half way between two shortest decimals, which one is taken. -/
inductive Tie where
  | up
  | even
deriving DecidableEq

/-- `digits * 10 ^ exponent`. -/
structure Scaled where
  digits : Nat
  exponent : Int
deriving DecidableEq

/-- The interval that reads back as `m * 2 ^ q`, in units of `2 ^ (q - 2)`. -/
structure Interval where
  low : Nat
  mid : Nat
  high : Nat
  closed : Bool

/-- Below a power of two the neighbour is half as far, unless doubles are as dense there as they
get. -/
def interval (m : Nat) (q : Int) : Interval where
  low := if m = 1 <<< 52 ∧ -1074 < q then 4 * m - 1 else 4 * m - 2
  mid := 4 * m
  high := 4 * m + 2
  closed := m % 2 = 0

/-- Whether the `n`-th multiple of `step` is in the interval, its ends being multiples of `unit`. -/
def Interval.contains (i : Interval) (unit step n : Nat) : Bool :=
  if i.closed then i.low * unit ≤ n * step ∧ n * step ≤ i.high * unit
  else i.low * unit < n * step ∧ n * step < i.high * unit

/-- The point taken on the grid of `10 ^ k`, if one is in the interval. -/
def gridPoint? (tie : Tie) (m : Nat) (q k : Int) : Option Scaled :=
  let i := interval m q
  let unit := Nat.pow 10 (-k).toNat <<< (q - 2).toNat
  let step := Nat.pow 10 k.toNat <<< (2 - q).toNat
  let inside := i.contains unit step
  let below := i.mid * unit / step
  let left := i.mid * unit % step
  let upward : Bool :=
    step < 2 * left ∨ (step = 2 * left ∧ (tie = .up ∨ below % 2 = 1))
  if inside below ∧ (¬ inside (below + 1) ∨ ¬ upward) then some ⟨below, k⟩
  else if inside (below + 1) then some ⟨below + 1, k⟩
  else none

/-- A power of ten above `m * 2 ^ q`, and not far above. -/
def topExponent (m : Nat) (q : Int) : Int :=
  ((m.log2 : Int) + q + 1) * 30103 / 100000 + 1

/-- The shortest decimal that reads back as `m * 2 ^ q`. Seventeen digits always suffice. -/
def shortest (tie : Tie) (m : Nat) (q : Int) : Scaled :=
  let top := topExponent m q
  ((List.range 22).findSome? fun i : Nat => gridPoint? tie m q (top - i)).getD ⟨0, 0⟩

end BlockScript.Number
