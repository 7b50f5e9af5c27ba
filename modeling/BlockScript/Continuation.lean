import BlockScript.Script

/-!
# Continuations

The continuation of a block after a marker is what is still to run once execution has reached the
marker. Going outward from the marker, every branch around it is settled: what follows in the arm
that holds the marker is kept, the test and the other arm are gone, and the statements after the
branch come next. Branches that come after the marker are kept whole. Nothing is kept after the
first transfer, since control leaves there.

For a marker after `A` in `if c then (A; B) else C; D` the continuation is `B; D`.
-/

namespace BlockScript.Continuation

/-- A piece of a continuation. It is closed when it ends in a transfer, so that nothing after it
can run. -/
structure Tail where
  body : Block
  closed : Bool
deriving Inhabited

/-- Statements up to the first transfer, which is kept. -/
def reachable : Block → Tail
  | [] => ⟨[], false⟩
  | s :: rest =>
    if s.isTransfer then ⟨[s], true⟩
    else
      let tail := reachable rest
      ⟨s :: tail.body, tail.closed⟩

/-- What runs after `tail`, when the statements `rest` follow it. -/
def Tail.andThen (tail : Tail) (rest : Block) : Tail :=
  if tail.closed then tail
  else
    let more := reachable rest
    ⟨tail.body ++ more.body, more.closed⟩

mutual

/-- What is left of a block after the first occurrence of a marker, an arm for "yes" coming before
the one for "no". -/
def after? (marker : Marker) : Block → Option Tail
  | [] => none
  | s :: rest =>
    match within? marker s with
    | some tail => some (tail.andThen rest)
    | none => after? marker rest

/-- What is left of a single statement after the marker. -/
def within? (marker : Marker) : Stmt → Option Tail
  | .marker id => if id = marker then some ⟨[], false⟩ else none
  | .branch _ yes no =>
    match after? marker yes with
    | some tail => some tail
    | none => after? marker no
  | _ => none

end

/-- The continuation of a block after a marker, if the marker occurs in it. -/
def synthesize? (marker : Marker) (block : Block) : Option Block :=
  (after? marker block).map Tail.body

end BlockScript.Continuation
