import BlockScript.Fault

/-!
# Threads

A thread is one running script. All that it needs to go on is in its record: the label it resumes
at, the calls it has not returned from and how many of them are atomic.
-/

namespace BlockScript

inductive Status where
  | running
  | suspended
  | retired
deriving DecidableEq

/-- A call that has not returned. -/
structure Frame where
  args : List Value
  resume : Label
  /-- The call added one to the warp depth. -/
  warped : Bool
deriving DecidableEq

structure Thread where
  id : ThreadId
  /-- The target it acts on, by number. -/
  target : Nat
  /-- The label that the next step runs; with none the thread retires. -/
  fragment : Option Label
  /-- While this is not zero, nothing yields. -/
  warp : UInt32
  /-- Innermost call first. -/
  stack : List Frame
  status : Status
deriving DecidableEq

namespace Thread

def new (id : ThreadId) (target : Nat) (entry : Label) : Thread where
  id
  target
  fragment := some entry
  warp := 0
  stack := []
  status := .suspended

def isWarp (t : Thread) : Bool :=
  0 < t.warp

def isRetired (t : Thread) : Bool :=
  t.status = .retired

/-- The last state of a thread: nothing is left to resume. -/
def markRetired (t : Thread) : Thread :=
  { t with status := .retired, fragment := none, stack := [], warp := 0 }

def args (t : Thread) : List Value :=
  match t.stack with
  | frame :: _ => frame.args
  | [] => []

end Thread

end BlockScript
