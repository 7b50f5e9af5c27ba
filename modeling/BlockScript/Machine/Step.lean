import BlockScript.Machine.Exec

/-!
# Steps

A step runs the block at the thread's stored label and then every pending label, until a block
leaves none. A transfer limit bounds how many pending labels are run: when one is left over, it
becomes the stored label and the thread is suspended there. Without a limit a step may go on for
ever, so it is given fuel, and running out of it is an outcome of its own.
-/

namespace BlockScript.Machine

inductive Outcome where
  /-- The thread waits for the next step at its stored label. -/
  | suspended
  | retired
  /-- The fuel is used up and a label is still pending. -/
  | unfinished
deriving DecidableEq

variable {σ : Type}

def runLabel (label : Label) : Exec σ Unit := do
  let body ← block label
  let _ ← execBlock body

/-- Runs at most `n` pending labels, each of which may leave another. -/
def drain : Nat → Exec σ Unit
  | 0 => return ()
  | n + 1 => do
    match (← get).pending with
    | none => return ()
    | some label =>
      setPending none
      runLabel label
      drain n

/-- The end of a step that has nothing more to run. -/
def settle : Exec σ Outcome := do
  if (← get).thread.isRetired then return .retired
  else
    modifyThread fun t => { t with status := .suspended }
    return .suspended

/-- What a step does after its first block. -/
def afterFirst (limit : Option Nat) (fuel : Nat) : Exec σ Outcome := do
  drain (limit.getD fuel)
  match (← get).pending, limit with
  | none, _ => settle
  | some label, some _ =>
    setPending none
    modifyThread fun t => { t with fragment := some label }
    settle
  | some _, none => return .unfinished

/-- Advances the thread. With a limit the fuel does not matter. -/
def step (limit : Option Nat) (fuel : Nat) : Exec σ Outcome := do
  let m ← get
  if m.thread.isRetired then return .retired
  else
    match m.thread.fragment with
    | none =>
      retire
      return .retired
    | some entry =>
      modifyThread fun t => { t with status := .running }
      setPending none
      runLabel entry
      afterFirst limit fuel

end BlockScript.Machine
