import BlockScript.Device
import BlockScript.Dice
import BlockScript.Program
import BlockScript.Target
import BlockScript.Thread

/-!
# The machine

What a script acts on while it runs: its thread and target, the program with the blocks built so
far, the devices, the draws by lot, the label to run next and the notices of retirement. An action
either gives a value or ends in a fault, and in both cases leaves the machine as it was by then.
-/

namespace BlockScript

structure Machine (σ : Type) where
  thread : Thread
  target : Target
  devices : Devices σ
  dice : Dice
  program : Program
  cache : Cache
  /-- The label to run as soon as the current block is done. -/
  pending : Option Label
  /-- The threads that have retired, in order. -/
  notices : List ThreadId

/-- An action on the machine. -/
abbrev Exec (σ : Type) := ExceptT Fault (StateM (Machine σ))

namespace Machine

variable {σ : Type}

def modifyThread (change : Thread → Thread) : Exec σ Unit :=
  modify fun m => { m with thread := change m.thread }

def modifyTarget (change : Target → Target) : Exec σ Unit :=
  modify fun m => { m with target := change m.target }

def setPending (label : Option Label) : Exec σ Unit :=
  modify fun m => { m with pending := label }

/-- The next draw. -/
def draw : Exec σ Pick := do
  let m ← get
  set { m with dice := m.dice.next }
  return m.dice.pick

def query (device method : String) (args : List Value) : Exec σ Value := do
  let m ← get
  let (answer, devices) := m.devices.query device method args
  set { m with devices }
  liftExcept answer
where
  liftExcept : Except Fault Value → Exec σ Value
    | .ok v => pure v
    | .error f => throw f

/-- The block at a label of the machine's program. -/
def block (label : Label) : Exec σ Block := do
  let m ← get
  let (answer, cache) := (m.program.block label).run m.cache
  set { m with cache }
  match answer with
  | .ok body => pure body
  | .error f => throw f

end Machine

end BlockScript
