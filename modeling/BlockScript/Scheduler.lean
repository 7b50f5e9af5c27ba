import BlockScript.Machine.Step

/-!
# The scheduler

Targets, threads and devices, and a tick that steps every thread once, in the order in which they
were started. A thread whose step fails is retired on the spot. Retired threads leave at the end
of the tick. Ids and ticks are counted without bound, for no run lives to start or tick 2^64 times.
-/

namespace BlockScript

structure Loaded where
  program : Program
  cache : Cache
deriving Inhabited

def Loaded.of (program : Program) : Loaded :=
  ⟨program, program.emptyCache⟩

structure Task where
  thread : Thread
  program : Nat
deriving DecidableEq

structure Report where
  stepped : Nat
  retired : List ThreadId
  failed : List ThreadId
deriving DecidableEq, Inhabited

structure Scheduler (σ : Type) where
  /-- How many pending labels one step may run. -/
  limit : Option Nat
  targets : Array Target
  programs : Array Loaded
  tasks : List Task
  devices : Devices σ
  dice : Dice
  nextId : Nat
  ticks : Nat

namespace Scheduler

variable {σ : Type}

def new (limit : Option Nat) (devices : Devices σ) (dice : Dice) : Scheduler σ where
  limit
  targets := #[]
  programs := #[]
  tasks := []
  devices
  dice
  nextId := 1
  ticks := 0

/-! ## Setting up -/

def addTarget (s : Scheduler σ) (target : Target) : Nat × Scheduler σ :=
  (s.targets.size, { s with targets := s.targets.push target })

def load (s : Scheduler σ) (program : Program) : Nat × Scheduler σ :=
  (s.programs.size, { s with programs := s.programs.push (.of program) })

/-- Starts a script on a target. It first runs in the next tick. -/
def start (s : Scheduler σ) (target program : Nat) : Except Fault (ThreadId × Scheduler σ) :=
  if target < s.targets.size then
    let id : ThreadId := ⟨s.nextId⟩
    let entry := (s.programs.getD program default).program.entry
    .ok (id, { s with
      tasks := s.tasks ++ [⟨.new id target entry, program⟩]
      nextId := s.nextId + 1 })
  else .error (.unknownTarget target)

def thread? (s : Scheduler σ) (id : ThreadId) : Option Thread :=
  (s.tasks.find? (·.thread.id = id)).map (·.thread)

def active (s : Scheduler σ) : Nat :=
  s.tasks.length

/-! ## Ticks -/

structure Sweep (σ : Type) where
  state : Scheduler σ
  report : Report
  /-- The tasks stepped so far, last one first. -/
  done : List Task

/-- Retires a thread whose step failed, unless it has retired already. -/
def fail (sweep : Sweep σ) (task : Task) : Sweep σ :=
  let id := task.thread.id
  let report := { sweep.report with failed := sweep.report.failed ++ [id] }
  if task.thread.isRetired then { sweep with report, done := task :: sweep.done }
  else
    { sweep with
      report := { report with retired := report.retired ++ [id] }
      done := { task with thread := task.thread.markRetired } :: sweep.done }

def machine (sweep : Sweep σ) (task : Task) (target : Target) : Machine σ :=
  let loaded := sweep.state.programs.getD task.program default
  { thread := task.thread
    target
    devices := sweep.state.devices
    dice := sweep.state.dice
    program := loaded.program
    cache := loaded.cache
    pending := none
    notices := sweep.report.retired }

def absorb (sweep : Sweep σ) (task : Task) (m : Machine σ) : Sweep σ :=
  { sweep with
    state := { sweep.state with
      targets := sweep.state.targets.setIfInBounds task.thread.target m.target
      programs := sweep.state.programs.setIfInBounds task.program ⟨m.program, m.cache⟩
      devices := m.devices
      dice := m.dice }
    report := { sweep.report with retired := m.notices } }

/-- Steps one task; nothing when its step does not end. -/
def stepTask (fuel : Nat) (sweep : Sweep σ) (task : Task) : Option (Sweep σ) :=
  let sweep := { sweep with report.stepped := sweep.report.stepped + 1 }
  match sweep.state.targets[task.thread.target]? with
  | none => some (fail sweep task)
  | some target =>
    match (Machine.step sweep.state.limit fuel).run.run (machine sweep task target) with
    | (.ok .unfinished, _) => none
    | (.ok _, m) =>
      let sweep := absorb sweep task m
      some { sweep with done := { task with thread := m.thread } :: sweep.done }
    | (.error _, m) => some (fail (absorb sweep task m) { task with thread := m.thread })

/-- Steps every task once; nothing when one of the steps does not end. -/
def tick (fuel : Nat) (s : Scheduler σ) : Option (Report × Scheduler σ) := do
  let sweep ← s.tasks.foldlM (stepTask fuel) ⟨s, ⟨0, [], []⟩, []⟩
  return (sweep.report,
    { sweep.state with
      tasks := sweep.done.reverse.filter (!·.thread.isRetired)
      ticks := s.ticks + 1 })

def runUntilIdle (fuel : Nat) : (most : Nat) → Scheduler σ → Option (Nat × Scheduler σ)
  | 0, s => some (0, s)
  | most + 1, s =>
    if s.tasks.isEmpty then some (0, s)
    else do
      let (_, s) ← s.tick fuel
      let (count, s) ← runUntilIdle fuel most s
      return (count + 1, s)

/-! ## Runs with a cap on ticks -/

def isOver (cap : Option Nat) (s : Scheduler σ) : Bool :=
  s.tasks.isEmpty || cap.any (· ≤ s.ticks)

/-- Ticks until the run is over, `rounds` times at most, with something to be done before each tick; nothing
when it is not over by then. -/
@[specialize]
def runPrepared {m : Type → Type} [Monad m] (prepare : Scheduler σ → m (Scheduler σ)) (fuel : Nat)
    (cap : Option Nat) : (rounds : Nat) → Scheduler σ → m (Option (Scheduler σ))
  | 0, s => return if s.isOver cap then some s else none
  | rounds + 1, s => do
    if s.isOver cap then return some s
    else
      match (← prepare s).tick fuel with
      | some (_, s) => runPrepared prepare fuel cap rounds s
      | none => return none

def runCapped (fuel : Nat) (cap : Option Nat) (rounds : Nat) (s : Scheduler σ) : Option (Scheduler σ) :=
  Id.run (runPrepared pure fuel cap rounds s)

end Scheduler

end BlockScript
