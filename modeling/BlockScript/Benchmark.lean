import BlockScript.Number.Fixed
import BlockScript.Scheduler
import BlockScript.Settings

/-!
# The benchmark

Many threads run one program, each on a target of its own. The program calls a procedure for ever
that counts up to a number; when the procedure is atomic a whole count fits into a tick, otherwise
each step of it takes one.
-/

namespace BlockScript.Benchmark

structure Parameters where
  threads : Nat
  ticks : Nat
  iterations : UInt32
  warp : Bool
deriving DecidableEq

/-! ## The program -/

def entryBlock : Block := [.jump ⟨1⟩]

def loopBlock (iterations : UInt32) : Block :=
  [.call ⟨0⟩ [.lit (.num (Float.ofNat iterations.toNat))] ⟨2⟩]

def againBlock : Block := [.jumpLazy ⟨1⟩]

def procedureBlock : Block := [.setVariable "n" (.lit (.num 0.0)), .jump ⟨4⟩]

def countBlock : Block :=
  [.branch (.compare .lt (.var "n") (.arg 0))
    [ .setVariable "n" (.arithmetic .add (.var "n") (.lit (.num 1.0)))
    , .changeVariable "total" (.lit (.num 1.0))
    , .jumpLazy ⟨4⟩ ]
    [.finish]]

def countingProgram (iterations : UInt32) (warp : Bool) : Program where
  entry := ⟨0⟩
  labels := #[.fragment entryBlock, .fragment (loopBlock iterations), .fragment againBlock,
    .fragment procedureBlock, .fragment countBlock]
  procedures := #[⟨"count %n", ⟨3⟩, warp⟩]

/-! ## Running it -/

inductive ParameterError where
  | noThreads
  | noTicks
deriving DecidableEq

def ParameterError.message : ParameterError → String
  | .noThreads => "--threads must be at least 1"
  | .noTicks => "--ticks must be at least 1"

def Parameters.check (p : Parameters) : Except ParameterError Unit :=
  if p.threads = 0 then .error .noThreads
  else if p.ticks = 0 then .error .noTicks
  else .ok ()

structure Tally where
  ticks : Nat
  steps : Nat
  /-- What all targets have counted together. -/
  iterations : Float
  active : Nat

variable {σ : Type}

/-- One more target with a thread on it. -/
def addThread (program : Nat) (s : Scheduler σ) (i : Nat) : Scheduler σ :=
  let (target, s) := s.addTarget (.new ("Sprite" ++ toString (i + 1)))
  match s.start target program with
  | .ok (_, s) => s
  | .error _ => s

def prepare (p : Parameters) (limit : Option Nat) (devices : Devices σ) (dice : Dice) :
    Scheduler σ :=
  let (program, s) := (Scheduler.new limit devices dice).load (countingProgram p.iterations p.warp)
  (List.range p.threads).foldl (addThread program) s

/-- Makes a number of ticks and counts the steps; nothing when a step does not end. -/
def runTicks (fuel : Nat) : (ticks : Nat) → (steps : Nat) → Scheduler σ → Option (Nat × Scheduler σ)
  | 0, steps, s => some (steps, s)
  | ticks + 1, steps, s => do
    let (report, s) ← s.tick fuel
    runTicks fuel ticks (steps + report.stepped) s

def tally (steps : Nat) (s : Scheduler σ) : Tally where
  ticks := s.ticks
  steps
  iterations := s.targets.foldl (fun sum t => sum + (t.getVariable "total").toNumber) 0.0
  active := s.active

/-! ## The report -/

def rule : String := "━━━━━━━━━━━━━━━━━━━━━━━━━━━━━━━━━━━━━━━━"

def Parameters.lines (p : Parameters) : List String :=
  [ "🚀 Starting Cadence Benchmark"
  , rule
  , ""
  , "📋 Configuration:"
  , "   Threads: " ++ toString p.threads
  , "   Ticks: " ++ toString p.ticks
  , "   Iterations/Call: " ++ toString p.iterations.toNat
  , "   Warp: " ++ (if p.warp then "true" else "false") ]

def Tally.lines (t : Tally) (seconds : Float) : List String :=
  let rate (n : Nat) := Number.fixed 1 (Float.ofNat n / seconds)
  [ ""
  , ""
  , rule
  , "📊 Benchmark Results"
  , rule
  , ""
  , "⏱️  Duration: " ++ Number.fixed 3 seconds ++ "s"
  , ""
  , "📋 Work:"
  , "   Ticks: " ++ toString t.ticks
  , "   Steps: " ++ toString t.steps
  , "   Loop iterations: " ++ Number.Layout.plain.format t.iterations
  , "   Threads still active: " ++ toString t.active
  , ""
  , "🚀 Throughput: " ++ rate t.ticks ++ " ticks/sec, " ++ rate t.steps ++ " steps/sec"
  , ""
  , rule ]

end BlockScript.Benchmark
