import BlockScript.Session

/-!
# The program

Reads what the host offers, carries out the command and prints. Runs are paced by the framerate
unless they are asked to go as fast as they can.
-/

namespace BlockScript.Main

/-! ## Help -/

def helpText : String :=
  "\n".intercalate
    [ "Cadence - cooperative runtime for compiled block scripts"
    , ""
    , "Usage: cadence [OPTIONS] <COMMAND>"
    , ""
    , "Commands:"
    , "  run           Run a compiled program (JSON) on a fresh sprite until it retires"
    , "  continuation  Print the fragment a label resolves to, synthesizing continuations"
    , "  config        Print the effective configuration"
    , "  bench         Step many looping threads and report throughput"
    , "  help          Print this message"
    , ""
    , "Options:"
    , "      --config <CONFIG>  Path to config file (overrides default search)"
    , "  -h, --help             Print help"
    , ""
    , "run <PROGRAM> [--ticks <TICKS>] [--turbo]"
    , "continuation <PROGRAM> <LABEL>"
    , "bench [--threads <THREADS>] [--ticks <TICKS>] [--iterations <ITERATIONS>] [--warp]" ]

def usageText : UsageError → String
  | .help => helpText
  | .nothingGiven => helpText
  | .unknownArgument => "error: unexpected argument found"
  | .unknownCommand => "error: unrecognized subcommand"
  | .missingCommand => "error: a subcommand is required but one was not provided"
  | .missingArgument => "error: a required argument was not provided"
  | .missingValue => "error: a value is required but none was supplied"
  | .badValue => "error: invalid value"
  | .repeated => "error: an argument cannot be used multiple times"
  | .unwantedValue => "error: unexpected value found"

/-! ## The host -/

def readFile? (path : String) : IO (Option String) := do
  try
    return some (← IO.FS.readFile path)
  catch _ =>
    return none

def readEnvironment : IO Environment := do
  let text := (← readFile? "/proc/self/environ").getD ""
  let pairs := (text.splitOn "\x00").filterMap fun entry =>
    match entry.splitOn "=" with
    | name :: value :: more => some (name, "=".intercalate (value :: more))
    | _ => none
  return .ofPairs pairs

/-- The nearest environment file here or further up. -/
def findEnvironmentFile : Nat → String → IO (Option String)
  | 0, _ => return none
  | levels + 1, here => do
    match ← readFile? (here ++ Host.environmentPath) with
    | some text => return some text
    | none => findEnvironmentFile levels (here ++ "../")

def readHost (invocation : Invocation) : IO Host := do
  let environment ← readEnvironment
  let own := (← findEnvironmentFile 64 "").toList.map fun text => (Host.environmentPath, text)
  let complete := Host.withEnvironmentFile { read := fun path => own.lookup path, environment }
  let found ← (Host.paths complete.environment invocation).filterMapM fun path => do
    return (← readFile? path).map (path, ·)
  return { read := fun path => (own ++ found).lookup path, environment }

/-! ## Runs -/

/-- More labels than any step lives to run. -/
def ample : Nat := UInt64.size

def seconds (nanoseconds : Nat) : Float :=
  Float.ofNat nanoseconds / 1000000000.0

def now : IO Float := do
  return seconds (← IO.monoNanosNow)

/-- Waits until a point in time, in nanoseconds. -/
def waitUntil (due : Nat) : IO Unit := do
  let current ← IO.monoNanosNow
  if current < due then IO.sleep (UInt32.ofNat ((due - current + 999999) / 1000000))

/-- Waits until the next tick is due, unless ticks are not paced, and sets the clock. -/
def prepareTick (period : Option Nat) (since : Nat) (s : Scheduler Clock) : IO (Scheduler Clock) := do
  if let some period := period then waitUntil (since + s.ticks * period)
  return { s with devices.state.now := ← now }

def run (settings : Settings) (program : Program) (ticks : Option Nat) (turbo : Bool) :
    IO (Except SessionError String) := do
  let seed ← IO.rand 0 (UInt32.size - 1)
  match Session.start settings program (.builtin (.start (← now))) (.seeded (.ofNat seed)) with
  | .error e => return .error e
  | .ok s =>
    let period := 1000000000 / max 1 settings.scheduler.framerate.toNat
    let prepare := prepareTick (if turbo then none else some period) (← IO.monoNanosNow)
    let result ← s.runPrepared prepare ample (Session.tickCap settings ticks) ample
    return .ok ((result.map Session.targetsText).getD "")

def bench (settings : Settings) (p : Benchmark.Parameters) : IO (Except SessionError String) := do
  match p.check with
  | .error e => return .error (.benchmark e)
  | .ok () =>
    IO.print (Session.linesText p.lines)
    let s := Benchmark.prepare p settings.scheduler.limit (.builtin (.start (← now))) .first
    let before ← IO.monoNanosNow
    let result ← IO.lazyPure fun _ => Benchmark.runTicks ample p.ticks 0 s
    let elapsed := seconds ((← IO.monoNanosNow) - before)
    match result with
    | some (steps, s) => return .ok (Session.linesText ((Benchmark.tally steps s).lines elapsed))
    | none => return .ok ""

def perform (host : Host) (invocation : Invocation) : IO (Except SessionError String) := do
  match host.sessionSettings invocation.config with
  | .error e => return .error e
  | .ok settings =>
    match invocation.command with
    | .run path ticks turbo =>
      match host.program path with
      | .error e => return .error e
      | .ok program => run settings program ticks turbo
    | .continuation path label =>
      return (host.program path).bind fun program => Session.continuationText program label
    | .config => return Session.settingsText settings
    | .bench threads ticks iterations warp => bench settings ⟨threads, ticks, iterations, warp⟩

end BlockScript.Main

open BlockScript in
def main (args : List String) : IO UInt32 := do
  match CommandLine.parse args with
  | .error .help =>
    IO.println (Main.usageText .help)
    return 0
  | .error e =>
    IO.eprintln (Main.usageText e)
    return 2
  | .ok invocation =>
    match ← Main.perform (← Main.readHost invocation) invocation with
    | .ok text =>
      IO.print text
      return 0
    | .error e =>
      IO.eprintln ("Error: " ++ e.message)
      return 1
