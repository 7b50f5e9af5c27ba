import BlockScript.Benchmark
import BlockScript.CommandLine
import BlockScript.EnvironmentFile
import BlockScript.Json.Printer
import BlockScript.Settings.Printer

/-!
# Sessions

Carrying out a command: the settings are made up first, then the program is read, then it runs.
Everything is a function of the host; pacing and printing are left to whoever calls.
-/

namespace BlockScript

inductive SessionError where
  | settings (e : SettingsError)
  | readProgram (path : String)
  | parseProgram (path : String)
  | fault (f : Fault)
  | benchmark (e : Benchmark.ParameterError)
deriving DecidableEq

def SessionError.message : SessionError → String
  | .settings e => e.message
  | .readProgram path => "Failed to read program " ++ path
  | .parseProgram path => "Failed to parse program " ++ path
  | .fault f => f.message
  | .benchmark e => e.message

namespace Host

/-- The file whose variables are added to the environment. -/
def environmentPath : String := ".env"

/-- The host with the variables of its environment file. -/
def withEnvironmentFile (host : Host) : Host :=
  match host.read environmentPath with
  | some text => { host with environment := EnvironmentFile.load host.environment text }
  | none => host

def loadSettings (host : Host) : Except SettingsError Settings :=
  host.withEnvironmentFile.settings {}

def sessionSettings (host : Host) (config : Option String) : Except SessionError Settings :=
  (host.withEnvironmentFile.settings { path := config }).mapError .settings

/-- The files that may be read for an invocation, once the environment is complete. -/
def paths (environment : Environment) (invocation : Invocation) : List String :=
  let settings := match invocation.config <|> environment.find? pathVariable with
    | some path => path
    | none => defaultPath
  let program := match invocation.command with
    | .run path _ _ => [path]
    | .continuation path _ => [path]
    | _ => []
  settings :: (endedPaths settings FileFormat.all).map (·.2) ++ program

def program (host : Host) (path : String) : Except SessionError Program :=
  match host.read path with
  | none => .error (.readProgram path)
  | some text =>
    match (Json.read? text).bind Program.ofJson? with
    | some program => .ok program
    | none => .error (.parseProgram path)

end Host

namespace Session

variable {σ : Type}

/-! ## Running a program -/

def start (settings : Settings) (program : Program) (devices : Devices σ) (dice : Dice) :
    Except SessionError (Scheduler σ) :=
  let (loaded, s) := (Scheduler.new settings.scheduler.limit devices dice).load program
  let (target, s) := s.addTarget (.new "Sprite1")
  match s.start target loaded with
  | .ok (_, s) => .ok s
  | .error f => .error (.fault f)

/-- How many ticks a run may take: what the command says, else what the settings say. -/
def tickCap (settings : Settings) (ticks : Option Nat) : Option Nat :=
  ticks <|> settings.scheduler.maxTicks.map UInt64.toNat

def targetsText (s : Scheduler σ) : String :=
  (Json.arr (s.targets.toList.map Target.toJson)).pretty ++ "\n"

/-! ## Other commands -/

def continuationText (program : Program) (label : UInt32) : Except SessionError String :=
  match ((program.block ⟨label⟩).run.run program.emptyCache).1 with
  | .ok body => .ok ((fragmentToJson body).pretty ++ "\n")
  | .error f => .error (.fault f)

def settingsText (settings : Settings) : Except SessionError String :=
  settings.toToml?.elim (.error (.settings .unwritable)) .ok

def linesText (lines : List String) : String :=
  String.join (lines.map (· ++ "\n"))

/-! ## Without pacing -/

/-- All that a command prints, if its run ends within `rounds` ticks of `fuel` labels a step.
`seconds` is the time that a benchmark reports. -/
def perform (host : Host) (invocation : Invocation) (devices : Devices σ) (dice : Dice)
    (fuel rounds : Nat) (seconds : Float) : Except SessionError (Option String) := do
  let settings ← host.sessionSettings invocation.config
  match invocation.command with
  | .run path ticks _ =>
    let program ← host.program path
    let s ← start settings program devices dice
    return (s.runCapped fuel (tickCap settings ticks) rounds).map targetsText
  | .continuation path label => return some (← continuationText (← host.program path) label)
  | .config => return some (← settingsText settings)
  | .bench threads ticks iterations warp =>
    let p : Benchmark.Parameters := ⟨threads, ticks, iterations, warp⟩
    p.check.mapError .benchmark
    let s := Benchmark.prepare p settings.scheduler.limit devices dice
    return (Benchmark.runTicks fuel ticks 0 s).map fun (steps, s) =>
      linesText (p.lines ++ (Benchmark.tally steps s).lines seconds)

end Session

end BlockScript
