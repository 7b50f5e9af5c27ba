import BlockScript.Settings.Layers
import BlockScript.Toml.Writer

/-!
# Printing settings

The settings as a TOML document that reads back as the same settings. What is unset is left out.
-/

namespace BlockScript

/-- TOML integers are signed words. -/
def tomlInteger? (n : UInt64) : Option String :=
  if Number.isWord n.toNat then some (toString n.toNat) else none

/-- The line of a setting, if it is set. -/
def optionLine? (key : String) : Option UInt64 → Option (List String)
  | none => some []
  | some n => (tomlInteger? n).map fun s => [key ++ " = " ++ s]

def SchedulerSettings.lines? (s : SchedulerSettings) : Option (List String) := do
  let transfers ← optionLine? "max_transfers_per_step" s.maxTransfers
  let ticks ← optionLine? "max_ticks" s.maxTicks
  return ("framerate = " ++ toString s.framerate.toNat) :: transfers ++ ticks

def Settings.toToml? (s : Settings) : Option String := do
  let scheduler ← s.scheduler.lines?
  let lines := "[scheduler]" :: scheduler
    ++ ["", "[logging]", "filter = " ++ Toml.quote s.logging.filter]
  return String.join (lines.map (· ++ "\n"))

end BlockScript
