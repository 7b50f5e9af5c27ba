import BlockScript.Document.Reader

/-!
# Settings

What can be set from outside: the pace and the limits of the scheduler, and which log lines are
shown.
-/

namespace BlockScript

structure SchedulerSettings where
  /-- Ticks a second. -/
  framerate : UInt32 := 30
  /-- How many pending labels one step may run. -/
  maxTransfers : Option UInt64 := none
  /-- How many ticks a run may take. -/
  maxTicks : Option UInt64 := none
deriving DecidableEq, Inhabited

structure LoggingSettings where
  filter : String := "info"
deriving DecidableEq, Inhabited

structure Settings where
  scheduler : SchedulerSettings := {}
  logging : LoggingSettings := {}
deriving DecidableEq, Inhabited

/-- The transfer limit of a step. -/
def SchedulerSettings.limit (s : SchedulerSettings) : Option Nat :=
  s.maxTransfers.map UInt64.toNat

/-- A field that null leaves unset. -/
def Json.nullable? {α : Type} (read : Json → Option α) : Json → Option (Option α)
  | .null => some none
  | j => (read j).map some

def SchedulerSettings.ofJson? (j : Json) : Option SchedulerSettings := do
  let [framerate, transfers, ticks] ←
    j.record? ["framerate", "max_transfers_per_step", "max_ticks"] | none
  return {
    framerate := ← Json.orElse? 30 Json.word32? framerate
    maxTransfers := ← Json.orElse? none (Json.nullable? Json.word64?) transfers
    maxTicks := ← Json.orElse? none (Json.nullable? Json.word64?) ticks }

end BlockScript
