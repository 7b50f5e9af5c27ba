import BlockScript.Setting
import BlockScript.Settings
import BlockScript.Number.Layout
import BlockScript.Number.Decimal

/-!
# Settings from raw ones

Raw settings are converted generously: a truth value or a text can stand for a number, and a
number for a text. A section may also be a list that gives its fields in order.
-/

namespace BlockScript

namespace Setting

/-- A double rounded, a half away from zero, and kept within an unsigned word. -/
def clamp (x : Float) : Nat :=
  match Number.exact x with
  | .nan => 0
  | .infinite negative => if negative then 0 else UInt64.size - 1
  | .finite .. => min ((Number.round? x).getD 0).toNat (UInt64.size - 1)

/-- A word for a number. -/
def natOfText? (s : String) : Option Nat :=
  let word := Text.lowercase s
  if word = "true" ∨ word = "on" ∨ word = "yes" then some 1
  else if word = "false" ∨ word = "off" ∨ word = "no" then some 0
  else (Number.natural? s.toList).filter (· < UInt64.size)

/-- An unsigned word. -/
def nat? : Setting → Option Nat
  | .int n => if 0 ≤ n then some n.toNat else none
  | .bool b => some (if b then 1 else 0)
  | .float x => some (clamp x)
  | .text s => natOfText? s
  | _ => none

def text? : Setting → Option String
  | .text s => some s
  | .bool b => some (if b then "true" else "false")
  | .int n => some (toString n)
  | .float x => some (Number.Layout.plain.format x)
  | _ => none

/-- A setting that may be left unset. -/
def option? {α : Type} (convert : Setting → Option α) : Setting → Option (Option α)
  | .nil => some none
  | s => (convert s).map some

/-- The fields of a section in the order of `names`. -/
def fields? (names : List String) : Setting → Option (List (Option Setting))
  | .table pairs => some (names.map fun name => pairs.lookup name)
  | .list items => some ((List.range names.length).map fun i => items[i]?)
  | _ => none

/-- A field, or its default when it is not given. -/
def orDefault {α : Type} (default : α) (convert : Setting → Option α) : Option Setting → Option α
  | some s => convert s
  | none => some default

end Setting

open Setting

def Setting.word32? (s : Setting) : Option UInt32 :=
  (s.nat?.filter (· < UInt32.size)).map .ofNat

def Setting.word64? (s : Setting) : Option UInt64 :=
  s.nat?.map .ofNat

def SchedulerSettings.ofSetting? (s : Setting) : Option SchedulerSettings := do
  let [framerate, transfers, ticks] ←
    s.fields? ["framerate", "max_transfers_per_step", "max_ticks"] | none
  return {
    framerate := ← orDefault 30 Setting.word32? framerate
    maxTransfers := ← orDefault none (option? Setting.word64?) transfers
    maxTicks := ← orDefault none (option? Setting.word64?) ticks }

def LoggingSettings.ofSetting? (s : Setting) : Option LoggingSettings := do
  let [filter] ← s.fields? ["filter"] | none
  return { filter := ← orDefault "info" Setting.text? filter }

def Settings.ofSetting? (s : Setting) : Option Settings := do
  let [scheduler, logging] ← s.fields? ["scheduler", "logging"] | none
  return {
    scheduler := ← orDefault {} SchedulerSettings.ofSetting? scheduler
    logging := ← orDefault {} LoggingSettings.ofSetting? logging }

end BlockScript
