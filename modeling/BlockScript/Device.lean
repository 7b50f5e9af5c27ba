import BlockScript.Fault
import BlockScript.Table

/-!
# Devices

Scripts reach devices by name and call a method with arguments. A device answers from a state `σ`
that all devices share and may change it, also when it refuses the call. The only device that is
always there is the clock.
-/

namespace BlockScript

/-- How a device answers a method call. -/
abbrev Device (σ : Type) :=
  (method : String) → (args : List Value) → StateM σ (Except DeviceFault Value)

structure Devices (σ : Type) where
  installed : Table String (Device σ)
  state : σ

namespace Devices

variable {σ : Type}

def contains (d : Devices σ) (name : String) : Bool :=
  d.installed.contains name

/-- The installed names in ascending order. -/
def names (d : Devices σ) : List String :=
  d.installed.keys.mergeSort (· ≤ ·)

/-- One line that lists what is installed. -/
def describe (d : Devices σ) : String :=
  let quoted := d.names.map fun name => "\"" ++ name ++ "\""
  "IoRegistry \x7b devices: [" ++ ", ".intercalate quoted ++ "] \x7d"

def query (d : Devices σ) (name method : String) (args : List Value) :
    Except Fault Value × Devices σ :=
  match d.installed.find? name with
  | none => (.error (.unknownDevice name), d)
  | some device =>
    match device method args d.state with
    | (.ok value, state) => (.ok value, { d with state })
    | (.error cause, state) => (.error (.device name cause), { d with state })

end Devices

/-! ## The clock -/

/-- A stopwatch in seconds. The host moves `now` forward; a reset makes it the start. -/
structure Clock where
  now : Float
  started : Float
deriving Inhabited

def Clock.start (now : Float) : Clock := ⟨now, now⟩

def Clock.elapsed (c : Clock) : Float := c.now - c.started

def Clock.device : Device Clock := fun method _ =>
  match method with
  | "projectTimer" => do return .ok (.num (← get).elapsed)
  | "resetProjectTimer" => do
    modify fun c => { c with started := c.now }
    return .ok .null
  | other => return .error (.unknownMethod other)

/-- A device that works on one part of a larger state. -/
def Device.onFirst {σ τ : Type} (device : Device σ) : Device (σ × τ) := fun method args s =>
  let (answer, first) := device method args s.1
  (answer, (first, s.2))

/-- The devices that every host has. -/
def Devices.builtin (clock : Clock) : Devices Clock :=
  ⟨.ofPairs [("clock", Clock.device)], clock⟩

end BlockScript
