import BlockScript.Script

/-!
# Faults

What can go wrong while a script runs. A compiler's output gives rise to none of the first four;
mistakes of a script's author, such as an index out of range, are no faults but have default
results.
-/

namespace BlockScript

structure ThreadId where
  number : Nat
deriving DecidableEq, Inhabited

def ThreadId.name (t : ThreadId) : String := "T" ++ toString t.number

/-- Why a device refused a call. -/
inductive DeviceFault where
  | unknownMethod (method : String)
  | failed (reason : String)
deriving DecidableEq

inductive Fault where
  | unknownProcedure (procedure : ProcedureId)
  | unknownLabel (label : Label)
  | missingMarker (source : Label) (marker : Marker)
  | continuationCycle (label : Label)
  | unknownTarget (target : Nat)
  | threadRetired (thread : ThreadId)
  | unknownDevice (device : String)
  | device (name : String) (cause : DeviceFault)
deriving DecidableEq

def DeviceFault.message : DeviceFault → String
  | .unknownMethod method => "unknown method '" ++ method ++ "'"
  | .failed reason => reason

def Fault.message : Fault → String
  | .unknownProcedure procedure => "unknown procedure " ++ procedure.name
  | .unknownLabel label => "unknown label " ++ label.name
  | .missingMarker source marker =>
    "marker " ++ marker.name ++ " not found in fragment for label " ++ source.name
  | .continuationCycle label =>
    "continuation label " ++ label.name ++ " has a cyclic source chain"
  | .unknownTarget target => "unknown target #" ++ toString target
  | .threadRetired thread => "thread " ++ thread.name ++ " is retired"
  | .unknownDevice name => "unknown I/O device '" ++ name ++ "'"
  | .device name cause => "I/O device '" ++ name ++ "' failed: " ++ cause.message

end BlockScript
