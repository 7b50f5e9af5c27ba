import BlockScript.Number.Decimal
import BlockScript.Table

/-!
# The command line

Options and arguments are read from left to right. The value of an option or argument is checked
when the next one is taken up, so an unknown option is reported before a bad value in front of it.
-/

namespace BlockScript

inductive UsageError where
  | help
  /-- Nothing was given, which is answered with help too. -/
  | nothingGiven
  | unknownArgument
  | unknownCommand
  | missingCommand
  | missingArgument
  /-- An option without its value, or an empty path. -/
  | missingValue
  | badValue
  | repeated
  | unwantedValue
deriving DecidableEq

namespace CommandLine

/-! ## What a command takes -/

inductive ValueKind where
  | text
  | path
  | word32
  | word64
deriving DecidableEq

def ValueKind.check : ValueKind → String → Except UsageError Unit
  | .text, _ => .ok ()
  | .path, s => if s.isEmpty then .error .missingValue else .ok ()
  | .word32, s =>
    match Number.integer? s.toList with
    | some n => if 0 ≤ n ∧ n < UInt32.size then .ok () else .error .badValue
    | none => .error .badValue
  | .word64, s =>
    match Number.natural? s.toList with
    | some n => if n < UInt64.size then .ok () else .error .badValue
    | none => .error .badValue

structure Shape where
  flags : List String := []
  options : List (String × ValueKind) := []
  arguments : List (String × ValueKind) := []
  commands : List String := []

/-- A value that is still to be checked; an option may lack it yet. -/
structure Pending where
  name : String
  kind : ValueKind
  value : Option String

structure Progress where
  given : List (String × String) := []
  pending : Option Pending := none
  taken : Nat := 0
  /-- After `--` everything is an argument. -/
  trailing : Bool := false

namespace Progress

def give (p : Progress) (name value : String) : Except UsageError Progress :=
  if (p.given.lookup name).isSome then .error .repeated
  else .ok { p with given := p.given ++ [(name, value)] }

def settle (p : Progress) : Except UsageError Progress :=
  match p.pending with
  | none => .ok p
  | some ⟨_, _, none⟩ => .error .missingValue
  | some ⟨name, kind, some value⟩ => do
    let p ← { p with pending := none }.give name value
    kind.check value
    return p

def waits (p : Progress) : Bool :=
  match p.pending with
  | some ⟨_, _, none⟩ => true
  | _ => false

end Progress

/-! ## Reading arguments -/

inductive Form where
  | escape
  | long (name : String) (value : Option String)
  | short (flag : Char)
  | plain

def Form.of (arg : String) : Form :=
  match arg.toList with
  | ['-', '-'] => .escape
  | '-' :: '-' :: rest =>
    let name := rest.takeWhile (· != '=')
    let value := match rest.dropWhile (· != '=') with
      | _ :: value => some (String.ofList value)
      | [] => none
    .long (.ofList name) value
  | '-' :: c :: _ => .short c
  | _ => .plain

def takeLong (shape : Shape) (p : Progress) (name : String) (value : Option String) :
    Except UsageError Progress :=
  if name = "help" ∨ name ∈ shape.flags then
    match value with
    | some _ => .error .unwantedValue
    | none => do
      let p ← p.settle
      if name = "help" then .error .help else p.give name ""
  else
    match shape.options.lookup name, value with
    | some kind, some value => do
      let p ← (← p.settle).give name value
      kind.check value
      return p
    | some kind, none => do return { ← p.settle with pending := some ⟨name, kind, none⟩ }
    | none, _ => .error .unknownArgument

def takeShort (p : Progress) (flag : Char) : Except UsageError Progress := do
  if flag = 'h' then
    let _ ← p.settle
    .error .help
  else .error .unknownArgument

def takeArgument (shape : Shape) (p : Progress) (arg : String) : Except UsageError Progress :=
  match shape.arguments[p.taken]? with
  | some (name, kind) => do
    return { ← p.settle with pending := some ⟨name, kind, some arg⟩, taken := p.taken + 1 }
  | none =>
    if shape.commands.isEmpty || (p.trailing && arg ∈ shape.commands) then .error .unknownArgument
    else .error .unknownCommand

def take (shape : Shape) (p : Progress) (arg : String) : Except UsageError Progress :=
  if p.trailing then takeArgument shape p arg
  else
    match Form.of arg with
    | .escape => .ok { p with trailing := true }
    | .long name value => takeLong shape p name value
    | .short flag => takeShort p flag
    | .plain =>
      match p.pending with
      | some ⟨name, kind, none⟩ => .ok { p with pending := some ⟨name, kind, some arg⟩ }
      | _ => takeArgument shape p arg

/-- Reads arguments up to a command, if one comes. -/
def readAll (shape : Shape) (p : Progress) :
    List String → Except UsageError (Progress × Option (String × List String))
  | [] => .ok (p, none)
  | arg :: rest =>
    if !p.trailing && !p.waits && arg ∈ shape.commands then .ok (p, some (arg, rest))
    else do
      let p ← take shape p arg
      readAll shape p rest

def finish (shape : Shape) (p : Progress) : Except UsageError (List (String × String)) := do
  let p ← p.settle
  if p.taken < shape.arguments.length then .error .missingArgument else return p.given

end CommandLine

/-! ## Commands -/

inductive Command where
  | run (program : String) (ticks : Option Nat) (turbo : Bool)
  | continuation (program : String) (label : UInt32)
  | config
  | bench (threads ticks : Nat) (iterations : UInt32) (warp : Bool)
deriving DecidableEq

structure Invocation where
  config : Option String
  command : Command
deriving DecidableEq

namespace CommandLine

def configOption : String × ValueKind := ("config", .text)

def topShape : Shape where
  options := [configOption]
  commands := ["run", "continuation", "config", "bench", "help"]

def shapeOf : String → Shape
  | "run" =>
    { flags := ["turbo"], options := [("ticks", .word64), configOption],
      arguments := [("program", .path)] }
  | "continuation" =>
    { options := [configOption], arguments := [("program", .path), ("label", .word32)] }
  | "bench" =>
    { flags := ["warp"],
      options := [("threads", .word64), ("ticks", .word64), ("iterations", .word32), configOption] }
  | _ => { options := [configOption] }

def givenNat? (given : List (String × String)) (name : String) : Option Nat :=
  (given.lookup name).bind fun s => (Number.integer? s.toList).map Int.toNat

def commandOf (name : String) (given : List (String × String)) : Command :=
  let has (flag : String) := (given.lookup flag).isSome
  let program := (given.lookup "program").getD ""
  match name with
  | "run" => .run program (givenNat? given "ticks") (has "turbo")
  | "continuation" => .continuation program (.ofNat ((givenNat? given "label").getD 0))
  | "bench" =>
    .bench ((givenNat? given "threads").getD 100) ((givenNat? given "ticks").getD 1000)
      (.ofNat ((givenNat? given "iterations").getD 10)) (has "warp")
  | _ => .config

def helpOn : List String → UsageError
  | [] => .help
  | [name] => if name ∈ topShape.commands then .help else .unknownCommand
  | _ => .unknownCommand

/-- What a command line asks for. The settings file may be given before the command or after it,
and the latter counts. -/
def parse (args : List String) : Except UsageError Invocation := do
  match ← readAll topShape {} args with
  | (_, some ("help", rest)) => .error (helpOn rest)
  | (top, some (name, rest)) =>
    let shape := shapeOf name
    let (p, _) ← readAll shape {} rest
    let given ← finish shape p
    let top ← top.settle
    return ⟨given.lookup "config" <|> top.given.lookup "config", commandOf name given⟩
  | (top, none) =>
    let top ← top.settle
    if top.given.isEmpty then .error .nothingGiven else .error .missingCommand

end CommandLine

end BlockScript
