import BlockScript.Json.Reader
import BlockScript.Settings.Convert
import BlockScript.Toml.Reader

/-!
# Layers of settings

Settings come from a file, a text given on the spot and the environment, each laid over the one
before. The file is the one asked for, else the one that `CADENCE_CONFIG_PATH` names, else
`cadence.toml`, which need not be there. Files are written in TOML or JSON. The further formats
that a file asked for by its path can have, YAML, INI, RON and JSON5, are left out. Variables whose
names start with `CADENCE_` give single settings, two underscores standing between section and key.
-/

namespace BlockScript

abbrev Environment := Table String String

structure Host where
  read : String → Option String
  environment : Environment

structure SettingsSources where
  path : Option String := none
  inline : Option String := none
  skipEnvironment : Bool := false

inductive SettingsError where
  | unreadable
  | invalid
  | unwritable
deriving DecidableEq

def SettingsError.message : SettingsError → String
  | .unreadable => "Failed to read configuration sources"
  | .invalid => "Invalid configuration"
  | .unwritable => "Failed to serialize configuration"

/-! ## Files -/

inductive FileFormat where
  | toml
  | json
deriving DecidableEq

def FileFormat.all : List FileFormat := [.toml, .json]

def FileFormat.ending : FileFormat → String
  | .toml => "toml"
  | .json => "json"

mutual

/-- Integers beyond a signed word are doubles; of a key given twice the later value counts. -/
def Setting.ofJson : Json → Setting
  | .null => .nil
  | .bool b => .bool b
  | .int n => if Number.isWord n then .int n else .float (Float.ofInt n)
  | .real x => .float x
  | .str s => .text s
  | .arr items => .list (Setting.ofItems items)
  | .obj fields => .table (Setting.ofFields [] fields)
  | .unreadable => .nil

def Setting.ofItems : List Json → List Setting
  | [] => []
  | j :: rest => Setting.ofJson j :: Setting.ofItems rest

def Setting.ofFields (before : List (String × Setting)) :
    List (String × Json) → List (String × Setting)
  | [] => before
  | (k, j) :: rest => Setting.ofFields (Table.setIn k (Setting.ofJson j) before) rest

end

def FileFormat.parse? : FileFormat → String → Option Setting
  | .toml, text => Toml.read? text
  | .json, text =>
    match Json.read? text with
    | some (.obj fields) =>
      if (Json.obj fields).readable then some (Setting.ofJson (.obj fields)) else none
    | _ => none

def lastName (path : List Char) : List Char :=
  (path.reverse.takeWhile (· != '/')).reverse

/-- What follows the last point of a name that does not start with it. -/
def pathEnding (path : String) : String :=
  let name := lastName path.toList
  if (name.drop 1).contains '.' then .ofList (name.reverse.takeWhile (· != '.')).reverse else ""

def FileFormat.ofPath? (path : String) : Option FileFormat :=
  FileFormat.all.find? (·.ending == pathEnding path)

/-- Drops slashes and parts `.` from the end of a path that is read backwards. -/
def dropIdle : List Char → List Char
  | '/' :: rest => dropIdle rest
  | '.' :: '/' :: rest => dropIdle rest
  | path => path

/-- A path with an ending added to its last name; one that leads to no name has none. -/
def withEnding? (path ending : String) : Option String :=
  let path := (dropIdle path.toList.reverse).reverse
  if String.ofList (lastName path) ∈ ["", ".", ".."] then none
  else some (.ofList path ++ "." ++ ending)

def endedPaths (path : String) (formats : List FileFormat) : List (FileFormat × String) :=
  formats.filterMap fun format => (withEnding? path format.ending).map (format, ·)

/-- The text of a file and its format. When there is no such file, the ending of a format may be
missing from its path. -/
def Host.findFile? (host : Host) (path : String) (formats : List FileFormat)
    (format? : Option FileFormat) : Option (FileFormat × String) :=
  match host.read path with
  | some text => format?.map (·, text)
  | none => (endedPaths path formats).findSome? fun (format, path) =>
      (host.read path).map (format, ·)

def withoutMark (text : String) : String :=
  match text.toList with
  | '\uFEFF' :: rest => .ofList rest
  | _ => text

def defaultPath : String := "cadence.toml"

def pathVariable : String := "CADENCE_CONFIG_PATH"

def Host.fileLayer (host : Host) (path : Option String) : Except SettingsError Setting :=
  let parse : FileFormat × String → Except SettingsError Setting
    | (format, text) => (format.parse? (withoutMark text)).elim (.error .unreadable) .ok
  match path <|> host.environment.find? pathVariable with
  | some path =>
    match host.findFile? path FileFormat.all (FileFormat.ofPath? path) with
    | some file => parse file
    | none => .error .unreadable
  | none =>
    match host.findFile? defaultPath [.toml] (some .toml) with
    | some file => parse file
    | none => .ok (.table [])

/-! ## The environment -/

def variableStart : List Char := "cadence_".toList

def pointed : List Char → List Char
  | '_' :: '_' :: rest => '.' :: pointed rest
  | c :: rest => c :: pointed rest
  | [] => []

def variableKey? (name : String) : Option String :=
  let name := (Text.lowercase name).toList
  if variableStart.isPrefixOf name then some (.ofList (pointed (name.drop variableStart.length)))
  else none

/-- A decimal literal, an infinity or NaN under an optional sign. -/
def floatOfText? (s : String) : Option Float :=
  let (negative, text) := match s.toList with
    | '+' :: rest => (false, rest)
    | '-' :: rest => (true, rest)
    | text => (false, text)
  let word := String.ofList (text.map Char.toLower)
  let magnitude :=
    if word = "inf" ∨ word = "infinity" then some (1.0 / 0.0)
    else if word = "nan" then some (0.0 / 0.0)
    else (Number.Decimal.read? text).map (·.toFloat)
  magnitude.map fun x => if negative then -x else x

def Setting.ofVariable (text : String) : Setting :=
  let word := Text.lowercase text
  if word = "true" then .bool true
  else if word = "false" then .bool false
  else
    match (Number.integer? text.toList).filter Number.isWord with
    | some n => .int n
    | none =>
      match floatOfText? text with
      | some x => .float x
      | none => .text text

def environmentLayer (environment : Environment) : Setting :=
  .table (environment.pairs.filterMap fun (name, text) =>
    (variableKey? name).map fun key => (key, Setting.ofVariable text))

/-! ## All together -/

def SettingsSources.inlineLayer (sources : SettingsSources) : Except SettingsError Setting :=
  match sources.inline with
  | none => .ok (.table [])
  | some text => (Toml.read? text).elim (.error .unreadable) .ok

def Host.settings (host : Host) (sources : SettingsSources) : Except SettingsError Settings := do
  let file ← host.fileLayer sources.path
  let inline ← sources.inlineLayer
  let environment :=
    if sources.skipEnvironment then .table [] else environmentLayer host.environment
  let all := (((Setting.table []).layer file).layer inline).layer environment
  (Settings.ofSetting? all).elim (.error .invalid) .ok

end BlockScript
