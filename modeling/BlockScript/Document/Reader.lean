import BlockScript.Document.Writer

/-!
# Reading documents

Programs, targets and their parts from JSON values. A record takes its fields from an object,
skipping those it does not know, or from an array that gives them in order; a field given twice is
refused, and a field that may be missing may not be null. A node of a script says by its tag which
kind it is. Inside another node the tag may also be the kind's number, and a whole node has to be
readable, also in fields that are skipped.
-/

namespace BlockScript

namespace Json

def need? {α : Type} (read : Json → Option α) : Option Json → Option α
  | some j => read j
  | none => none

def orElse? {α : Type} (missing : α) (read : Json → Option α) : Option Json → Option α
  | some j => read j
  | none => some missing

def keyed? {α : Type} (all : List α) (key : α → String) (name : String) : Option α :=
  all.find? (key · == name)

/-- One of a list of things inside a node: its name, or an object with the name as its only field
and nothing in it. -/
def choice? {α : Type} (all : List α) (key : α → String) : Json → Option α
  | .str name => keyed? all key name
  | .obj [(name, .null)] => keyed? all key name
  | .obj [(name, .obj [])] => keyed? all key name
  | _ => none

/-! ## Nodes -/

def untag? : Json → Option (Json × Json)
  | .obj fields =>
    match occurrences fields "t" with
    | [tag] => some (tag, .obj (fields.filter (·.1 != "t")))
    | _ => none
  | .arr (tag :: rest) => some (tag, .arr rest)
  | _ => none

/-- The kind that a tag stands for: its name or, inside another node, its number. -/
def kind? (kinds : List String) (inside : Bool) : Json → Option String
  | .str name => kinds.find? (· == name)
  | .int n => if inside ∧ 0 ≤ n then kinds[n.toNat]? else none
  | _ => none

def node? (kinds : List String) (inside : Bool) (j : Json) : Option (String × Json) :=
  match untag? j with
  | some (tag, rest) => (kind? kinds inside tag).map (·, rest)
  | none => none

def noFields? : Json → Option Unit
  | .obj _ => some ()
  | .arr [] => some ()
  | _ => none

end Json

open Json

/-! ## Values -/

def Value.ofJson? : Json → Option Value
  | .null => some .null
  | .bool b => some (.bool b)
  | .int n => some (.num (Float.ofInt n))
  | .real x => some (.num x)
  | .str s => some (.str s)
  | _ => none

def Json.word32? (j : Json) : Option UInt32 :=
  (j.nat? UInt32.size).map .ofNat

def Json.word64? (j : Json) : Option UInt64 :=
  (j.nat? UInt64.size).map .ofNat

def Label.ofJson? (j : Json) : Option Label := j.word32?.map .mk

def Marker.ofJson? (j : Json) : Option Marker := j.word32?.map .mk

def ProcedureId.ofJson? (j : Json) : Option ProcedureId := j.word32?.map .mk

/-! ## Scripts -/

def Expr.kinds : List String :=
  ["Lit", "Var", "Arg", "ItemOfList", "LengthOfList", "Binary", "Compare", "And", "Or", "Not",
    "Join", "Cast", "IoQuery"]

def Stmt.kinds : List String :=
  ["If", "SetVariable", "ChangeVariable", "AddToList", "ReplaceItem", "InsertAt", "DeleteOf",
    "SetEffect", "ChangeEffect", "GoToXY", "IoCall", "Jump", "JumpLazy", "Call", "End", "Retire",
    "Marker"]

def Json.all? {α : Type} (read : Json → Option α) (j : Json) : Option (List α) :=
  j.arr?.bind (·.mapM read)

/-- An expression, read with `fuel` for its depth. -/
def Expr.read? (fuel : Nat) (inside : Bool) (j : Json) : Option Expr := do
  match fuel with
  | 0 => none
  | fuel + 1 =>
    let expr := need? (Expr.read? fuel true)
    let args := orElse? [] (Json.all? (Expr.read? fuel true))
    let text := need? Json.str?
    let (kind, rest) ← node? Expr.kinds inside j
    match kind with
    | "Lit" =>
      let [v] ← rest.record? ["v"] | none
      return .lit (← need? Value.ofJson? v)
    | "Var" =>
      let [name] ← rest.record? ["name"] | none
      return .var (← text name)
    | "Arg" =>
      let [index] ← rest.record? ["index"] | none
      return .arg (← need? Json.word64? index)
    | "ItemOfList" =>
      let [list, index] ← rest.record? ["list", "index"] | none
      return .item (← text list) (← expr index)
    | "LengthOfList" =>
      let [list] ← rest.record? ["list"] | none
      return .length (← text list)
    | "Binary" =>
      let [op, left, right] ← rest.record? ["op", "left", "right"] | none
      let op ← need? (choice? ArithmeticOp.all ArithmeticOp.key) op
      return .arithmetic op (← expr left) (← expr right)
    | "Compare" =>
      let [op, left, right] ← rest.record? ["op", "left", "right"] | none
      let op ← need? (choice? CompareOp.all CompareOp.key) op
      return .compare op (← expr left) (← expr right)
    | "And" =>
      let [left, right] ← rest.record? ["left", "right"] | none
      return .and (← expr left) (← expr right)
    | "Or" =>
      let [left, right] ← rest.record? ["left", "right"] | none
      return .or (← expr left) (← expr right)
    | "Not" =>
      let [inner] ← rest.record? ["inner"] | none
      return .not (← expr inner)
    | "Join" =>
      let [left, right] ← rest.record? ["left", "right"] | none
      return .join (← expr left) (← expr right)
    | "Cast" =>
      let [kind, inner] ← rest.record? ["to", "inner"] | none
      return .cast (← need? (choice? CastKind.all CastKind.key) kind) (← expr inner)
    | "IoQuery" =>
      let [device, method, given] ← rest.record? ["device", "method", "args"] | none
      return .query (← text device) (← text method) (← args given)
    | _ => none

/-- A statement, read with `fuel` for its depth. -/
def Stmt.read? (fuel : Nat) (inside : Bool) (j : Json) : Option Stmt := do
  match fuel with
  | 0 => none
  | fuel + 1 =>
    let expr := need? (Expr.read? fuel true)
    let args := orElse? [] (Json.all? (Expr.read? fuel true))
    let block := Json.all? (Stmt.read? fuel true)
    let text := need? Json.str?
    let effect := need? (choice? Effect.all Effect.key)
    let label := need? Label.ofJson?
    let (kind, rest) ← node? Stmt.kinds inside j
    match kind with
    | "If" =>
      let [test, yes, no] ← rest.record? ["test", "then_s", "else_s"] | none
      return .branch (← expr test) (← need? block yes) (← orElse? [] block no)
    | "SetVariable" =>
      let [name, value] ← rest.record? ["name", "value"] | none
      return .setVariable (← text name) (← expr value)
    | "ChangeVariable" =>
      let [name, amount] ← rest.record? ["name", "by"] | none
      return .changeVariable (← text name) (← expr amount)
    | "AddToList" =>
      let [list, value] ← rest.record? ["list", "value"] | none
      return .addToList (← text list) (← expr value)
    | "ReplaceItem" =>
      let [list, index, value] ← rest.record? ["list", "index", "value"] | none
      return .replaceItem (← text list) (← expr index) (← expr value)
    | "InsertAt" =>
      let [list, index, value] ← rest.record? ["list", "index", "value"] | none
      return .insertAt (← text list) (← expr index) (← expr value)
    | "DeleteOf" =>
      let [list, index] ← rest.record? ["list", "index"] | none
      return .deleteOf (← text list) (← expr index)
    | "SetEffect" =>
      let [e, value] ← rest.record? ["effect", "value"] | none
      return .setEffect (← effect e) (← expr value)
    | "ChangeEffect" =>
      let [e, amount] ← rest.record? ["effect", "by"] | none
      return .changeEffect (← effect e) (← expr amount)
    | "GoToXY" =>
      let [x, y] ← rest.record? ["x", "y"] | none
      return .goTo (← expr x) (← expr y)
    | "IoCall" =>
      let [device, method, given] ← rest.record? ["device", "method", "args"] | none
      return .deviceCall (← text device) (← text method) (← args given)
    | "Jump" =>
      let [l] ← rest.record? ["label"] | none
      return .jump (← label l)
    | "JumpLazy" =>
      let [l] ← rest.record? ["label"] | none
      return .jumpLazy (← label l)
    | "Call" =>
      let [procedure, given, resume] ← rest.record? ["procedure", "args", "resume"] | none
      return .call (← need? ProcedureId.ofJson? procedure) (← args given) (← label resume)
    | "End" =>
      noFields? rest
      return .finish
    | "Retire" =>
      noFields? rest
      return .retire
    | "Marker" =>
      let [id] ← rest.record? ["id"] | none
      return .marker (← need? Marker.ofJson? id)
    | _ => none

/-- Reads a node that stands on its own, all of which has to be readable. -/
def Json.whole? {α : Type} (read : Nat → Json → Option α) (j : Json) : Option α :=
  if j.readable then read (j.depth + 1) j else none

def Expr.ofJson? (j : Json) : Option Expr :=
  j.whole? fun fuel => Expr.read? fuel false

def Stmt.ofJson? (j : Json) : Option Stmt :=
  j.whole? fun fuel => Stmt.read? fuel false

def blockOfJson? (j : Json) : Option Block :=
  j.all? Stmt.ofJson?

def fragmentOfJson? (j : Json) : Option Block := do
  let [body] ← j.record? ["body"] | none
  need? blockOfJson? body

/-! ## Programs -/

def Entry.kinds : List String :=
  ["Fragment", "Continuation"]

def Entry.ofJson? (j : Json) : Option Entry :=
  j.whole? fun fuel j => do
    let (kind, rest) ← node? Entry.kinds false j
    match kind with
    | "Fragment" =>
      let [body] ← rest.record? ["body"] | none
      return .fragment (← need? (Json.all? (Stmt.read? fuel true)) body)
    | "Continuation" =>
      let [source, marker] ← rest.record? ["source", "marker"] | none
      return .continuation (← need? Label.ofJson? source) (← need? Marker.ofJson? marker)
    | _ => none

def Procedure.ofJson? (j : Json) : Option Procedure := do
  let [name, label, warp] ← j.record? ["name", "label", "warp"] | none
  return ⟨← orElse? "" Json.str? name, ← need? Label.ofJson? label, ← orElse? false Json.bool? warp⟩

def Program.ofJson? (j : Json) : Option Program := do
  let [entry, labels, procedures] ← j.record? ["entry", "labels", "procedures"] | none
  let entry ← need? Label.ofJson? entry
  let labels ← need? (Json.all? Entry.ofJson?) labels
  let procedures ← orElse? [] (Json.all? Procedure.ofJson?) procedures
  return ⟨entry, labels.toArray, procedures.toArray⟩

/-! ## Targets -/

def ItemList.ofJson? (j : Json) : Option ItemList := do
  let [items, dirty] ← j.record? ["items", "dirty"] | none
  return ⟨← need? (Json.all? Value.ofJson?) items, ← orElse? false Json.bool? dirty⟩

/-- A table from an object; of a key given twice the later value counts. -/
def Json.table? {κ α : Type} [DecidableEq κ] (key : String → Option κ) (read : Json → Option α) :
    Json → Option (Table κ α)
  | .obj fields => do
    let pairs ← fields.mapM fun (k, j) => do return (← key k, ← read j)
    return .ofPairs pairs
  | _ => none

def Target.ofJson? (j : Json) : Option Target := do
  let [name, x, y, effects, vars, lists] ←
    j.record? ["name", "x", "y", "effects", "variables", "lists"] | none
  return {
    name := ← need? Json.str? name
    x := ← need? Json.float? x
    y := ← need? Json.float? y
    effects := ← orElse? .empty (Json.table? (keyed? Effect.all Effect.key) Json.float?) effects
    vars := ← orElse? .empty (Json.table? some Value.ofJson?) vars
    lists := ← orElse? .empty (Json.table? some ItemList.ofJson?) lists }

end BlockScript
