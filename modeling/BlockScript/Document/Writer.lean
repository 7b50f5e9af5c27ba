import BlockScript.Json
import BlockScript.Program
import BlockScript.Target

/-!
# Writing documents

Programs and targets as JSON values. A node of a script is an object whose field `t` names its
kind; every field is written, also those that a reader would fill in.
-/

namespace BlockScript

/-! ## Names of kinds -/

def Effect.key : Effect → String
  | .color => "color"
  | .fisheye => "fisheye"
  | .whirl => "whirl"
  | .pixelate => "pixelate"
  | .mosaic => "mosaic"
  | .brightness => "brightness"
  | .ghost => "ghost"

def ArithmeticOp.all : List ArithmeticOp :=
  [.add, .sub, .mul, .div, .mod]

def ArithmeticOp.key : ArithmeticOp → String
  | .add => "add"
  | .sub => "sub"
  | .mul => "mul"
  | .div => "div"
  | .mod => "mod"

def CompareOp.all : List CompareOp :=
  [.eq, .lt, .gt]

def CompareOp.key : CompareOp → String
  | .eq => "eq"
  | .lt => "lt"
  | .gt => "gt"

def CastKind.all : List CastKind :=
  [.number, .notNaN, .boolean, .text]

def CastKind.key : CastKind → String
  | .number => "number"
  | .notNaN => "not_nan"
  | .boolean => "boolean"
  | .text => "string"

/-! ## Values -/

def Value.toJson : Value → Json
  | .null => .null
  | .bool b => .bool b
  | .num n => .real n
  | .str s => .str s

def Label.toJson (l : Label) : Json := .int l.id.toNat

def Marker.toJson (m : Marker) : Json := .int m.id.toNat

def ProcedureId.toJson (p : ProcedureId) : Json := .int p.id.toNat

/-! ## Scripts -/

/-- A node of a script: its kind and its fields. -/
def Json.node (kind : String) (fields : List (String × Json)) : Json :=
  .obj (("t", .str kind) :: fields)

mutual

def Expr.toJson : Expr → Json
  | .lit v => .node "Lit" [("v", v.toJson)]
  | .var name => .node "Var" [("name", .str name)]
  | .arg index => .node "Arg" [("index", .int index.toNat)]
  | .item list index => .node "ItemOfList" [("list", .str list), ("index", index.toJson)]
  | .length list => .node "LengthOfList" [("list", .str list)]
  | .arithmetic op left right =>
    .node "Binary" [("op", .str op.key), ("left", left.toJson), ("right", right.toJson)]
  | .compare op left right =>
    .node "Compare" [("op", .str op.key), ("left", left.toJson), ("right", right.toJson)]
  | .and left right => .node "And" [("left", left.toJson), ("right", right.toJson)]
  | .or left right => .node "Or" [("left", left.toJson), ("right", right.toJson)]
  | .not inner => .node "Not" [("inner", inner.toJson)]
  | .join left right => .node "Join" [("left", left.toJson), ("right", right.toJson)]
  | .cast kind inner => .node "Cast" [("to", .str kind.key), ("inner", inner.toJson)]
  | .query device method args =>
    .node "IoQuery"
      [("device", .str device), ("method", .str method), ("args", .arr (exprsToJson args))]

def exprsToJson : List Expr → List Json
  | [] => []
  | e :: rest => e.toJson :: exprsToJson rest

end

mutual

def Stmt.toJson : Stmt → Json
  | .branch test yes no =>
    .node "If"
      [("test", test.toJson), ("then_s", .arr (blockToJson yes)), ("else_s", .arr (blockToJson no))]
  | .setVariable name value => .node "SetVariable" [("name", .str name), ("value", value.toJson)]
  | .changeVariable name amount =>
    .node "ChangeVariable" [("name", .str name), ("by", amount.toJson)]
  | .addToList list value => .node "AddToList" [("list", .str list), ("value", value.toJson)]
  | .replaceItem list index value =>
    .node "ReplaceItem" [("list", .str list), ("index", index.toJson), ("value", value.toJson)]
  | .insertAt list index value =>
    .node "InsertAt" [("list", .str list), ("index", index.toJson), ("value", value.toJson)]
  | .deleteOf list index => .node "DeleteOf" [("list", .str list), ("index", index.toJson)]
  | .setEffect effect value =>
    .node "SetEffect" [("effect", .str effect.key), ("value", value.toJson)]
  | .changeEffect effect amount =>
    .node "ChangeEffect" [("effect", .str effect.key), ("by", amount.toJson)]
  | .goTo x y => .node "GoToXY" [("x", x.toJson), ("y", y.toJson)]
  | .deviceCall device method args =>
    .node "IoCall"
      [("device", .str device), ("method", .str method), ("args", .arr (exprsToJson args))]
  | .jump label => .node "Jump" [("label", label.toJson)]
  | .jumpLazy label => .node "JumpLazy" [("label", label.toJson)]
  | .call procedure args resume =>
    .node "Call"
      [ ("procedure", procedure.toJson)
      , ("args", .arr (exprsToJson args))
      , ("resume", resume.toJson) ]
  | .finish => .node "End" []
  | .retire => .node "Retire" []
  | .marker id => .node "Marker" [("id", id.toJson)]

def blockToJson : List Stmt → List Json
  | [] => []
  | s :: rest => s.toJson :: blockToJson rest

end

/-- A block as the body of a fragment. -/
def fragmentToJson (body : Block) : Json :=
  .obj [("body", .arr (blockToJson body))]

/-! ## Programs and targets -/

def Entry.toJson : Entry → Json
  | .fragment body => .node "Fragment" [("body", .arr (blockToJson body))]
  | .continuation source marker =>
    .node "Continuation" [("source", source.toJson), ("marker", marker.toJson)]

def Procedure.toJson (p : Procedure) : Json :=
  .obj [("name", .str p.name), ("label", p.label.toJson), ("warp", .bool p.warp)]

def Program.toJson (p : Program) : Json :=
  .obj
    [ ("entry", p.entry.toJson)
    , ("labels", .arr (p.labels.toList.map Entry.toJson))
    , ("procedures", .arr (p.procedures.toList.map Procedure.toJson)) ]

def ItemList.toJson (l : ItemList) : Json :=
  .obj [("items", .arr (l.items.map Value.toJson)), ("dirty", .bool l.dirty)]

/-- Effects are written in the order in which they are listed. -/
def effectsToJson (effects : Table Effect Float) : Json :=
  .obj (Effect.all.filterMap fun e => (effects.find? e).map fun x => (e.key, .real x))

def Target.toJson (t : Target) : Json :=
  .obj
    [ ("name", .str t.name)
    , ("x", .real t.x)
    , ("y", .real t.y)
    , ("effects", effectsToJson t.effects)
    , ("variables", .obj (t.vars.pairs.map fun (k, v) => (k, v.toJson)))
    , ("lists", .obj (t.lists.pairs.map fun (k, l) => (k, l.toJson))) ]

end BlockScript
