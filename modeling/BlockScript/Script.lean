import BlockScript.Value

/-!
# Scripts

A compiled script is a set of blocks. A block is a list of statements; control leaves it at the
end, or earlier through a transfer: a jump, a lazy jump, a call, a finish or a retirement. A marker
does nothing when it is run. It names a place inside a block where execution may be picked up
again later.
-/

namespace BlockScript

/-! ## Names -/

/-- A place in a program's jump table. -/
structure Label where
  id : UInt32
deriving DecidableEq, Inhabited

/-- A place in a program's procedure table. -/
structure ProcedureId where
  id : UInt32
deriving DecidableEq, Inhabited

/-- A place inside a block. -/
structure Marker where
  id : UInt32
deriving DecidableEq, Inhabited

def Label.index (l : Label) : Nat := l.id.toNat

def ProcedureId.index (p : ProcedureId) : Nat := p.id.toNat

def Label.name (l : Label) : String := "L" ++ toString l.id.toNat

def ProcedureId.name (p : ProcedureId) : String := "P" ++ toString p.id.toNat

def Marker.name (m : Marker) : String := "M" ++ toString m.id.toNat

/-- Graphic effects, in the order in which they are listed. -/
inductive Effect where
  | color
  | fisheye
  | whirl
  | pixelate
  | mosaic
  | brightness
  | ghost
deriving DecidableEq

def Effect.all : List Effect :=
  [.color, .fisheye, .whirl, .pixelate, .mosaic, .brightness, .ghost]

/-! ## Expressions -/

inductive ArithmeticOp where
  | add
  | sub
  | mul
  | div
  | mod
deriving DecidableEq

inductive CompareOp where
  | eq
  | lt
  | gt
deriving DecidableEq

inductive CastKind where
  | number
  | notNaN
  | boolean
  | text
deriving DecidableEq

inductive Expr where
  | lit (v : Value)
  | var (name : String)
  /-- An argument of the innermost call. -/
  | arg (index : UInt64)
  | item (list : String) (index : Expr)
  | length (list : String)
  | arithmetic (op : ArithmeticOp) (left right : Expr)
  | compare (op : CompareOp) (left right : Expr)
  | and (left right : Expr)
  | or (left right : Expr)
  | not (inner : Expr)
  | join (left right : Expr)
  | cast (kind : CastKind) (inner : Expr)
  | query (device method : String) (args : List Expr)
deriving Inhabited

/-! ## Statements -/

inductive Stmt where
  | branch (test : Expr) (yes no : List Stmt)
  | setVariable (name : String) (value : Expr)
  | changeVariable (name : String) (amount : Expr)
  | addToList (list : String) (value : Expr)
  | replaceItem (list : String) (index value : Expr)
  | insertAt (list : String) (index value : Expr)
  | deleteOf (list : String) (index : Expr)
  | setEffect (effect : Effect) (value : Expr)
  | changeEffect (effect : Effect) (amount : Expr)
  | goTo (x y : Expr)
  | deviceCall (device method : String) (args : List Expr)
  | jump (label : Label)
  /-- Yields first, unless the thread runs atomically. -/
  | jumpLazy (label : Label)
  | call (procedure : ProcedureId) (args : List Expr) (resume : Label)
  /-- Returns from the innermost call, or retires the thread when there is none. -/
  | finish
  | retire
  | marker (id : Marker)
deriving Inhabited

abbrev Block := List Stmt

/-- Control leaves the block after this statement. -/
def Stmt.isTransfer : Stmt → Bool
  | .jump _ => true
  | .jumpLazy _ => true
  | .call .. => true
  | .finish => true
  | .retire => true
  | _ => false

end BlockScript
