import BlockScript.ItemList
import BlockScript.Script
import BlockScript.Table

/-!
# Targets

A target is what threads act on: a name, a position, graphic effects, variables and lists. What it
looks like is for others to show.
-/

namespace BlockScript

structure Target where
  name : String
  x : Float
  y : Float
  effects : Table Effect Float
  vars : Table String Value
  lists : Table String ItemList
deriving Inhabited

namespace Target

def new (name : String) : Target :=
  ⟨name, 0.0, 0.0, .empty, .empty, .empty⟩

def effect (t : Target) (e : Effect) : Float :=
  (t.effects.find? e).getD 0.0

def setEffect (t : Target) (e : Effect) (value : Float) : Target :=
  { t with effects := t.effects.insert e value }

def changeEffect (t : Target) (e : Effect) (amount : Float) : Target :=
  t.setEffect e (t.effect e + amount)

def moveTo (t : Target) (x y : Float) : Target :=
  { t with x, y }

/-- A variable that was never set reads as zero. -/
def getVariable (t : Target) (name : String) : Value :=
  (t.vars.find? name).getD (.num 0.0)

def setVariable (t : Target) (name : String) (value : Value) : Target :=
  { t with vars := t.vars.insert name value }

def list? (t : Target) (name : String) : Option ItemList :=
  t.lists.find? name

/-- Changes a list, which is there from then on if it was not before. -/
def modifyList (t : Target) (name : String) (change : ItemList → ItemList) : Target :=
  { t with lists := t.lists.insert name (change ((t.list? name).getD .empty)) }

end Target

end BlockScript
