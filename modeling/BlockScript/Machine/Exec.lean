import BlockScript.Machine.Control
import BlockScript.Machine.Eval

/-!
# Statements

A block runs in order until it falls off its end or a transfer ends it.
-/

namespace BlockScript.Machine

/-- How a block ended. -/
inductive Flow where
  | next
  | transferred
deriving DecidableEq

variable {σ : Type}

/-- Changes a list by an operation that may draw a slot. -/
def changeList (name : String) (change : Pick → ItemList → ItemList) : Exec σ Unit := do
  let pick ← draw
  modifyTarget (·.modifyList name (change pick))

mutual

def exec : Stmt → Exec σ Flow
  | .branch test yes no => do
    let taken ← eval test
    if taken.toBool then execBlock yes else execBlock no
  | .setVariable name value => do
    let v ← eval value
    modifyTarget (·.setVariable name v)
    return .next
  | .changeVariable name amount => do
    let v ← eval amount
    modifyTarget fun t => t.setVariable name (.num ((t.getVariable name).toNumber + v.toNumber))
    return .next
  | .addToList list value => do
    let v ← eval value
    modifyTarget (·.modifyList list (·.push v))
    return .next
  | .replaceItem list index value => do
    let i ← eval index
    let v ← eval value
    changeList list fun pick l => l.replace pick i v
    return .next
  | .insertAt list index value => do
    let i ← eval index
    let v ← eval value
    changeList list fun pick l => l.insert pick i v
    return .next
  | .deleteOf list index => do
    let i ← eval index
    changeList list fun pick l => l.delete pick i
    return .next
  | .setEffect effect value => do
    let v ← eval value
    modifyTarget (·.setEffect effect v.toNumber)
    return .next
  | .changeEffect effect amount => do
    let v ← eval amount
    modifyTarget (·.changeEffect effect v.toNumber)
    return .next
  | .goTo x y => do
    let vx ← eval x
    let vy ← eval y
    modifyTarget (·.moveTo vx.toNumber vy.toNumber)
    return .next
  | .deviceCall device method args => do
    let vs ← evalAll args
    let _ ← query device method vs
    return .next
  | .marker _ => return .next
  | .jump label => do
    jump label
    return .transferred
  | .jumpLazy label => do
    jumpLazy label
    return .transferred
  | .call procedure args resume => do
    let vs ← evalAll args
    call procedure vs resume
    return .transferred
  | .finish => do
    finish
    return .transferred
  | .retire => do
    retire
    return .transferred

def execBlock : List Stmt → Exec σ Flow
  | [] => return .next
  | s :: rest => do
    match ← exec s with
    | .next => execBlock rest
    | .transferred => return .transferred

end

end BlockScript.Machine
