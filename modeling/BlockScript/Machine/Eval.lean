import BlockScript.Machine
import BlockScript.Value.Order

/-!
# Expressions

Every operator casts its operands, so only a device can make an expression fail. Operands are
evaluated from left to right; a conjunction or disjunction that its left side decides does not
evaluate the right one.
-/

namespace BlockScript

def ArithmeticOp.apply : ArithmeticOp → Float → Float → Float
  | .add, a, b => a + b
  | .sub, a, b => a - b
  | .mul, a, b => a * b
  | .div, a, b => a / b
  | .mod, a, b => Number.floorMod a b

def CompareOp.holds : CompareOp → Ordering → Bool
  | .eq, o => o == .eq
  | .lt, o => o == .lt
  | .gt, o => o == .gt

def CastKind.apply : CastKind → Value → Value
  | .number, v => .num v.toNumber
  | .notNaN, v => .num (Value.notNaN v.number)
  | .boolean, v => .bool v.toBool
  | .text, v => .str v.toText

namespace Machine

variable {σ : Type}

mutual

def eval : Expr → Exec σ Value
  | .lit v => pure v
  | .var name => do return (← get).target.getVariable name
  | .arg index => do return (← get).thread.args.getD index.toNat (.num 0.0)
  | .item list index => do
    let index ← eval index
    match (← get).target.list? list with
    | some l => return l.get (← draw) index
    | none => return .str ""
  | .length list => do
    match (← get).target.list? list with
    | some l => return .num (Float.ofNat l.length)
    | none => return .num 0.0
  | .arithmetic op left right => do
    let a ← eval left
    let b ← eval right
    return .num (op.apply a.toNumber b.toNumber)
  | .compare op left right => do
    let a ← eval left
    let b ← eval right
    return .bool (op.holds (a.compare b))
  | .and left right => do
    let a ← eval left
    if a.toBool then return .bool (← eval right).toBool else return .bool false
  | .or left right => do
    let a ← eval left
    if a.toBool then return .bool true else return .bool (← eval right).toBool
  | .not inner => do return .bool (!(← eval inner).toBool)
  | .join left right => do
    let a ← eval left
    let b ← eval right
    return .str (a.toText ++ b.toText)
  | .cast kind inner => do return kind.apply (← eval inner)
  | .query device method args => do
    let args ← evalAll args
    query device method args

/-- Arguments, from left to right. -/
def evalAll : List Expr → Exec σ (List Value)
  | [] => pure []
  | e :: rest => do
    let v ← eval e
    let vs ← evalAll rest
    return v :: vs

end

end Machine

end BlockScript
