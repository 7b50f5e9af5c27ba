import BlockScript.Continuation
import BlockScript.Fault

/-!
# Programs

A program is a jump table, a procedure table and the label where threads begin. An entry of the
jump table is a block, or the continuation of another label's block after a marker. Continuations
are built when they are first asked for, and what has been built is kept in a cache.
-/

namespace BlockScript

inductive Entry where
  | fragment (body : Block)
  /-- What is left of the block at `source` after `marker`. -/
  | continuation (source : Label) (marker : Marker)
deriving Inhabited

structure Procedure where
  name : String
  label : Label
  /-- The procedure runs atomically: nothing in it yields. -/
  warp : Bool
deriving DecidableEq

structure Program where
  entry : Label
  labels : Array Entry
  procedures : Array Procedure
deriving Inhabited

/-- The blocks built so far, by label. -/
structure Cache where
  built : Array (Option Block)
deriving Inhabited

def Cache.find? (cache : Cache) (label : Label) : Option Block :=
  cache.built[label.index]?.join

def Cache.insert (cache : Cache) (label : Label) (block : Block) : Cache :=
  ⟨cache.built.setIfInBounds label.index (some block)⟩

def Cache.labels (cache : Cache) : List Nat :=
  (List.range cache.built.size).filter fun i => (cache.built[i]?.join).isSome

namespace Program

def emptyCache (p : Program) : Cache :=
  ⟨Array.replicate p.labels.size none⟩

def procedure (p : Program) (id : ProcedureId) : Except Fault Procedure :=
  match p.procedures[id.index]? with
  | some procedure => .ok procedure
  | none => .error (.unknownProcedure id)

/-! ## Resolving labels -/

/-- What building blocks works on: the cache, kept when a label fails. -/
abbrev Build := ExceptT Fault (StateM Cache)

/-- The block at a label. `pending` holds the continuations whose sources are being resolved; to
meet one of them again is a cycle. Each of them is in the jump table and none comes twice, so
`fuel` as large as the table is never used up. -/
def resolve (p : Program) (fuel : Nat) (pending : List Label) (label : Label) : Build Block := do
  match p.labels[label.index]? with
  | none => throw (.unknownLabel label)
  | some entry =>
    match (← get).find? label with
    | some block => return block
    | none =>
      let block ← match entry with
        | .fragment body => pure body
        | .continuation source marker =>
          if label ∈ pending then throw (.continuationCycle label)
          else
            match fuel with
            | 0 => throw (.continuationCycle label)
            | fuel + 1 => do
              let body ← p.resolve fuel (label :: pending) source
              match Continuation.synthesize? marker body with
              | some rest => pure rest
              | none => throw (.missingMarker source marker)
      modify (·.insert label block)
      return block

def block (p : Program) (label : Label) : Build Block :=
  p.resolve p.labels.size [] label

end Program

end BlockScript
