import BlockScript.Machine

/-!
# Transfers

The five ways in which control leaves a block. None of them runs its destination: a jump makes it
the pending label, and a lazy jump outside atomic code stores it as the place to resume at, so that
the step ends there. A retired thread refuses all five.
-/

namespace BlockScript.Machine

variable {σ : Type}

def ensureLive : Exec σ Unit := do
  let m ← get
  if m.thread.isRetired then throw (.threadRetired m.thread.id)

def jump (label : Label) : Exec σ Unit := do
  ensureLive
  setPending (some label)

def jumpLazy (label : Label) : Exec σ Unit := do
  if (← get).thread.isWarp then jump label
  else
    ensureLive
    modifyThread fun t => { t with fragment := some label }

/-- Calls a procedure. The call is atomic when the procedure is, or when the caller runs atomically
already. -/
def call (procedure : ProcedureId) (args : List Value) (resume : Label) : Exec σ Unit := do
  ensureLive
  let m ← get
  match m.program.procedure procedure with
  | .error f => throw f
  | .ok callee =>
    let warped := callee.warp || m.thread.isWarp
    modifyThread fun t =>
      { t with
        stack := ⟨args, resume, warped⟩ :: t.stack
        warp := if warped then t.warp + 1 else t.warp }
    jump callee.label

/-- Ends the thread and gives notice. -/
def retire : Exec σ Unit := do
  ensureLive
  modify fun m =>
    { m with
      thread := m.thread.markRetired
      pending := none
      notices := m.notices ++ [m.thread.id] }

/-- One less, and zero stays zero. -/
def lessOne (depth : UInt32) : UInt32 :=
  if depth = 0 then 0 else depth - 1

/-- Returns from the innermost call, or retires when there is none. -/
def finish : Exec σ Unit := do
  ensureLive
  match (← get).thread.stack with
  | [] => retire
  | frame :: rest =>
    modifyThread fun t =>
      { t with
        stack := rest
        warp := if frame.warped then lessOne t.warp else t.warp }
    jump frame.resume

end BlockScript.Machine
