import BlockScript.Proofs.Visits

/-!
# A label without its warp

Warp has a say in one thing only: whether a lazy jump leaves its label pending or stored. The
unwarped machine has no atomic procedures, no atomic calls and no label to go to, and running a
label on it does what running the label does, with the same label to go on at
(`gist_visit_unwarped`).
-/

namespace BlockScript

/-! ## Taking warp away -/

def Frame.unwarped (frame : Frame) : Frame := { frame with warped := false }

def Procedure.unwarped (procedure : Procedure) : Procedure := { procedure with warp := false }

def Program.unwarped (p : Program) : Program := { p with procedures := p.procedures.map Procedure.unwarped }

def Thread.unwarped (t : Thread) : Thread :=
  { t with fragment := none, warp := 0, stack := t.stack.map Frame.unwarped }

@[simp] theorem Program.unwarped_unwarped (p : Program) : p.unwarped.unwarped = p.unwarped := by
  simp [unwarped, Procedure.unwarped, Function.comp_def]

@[simp] theorem Thread.unwarped_unwarped (t : Thread) : t.unwarped.unwarped = t.unwarped := by
  simp [unwarped, Frame.unwarped, Function.comp_def]

namespace Machine

variable {σ : Type}

/-- The machine without all that has to do with warp, which is also where to go on. -/
def unwarped (m : Machine σ) : Machine σ :=
  { m with thread := m.thread.unwarped, program := m.program.unwarped, pending := none }

@[simp] theorem fresh_unwarped (m : Machine σ) : m.fresh.unwarped = m.unwarped := rfl

theorem unwarped_unwarped (m : Machine σ) : m.unwarped.unwarped = m.unwarped := by
  simp [unwarped]

theorem sameView_unwarped (m : Machine σ) : SameView m m.unwarped := by
  refine ⟨rfl, ?_⟩
  simp only [unwarped, Thread.unwarped, Thread.args]
  cases m.thread.stack <;> rfl

end Machine

namespace Program

theorem procedure_unwarped (p : Program) (id : ProcedureId) :
    p.unwarped.procedure id = (p.procedure id).map Procedure.unwarped := by
  simp only [procedure, unwarped, Array.getElem?_map]
  cases p.procedures[id.index]? <;> rfl

theorem resolve_unwarped (p : Program) (fuel : Nat) (pending : List Label) (label : Label) :
    p.unwarped.resolve fuel pending label = p.resolve fuel pending label := by
  induction fuel generalizing pending label with
  | zero =>
    rw [resolve, resolve]
    rfl
  | succ fuel ih =>
    rw [resolve, resolve]
    simp only [ih]
    rfl

theorem block_unwarped (p : Program) (label : Label) : p.unwarped.block label = p.block label :=
  resolve_unwarped p p.labels.size [] label

end Program

/-! ## The label to go on at -/

namespace Machine

variable {σ : Type}

/-- Where a thread goes on that has just made a transfer, be it at once or in a later step. -/
def onward? (m : Machine σ) : Option Label :=
  if m.thread.isRetired then none else m.pending.or m.thread.fragment

theorem Made.onward {m m' : Machine σ} {transfer : Transfer} (h : Made m transfer m') :
    m'.thread.isRetired = true ∨ m'.onward? ≠ none := by
  cases hr : m'.thread.isRetired with
  | true => exact .inl rfl
  | false =>
    refine .inr ?_
    rw [onward?, hr]
    cases h with
    | unwound _ | retire => cases hr
    | _ => simp

theorem unwarped_entered (t : Thread) (callee : Procedure) (args : List Value) (resume : Label) :
    (entered t.unwarped callee.unwarped args resume).unwarped = (entered t callee args resume).unwarped := by
  simp [entered, Thread.unwarped, Frame.unwarped, Function.comp_def]

theorem unwarped_returned (t : Thread) (frame : Frame) (rest : List Frame) :
    (returned t.unwarped frame.unwarped (rest.map Frame.unwarped)).unwarped = (returned t frame rest).unwarped := by
  simp [returned, Thread.unwarped, Frame.unwarped, Function.comp_def]

theorem unwarped_ended (m : Machine σ) : m.unwarped.ended.unwarped = m.ended.unwarped := by
  simp [ended, unwarped, Thread.markRetired, Thread.unwarped]

theorem made_unwarped {m : Machine σ} (idle : m.pending = none) (transfer : Transfer) :
    (made m.unwarped transfer).1 = (made m transfer).1 ∧
      (made m.unwarped transfer).2.unwarped = (made m transfer).2.unwarped ∧
      ((made m transfer).1 = .ok () → (made m.unwarped transfer).2.onward? = (made m transfer).2.onward?) := by
  cases transfer with
  | jump label => exact ⟨rfl, unwarped_unwarped m, fun _ => rfl⟩
  | jumpLazy label =>
    have hu : made m.unwarped (.jumpLazy label) = (.ok (), m.unwarped.withFragment (some label)) := rfl
    rw [hu, made]
    cases hw : m.thread.isWarp with
    | true => exact ⟨rfl, unwarped_unwarped m, fun _ => rfl⟩
    | false =>
      refine ⟨rfl, unwarped_unwarped m, fun _ => ?_⟩
      simp only [onward?, Bool.false_eq_true, if_false, idle]
      rfl
  | call procedure args resume =>
    rw [made, made, show m.unwarped.program = m.program.unwarped from rfl, Program.procedure_unwarped]
    cases m.program.procedure procedure with
    | error f => exact ⟨rfl, unwarped_unwarped m, fun h => by cases h⟩
    | ok callee =>
      refine ⟨rfl, ?_, fun _ => rfl⟩
      have ht := unwarped_entered m.thread callee args resume
      simp only [Except.map, unwarped, Program.unwarped_unwarped, ht]
  | finish =>
    rw [made, made, show m.unwarped.thread.stack = m.thread.stack.map Frame.unwarped from rfl]
    cases m.thread.stack with
    | nil => exact ⟨rfl, unwarped_ended m, fun _ => rfl⟩
    | cons frame rest =>
      refine ⟨rfl, ?_, fun _ => rfl⟩
      have ht := unwarped_returned m.thread frame rest
      simp only [List.map, unwarped, Program.unwarped_unwarped, ht]
  | retire => exact ⟨rfl, unwarped_ended m, fun _ => rfl⟩

theorem perform_make_unwarped {m : Machine σ} (idle : m.pending = none) (transfer : Transfer) :
    (m.unwarped.perform (make transfer)).1 = (m.perform (make transfer)).1 ∧
      (m.unwarped.perform (make transfer)).2.unwarped = (m.perform (make transfer)).2.unwarped ∧
      ((m.perform (make transfer)).1 = .ok () →
        (m.unwarped.perform (make transfer)).2.onward? = (m.perform (make transfer)).2.onward?) := by
  cases hr : m.thread.isRetired with
  | true =>
    rw [perform_make_retired hr, perform_make_retired (m := m.unwarped) hr]
    exact ⟨rfl, unwarped_unwarped m, fun h => by cases h⟩
  | false =>
    rw [perform_make hr, perform_make (m := m.unwarped) hr]
    exact made_unwarped idle transfer

theorem perform_execBlock_unwarped {m : Machine σ} (idle : m.pending = none) (body : Block) :
    (m.unwarped.perform (execBlock body)).1 = (m.perform (execBlock body)).1 ∧
      (m.unwarped.perform (execBlock body)).2.unwarped = (m.perform (execBlock body)).2.unwarped ∧
      ((m.perform (execBlock body)).1 = .ok .transferred →
        (m.unwarped.perform (execBlock body)).2.onward? = (m.perform (execBlock body)).2.onward?) := by
  have hu := approachBlock_local body m m.unwarped (sameView_unwarped m)
  have hf := (approachBlock_local body).frame m
  rcases ha : m.perform (approachBlock body) with ⟨f | _ | transfer, m₁⟩ <;> rw [ha] at hu hf <;>
    simp only at hu hf
  · rw [perform_execBlock_error ha, perform_execBlock_error hu, hf]
    exact ⟨rfl, unwarped_unwarped (m.withWorld m₁.world), fun h => by cases h⟩
  · rw [perform_execBlock_none ha, perform_execBlock_none hu, hf]
    exact ⟨rfl, unwarped_unwarped (m.withWorld m₁.world), fun h => by cases h⟩
  · have idle₁ : m₁.pending = none := by rw [hf]; exact idle
    have hu₁ : m.unwarped.withWorld m₁.world = m₁.unwarped := by rw [hf]; rfl
    obtain ⟨hresult, hafter, honward⟩ := perform_make_unwarped idle₁ transfer
    rw [perform_execBlock_some ha, perform_execBlock_some hu, hu₁, hresult]
    refine ⟨rfl, hafter, fun ht => honward ?_⟩
    cases h : (m₁.perform (make transfer)).1 with
    | error f => rw [h] at ht; cases ht
    | ok u => rfl

end Machine

namespace Visit

variable {σ : Type}

/-- Where the thread goes on after the visit, if it does. -/
def onward? (v : Visit σ) : Option Label :=
  match v.result with
  | .ok .transferred => v.after.onward?
  | _ => none

/-- All of a visit that has nothing to do with warp. -/
def gist (v : Visit σ) : Label × Except Fault Machine.Flow × Machine σ × Option Label :=
  (v.label, v.result, v.after.unwarped, v.onward?)

end Visit

namespace Machine

variable {σ : Type}

theorem gist_visit_unwarped {m : Machine σ} (idle : m.pending = none) (label : Label) :
    (m.unwarped.visit label).gist = (m.visit label).gist := by
  have hb : m.unwarped.perform (block label) =
      ((m.perform (block label)).1, (m.perform (block label)).2.unwarped) := by
    rw [perform_block, perform_block, show m.unwarped.program = m.program.unwarped from rfl, Program.block_unwarped]
    rfl
  have hidle : (m.perform (block label)).2.pending = none := by
    rw [perform_block]
    exact idle
  unfold visit
  rw [hb]
  rcases hx : m.perform (block label) with ⟨f | body, found⟩ <;> rw [hx] at hidle <;> simp only at hidle ⊢
  · simp only [Visit.gist, unwarped_unwarped]
    rfl
  · obtain ⟨hresult, hafter, honward⟩ := perform_execBlock_unwarped hidle body
    simp only [Visit.gist, Visit.onward?, hresult, hafter]
    split
    · rw [honward ‹_›]
    · rfl

theorem gist_visit_fresh (m : Machine σ) (label : Label) :
    (m.fresh.visit label).gist = (m.unwarped.visit label).gist :=
  (gist_visit_unwarped (m := m.fresh) rfl label).symm

end Machine

end BlockScript
