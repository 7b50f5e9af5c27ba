import BlockScript.Proofs.Locality

/-!
# How a block ends

A block is a local action until it comes to a transfer, falls off its end or fails. `approach` runs
it that far and tells the transfer without making it; to run the block is to approach its end and
to complete it there (`execBlock_eq_approach`). What a block does to the thread is therefore what
one transfer does to it, and two machines with the same view come to the same transfer.
-/

namespace BlockScript

inductive Transfer where
  | jump (label : Label)
  | jumpLazy (label : Label)
  | call (procedure : ProcedureId) (args : List Value) (resume : Label)
  | finish
  | retire
deriving DecidableEq

def Transfer.yields : Transfer → Thread → Bool
  | .jumpLazy _, t => !t.isWarp
  | _, _ => false

def Transfer.retires : Transfer → Thread → Bool
  | .retire, _ => true
  | .finish, t => t.stack.isEmpty
  | _, _ => false

namespace Machine

variable {σ : Type}

def make : Transfer → Exec σ Unit
  | .jump label => jump label
  | .jumpLazy label => jumpLazy label
  | .call procedure args resume => call procedure args resume
  | .finish => finish
  | .retire => retire

mutual

/-- Runs a statement up to the transfer that it ends in, if it ends in one. -/
def approach : Stmt → Exec σ (Option Transfer)
  | .branch test yes no => do
    let taken ← eval test
    if taken.toBool then approachBlock yes else approachBlock no
  | .jump label => return some (.jump label)
  | .jumpLazy label => return some (.jumpLazy label)
  | .call procedure args resume => do
    let vs ← evalAll args
    return some (.call procedure vs resume)
  | .finish => return some .finish
  | .retire => return some .retire
  | s => do
    let _ ← exec s
    return none

def approachBlock : List Stmt → Exec σ (Option Transfer)
  | [] => return none
  | s :: rest => do
    match ← approach s with
    | none => approachBlock rest
    | some transfer => return some transfer

end

def complete : Option Transfer → Exec σ Flow
  | none => return .next
  | some transfer => do
    make transfer
    return .transferred

/-! ## Approaching and completing -/

mutual

theorem exec_eq_approach (s : Stmt) : (exec s : Exec σ Flow) = approach s >>= complete := by
  cases s with
  | branch test yes no =>
    rw [exec, approach, bind_assoc]
    refine bind_congr fun taken => ?_
    split
    · exact execBlock_eq_approach yes
    · exact execBlock_eq_approach no
  | _ => simp [exec, approach, complete, make]

theorem execBlock_eq_approach : (b : List Stmt) → (execBlock b : Exec σ Flow) = approachBlock b >>= complete
  | [] => by simp [execBlock, approachBlock, complete]
  | s :: rest => by
    rw [execBlock, approachBlock, exec_eq_approach s, bind_assoc, bind_assoc]
    refine bind_congr fun ending => ?_
    cases ending with
    | none => simpa [complete] using execBlock_eq_approach rest
    | some transfer => simp [complete]

end

/-! ## The approach is local -/

theorem changeList_local (name : String) (change : Pick → ItemList → ItemList) :
    Local (changeList name change : Exec σ Unit) := by
  unfold changeList
  exact draw_local.bind fun pick => modifyTarget_local _

def plain : Stmt → Bool
  | .branch .. => false
  | s => !s.isTransfer

theorem exec_local {s : Stmt} (h : plain s = true) : Local (exec s : Exec σ Flow) := by
  cases s with
  | setVariable name value =>
    rw [exec]
    exact (eval_local value).bind fun v => (modifyTarget_local _).bind fun _ => pure_local _
  | changeVariable name amount =>
    rw [exec]
    exact (eval_local amount).bind fun v => (modifyTarget_local _).bind fun _ => pure_local _
  | addToList list value =>
    rw [exec]
    exact (eval_local value).bind fun v => (modifyTarget_local _).bind fun _ => pure_local _
  | replaceItem list index value =>
    rw [exec]
    exact (eval_local index).bind fun i => (eval_local value).bind fun v =>
      (changeList_local _ _).bind fun _ => pure_local _
  | insertAt list index value =>
    rw [exec]
    exact (eval_local index).bind fun i => (eval_local value).bind fun v =>
      (changeList_local _ _).bind fun _ => pure_local _
  | deleteOf list index =>
    rw [exec]
    exact (eval_local index).bind fun i => (changeList_local _ _).bind fun _ => pure_local _
  | setEffect effect value =>
    rw [exec]
    exact (eval_local value).bind fun v => (modifyTarget_local _).bind fun _ => pure_local _
  | changeEffect effect amount =>
    rw [exec]
    exact (eval_local amount).bind fun v => (modifyTarget_local _).bind fun _ => pure_local _
  | goTo x y =>
    rw [exec]
    exact (eval_local x).bind fun vx => (eval_local y).bind fun vy =>
      (modifyTarget_local _).bind fun _ => pure_local _
  | deviceCall device method args =>
    rw [exec]
    exact (evalAll_local args).bind fun vs => (query_local device method vs).bind fun _ => pure_local _
  | marker id => rw [exec]; exact pure_local _
  | _ => cases h

theorem approach_plain {s : Stmt} (h : plain s = true) :
    (approach s : Exec σ (Option Transfer)) = exec s >>= fun _ => pure none := by
  cases s with
  | branch _ _ _ | jump _ | jumpLazy _ | call _ _ _ | finish | retire => cases h
  | _ => simp [approach]

theorem approach_plain_local {s : Stmt} (h : plain s = true) : Local (approach s : Exec σ (Option Transfer)) := by
  rw [approach_plain h]
  exact (exec_local h).bind fun _ => pure_local _

mutual

theorem approach_local (s : Stmt) : Local (approach s : Exec σ (Option Transfer)) := by
  cases s with
  | branch test yes no =>
    rw [approach]
    exact (eval_local test).bind fun _ => .ite (approachBlock_local yes) (approachBlock_local no)
  | call procedure args resume =>
    rw [approach]
    exact (evalAll_local args).bind fun _ => pure_local _
  | jump _ | jumpLazy _ | finish | retire => rw [approach]; exact pure_local _
  | _ => exact approach_plain_local rfl

theorem approachBlock_local : (b : List Stmt) → Local (approachBlock b : Exec σ (Option Transfer))
  | [] => by rw [approachBlock]; exact pure_local _
  | s :: rest => by
    rw [approachBlock]
    refine (approach_local s).bind fun ending => ?_
    cases ending with
    | none => exact approachBlock_local rest
    | some transfer => exact pure_local _

end

/-! ## The five transfers -/

def entered (t : Thread) (callee : Procedure) (args : List Value) (resume : Label) : Thread :=
  let warped := callee.warp || t.isWarp
  { t with
    stack := ⟨args, resume, warped⟩ :: t.stack
    warp := if warped then t.warp + 1 else t.warp }

def returned (t : Thread) (frame : Frame) (rest : List Frame) : Thread :=
  { t with
    stack := rest
    warp := if frame.warped then lessOne t.warp else t.warp }

theorem toNat_add_one {depth : UInt32} (room : depth.toNat + 1 < UInt32.size) :
    (depth + 1).toNat = depth.toNat + 1 := by
  rw [UInt32.toNat_add]
  exact Nat.mod_eq_of_lt room

theorem toNat_lessOne {depth : UInt32} (inside : 0 < depth.toNat) : (lessOne depth).toNat + 1 = depth.toNat := by
  have nonzero : depth ≠ 0 := by
    rintro rfl
    exact absurd inside (Nat.lt_irrefl 0)
  have one_le : (1 : UInt32) ≤ depth := UInt32.le_iff_toNat_le.mpr inside
  rw [lessOne, if_neg nonzero, UInt32.toNat_sub_of_le _ _ one_le]
  exact Nat.sub_add_cancel inside

def ended (m : Machine σ) : Machine σ :=
  { m with
    thread := m.thread.markRetired
    pending := none
    notices := m.notices ++ [m.thread.id] }

/-- What a transfer does to a live thread. -/
def made (m : Machine σ) : Transfer → Except Fault Unit × Machine σ
  | .jump label => (.ok (), { m with pending := some label })
  | .jumpLazy label =>
    if m.thread.isWarp then (.ok (), { m with pending := some label })
    else (.ok (), { m with thread.fragment := some label })
  | .call procedure args resume =>
    match m.program.procedure procedure with
    | .error f => (.error f, m)
    | .ok callee =>
      (.ok (), { m with thread := entered m.thread callee args resume, pending := some callee.label })
  | .finish =>
    match m.thread.stack with
    | [] => (.ok (), m.ended)
    | frame :: rest =>
      (.ok (), { m with thread := returned m.thread frame rest, pending := some frame.resume })
  | .retire => (.ok (), m.ended)

inductive Made (m : Machine σ) : Transfer → Machine σ → Prop
  | jump (label : Label) : Made m (.jump label) { m with pending := some label }
  | atomic (label : Label) : m.thread.isWarp = true → Made m (.jumpLazy label) { m with pending := some label }
  | yield (label : Label) : m.thread.isWarp = false →
      Made m (.jumpLazy label) { m with thread.fragment := some label }
  | call {procedure : ProcedureId} {callee : Procedure} (args : List Value) (resume : Label) :
      m.program.procedure procedure = .ok callee →
      Made m (.call procedure args resume)
        { m with thread := entered m.thread callee args resume, pending := some callee.label }
  | back {frame : Frame} {rest : List Frame} : m.thread.stack = frame :: rest →
      Made m .finish { m with thread := returned m.thread frame rest, pending := some frame.resume }
  | unwound : m.thread.stack = [] → Made m .finish m.ended
  | retire : Made m .retire m.ended

theorem made_cases (m : Machine σ) (transfer : Transfer) :
    (∃ f, made m transfer = (.error f, m)) ∨ ∃ m', made m transfer = (.ok (), m') ∧ Made m transfer m' := by
  cases transfer with
  | jump label => exact .inr ⟨_, rfl, .jump label⟩
  | jumpLazy label =>
    rw [made]
    cases hw : m.thread.isWarp with
    | true => exact .inr ⟨_, rfl, .atomic label hw⟩
    | false => exact .inr ⟨_, rfl, .yield label hw⟩
  | call procedure args resume =>
    rw [made]
    cases hp : m.program.procedure procedure with
    | error f => exact .inl ⟨f, rfl⟩
    | ok callee => exact .inr ⟨_, rfl, .call args resume hp⟩
  | finish =>
    rw [made]
    cases hs : m.thread.stack with
    | nil => exact .inr ⟨_, rfl, .unwound hs⟩
    | cons frame rest => exact .inr ⟨_, rfl, .back hs⟩
  | retire => exact .inr ⟨_, rfl, .retire⟩

theorem perform_ensureLive (m : Machine σ) :
    m.perform ensureLive =
      if m.thread.isRetired then (.error (.threadRetired m.thread.id), m) else (.ok (), m) := by
  unfold ensureLive
  rw [perform_bind_ok (perform_get m)]
  split <;> rfl

section
variable {m : Machine σ} (live : m.thread.isRetired = false)
include live

theorem perform_ensureLive_bind {α : Type} (f : Unit → Exec σ α) :
    m.perform (ensureLive >>= f) = m.perform (f ()) := by
  rw [perform_bind, perform_ensureLive, live]
  rfl

theorem perform_jump (label : Label) : m.perform (jump label) = (.ok (), { m with pending := some label }) := by
  unfold jump
  rw [perform_ensureLive_bind live]
  rfl

theorem perform_retire : m.perform retire = (.ok (), m.ended) := by
  unfold retire
  rw [perform_ensureLive_bind live]
  rfl

theorem perform_make (transfer : Transfer) : m.perform (make transfer) = made m transfer := by
  cases transfer with
  | jump label => exact perform_jump live label
  | jumpLazy label =>
    rw [make, jumpLazy, perform_bind_ok (perform_get m), made]
    split
    · exact perform_jump live label
    · rw [perform_ensureLive_bind live]
      rfl
  | call procedure args resume =>
    rw [make, call, perform_ensureLive_bind live, perform_bind_ok (perform_get m), made]
    cases hp : m.program.procedure procedure with
    | error f => rfl
    | ok callee =>
      simp only
      rw [perform_bind_ok (perform_modifyThread m _)]
      exact perform_jump (m := { m with thread := entered m.thread callee args resume }) live callee.label
  | finish =>
    rw [make, finish, perform_ensureLive_bind live, perform_bind_ok (perform_get m), made]
    cases hs : m.thread.stack with
    | nil => exact perform_retire live
    | cons frame rest =>
      simp only
      rw [perform_bind_ok (perform_modifyThread m _)]
      exact perform_jump (m := { m with thread := returned m.thread frame rest }) live frame.resume
  | retire => exact perform_retire live

end

theorem perform_make_retired {m : Machine σ} (h : m.thread.isRetired = true) (transfer : Transfer) :
    m.perform (make transfer) = (.error (.threadRetired m.thread.id), m) := by
  have hl : m.perform ensureLive = (.error (.threadRetired m.thread.id), m) := by
    rw [perform_ensureLive, if_pos h]
  cases transfer with
  | jump label => exact perform_bind_error hl _
  | jumpLazy label =>
    show m.perform (jumpLazy label) = _
    unfold jumpLazy
    rw [perform_bind_ok (perform_get m)]
    split
    · exact perform_bind_error hl _
    · exact perform_bind_error hl _
  | call procedure args resume => exact perform_bind_error hl _
  | finish => exact perform_bind_error hl _
  | retire => exact perform_bind_error hl _

theorem make_cases (m : Machine σ) (transfer : Transfer) :
    (∃ f, m.perform (make transfer) = (.error f, m)) ∨
      m.thread.isRetired = false ∧ ∃ m', m.perform (make transfer) = (.ok (), m') ∧ Made m transfer m' := by
  cases hr : m.thread.isRetired with
  | true => exact .inl ⟨_, perform_make_retired hr transfer⟩
  | false =>
    rw [perform_make hr]
    obtain failed | made := made_cases m transfer
    · exact .inl failed
    · exact .inr ⟨rfl, made⟩

/-! ## Blocks -/

theorem perform_execBlock_none {m m' : Machine σ} {body : Block}
    (h : m.perform (approachBlock body) = (.ok none, m')) : m.perform (execBlock body) = (.ok .next, m') := by
  rw [execBlock_eq_approach, perform_bind_ok h]
  rfl

theorem perform_execBlock_error {m m' : Machine σ} {body : Block} {f : Fault}
    (h : m.perform (approachBlock body) = (.error f, m')) : m.perform (execBlock body) = (.error f, m') := by
  rw [execBlock_eq_approach, perform_bind_error h]

theorem perform_execBlock_some {m m' : Machine σ} {body : Block} {transfer : Transfer}
    (h : m.perform (approachBlock body) = (.ok (some transfer), m')) :
    m.perform (execBlock body) =
      (((m'.perform (make transfer)).1.map fun _ => .transferred), (m'.perform (make transfer)).2) := by
  rw [execBlock_eq_approach, perform_bind_ok h, complete, perform_bind]
  rcases m'.perform (make transfer) with ⟨_ | _, m₁⟩ <;> rfl

/-- Running the block comes to the transfer, and the thread is live to make it. -/
def EndsBy (m : Machine σ) (body : Block) (transfer : Transfer) : Prop :=
  m.thread.isRetired = false ∧ (m.perform (approachBlock body)).1 = .ok (some transfer)

def Yields (m : Machine σ) (body : Block) : Prop :=
  ∃ transfer, m.EndsBy body transfer ∧ transfer.yields m.thread = true

def Retires (m : Machine σ) (body : Block) : Prop :=
  ∃ transfer, m.EndsBy body transfer ∧ transfer.retires m.thread = true

/-- The ways in which a block can end, and all that it has done by then: it has acted on the world,
and then it has failed, fallen off its end or made one transfer. -/
theorem execBlock_cases (m : Machine σ) (body : Block) :
    ∃ w, (∃ f, m.perform (execBlock body) = (.error f, m.withWorld w)) ∨
      m.perform (execBlock body) = (.ok .next, m.withWorld w) ∨
      ∃ transfer m', m.EndsBy body transfer ∧ Made (m.withWorld w) transfer m' ∧
        m.perform (execBlock body) = (.ok .transferred, m') := by
  have hf := (approachBlock_local body).frame m
  have ht := (approachBlock_local body).thread_eq m
  rcases ha : m.perform (approachBlock body) with ⟨f | _ | transfer, m₁⟩ <;> rw [ha] at hf ht <;>
    simp only at hf ht
  · refine ⟨m₁.world, .inl ⟨f, ?_⟩⟩
    rw [perform_execBlock_error ha, ← hf]
  · refine ⟨m₁.world, .inr (.inl ?_)⟩
    rw [perform_execBlock_none ha, ← hf]
  · refine ⟨m₁.world, ?_⟩
    rw [← hf, perform_execBlock_some ha]
    obtain ⟨f, hm⟩ | ⟨live, m', hm, hmade⟩ := make_cases m₁ transfer <;> rw [hm]
    · exact .inl ⟨f, rfl⟩
    · exact .inr (.inr ⟨transfer, m', ⟨ht ▸ live, by rw [ha]⟩, hmade, rfl⟩)

theorem execBlock_next_frame {m m' : Machine σ} {body : Block}
    (h : m.perform (execBlock body) = (.ok .next, m')) : m' = m.withWorld m'.world := by
  obtain ⟨w, ⟨f, hb⟩ | hb | ⟨transfer, m₁, -, -, hb⟩⟩ := execBlock_cases m body <;> rw [hb] at h <;> cases h
  rfl

theorem execBlock_status (m : Machine σ) (body : Block) :
    (m.perform (execBlock body)).2.thread.status = m.thread.status ∨
      (m.perform (execBlock body)).2.thread.status = .retired ∧ (m.perform (execBlock body)).2.pending = none := by
  obtain ⟨w, ⟨f, hb⟩ | hb | ⟨transfer, m', -, hmade, hb⟩⟩ := execBlock_cases m body <;> rw [hb]
  · exact .inl rfl
  · exact .inl rfl
  · cases hmade with
    | retire | unwound _ => exact .inr ⟨rfl, rfl⟩
    | _ => exact .inl rfl

end Machine

end BlockScript
