import BlockScript.Proofs.Parts
import BlockScript.Proofs.Trail

/-!
# Well-formed programs run without faults

A program is well-formed when every label that it can come to has a block and every procedure that it
calls is there. All labels that a thread of such a program holds, stored, pending or to return to, then
have blocks all the time (`Sound`). A step can therefore stop in one way only: a device refuses a query
that the program asks (`step_sound`).
-/

namespace BlockScript

open Machine

/-! ## Well-formed programs -/

def Stmt.labels : Stmt → List Label
  | .jump label | .jumpLazy label => [label]
  | .call _ _ resume => [resume]
  | _ => []

def Stmt.callees : Stmt → List ProcedureId
  | .call procedure _ _ => [procedure]
  | _ => []

namespace Program

def Has (p : Program) (label : Label) : Prop := ∃ block, p.lookup label = .ok block

/-- The statements of a program are the parts of its fragments. -/
def Contains (p : Program) (s : Stmt) : Prop := ∃ body, .fragment body ∈ p.labels ∧ s ∈ parts body

theorem has_fragment {p : Program} {label : Label} {body : Block}
    (h : p.labels[label.index]? = some (.fragment body)) : p.Has label := by
  refine ⟨body, ?_⟩
  rw [lookup, block, run_resolve, h, Cache.find?_emptyCache]

structure WellFormed (p : Program) : Prop where
  entry : p.Has p.entry
  procedures : ∀ procedure ∈ p.procedures, p.Has procedure.label
  labels : ∀ s, p.Contains s → ∀ label ∈ s.labels, p.Has label
  callees : ∀ s, p.Contains s → ∀ procedure ∈ s.callees, procedure.index < p.procedures.size

def Asks (p : Program) (query : String × String) : Prop := ∃ s, p.Contains s ∧ query ∈ s.queries

/-- Neither a statement nor an expression of the program uses a device. -/
def Silent (p : Program) : Prop := ∀ s, p.Contains s → s.queries = []

theorem Silent.not_asks {p : Program} (h : p.Silent) (query : String × String) : ¬ p.Asks query := by
  rintro ⟨s, hs, hq⟩
  rw [h s hs] at hq
  cases hq

def Fits (p : Program) : Transfer → Prop
  | .jump label | .jumpLazy label => p.Has label
  | .call procedure _ resume => procedure.index < p.procedures.size ∧ p.Has resume
  | .finish | .retire => True

theorem WellFormed.fits {p : Program} (wf : p.WellFormed) {s : Stmt} (hs : p.Contains s) {transfer : Transfer}
    (h : Makes s transfer) : p.Fits transfer := by
  have labels := wf.labels s hs
  cases h with
  | jump label | jumpLazy label => exact labels label List.mem_cons_self
  | call procedure args values resume =>
    exact ⟨wf.callees _ hs procedure List.mem_cons_self, labels resume List.mem_cons_self⟩
  | finish | retire => trivial

theorem procedure_eq_ok {p : Program} {id : ProcedureId} {callee : Procedure} :
    p.procedure id = .ok callee ↔ p.procedures[id.index]? = some callee := by
  unfold procedure
  cases p.procedures[id.index]? <;> simp

end Program

/-! ## Sound threads and machines -/

/-- Every label that the thread holds has a block. -/
structure Thread.Sound (t : Thread) (p : Program) : Prop where
  stored : ∀ label, t.fragment = some label → p.Has label
  stack : ∀ frame ∈ t.stack, p.Has frame.resume

theorem Thread.markRetired_sound (t : Thread) (p : Program) : t.markRetired.Sound p := by
  constructor
  · intro label h
    cases h
  · intro frame h
    cases h

theorem Program.WellFormed.new_sound {p : Program} (wf : p.WellFormed) (id : ThreadId) (target : Nat) :
    (Thread.new id target p.entry).Sound p := by
  constructor
  · intro label h
    cases h
    exact wf.entry
  · intro frame h
    cases h

/-- A step, or a new context with whatever has been built of the program by then. -/
def Request.Steps {σ : Type} (p : Program) : Request σ → Prop
  | .step _ _ => True
  | .context _ cache _ => cache.Sound p
  | _ => False

namespace Machine

variable {σ : Type}

structure Sound (m : Machine σ) (p : Program) : Prop where
  program : m.program = p
  cache : m.cache.Sound p
  thread : m.thread.Sound p
  pending : ∀ label, m.pending = some label → p.Has label

/-- Every query of the step is answered. A refused one would end the step at once, with the fault that the
device gives and the devices as they are then. -/
def Answered (m : Machine σ) (limit : Option Nat) (fuel : Nat) : Prop :=
  ∀ f m', m.perform (step limit fuel) = (.error f, m') → ¬ Refused (fun _ => True) f m'

section
variable {p : Program} {m m' : Machine σ}

theorem Sound.withWorld (h : m.Sound p) (w : World σ) : (m.withWorld w).Sound p :=
  ⟨h.program, h.cache, h.thread, h.pending⟩

theorem Sound.fresh (h : m.Sound p) : m.fresh.Sound p :=
  ⟨h.program, h.cache, h.thread, fun _ hl => by cases hl⟩

theorem Sound.running (h : m.Sound p) : m.running.Sound p :=
  ⟨h.program, h.cache, ⟨h.thread.stored, h.thread.stack⟩, fun _ hl => by cases hl⟩

theorem Sound.suspended (h : m.Sound p) : m.suspended.Sound p :=
  ⟨h.program, h.cache, ⟨h.thread.stored, h.thread.stack⟩, h.pending⟩

theorem Sound.withFragment (h : m.Sound p) {label : Label} (has : p.Has label) :
    (m.withFragment (some label)).Sound p := by
  refine ⟨h.program, h.cache, ⟨fun l hl => ?_, h.thread.stack⟩, h.pending⟩
  cases hl
  exact has

theorem Sound.withPending (h : m.Sound p) {label : Label} (has : p.Has label) :
    ({ m with pending := some label } : Machine σ).Sound p := by
  refine ⟨h.program, h.cache, h.thread, fun l hl => ?_⟩
  cases hl
  exact has

theorem Sound.ended (h : m.Sound p) : m.ended.Sound p :=
  ⟨h.program, h.cache, m.thread.markRetired_sound p, fun _ hl => by cases hl⟩

theorem Sound.renewed (h : m.Sound p) (w : World σ) {cache : Cache} (hc : cache.Sound p) (others : List ThreadId) :
    (m.renewed w cache others).Sound p :=
  ⟨h.program, hc, h.thread, fun _ hl => by cases hl⟩

theorem Sound.entered (h : m.Sound p) (callee : Procedure) (args : List Value) {resume : Label}
    (has : p.Has resume) (known : p.Has callee.label) :
    ({ m with
      thread := entered m.thread callee args resume
      pending := some callee.label } : Machine σ).Sound p := by
  refine ⟨h.program, h.cache, ⟨h.thread.stored, ?_⟩, fun label hl => ?_⟩
  · exact List.forall_mem_cons.mpr ⟨has, h.thread.stack⟩
  · cases hl
    exact known

theorem Sound.returned (h : m.Sound p) {frame : Frame} {rest : List Frame} (hs : m.thread.stack = frame :: rest) :
    ({ m with thread := returned m.thread frame rest, pending := some frame.resume } : Machine σ).Sound p := by
  have stack := h.thread.stack
  rw [hs, List.forall_mem_cons] at stack
  refine ⟨h.program, h.cache, ⟨h.thread.stored, stack.2⟩, fun label hl => ?_⟩
  cases hl
  exact stack.1

/-! ## Blocks -/

section
variable (wf : p.WellFormed)
include wf

theorem Made.sound {transfer : Transfer} (hmade : Made m transfer m') (h : m.Sound p) (fits : p.Fits transfer) :
    m'.Sound p := by
  cases hmade with
  | jump label | atomic label _ => exact h.withPending fits
  | yield label _ => exact h.withFragment fits
  | @call procedure callee args resume hp =>
    rw [h.program, Program.procedure_eq_ok] at hp
    exact h.entered callee args fits.2 (wf.procedures callee (Array.mem_of_getElem? hp))
  | back hs => exact h.returned hs
  | unwound _ | retire => exact h.ended

omit wf in
theorem made_of_fits (h : m.Sound p) {transfer : Transfer} (fits : p.Fits transfer) :
    ∃ m', made m transfer = (.ok (), m') ∧ Made m transfer m' := by
  obtain ⟨f, hm⟩ | hm := made_cases m transfer
  · cases transfer with
    | call procedure args resume =>
      have bound : procedure.index < p.procedures.size := fits.1
      have hp : p.procedure procedure = .ok p.procedures[procedure.index] :=
        Program.procedure_eq_ok.mpr (Array.getElem?_eq_getElem bound)
      rw [made, h.program, hp] at hm
      cases hm
    | jumpLazy label =>
      rw [made] at hm
      split at hm <;> cases hm
    | finish =>
      rw [made] at hm
      split at hm <;> cases hm
    | jump _ | retire => cases hm
  · exact hm

theorem execBlock_sound (h : m.Sound p) (live : m.thread.isRetired = false) {body : Block}
    (known : ∀ s ∈ parts body, p.Contains s) {r : Except Fault Flow}
    (run : m.perform (execBlock body) = (r, m')) :
    m'.Sound p ∧ ∀ f, r = .error f → Refused p.Asks f m' := by
  have safe : Safe p.Asks (approachBlock body : Exec σ (Option Transfer)) (MadeBy (parts body)) :=
    approachBlock_safe body fun s hs q hq => ⟨s, known s hs, hq⟩
  have frame := (approachBlock_local body).frame m
  rcases ha : m.perform (approachBlock body) with ⟨f | _ | transfer, m₁⟩ <;> rw [ha] at frame <;>
    simp only at frame
  · rw [perform_execBlock_error ha] at run
    cases run
    refine ⟨?_, fun _ hf => by cases hf; exact safe.of_error ha⟩
    rw [frame]
    exact h.withWorld _
  · rw [perform_execBlock_none ha] at run
    cases run
    refine ⟨?_, fun _ hf => by cases hf⟩
    rw [frame]
    exact h.withWorld _
  · have h₁ : m₁.Sound p := by
      rw [frame]
      exact h.withWorld _
    have live₁ : m₁.thread.isRetired = false := by
      rw [frame]
      exact live
    obtain ⟨s, hs, makes⟩ := safe.of_ok ha transfer rfl
    have fits := wf.fits (known s hs) makes
    obtain ⟨m₂, hm, hmade⟩ := made_of_fits h₁ fits
    rw [perform_execBlock_some ha, perform_make live₁, hm] at run
    cases run
    exact ⟨hmade.sound wf h₁ fits, fun _ hf => by cases hf⟩

/-! ## Steps -/

theorem visit_sound (h : m.Sound p) (live : m.thread.isRetired = false) {label : Label} (has : p.Has label) :
    (m.visit label).after.Sound p ∧
      ∀ f, (m.visit label).result = .error f → Refused p.Asks f (m.visit label).after := by
  obtain ⟨body, hbody⟩ := has
  obtain ⟨cache, hrun, hc, denotes⟩ := Program.run_block_ok hbody h.cache
  have hb : m.perform (block label) = (.ok body, { m with cache }) := by
    rw [perform_block, h.program, hrun]
  have hfound : ({ m with cache } : Machine σ).Sound p := ⟨h.program, hc, h.thread, h.pending⟩
  unfold visit
  rw [hb]
  exact execBlock_sound wf hfound live denotes.parts rfl

theorem final_sound (n : Nat) (h : m.Sound p) (running : m.thread.status = .running) {label : Label}
    (has : p.Has label) :
    (final n label m).after.Sound p ∧
      ∀ f, (final n label m).result = .error f → Refused p.Asks f (final n label m).after := by
  have first := visit_sound wf h.fresh (isRetired_of_running running) has
  induction n generalizing m label with
  | zero => exact first
  | succ n ih =>
    cases hn : (m.fresh.visit label).next? with
    | none =>
      rw [final_none hn]
      exact first
    | some next =>
      have running' : (m.fresh.visit label).after.thread.status = .running := (status_of_next? hn).trans running
      have has' : p.Has next := by
        refine first.1.pending next ?_
        unfold Visit.next? at hn
        split at hn
        · exact hn
        · cases hn
      rw [final_some hn]
      exact ih first.1 running' has' (visit_sound wf first.1.fresh (isRetired_of_running running') has')

omit wf in
theorem settle_sound (h : m.Sound p) {r : Except Fault Outcome} (run : m.perform settle = (r, m')) :
    m'.Sound p ∧ ∀ f, r ≠ .error f := by
  rw [perform_settle] at run
  split at run <;> cases run
  · exact ⟨h, fun f hf => by cases hf⟩
  · exact ⟨h.suspended, fun f hf => by cases hf⟩

omit wf in
theorem leave_sound (h : m.Sound p) (limit : Option Nat) {r : Except Fault Outcome}
    (run : m.leave limit = (r, m')) : m'.Sound p ∧ ∀ f, r ≠ .error f := by
  unfold leave at run
  split at run
  · exact settle_sound h run
  · rename_i label _ hp
    exact settle_sound (h.fresh.withFragment (h.pending label hp)) run
  · cases run
    exact ⟨h, fun f hf => by cases hf⟩

/-- A step of a thread whose labels all have blocks leaves such a thread, and if it fails, a device has
refused a query of the program. -/
theorem step_sound (h : m.Sound p) {limit : Option Nat} {fuel : Nat} {r : Except Fault Outcome}
    (run : m.perform (step limit fuel) = (r, m')) : m'.Sound p ∧ ∀ f, r = .error f → Refused p.Asks f m' := by
  obtain ⟨-, hs⟩ | ⟨-, hs⟩ | ⟨entry, -, stored, hs⟩ := perform_step_cases m limit fuel <;> rw [hs] at run
  · cases run
    exact ⟨h, fun f hf => by cases hf⟩
  · cases run
    exact ⟨h.ended, fun f hf => by cases hf⟩
  · obtain ⟨sound, refused⟩ := final_sound wf (limit.getD fuel) h.running rfl (h.thread.stored entry stored)
    rw [conclude] at run
    split at run
    · rename_i f hresult
      cases run
      exact ⟨sound, fun _ hf => by cases hf; exact refused f hresult⟩
    · obtain ⟨sound', ok⟩ := leave_sound sound limit run
      exact ⟨sound', fun f hf => absurd hf (ok f)⟩

theorem handleAll_sound (h : m.Sound p) {requests : List (Request σ)} (stepped : ∀ r ∈ requests, r.Steps p) :
    (m.handleAll requests).Sound p := by
  induction requests generalizing m with
  | nil => exact h
  | cons request rest ih =>
    obtain ⟨first, later⟩ := List.forall_mem_cons.mp stepped
    refine ih ?_ later
    cases request with
    | step limit fuel => exact (step_sound wf h rfl).1
    | context w cache others => exact h.renewed w first others
    | _ => cases first

theorem step_ok (h : m.Sound p) {limit : Option Nat} {fuel : Nat} (served : p.Silent ∨ m.Answered limit fuel) :
    ∃ outcome m', m.perform (step limit fuel) = (.ok outcome, m') := by
  rcases hr : m.perform (step limit fuel) with ⟨f | outcome, m'⟩
  · obtain ⟨d, device, method, args, asked, refused⟩ := (step_sound wf h hr).2 f rfl
    rcases served with silent | answered
    · exact absurd asked (silent.not_asks _)
    · exact absurd ⟨d, device, method, args, trivial, refused⟩ (answered f m' hr)
  · exact ⟨outcome, m', rfl⟩

theorem step_ne_threadRetired (h : m.Sound p) {limit : Option Nat} {fuel : Nat} {f : Fault}
    (run : m.perform (step limit fuel) = (.error f, m')) (id : ThreadId) : f ≠ .threadRetired id := by
  rintro rfl
  obtain ⟨d, device, method, args, -, refused⟩ := (step_sound wf h run).2 _ rfl
  unfold Devices.query at refused
  split at refused
  · cases refused
  · split at refused <;> cases refused

end

end

end Machine

end BlockScript
