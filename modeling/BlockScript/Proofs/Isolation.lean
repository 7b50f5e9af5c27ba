import BlockScript.Proofs.Ledger
import BlockScript.Proofs.SourceChain

/-!
# Targets are isolated

The threads of a scheduler share its programs with all that is built of them, its devices, its dice and
its reports. A step of a program without queries sees none of these but the program itself and what the
dice show: two machines that differ in nothing else (`Twin`) go the same way (`step_blind`). And a step on
one target leaves every other target as it is. So the threads on a target and the target itself fare as
they would if the threads on all the other targets had never been started (`targets_isolated`).
-/

namespace BlockScript

open Machine

namespace Machine

variable {σ α β : Type} {p : Program}

/-! ## Twins -/

/-- Two machines that run a program on the same thread and the same target. They may differ in their
devices, in what has been built of the program, in how often they have drawn and in their notices. -/
structure Twin (p : Program) (m m' : Machine σ) : Prop where
  thread : m'.thread = m.thread
  target : m'.target = m.target
  pending : m'.pending = m.pending
  program : m.program = p ∧ m'.program = p
  cache : m.cache.Sound p ∧ m'.cache.Sound p
  rolls : m'.dice.roll = m.dice.roll
  steady : m.dice.Steady

theorem Twin.sameSight {m m' : Machine σ} (h : Twin p m m') : SameSight m m' := by
  refine ⟨h.target, ?_, h.rolls, h.steady⟩
  rw [h.thread]

def Blind (p : Program) (x : Exec σ α) : Prop :=
  ∀ m m', Twin p m m' → (m'.perform x).1 = (m.perform x).1 ∧ Twin p (m.perform x).2 (m'.perform x).2

theorem pure_blind (a : α) : Blind p (pure a : Exec σ α) := by
  intro m m' h
  exact ⟨rfl, h⟩

theorem throw_blind (f : Fault) : Blind p (throw f : Exec σ α) := by
  intro m m' h
  exact ⟨rfl, h⟩

theorem Blind.bind {x : Exec σ α} {f : α → Exec σ β} (hx : Blind p x) (hf : ∀ a, Blind p (f a)) :
    Blind p (x >>= f) := by
  intro m m' h
  obtain ⟨answer, after⟩ := hx m m' h
  rw [perform_bind, perform_bind]
  rcases hr : m.perform x with ⟨r, m₁⟩
  rcases hr' : m'.perform x with ⟨r', m₁'⟩
  rw [hr, hr'] at answer after
  cases answer
  cases r with
  | error e => exact ⟨rfl, after⟩
  | ok a => exact hf a m₁ m₁' after

theorem Blind.get_bind {f : Machine σ → Exec σ β} (hf : ∀ m, Blind p (f m))
    (same : ∀ m m', Twin p m m' → f m' = f m) : Blind p (get >>= f) := by
  intro m m' h
  rw [perform_bind_ok (perform_get m), perform_bind_ok (perform_get m'), same m m' h]
  exact hf m m m' h

theorem modifyThread_blind (change : Thread → Thread) : Blind p (modifyThread change : Exec σ Unit) := by
  intro m m' h
  simp only [perform_modifyThread, h.thread]
  exact ⟨trivial, rfl, h.target, h.pending, h.program, h.cache, h.rolls, h.steady⟩

theorem setPending_blind (label : Option Label) : Blind p (setPending label : Exec σ Unit) := by
  intro m m' h
  exact ⟨rfl, h.thread, h.target, rfl, h.program, h.cache, h.rolls, h.steady⟩

/-! ## Transfers -/

theorem ensureLive_blind : Blind p (ensureLive : Exec σ Unit) := by
  unfold ensureLive
  refine .get_bind ?_ ?_
  · intro m
    split
    · exact throw_blind _
    · exact pure_blind _
  · intro m m' h
    rw [h.thread]

theorem jump_blind (label : Label) : Blind p (jump label : Exec σ Unit) := by
  unfold jump
  exact ensureLive_blind.bind fun _ => setPending_blind _

theorem jumpLazy_blind (label : Label) : Blind p (jumpLazy label : Exec σ Unit) := by
  unfold jumpLazy
  refine .get_bind ?_ ?_
  · intro m
    split
    · exact jump_blind label
    · exact ensureLive_blind.bind fun _ => modifyThread_blind _
  · intro m m' h
    rw [h.thread]

theorem call_blind (procedure : ProcedureId) (args : List Value) (resume : Label) :
    Blind p (call procedure args resume : Exec σ Unit) := by
  unfold call
  refine ensureLive_blind.bind fun _ => .get_bind ?_ ?_
  · intro m
    split
    · exact throw_blind _
    · exact (modifyThread_blind _).bind fun _ => jump_blind _
  · intro m m' h
    rw [h.thread, h.program.1, h.program.2]

theorem retire_blind : Blind p (retire : Exec σ Unit) := by
  unfold retire
  refine ensureLive_blind.bind fun _ => ?_
  intro m m' h
  refine ⟨rfl, ?_, h.target, rfl, h.program, h.cache, h.rolls, h.steady⟩
  exact congrArg Thread.markRetired h.thread

theorem finish_blind : Blind p (finish : Exec σ Unit) := by
  unfold finish
  refine ensureLive_blind.bind fun _ => .get_bind ?_ ?_
  · intro m
    split
    · exact retire_blind
    · exact (modifyThread_blind _).bind fun _ => jump_blind _
  · intro m m' h
    rw [h.thread]

theorem make_blind (transfer : Transfer) : Blind p (make transfer : Exec σ Unit) := by
  cases transfer with
  | jump label => exact jump_blind label
  | jumpLazy label => exact jumpLazy_blind label
  | call procedure args resume => exact call_blind procedure args resume
  | finish => exact finish_blind
  | retire => exact retire_blind

/-! ## Blocks without queries -/

theorem approachBlock_blind {body : Block} (silent : ∀ s ∈ parts body, s.queries = []) :
    Blind p (approachBlock body : Exec σ (Option Transfer)) := by
  intro m m' h
  have woven : Woven (fun _ => False) True (approachBlock body : Exec σ (Option Transfer)) := by
    apply approachBlock_woven trivial
    intro s hs q hq
    rw [silent s hs] at hq
    cases hq
  obtain ⟨answer, sight⟩ := woven.sameSight h.sameSight
  refine ⟨answer, ?_⟩
  -- nothing but the world has changed, and of the world the target and the dice are in sight
  rw [(approachBlock_local body).frame m, (approachBlock_local body).frame m']
  exact ⟨h.thread, sight.target, h.pending, h.program, h.cache, sight.rolls, sight.steady⟩

theorem execBlock_blind {body : Block} (silent : ∀ s ∈ parts body, s.queries = []) :
    Blind p (execBlock body : Exec σ Flow) := by
  rw [execBlock_eq_approach]
  refine (approachBlock_blind silent).bind fun ending => ?_
  cases ending with
  | none => exact pure_blind _
  | some transfer => exact (make_blind transfer).bind fun _ => pure_blind _

theorem block_blind (label : Label) : Blind p (block label : Exec σ Block) := by
  intro m m' h
  rw [perform_block, perform_block, h.program.1, h.program.2]
  refine ⟨?_, h.thread, h.target, h.pending, ⟨rfl, rfl⟩, ⟨?_, ?_⟩, h.rolls, h.steady⟩
  · rw [Program.block_answer h.cache.1, Program.block_answer h.cache.2]
  · exact (Program.resolve_sound h.cache.1 rfl).1
  · exact (Program.resolve_sound h.cache.2 rfl).1

/-! ## Steps -/

section
variable (silent : p.Silent)
include silent

theorem runLabel_blind (label : Label) : Blind p (runLabel label : Exec σ Unit) := by
  intro m m' h
  unfold runLabel
  obtain ⟨answer, after⟩ := block_blind label m m' h
  rcases hr : m.perform (block label) with ⟨r, m₁⟩
  rcases hr' : m'.perform (block label) with ⟨r', m₁'⟩
  rw [hr, hr'] at answer after
  cases answer
  cases r with
  | error f =>
    rw [perform_bind_error hr, perform_bind_error hr']
    exact ⟨rfl, after⟩
  | ok body =>
    rw [perform_bind_ok hr, perform_bind_ok hr']
    have found : p.Denotes label body := by
      rw [perform_block, h.program.1] at hr
      exact (Program.resolve_sound h.cache.1 rfl).2 body (congrArg Prod.fst hr)
    have quiet : ∀ s ∈ parts body, s.queries = [] := by
      intro s hs
      exact silent s (found.parts s hs)
    exact ((execBlock_blind quiet).bind fun _ => pure_blind _) m₁ m₁' after

theorem drain_blind (n : Nat) : Blind p (drain n : Exec σ Unit) := by
  induction n with
  | zero =>
    unfold drain
    exact pure_blind _
  | succ n ih =>
    unfold drain
    refine .get_bind ?_ ?_
    · intro m
      split
      · exact pure_blind _
      · exact (setPending_blind _).bind fun _ => (runLabel_blind silent _).bind fun _ => ih
    · intro m m' h
      rw [h.pending]

omit silent in
theorem settle_blind : Blind p (settle : Exec σ Outcome) := by
  unfold settle
  refine .get_bind ?_ ?_
  · intro m
    split
    · exact pure_blind _
    · exact (modifyThread_blind _).bind fun _ => pure_blind _
  · intro m m' h
    rw [h.thread]

theorem afterFirst_blind (limit : Option Nat) (fuel : Nat) : Blind p (afterFirst limit fuel : Exec σ Outcome) := by
  unfold afterFirst
  refine (drain_blind silent _).bind fun _ => .get_bind ?_ ?_
  · intro m
    split
    · exact settle_blind
    · exact (setPending_blind _).bind fun _ => (modifyThread_blind _).bind fun _ => settle_blind
    · exact pure_blind _
  · intro m m' h
    rw [h.pending]

theorem step_blind (limit : Option Nat) (fuel : Nat) : Blind p (step limit fuel : Exec σ Outcome) := by
  unfold step
  refine .get_bind ?_ ?_
  · intro m
    split
    · exact pure_blind _
    · split
      · exact retire_blind.bind fun _ => pure_blind _
      · exact (modifyThread_blind _).bind fun _ => (setPending_blind _).bind fun _ =>
          (runLabel_blind silent _).bind fun _ => afterFirst_blind silent limit fuel
  · intro m m' h
    rw [h.thread]

end

end Machine

namespace Scheduler

variable {σ : Type}

/-! ## Programs -/

def code (s : Scheduler σ) (i : Nat) : Program := (s.programs.getD i default).program

def Runs (s : Scheduler σ) (code : Nat → Program) : Prop :=
  ∀ i, s.code i = code i ∧ (s.programs.getD i default).cache.Sound (code i)

theorem default_cache_sound (p : Program) : (default : Loaded).cache.Sound p := by
  intro label block h
  cases h

theorem Cached.runs {s : Scheduler σ} (h : s.Cached) : s.Runs s.code := by
  intro i
  refine ⟨rfl, ?_⟩
  rw [code]
  cases hl : s.programs[i]? with
  | none =>
    rw [Array.getD_eq_getD_getElem?, hl]
    exact default_cache_sound _
  | some loaded =>
    rw [programs_getD hl]
    exact h i loaded hl

theorem Runs.cached {s : Scheduler σ} {code : Nat → Program} (h : s.Runs code) : s.Cached := by
  intro i loaded hl
  have runs := h i
  rw [Scheduler.code, programs_getD hl] at runs
  rw [runs.1]
  exact runs.2

theorem Runs.absorb {sweep : Sweep σ} {code : Nat → Program} (h : sweep.state.Runs code) {task : Task}
    {target : Target} {m : Machine σ} (kept : Kept (machine sweep task target) m) :
    (absorb sweep task m).state.Runs code := by
  have program : (machine sweep task target).program = code task.program := (h task.program).1
  have cache : m.cache.Sound (code task.program) := by
    rw [← program]
    apply kept.cache
    rw [program]
    exact (h task.program).2
  intro i
  have runs := h i
  simp only [Scheduler.code, Scheduler.absorb, Array.getD_eq_getD_getElem?, Array.getElem?_setIfInBounds] at runs ⊢
  by_cases hi : task.program = i
  · subst hi
    by_cases bound : task.program < sweep.state.programs.size
    · simp only [bound, if_true, Option.getD_some]
      exact ⟨kept.program.trans program, cache⟩
    · have out : sweep.state.programs[task.program]? = none := by simpa using bound
      rw [out] at runs
      simpa [bound] using runs
  · simp only [hi, if_false]
    exact runs

/-! ## What a target has a share in -/

def only (s : Scheduler σ) (target : Nat) : Scheduler σ :=
  { s with tasks := s.tasks.filter (·.thread.target = target) }

structure Share where
  target : Nat
  ids : List ThreadId
  code : Nat → Program

def share (s : Scheduler σ) (target : Nat) : Share := ⟨target, (s.only target).ids, s.code⟩

/-- The identifier tells whether the task is on the target, and if it is, it runs a program without
queries. -/
structure Share.Knows (share : Share) (task : Task) : Prop where
  ids : task.thread.id ∈ share.ids ↔ task.thread.target = share.target
  silent : task.thread.target = share.target → (share.code task.program).Silent

theorem Share.Knows.record {share : Share} {task : Task} (h : share.Knows task) {record : Record}
    (own : record.Of task) : share.Knows { task with thread := record.thread } := by
  constructor
  · simp only [own.id, own.place]
    exact h.ids
  · simp only [own.place]
    exact h.silent

/-- For the target it is the same which of the two schedulers it is in. -/
structure Alongside (share : Share) (s s' : Scheduler σ) : Prop where
  limit : s'.limit = s.limit
  target : s'.targets[share.target]? = s.targets[share.target]?
  programs : s.Runs share.code ∧ s'.Runs share.code
  rolls : s'.dice.roll = s.dice.roll
  steady : s.dice.Steady

section
variable {share : Share} {sweep sweep' : Sweep σ} {task : Task} {target : Target} {m m' : Machine σ}

theorem Alongside.twin (h : Alongside share sweep.state sweep'.state) (task : Task) (target : Target) :
    Twin (share.code task.program) (machine sweep task target) (machine sweep' task target) := by
  obtain ⟨program, cache⟩ := h.programs.1 task.program
  obtain ⟨program', cache'⟩ := h.programs.2 task.program
  exact ⟨rfl, rfl, rfl, ⟨program, program'⟩, ⟨cache, cache'⟩, h.rolls, h.steady⟩

theorem Alongside.absorb_own (h : Alongside share sweep.state sweep'.state)
    (here : task.thread.target = share.target)
    (there : sweep.state.targets[share.target]? = some target) {p : Program} (twin : Twin p m m')
    (kept : Kept (machine sweep task target) m) (kept' : Kept (machine sweep' task target) m') :
    Alongside share (absorb sweep task m).state (absorb sweep' task m').state := by
  have put : ∀ (targets : Array Target) (new : Target), targets[share.target]? = some target →
      (targets.setIfInBounds task.thread.target new)[share.target]? = some new := by
    intro targets new there
    obtain ⟨bound, -⟩ := Array.getElem?_eq_some_iff.mp there
    simp [here, bound]
  refine ⟨h.limit, ?_, ⟨h.programs.1.absorb kept, h.programs.2.absorb kept'⟩, twin.rolls, twin.steady⟩
  simp only [absorb]
  rw [put _ _ there, put _ _ (h.target.trans there), twin.target]

theorem Alongside.absorb_other (h : Alongside share sweep.state sweep'.state)
    (elsewhere : task.thread.target ≠ share.target) (kept : Kept (machine sweep task target) m) :
    Alongside share (absorb sweep task m).state sweep'.state := by
  have rolls : m.dice.roll = sweep.state.dice.roll := kept.rolls
  refine ⟨h.limit, ?_, ⟨h.programs.1.absorb kept, h.programs.2⟩, h.rolls.trans rolls.symm, h.steady.congr rolls⟩
  simp only [absorb, Array.getElem?_setIfInBounds_ne elsewhere]
  exact h.target

end

/-! ## One tick -/

structure Mirrors (share : Share) (sweep sweep' : Sweep σ) : Prop where
  state : Alongside share sweep.state sweep'.state
  done : sweep'.done = sweep.done.filter (·.thread.target = share.target)
  known : ∀ task ∈ sweep.done, share.Knows task
  retired : sweep'.report.retired = sweep.report.retired.filter (· ∈ share.ids)
  failed : sweep'.report.failed = sweep.report.failed.filter (· ∈ share.ids)

section
variable {share : Share} {fuel : Nat} {sweep sweep' sweep₁ : Sweep σ} {task : Task} {state state' : Scheduler σ}
  {record : Record}

theorem Mirrors.enter_own (h : Mirrors share sweep sweep') (known : share.Knows task)
    (here : task.thread.target = share.target) (own : record.Of task) (after : Alongside share state state') :
    Mirrors share (sweep.enter state task record) (sweep'.enter state' task record) := by
  have mem : task.thread.id ∈ share.ids := known.ids.mpr here
  have all : ∀ ids : List ThreadId, (∀ id ∈ ids, id = task.thread.id) → ids.filter (· ∈ share.ids) = ids := by
    intro ids same
    apply List.filter_eq_self.mpr
    intro id hid
    simpa [same id hid] using mem
  refine ⟨after, ?_, List.forall_mem_cons.mpr ⟨known.record own, h.known⟩, ?_, ?_⟩
  · simp [Sweep.enter, own.place, here, h.done]
  · simp only [Sweep.enter, List.filter_append, h.retired, all _ own.retired]
  · simp only [Sweep.enter, List.filter_append, h.failed, all _ own.failed]

theorem Mirrors.enter_other (h : Mirrors share sweep sweep') (known : share.Knows task)
    (elsewhere : task.thread.target ≠ share.target) (own : record.Of task)
    (after : Alongside share state sweep'.state) : Mirrors share (sweep.enter state task record) sweep' := by
  have not_mem : task.thread.id ∉ share.ids := fun mem => elsewhere (known.ids.mp mem)
  have nobody : ∀ ids : List ThreadId, (∀ id ∈ ids, id = task.thread.id) → ids.filter (· ∈ share.ids) = [] := by
    intro ids same
    apply List.filter_eq_nil_iff.mpr
    intro id hid
    simpa [same id hid] using not_mem
  refine ⟨after, ?_, List.forall_mem_cons.mpr ⟨known.record own, h.known⟩, ?_, ?_⟩
  · simp [Sweep.enter, own.place, elsewhere, h.done]
  · simp only [Sweep.enter, List.filter_append, nobody _ own.retired, List.append_nil]
    exact h.retired
  · simp only [Sweep.enter, List.filter_append, nobody _ own.failed, List.append_nil]
    exact h.failed

theorem Mirrors.step_own (h : Mirrors share sweep sweep') (known : share.Knows task)
    (here : task.thread.target = share.target) (hs : stepTask fuel sweep task = some sweep₁) :
    ∃ sweep₁', stepTask fuel sweep' task = some sweep₁' ∧ Mirrors share sweep₁ sweep₁' := by
  cases there : sweep.state.targets[share.target]? with
  | none =>
    have there' := h.state.target.trans there
    rw [← here] at there there'
    rw [stepTask_lost there] at hs
    cases hs
    exact ⟨_, stepTask_lost there' fuel, h.enter_own known here (record_of rfl rfl _) h.state⟩
  | some target =>
    have there' := h.state.target.trans there
    obtain ⟨r, m, ran, ends, kept, rfl⟩ := exists_ran (here ▸ there) hs
    obtain ⟨answer, twin⟩ := step_blind (known.silent here) sweep.state.limit fuel _ _ (h.state.twin task target)
    have kept' := step_kept (machine sweep' task target) sweep.state.limit fuel
    rcases ran' : (machine sweep' task target).perform (step sweep.state.limit fuel) with ⟨r', m'⟩
    rw [ran, ran'] at answer twin
    rw [ran'] at kept'
    cases answer
    rw [← h.state.limit] at ran'
    have stepped := stepTask_there (here ▸ there') ran'
    rw [if_neg ends] at stepped
    refine ⟨_, stepped, ?_⟩
    rw [twin.thread]
    exact h.enter_own known here (record_of kept.id kept.place r) (h.state.absorb_own here there twin kept kept')

theorem Mirrors.step_other (h : Mirrors share sweep sweep') (known : share.Knows task)
    (elsewhere : task.thread.target ≠ share.target) (hs : stepTask fuel sweep task = some sweep₁) :
    Mirrors share sweep₁ sweep' := by
  obtain ⟨state, record, own, rfl, rfl | ⟨target, m, kept, rfl⟩⟩ := exists_enter hs
  · exact h.enter_other known elsewhere own h.state
  · exact h.enter_other known elsewhere own (h.state.absorb_other elsewhere kept)

theorem Mirrors.foldlM {tasks : List Task} (h : Mirrors share sweep sweep')
    (known : ∀ task ∈ tasks, share.Knows task) (hs : tasks.foldlM (stepTask fuel) sweep = some sweep₁) :
    ∃ sweep₁', (tasks.filter (·.thread.target = share.target)).foldlM (stepTask fuel) sweep' = some sweep₁' ∧
      Mirrors share sweep₁ sweep₁' := by
  induction tasks generalizing sweep sweep' with
  | nil =>
    cases hs
    exact ⟨sweep', rfl, h⟩
  | cons task left ih =>
    obtain ⟨first, later⟩ := List.forall_mem_cons.mp known
    rw [List.foldlM_cons] at hs
    obtain ⟨sweep₂, hstep, hs⟩ := Option.bind_eq_some_iff.mp hs
    by_cases here : task.thread.target = share.target
    · obtain ⟨sweep₂', hstep', mirrors⟩ := h.step_own first here hstep
      obtain ⟨sweep₁', hs', mirrors'⟩ := ih mirrors later hs
      refine ⟨sweep₁', ?_, mirrors'⟩
      rw [List.filter_cons_of_pos (by simpa using here), List.foldlM_cons, hstep']
      exact hs'
    · rw [List.filter_cons_of_neg (by simpa using here)]
      exact ih (h.step_other first here hstep) later hs

end

/-! ## Any number of ticks -/

/-- The second scheduler is the first one without the threads on other targets. -/
structure Isolates (share : Share) (s s' : Scheduler σ) : Prop where
  state : Alongside share s s'
  tasks : s'.tasks = s.tasks.filter (·.thread.target = share.target)
  known : ∀ task ∈ s.tasks, share.Knows task

theorem Isolates.tick {share : Share} {s s' s₁ : Scheduler σ} (h : Isolates share s s') {fuel : Nat}
    {report : Report} (ticked : s.tick fuel = some (report, s₁)) :
    ∃ report' s₁', s'.tick fuel = some (report', s₁') ∧ Isolates share s₁ s₁' ∧
      report'.retired = report.retired.filter (· ∈ share.ids) ∧
      report'.failed = report.failed.filter (· ∈ share.ids) := by
  have begun : Mirrors share ⟨s, ⟨0, [], []⟩, []⟩ ⟨s', ⟨0, [], []⟩, []⟩ := by
    refine ⟨h.state, rfl, ?_, rfl, rfl⟩
    intro task ht
    cases ht
  obtain ⟨sweep, hs, hr⟩ := Option.bind_eq_some_iff.mp ticked
  cases hr
  obtain ⟨sweep', hs', mirrors⟩ := begun.foldlM h.known hs
  rw [← h.tasks] at hs'
  have ticked' : s'.tick fuel = some (sweep'.report, { sweep'.state with
      tasks := sweep'.done.reverse.filter (!·.thread.isRetired), ticks := s'.ticks + 1 }) := by
    rw [Scheduler.tick, hs']
    rfl
  obtain ⟨limit, target, programs, rolls, steady⟩ := mirrors.state
  refine ⟨_, _, ticked', ⟨⟨limit, target, programs, rolls, steady⟩, ?_, ?_⟩, mirrors.retired, mirrors.failed⟩
  · simp only [mirrors.done, ← List.filter_reverse, List.filter_filter, Bool.and_comm]
  · intro task ht
    exact mirrors.known task (List.mem_reverse.mp (List.mem_filter.mp ht).1)

/-- One tick after the other, each with fuel of its own; nothing when one of them does not end. -/
def tickEach : List Nat → Scheduler σ → Option (List Report × Scheduler σ)
  | [], s => some ([], s)
  | fuel :: rest, s => do
    let (report, s) ← s.tick fuel
    let (reports, s) ← tickEach rest s
    return (report :: reports, s)

theorem Isolates.tickEach {share : Share} {fuels : List Nat} {s s' s₁ : Scheduler σ} (h : Isolates share s s')
    {reports : List Report} (ticked : s.tickEach fuels = some (reports, s₁)) :
    ∃ reports' s₁', s'.tickEach fuels = some (reports', s₁') ∧ Isolates share s₁ s₁' ∧
      reports'.map Report.retired = reports.map (·.retired.filter (· ∈ share.ids)) ∧
      reports'.map Report.failed = reports.map (·.failed.filter (· ∈ share.ids)) := by
  induction fuels generalizing s s' reports with
  | nil =>
    cases ticked
    exact ⟨[], s', rfl, h, rfl, rfl⟩
  | cons fuel rest ih =>
    simp only [Scheduler.tickEach, Option.bind_eq_bind, Option.bind_eq_some_iff] at ticked
    obtain ⟨⟨report, s₂⟩, first, ⟨reports₂, s₃⟩, later, hr⟩ := ticked
    cases hr
    obtain ⟨report', s₂', first', isolates, retired, failed⟩ := h.tick first
    obtain ⟨reports', s₁', later', isolates', retireds, faileds⟩ := ih isolates later
    refine ⟨report' :: reports', s₁', ?_, isolates', ?_, ?_⟩
    · simp [Scheduler.tickEach, first', later']
    · rw [List.map_cons, List.map_cons, retired, retireds]
    · rw [List.map_cons, List.map_cons, failed, faileds]

theorem isolates_only {s : Scheduler σ} {target : Nat} (cached : s.Cached) (nodup : s.ids.Nodup)
    (steady : s.dice.Steady)
    (silent : ∀ task ∈ s.tasks, task.thread.target = target → (s.code task.program).Silent) :
    Isolates (s.share target) s (s.only target) := by
  refine ⟨⟨rfl, rfl, ⟨cached.runs, cached.runs⟩, rfl, steady⟩, rfl, ?_⟩
  intro task mem
  refine ⟨?_, silent task mem⟩
  constructor
  · intro hid
    obtain ⟨other, ho, same⟩ := List.mem_map.mp hid
    obtain ⟨mem', on⟩ := List.mem_filter.mp ho
    rw [← List.inj_on_of_nodup_map nodup mem' mem same]
    exact of_decide_eq_true on
  · intro on
    exact List.mem_map.mpr ⟨task, List.mem_filter.mpr ⟨mem, decide_eq_true on⟩, rfl⟩

/-! ## The states that a scheduler can come to -/

theorem Sweeping.runs {fuel : Nat} {s : Scheduler σ} {left : List Task} {sweep : Sweep σ} {code : Nat → Program}
    (h : Sweeping fuel s left sweep) (runs : s.Runs code) : sweep.state.Runs code := by
  induction h with
  | begins => exact runs
  | steps _ hstep ih =>
    obtain ⟨state, record, -, rfl, rfl | ⟨target, m, kept, rfl⟩⟩ := exists_enter hstep
    · exact ih
    · exact ih.absorb kept

theorem Reached.cached {fits : Program → Prop} {s : Scheduler σ} (h : s.Reached fits) : s.Cached := by
  induction h with
  | new limit devices dice =>
    intro i loaded hl
    cases hl
  | addTarget target _ ih => exact ih
  | load program _ ih => exact ih.load program
  | install devices _ ih => exact ih
  | start _ _ started ih =>
    unfold Scheduler.start at started
    split at started
    · cases started
      exact ih
    · cases started
  | tick _ ticked ih =>
    obtain ⟨sweep, hs, -, rfl⟩ := tick_sweeping ticked
    exact (hs.runs ih.runs).cached

theorem Reached.exists_ledger {fits : Program → Prop} {s : Scheduler σ} (h : s.Reached fits) :
    ∃ replies, Ledger replies s := by
  induction h with
  | new limit devices dice => exact ⟨[], ledger_new limit devices dice⟩
  | addTarget target _ ih =>
    obtain ⟨replies, ledger⟩ := ih
    exact ⟨_, ledger.serve (show serve _ (.addTarget target) = some _ from rfl)⟩
  | load program _ ih =>
    obtain ⟨replies, ledger⟩ := ih
    exact ⟨_, ledger.serve (show serve _ (.load program) = some _ from rfl)⟩
  | install devices _ ih =>
    obtain ⟨replies, ledger⟩ := ih
    exact ⟨_, ledger.serve (show serve _ (.install devices) = some _ from rfl)⟩
  | start _ _ started ih =>
    obtain ⟨replies, ledger⟩ := ih
    exact ⟨_, (ledger.start started).2.2⟩
  | tick _ ticked ih =>
    obtain ⟨replies, ledger⟩ := ih
    exact ⟨_, ledger.tick ticked⟩

end Scheduler

open Scheduler

/-- Whatever has been started and ticked before, programs have sound caches and threads have identifiers
of their own. From there on, a target all of whose threads run programs without queries is isolated: after
any ticks it is the same, and so are all threads on it, as after the same ticks of the scheduler without
the threads on the other targets, and its threads retire and fail in the same ticks. Each draw is taken to
depend on the number of slots alone. -/
theorem targets_isolated {σ : Type} :
    (∀ s : Scheduler σ, s.Reached (fun _ => True) → s.Cached ∧ s.ids.Nodup) ∧
    ∀ (s s' : Scheduler σ) (target : Nat) (fuels : List Nat) (reports : List Report),
      s.Cached → s.ids.Nodup → s.dice.Steady →
      (∀ task ∈ s.tasks, task.thread.target = target → (s.code task.program).Silent) →
      s.tickEach fuels = some (reports, s') →
      ∃ reports' s'', (s.only target).tickEach fuels = some (reports', s'') ∧
        s''.targets[target]? = s'.targets[target]? ∧ s''.tasks = (s'.only target).tasks ∧
        reports'.map Report.retired = reports.map (·.retired.filter (· ∈ (s.only target).ids)) ∧
        reports'.map Report.failed = reports.map (·.failed.filter (· ∈ (s.only target).ids)) := by
  constructor
  · intro s reached
    obtain ⟨replies, ledger⟩ := reached.exists_ledger
    exact ⟨reached.cached, ledger.settled.rising.nodup⟩
  · intro s s' target fuels reports cached nodup steady silent ticked
    have isolates := isolates_only cached nodup steady silent
    obtain ⟨reports', s'', ticked', isolates', retired, failed⟩ := isolates.tickEach ticked
    exact ⟨reports', s'', ticked', isolates'.state.target, isolates'.tasks, retired, failed⟩

def neighbours : Scheduler Unit where
  limit := none
  targets := #[.new "", .new ""]
  programs := #[.of (relay false).program, .of ⟨⟨0⟩, #[.fragment [.deviceCall "clock" "now" []]], #[]⟩]
  tasks := [⟨.new ⟨1⟩ 1 ⟨0⟩, 1⟩, ⟨.new ⟨2⟩ 0 ⟨0⟩, 0⟩, ⟨.new ⟨3⟩ 1 ⟨0⟩, 0⟩]
  devices := World.bare.devices
  dice := .first
  nextId := 4
  ticks := 0

theorem neighbours_reached : neighbours.Reached fun _ => True := by
  let set := ((Scheduler.new none World.bare.devices .first).addTarget (.new "")).2
  let loaded := (((set.addTarget (.new "")).2.load (relay false).program).2.load
    ⟨⟨0⟩, #[.fragment [.deviceCall "clock" "now" []]], #[]⟩).2
  have reached : loaded.Reached fun _ => True := .load _ (.load _ (.addTarget _ (.addTarget _ (.new _ _ _))))
  have first : loaded.start 1 1 =
      .ok (⟨1⟩, { neighbours with tasks := neighbours.tasks.take 1, nextId := 2 }) := rfl
  have second : Scheduler.start { neighbours with tasks := neighbours.tasks.take 1, nextId := 2 } 0 0 =
      .ok (⟨2⟩, { neighbours with tasks := neighbours.tasks.take 2, nextId := 3 }) := rfl
  have third : Scheduler.start { neighbours with tasks := neighbours.tasks.take 2, nextId := 3 } 1 0 =
      .ok (⟨3⟩, neighbours) := rfl
  exact .start (.start (.start reached trivial first) trivial second) trivial third

theorem targets_isolated_neighbours :
    neighbours.dice.Steady ∧
    (∀ task ∈ neighbours.tasks, task.thread.target = 0 → (neighbours.code task.program).Silent) ∧
    ∃ reports s' reports' s'', neighbours.tickEach [1, 1] = some (reports, s') ∧
      reports = [⟨3, [⟨1⟩], [⟨1⟩]⟩, ⟨2, [⟨2⟩, ⟨3⟩], []⟩] ∧
      (neighbours.only 0).tickEach [1, 1] = some (reports', s'') ∧ s''.targets[0]? = s'.targets[0]? ∧
      reports'.map Report.retired = [[], [⟨2⟩]] := by
  have steady : neighbours.dice.Steady := fun _ => rfl
  have silent : ∀ task ∈ neighbours.tasks, task.thread.target = 0 → (neighbours.code task.program).Silent := by
    intro task mem here
    simp only [neighbours, List.mem_cons, List.not_mem_nil, or_false] at mem
    obtain rfl | rfl | rfl := mem
    · cases here
    · exact relay_silent false
    · cases here
  have evaluated : (neighbours.tickEach [1, 1]).map (·.1) =
      some [⟨3, [⟨1⟩], [⟨1⟩]⟩, ⟨2, [⟨2⟩, ⟨3⟩], []⟩] := by
    decide +kernel
  obtain ⟨⟨reports, s'⟩, ticked, rfl⟩ := Option.map_eq_some_iff.mp evaluated
  obtain ⟨cached, nodup⟩ := targets_isolated.1 neighbours neighbours_reached
  obtain ⟨reports', s'', ticked', same, -, retired, -⟩ :=
    targets_isolated.2 neighbours s' 0 [1, 1] _ cached nodup steady silent ticked
  exact ⟨steady, silent, _, s', reports', s'', ticked, rfl, ticked', same, retired⟩

end BlockScript
