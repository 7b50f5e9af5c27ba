import BlockScript.Proofs.TransferLimit
import BlockScript.Proofs.WellFormed
import BlockScript.Scheduler

/-!
# Ticks of well-formed programs

A tick steps the tasks one after the other; `Sweeping` is where it stands before each of them. What a
task needs to be stepped without a fault (`Ready`) is a target, a program and labels with blocks, and
no step of another task takes any of these away. So whatever has been started and ticked before, a tick
of well-formed programs fails no thread, unless a device refuses a query (`wellFormed_never_fails`).
-/

namespace BlockScript

open Machine

theorem Machine.step_ends {σ : Type} (m : Machine σ) {limit : Option Nat} (limited : limit ≠ none) (fuel : Nat) :
    (m.perform (step limit fuel)).1 ≠ .ok .unfinished := by
  obtain ⟨-, hs⟩ | ⟨-, hs⟩ | ⟨entry, -, -, hs⟩ := perform_step_cases m limit fuel <;> rw [hs]
  · simp
  · simp
  · rw [conclude]
    split
    · simp
    · unfold leave
      split
      · exact settle_ne_unfinished _
      · exact settle_ne_unfinished _
      · exact absurd rfl limited

namespace Scheduler

variable {σ : Type}

/-! ## Histories and sweeps -/

/-- The scheduler can have come about by starting programs that fit and by ticks. Devices may be exchanged
in between. -/
inductive Reached (fits : Program → Prop) : Scheduler σ → Prop
  | new (limit : Option Nat) (devices : Devices σ) (dice : Dice) : Reached fits (new limit devices dice)
  | addTarget {s : Scheduler σ} (target : Target) : Reached fits s → Reached fits (s.addTarget target).2
  | load {s : Scheduler σ} (program : Program) : Reached fits s → Reached fits (s.load program).2
  | install {s : Scheduler σ} (devices : Devices σ) : Reached fits s → Reached fits { s with devices }
  | start {s s' : Scheduler σ} {target program : Nat} {id : ThreadId} : Reached fits s →
      fits (s.programs.getD program default).program → s.start target program = .ok (id, s') → Reached fits s'
  | tick {s s' : Scheduler σ} {fuel : Nat} {report : Report} : Reached fits s →
      s.tick fuel = some (report, s') → Reached fits s'

inductive Sweeping (fuel : Nat) (s : Scheduler σ) : List Task → Sweep σ → Prop
  | begins : Sweeping fuel s s.tasks ⟨s, ⟨0, [], []⟩, []⟩
  | steps {task : Task} {left : List Task} {sweep sweep' : Sweep σ} : Sweeping fuel s (task :: left) sweep →
      stepTask fuel sweep task = some sweep' → Sweeping fuel s left sweep'

theorem Sweeping.foldlM {fuel : Nat} {s : Scheduler σ} {tasks : List Task} {sweep sweep' : Sweep σ}
    (h : Sweeping fuel s tasks sweep) (run : tasks.foldlM (stepTask fuel) sweep = some sweep') :
    Sweeping fuel s [] sweep' := by
  induction tasks generalizing sweep with
  | nil =>
    cases run
    exact h
  | cons task left ih =>
    rw [List.foldlM_cons] at run
    cases hs : stepTask fuel sweep task with
    | none => rw [hs] at run; cases run
    | some sweep₁ =>
      rw [hs] at run
      exact ih (.steps h hs) run

theorem tick_sweeping {fuel : Nat} {s s' : Scheduler σ} {report : Report} (h : s.tick fuel = some (report, s')) :
    ∃ sweep, Sweeping fuel s [] sweep ∧ report = sweep.report ∧
      s' = { sweep.state with tasks := sweep.done.reverse.filter (!·.thread.isRetired), ticks := s.ticks + 1 } := by
  unfold tick at h
  cases hs : s.tasks.foldlM (stepTask fuel) ⟨s, ⟨0, [], []⟩, []⟩ with
  | none => rw [hs] at h; cases h
  | some sweep =>
    rw [hs] at h
    cases h
    exact ⟨sweep, Sweeping.begins.foldlM hs, rfl, rfl⟩

/-! ## Stepping one task -/

def counted (sweep : Sweep σ) : Sweep σ := { sweep with report.stepped := sweep.report.stepped + 1 }

theorem stepTask_cases {fuel : Nat} {sweep sweep' : Sweep σ} {task : Task} {target : Target}
    (there : sweep.state.targets[task.thread.target]? = some target)
    (h : stepTask fuel sweep task = some sweep') :
    (∃ outcome m, (machine sweep task target).perform (step sweep.state.limit fuel) = (.ok outcome, m) ∧
        sweep' = { absorb (counted sweep) task m with done := { task with thread := m.thread } :: sweep.done }) ∨
      ∃ f m, (machine sweep task target).perform (step sweep.state.limit fuel) = (.error f, m) ∧
        sweep' = fail (absorb (counted sweep) task m) { task with thread := m.thread } := by
  have hr : ∃ r m, (machine sweep task target).perform (step sweep.state.limit fuel) = (r, m) := ⟨_, _, rfl⟩
  obtain ⟨r, m, hr⟩ := hr
  have hrun : (step sweep.state.limit fuel).run.run (machine (counted sweep) task target) = (r, m) := hr
  unfold stepTask at h
  have same : ({ sweep with report.stepped := sweep.report.stepped + 1 } : Sweep σ) = counted sweep := rfl
  simp only [there, same, hrun] at h
  cases r with
  | error f =>
    cases h
    exact .inr ⟨f, m, hr, rfl⟩
  | ok outcome =>
    cases outcome with
    | unfinished => cases h
    | suspended | retired =>
      cases h
      exact .inl ⟨_, m, hr, rfl⟩

/-! ## Ready tasks -/

def program? (s : Scheduler σ) (i : Nat) : Option Program := (s.programs[i]?).map Loaded.program

theorem programs_getD {s : Scheduler σ} {i : Nat} {loaded : Loaded} (h : s.programs[i]? = some loaded) :
    s.programs.getD i default = loaded := by
  rw [Array.getD_eq_getD_getElem?, h]
  rfl

/-- The task has a target, a well-formed program, and blocks for all its labels. -/
def Ready (s : Scheduler σ) (task : Task) : Prop :=
  task.thread.target < s.targets.size ∧
    ∃ p, s.program? task.program = some p ∧ p.WellFormed ∧ task.thread.Sound p

structure Alike (s s' : Scheduler σ) : Prop where
  limit : s'.limit = s.limit
  targets : s'.targets.size = s.targets.size
  programs : ∀ i, s'.program? i = s.program? i

def Cached (s : Scheduler σ) : Prop :=
  ∀ (i : Nat) (loaded : Loaded), s.programs[i]? = some loaded → loaded.cache.Sound loaded.program

theorem Ready.congr {s s' : Scheduler σ} {task : Task} (h : s.Ready task) (alike : Alike s s') : s'.Ready task := by
  obtain ⟨there, p, hp, wf, sound⟩ := h
  refine ⟨?_, p, ?_, wf, sound⟩
  · rw [alike.targets]
    exact there
  · rw [alike.programs, hp]

theorem Alike.trans {s s₁ s₂ : Scheduler σ} (h : Alike s s₁) (h' : Alike s₁ s₂) : Alike s s₂ :=
  ⟨h'.limit.trans h.limit, h'.targets.trans h.targets, fun i => (h'.programs i).trans (h.programs i)⟩

theorem machine_sound {sweep : Sweep σ} {task : Task} (cached : sweep.state.Cached) {p : Program}
    (hp : sweep.state.program? task.program = some p) (sound : task.thread.Sound p) (target : Target) :
    (machine sweep task target).Sound p := by
  obtain ⟨loaded, hl, rfl⟩ := Option.map_eq_some_iff.mp hp
  have hget := programs_getD hl
  refine ⟨?_, ?_, sound, fun _ h => by cases h⟩
  · rw [machine, hget]
  · rw [machine, hget]
    exact cached task.program loaded hl

theorem absorb_alike {sweep : Sweep σ} {task : Task} {m : Machine σ}
    (hp : sweep.state.program? task.program = some m.program) :
    Alike sweep.state (absorb sweep task m).state := by
  refine ⟨rfl, Array.size_setIfInBounds, fun i => ?_⟩
  simp only [program?, absorb, Array.getElem?_setIfInBounds]
  split
  · rename_i hi
    subst hi
    obtain ⟨loaded, hl, hprogram⟩ := Option.map_eq_some_iff.mp hp
    obtain ⟨bound, -⟩ := Array.getElem?_eq_some_iff.mp hl
    rw [if_pos bound, hl, Option.map_some, Option.map_some, hprogram]
  · rfl

theorem absorb_cached {sweep : Sweep σ} {task : Task} {m : Machine σ} (cached : sweep.state.Cached)
    (hc : m.cache.Sound m.program) : (absorb sweep task m).state.Cached := by
  intro i loaded hl
  simp only [absorb, Array.getElem?_setIfInBounds] at hl
  split at hl
  · split at hl
    · cases hl
      exact hc
    · cases hl
  · exact cached i loaded hl

theorem fail_state (sweep : Sweep σ) (task : Task) : (fail sweep task).state = sweep.state := by
  unfold fail
  simp only
  split <;> rfl

theorem fail_done (sweep : Sweep σ) (task : Task) :
    ∃ t, (t = task.thread ∨ t = task.thread.markRetired) ∧
      (fail sweep task).done = { task with thread := t } :: sweep.done := by
  unfold fail
  simp only
  split
  · exact ⟨task.thread, .inl rfl, rfl⟩
  · exact ⟨task.thread.markRetired, .inr rfl, rfl⟩

/-! ## What a sweep keeps -/

structure Swept (s : Scheduler σ) (left : List Task) (sweep : Sweep σ) : Prop where
  alike : Alike s sweep.state
  cached : sweep.state.Cached
  left : ∀ task ∈ left, s.Ready task
  done : ∀ task ∈ sweep.done, s.Ready task

/-- All that a tick meets is ready: its next task has a target and a machine all of whose labels have
blocks. -/
theorem Swept.next {s : Scheduler σ} {task : Task} {left : List Task} {sweep : Sweep σ}
    (h : Swept s (task :: left) sweep) :
    ∃ target p, sweep.state.targets[task.thread.target]? = some target ∧ s.program? task.program = some p ∧
      p.WellFormed ∧ (machine sweep task target).Sound p := by
  obtain ⟨there, p, hp, wf, sound⟩ := h.left task List.mem_cons_self
  rw [← h.alike.targets] at there
  exact ⟨_, p, Array.getElem?_eq_getElem there, hp, wf,
    machine_sound h.cached ((h.alike.programs _).trans hp) sound _⟩

theorem Swept.absorbed {s : Scheduler σ} {fuel : Nat} {task : Task} {left : List Task} {sweep : Sweep σ}
    (h : Swept s (task :: left) sweep) {target : Target}
    (there : sweep.state.targets[task.thread.target]? = some target) {r : Except Fault Outcome} {m : Machine σ}
    (hr : (machine sweep task target).perform (Machine.step sweep.state.limit fuel) = (r, m)) :
    Alike s (absorb (counted sweep) task m).state ∧ (absorb (counted sweep) task m).state.Cached ∧
      ∀ t, t = m.thread ∨ t = m.thread.markRetired → s.Ready { task with thread := t } := by
  obtain ⟨_, p, there', hp, wf, sound⟩ := h.next
  rw [there] at there'
  cases there'
  have ready := h.left task List.mem_cons_self
  obtain ⟨sound', -⟩ := step_sound wf sound hr
  have htarget : m.thread.target = task.thread.target := by
    have := (handle_keeps (machine sweep task target) (.step sweep.state.limit fuel)).2.2
    rwa [handle, hr] at this
  have known : (counted sweep).state.program? task.program = some m.program := by
    rw [sound'.program, ← hp]
    exact h.alike.programs _
  refine ⟨h.alike.trans (absorb_alike known), absorb_cached h.cached (sound'.program ▸ sound'.cache), ?_⟩
  rintro t (rfl | rfl)
  · exact ⟨htarget ▸ ready.1, p, hp, wf, sound'.thread⟩
  · exact ⟨htarget ▸ ready.1, p, hp, wf, m.thread.markRetired_sound p⟩

theorem Swept.step {s : Scheduler σ} {fuel : Nat} {task : Task} {left : List Task} {sweep sweep' : Sweep σ}
    (h : Swept s (task :: left) sweep) (hs : stepTask fuel sweep task = some sweep') : Swept s left sweep' := by
  obtain ⟨target, -, there, -⟩ := h.next
  have later := (List.forall_mem_cons.mp h.left).2
  obtain ⟨outcome, m, hr, rfl⟩ | ⟨f, m, hr, rfl⟩ := stepTask_cases there hs
  · obtain ⟨alike, cached, done⟩ := h.absorbed there hr
    exact ⟨alike, cached, later, List.forall_mem_cons.mpr ⟨done _ (.inl rfl), h.done⟩⟩
  · obtain ⟨alike, cached, done⟩ := h.absorbed there hr
    obtain ⟨t, ht, hdone⟩ := fail_done (absorb (counted sweep) task m) { task with thread := m.thread }
    refine ⟨?_, ?_, later, ?_⟩
    · rw [fail_state]
      exact alike
    · rw [fail_state]
      exact cached
    · rw [hdone]
      exact List.forall_mem_cons.mpr ⟨done t ht, h.done⟩

/-! ## Schedulers that only well-formed programs were started on -/

structure Sound (s : Scheduler σ) : Prop where
  cached : s.Cached
  tasks : ∀ task ∈ s.tasks, s.Ready task

theorem Sound.sweeping {s : Scheduler σ} (h : s.Sound) {fuel : Nat} {left : List Task} {sweep : Sweep σ}
    (hs : Sweeping fuel s left sweep) : Swept s left sweep := by
  induction hs with
  | begins => exact ⟨⟨rfl, rfl, fun _ => rfl⟩, h.cached, h.tasks, fun _ ht => by cases ht⟩
  | steps _ hstep ih => exact ih.step hstep

theorem Sound.tick {s s' : Scheduler σ} (h : s.Sound) {fuel : Nat} {report : Report}
    (ticked : s.tick fuel = some (report, s')) : s'.Sound := by
  obtain ⟨sweep, hs, -, rfl⟩ := tick_sweeping ticked
  have swept := h.sweeping hs
  refine ⟨swept.cached, fun task ht => ?_⟩
  have hmem : task ∈ sweep.done := List.mem_reverse.mp (List.mem_filter.mp ht).1
  exact (swept.done task hmem).congr ⟨swept.alike.limit, swept.alike.targets, swept.alike.programs⟩

theorem Sound.addTarget {s : Scheduler σ} (h : s.Sound) (target : Target) : (s.addTarget target).2.Sound := by
  refine ⟨h.cached, fun task ht => ?_⟩
  obtain ⟨there, rest⟩ := h.tasks task ht
  refine ⟨?_, rest⟩
  simp only [Scheduler.addTarget, Array.size_push]
  omega

theorem Cached.load {s : Scheduler σ} (h : s.Cached) (program : Program) : (s.load program).2.Cached := by
  intro i loaded hl
  simp only [Scheduler.load, Array.getElem?_push] at hl
  split at hl
  · cases hl
    exact Cache.emptyCache_sound program
  · exact h i loaded hl

theorem Sound.load {s : Scheduler σ} (h : s.Sound) (program : Program) : (s.load program).2.Sound := by
  constructor
  · exact h.cached.load program
  · intro task ht
    obtain ⟨there, p, hp, rest⟩ := h.tasks task ht
    refine ⟨there, p, ?_, rest⟩
    obtain ⟨loaded, hl, rfl⟩ := Option.map_eq_some_iff.mp hp
    obtain ⟨bound, -⟩ := Array.getElem?_eq_some_iff.mp hl
    rw [program?, show (s.load program).2.programs = s.programs.push (.of program) from rfl,
      Array.getElem?_push, if_neg (Nat.ne_of_lt bound), hl]
    rfl

/-- There is nothing at the entry of the program that stands in for a missing one. -/
theorem not_wellFormed_default : ¬ (default : Loaded).program.WellFormed := by
  intro wf
  obtain ⟨block, h⟩ := wf.entry
  rw [Program.lookup, Program.block, Program.run_resolve] at h
  cases h

theorem Sound.start {s s' : Scheduler σ} (h : s.Sound) {target program : Nat} {id : ThreadId}
    (wf : (s.programs.getD program default).program.WellFormed) (started : s.start target program = .ok (id, s')) :
    s'.Sound := by
  obtain ⟨loaded, hl⟩ : ∃ loaded, s.programs[program]? = some loaded := by
    cases hl : s.programs[program]? with
    | some loaded => exact ⟨loaded, rfl⟩
    | none =>
      rw [Array.getD_eq_getD_getElem?, hl] at wf
      exact absurd wf not_wellFormed_default
  have hget := programs_getD hl
  rw [hget] at wf
  unfold Scheduler.start at started
  split at started
  · rename_i there
    simp only [hget] at started
    cases started
    refine ⟨h.cached, ?_⟩
    rw [List.forall_mem_append, List.forall_mem_singleton]
    refine ⟨h.tasks, there, loaded.program, ?_, wf, wf.new_sound _ _⟩
    rw [program?, hl]
    rfl
  · cases started

theorem Reached.sound {s : Scheduler σ} (h : Reached Program.WellFormed s) : s.Sound := by
  induction h with
  | new limit devices dice =>
    constructor
    · intro i loaded hl
      cases hl
    · intro task ht
      cases ht
  | addTarget target _ ih => exact ih.addTarget target
  | load program _ ih => exact ih.load program
  | install devices _ ih => exact ⟨ih.cached, ih.tasks⟩
  | start _ wf started ih => exact ih.start wf started
  | tick _ ticked ih => exact ih.tick ticked

/-! ## Ticks -/

/-- Every task of the tick runs a program without queries, or has its queries answered. -/
def Served (fuel : Nat) (s : Scheduler σ) : Prop :=
  ∀ task left sweep target, Sweeping fuel s (task :: left) sweep →
    sweep.state.targets[task.thread.target]? = some target →
    (machine sweep task target).program.Silent ∨ (machine sweep task target).Answered s.limit fuel

theorem Sound.served_of_silent {s : Scheduler σ} (h : s.Sound)
    (silent : ∀ i p, s.program? i = some p → p.Silent) (fuel : Nat) : s.Served fuel := by
  intro task left sweep target hs _
  obtain ⟨target', p, -, hp, -, sound⟩ := (h.sweeping hs).next
  have program : (machine sweep task target).program = p := sound.program
  rw [program]
  exact .inl (silent _ p hp)

theorem Sound.failed_eq_nil {s : Scheduler σ} (h : s.Sound) {fuel : Nat} (served : s.Served fuel)
    {left : List Task} {sweep : Sweep σ} (hs : Sweeping fuel s left sweep) : sweep.report.failed = [] := by
  induction hs with
  | begins => rfl
  | @steps task left sweep sweep' hs hstep ih =>
    have swept := h.sweeping hs
    obtain ⟨target, p, there, -, wf, sound⟩ := swept.next
    have answered := served task left sweep target hs there
    rw [sound.program] at answered
    obtain ⟨outcome, m, hr⟩ := step_ok wf sound answered
    rw [← swept.alike.limit] at hr
    obtain ⟨_, _, hr', rfl⟩ | ⟨f, m', hr', -⟩ := stepTask_cases there hstep
    · exact ih
    · rw [hr] at hr'
      cases hr'

theorem exists_stepTask {sweep : Sweep σ} (limited : sweep.state.limit ≠ none) (fuel : Nat) (task : Task) :
    ∃ sweep', stepTask fuel sweep task = some sweep' := by
  unfold stepTask
  simp only
  split
  · exact ⟨_, rfl⟩
  · rename_i target _
    have ends := step_ends (machine (counted sweep) task target) limited fuel
    split
    · rename_i hr
      exact absurd (congrArg Prod.fst hr) ends
    · exact ⟨_, rfl⟩
    · exact ⟨_, rfl⟩

theorem Swept.exists_foldlM {s : Scheduler σ} {tasks : List Task} {sweep : Sweep σ} (h : Swept s tasks sweep)
    (limited : s.limit ≠ none) (fuel : Nat) : ∃ sweep', tasks.foldlM (stepTask fuel) sweep = some sweep' := by
  induction tasks generalizing sweep with
  | nil => exact ⟨sweep, rfl⟩
  | cons task left ih =>
    obtain ⟨sweep₁, hs⟩ := exists_stepTask (h.alike.limit ▸ limited) fuel task
    obtain ⟨sweep', hrest⟩ := ih (h.step hs)
    refine ⟨sweep', ?_⟩
    rw [List.foldlM_cons, hs]
    exact hrest

theorem Sound.exists_tick {s : Scheduler σ} (h : s.Sound) (limited : s.limit ≠ none) (fuel : Nat) :
    ∃ report s', s.tick fuel = some (report, s') := by
  have begun : Sweeping fuel s s.tasks _ := .begins
  obtain ⟨sweep, hs⟩ := (h.sweeping begun).exists_foldlM limited fuel
  rw [Scheduler.tick, hs]
  exact ⟨_, _, rfl⟩

end Scheduler

/-- However a scheduler has come about by starting well-formed programs and by ticks, no thread fails in
a tick in which no device refuses a query, and with a limit the tick ends. Also on its own, a new thread
of a well-formed program that is only stepped never fails in a step, unless a query is refused, and is
never told in a step that it has retired. -/
theorem wellFormed_never_fails {σ : Type} :
    (∀ (s : Scheduler σ) (fuel : Nat), s.Reached Program.WellFormed → s.Served fuel →
      (∀ report s', s.tick fuel = some (report, s') → report.failed = []) ∧
      (s.limit ≠ none → ∃ report s', s.tick fuel = some (report, s'))) ∧
    ∀ (p : Program) (cache : Cache) (id : ThreadId) (number : Nat) (w : World σ) (notices : List ThreadId)
      (requests : List (Request σ)), p.WellFormed → cache.Sound p → (∀ r ∈ requests, r.Steps p) →
      ∀ limit fuel,
        let m := (start p cache id number w notices).handleAll requests
        (p.Silent ∨ m.Answered limit fuel → ∃ outcome m', m.perform (step limit fuel) = (.ok outcome, m') ∧
          (limit ≠ none → outcome ≠ .unfinished)) ∧
        ∀ retired m', m.perform (step limit fuel) ≠ (.error (.threadRetired retired), m') := by
  refine ⟨?_, ?_⟩
  · intro s fuel reached served
    refine ⟨?_, fun limited => reached.sound.exists_tick limited fuel⟩
    intro report s' ticked
    obtain ⟨sweep, hs, rfl, -⟩ := Scheduler.tick_sweeping ticked
    exact reached.sound.failed_eq_nil served hs
  · intro p cache id number w notices requests wf hc stepped limit fuel m
    have new : (start p cache id number w notices).Sound p :=
      ⟨rfl, hc, wf.new_sound id number, fun _ hl => by cases hl⟩
    have sound : m.Sound p := handleAll_sound wf new stepped
    refine ⟨?_, ?_⟩
    · intro served
      obtain ⟨outcome, m', hr⟩ := step_ok wf sound served
      refine ⟨outcome, m', hr, ?_⟩
      rintro limited rfl
      exact absurd (congrArg Prod.fst hr) (step_ends m limited fuel)
    · intro retired m' hr
      exact step_ne_threadRetired wf sound hr retired rfl

-- a jump to a label without a block is a failure
example :
    let s := (((Scheduler.new none World.bare.devices .first).addTarget (.new "")).2.load
      ⟨⟨0⟩, #[.fragment [.jump ⟨7⟩]], #[]⟩).2
    ((s.start 0 0).toOption.bind fun started => started.2.tick 1).map (·.1.failed) = some [⟨1⟩] := by
  decide +kernel

theorem relay_contains {warp : Bool} {s : Stmt} (h : (relay warp).program.Contains s) :
    s = .call ⟨0⟩ [] ⟨2⟩ ∨ s = .jumpLazy ⟨2⟩ ∨ s = .retire := by
  obtain ⟨body, hb, hs⟩ := h
  simp only [relay, start, List.mem_toArray, List.mem_cons, List.not_mem_nil, or_false, Entry.fragment.injEq] at hb
  obtain rfl | rfl | rfl := hb <;> simp only [parts, partsOf, List.append_nil, List.mem_singleton] at hs
  · exact .inl hs
  · exact .inr (.inl hs)
  · exact .inr (.inr hs)

theorem relay_wellFormed (warp : Bool) : (relay warp).program.WellFormed := by
  have last : (relay warp).program.Has ⟨2⟩ := Program.has_fragment rfl
  refine ⟨Program.has_fragment rfl, ?_, ?_, ?_⟩
  · intro procedure h
    simp only [relay, start, List.mem_toArray, List.mem_singleton] at h
    rw [h]
    exact Program.has_fragment rfl
  · intro s h label hl
    obtain rfl | rfl | rfl := relay_contains h <;>
      simp only [Stmt.labels, List.mem_singleton, List.not_mem_nil] at hl
    · rw [hl]
      exact last
    · rw [hl]
      exact last
  · intro s h procedure hp
    obtain rfl | rfl | rfl := relay_contains h <;>
      simp only [Stmt.callees, List.mem_singleton, List.not_mem_nil] at hp
    rw [hp]
    exact Nat.zero_lt_one

theorem relay_silent (warp : Bool) : (relay warp).program.Silent := by
  intro s h
  obtain rfl | rfl | rfl := relay_contains h <;> rfl

def relayed : Scheduler Unit where
  limit := none
  targets := #[.new ""]
  programs := #[.of (relay false).program]
  tasks := [⟨.new ⟨1⟩ 0 ⟨0⟩, 0⟩]
  devices := World.bare.devices
  dice := .first
  nextId := 2
  ticks := 0

theorem relayed_reached : relayed.Reached Program.WellFormed := by
  let loaded := (((Scheduler.new none World.bare.devices .first).addTarget (.new "")).2.load
    (relay false).program).2
  have reached : loaded.Reached Program.WellFormed := .load _ (.addTarget _ (.new _ _ _))
  have wf : (loaded.programs.getD 0 default).program.WellFormed := relay_wellFormed false
  have started : loaded.start 0 0 = .ok (⟨1⟩, relayed) := rfl
  exact .start reached wf started

theorem relayed_served (fuel : Nat) : relayed.Served fuel := by
  refine relayed_reached.sound.served_of_silent (fun i p hp => ?_) fuel
  obtain ⟨loaded, hl, rfl⟩ := Option.map_eq_some_iff.mp hp
  have hmem := Array.mem_of_getElem? hl
  simp only [relayed, List.mem_toArray, List.mem_singleton] at hmem
  rw [hmem]
  exact relay_silent false

theorem wellFormed_never_fails_relay :
    (relayed.Reached Program.WellFormed ∧ relayed.Served 1 ∧ ∃ report s', relayed.tick 1 = some (report, s') ∧
      report.stepped = 1 ∧ report.failed = []) ∧
    (relay true).program.WellFormed ∧ (relay true).program.Silent ∧
      ∃ outcome m', ((relay true).handleAll [.step (some 0) 0]).perform (step none 1) = (.ok outcome, m') := by
  have ran : (relayed.tick 1).map (·.1.stepped) = some 1 := by decide +kernel
  obtain ⟨⟨report, s'⟩, ticked, stepped⟩ := Option.map_eq_some_iff.mp ran
  have none_failed := (wellFormed_never_fails.1 relayed 1 relayed_reached (relayed_served 1)).1 report s' ticked
  obtain ⟨outcome, m', hr, -⟩ := (wellFormed_never_fails.2 _ _ ⟨1⟩ 0 .bare [] [.step (some 0) 0]
    (relay_wellFormed true) (Cache.emptyCache_sound _) (by simp [Request.Steps]) none 1).1
      (.inl (relay_silent true))
  exact ⟨⟨relayed_reached, relayed_served 1, report, s', ticked, stepped, none_failed⟩,
    relay_wellFormed true, relay_silent true, outcome, m', hr⟩

end BlockScript
