import BlockScript.Proofs.Counting
import BlockScript.Proofs.Isolation

/-!
# The benchmark counts what it says

The threads of the benchmark run the same program, each on a target of its own, so a tick takes every one
of them from one rest to the next whatever the others do (`Midway`), and none of them fails or retires.
After any number of ticks each target therefore holds what one thread counts in that many steps
(`benchmark_counts`).
-/

namespace BlockScript

open Machine Scheduler

namespace Benchmark

variable {σ : Type}

/-- The thread of the task waits on its target after a number of ticks. -/
def Posted (iterations : UInt32) (warp : Bool) (ticks : ℕ) (s : Scheduler σ) (task : Task) : Prop :=
  ∃ x, s.targets[task.thread.target]? = some x ∧ Waits iterations warp ticks task.thread x

def Provided (iterations : UInt32) (warp : Bool) (s : Scheduler σ) : Prop :=
  ∃ code, s.Runs code ∧ code 0 = countingProgram iterations warp

def roster (threads : ℕ) : List (ThreadId × ℕ × ℕ) :=
  (List.range threads).map fun i => (⟨i + 1⟩, i, 0)

/-- The benchmark between two ticks. -/
structure Between (iterations : UInt32) (warp : Bool) (threads ticks : ℕ) (s : Scheduler σ) : Prop where
  limit : s.limit = none
  provided : Provided iterations warp s
  size : s.targets.size = threads
  made : s.ticks = ticks
  posts : s.tasks.map Task.post = roster threads
  posted : ∀ task ∈ s.tasks, Posted iterations warp ticks s task

/-- In the tick after that many the tasks that are left still have to be stepped. -/
structure Midway (iterations : UInt32) (warp : Bool) (threads ticks : ℕ) (left : List Task) (sweep : Sweep σ) :
    Prop where
  limit : sweep.state.limit = none
  provided : Provided iterations warp sweep.state
  size : sweep.state.targets.size = threads
  posts : (sweep.done.reverse ++ left).map Task.post = roster threads
  report : sweep.report = ⟨sweep.done.length, [], []⟩
  done : ∀ task ∈ sweep.done, Posted iterations warp (ticks + 1) sweep.state task
  left : ∀ task ∈ left, Posted iterations warp ticks sweep.state task

section
variable {iterations : UInt32} {warp : Bool} {threads ticks fuel : ℕ} {left : List Task} {sweep : Sweep σ}
  {task : Task}

theorem Posted.absorb {m : Machine σ} {other : Task} (h : Posted iterations warp ticks sweep.state other)
    (apart : task.thread.target ≠ other.thread.target) :
    Posted iterations warp ticks (absorb sweep task m).state other := by
  obtain ⟨x, there, waits⟩ := h
  refine ⟨x, ?_, waits⟩
  rw [Scheduler.absorb]
  simp only
  rw [Array.getElem?_setIfInBounds_ne apart]
  exact there

theorem Midway.apart (h : Midway iterations warp threads ticks (task :: left) sweep) {other : Task}
    (mem : other ∈ sweep.done ∨ other ∈ left) : task.thread.target ≠ other.thread.target := by
  have targets : (sweep.done.reverse ++ task :: left).map (·.thread.target) = List.range threads := by
    have := congrArg (List.map fun post => post.2.1) h.posts
    simpa [roster, Task.post, Function.comp_def] using this
  have nodup := List.nodup_range (n := threads)
  rw [← targets, List.map_append, List.map_cons, List.nodup_middle, List.nodup_cons, ← List.map_append] at nodup
  intro same
  apply nodup.1
  rw [same]
  apply List.mem_map_of_mem
  simpa using mem

theorem Midway.program (h : Midway iterations warp threads ticks (task :: left) sweep) : task.program = 0 := by
  have listed : task.post ∈ roster threads := by
    rw [← h.posts]
    exact List.mem_map_of_mem (by simp)
  obtain ⟨i, -, same⟩ := List.mem_map.mp listed
  exact congrArg (·.2.2) same.symm

theorem Provided.machine (h : Provided iterations warp sweep.state) (zero : task.program = 0) (x : Target) :
    (machine sweep task x).program = countingProgram iterations warp ∧
      (machine sweep task x).cache.Sound (machine sweep task x).program := by
  obtain ⟨code, runs, first⟩ := h
  rw [← zero] at first
  have program : (Scheduler.machine sweep task x).program = countingProgram iterations warp :=
    (runs task.program).1.trans first
  refine ⟨program, ?_⟩
  rw [program, ← first]
  exact (runs task.program).2

/-- The next task comes to its next rest. It is on no other task's target and gives no notice, so all else is as
it was. -/
theorem Midway.step (h : Midway iterations warp threads ticks (task :: left) sweep)
    (small : counted iterations warp (ticks + 1) ≤ 2 ^ 53) (enough : iterations.toNat + 4 ≤ fuel) :
    ∃ sweep', stepTask fuel sweep task = some sweep' ∧ Midway iterations warp threads ticks left sweep' := by
  obtain ⟨x, there, waits⟩ := h.left task List.mem_cons_self
  obtain ⟨program, cache⟩ := h.provided.machine h.program x
  obtain ⟨m, ran, waits'⟩ := Waits.step program cache waits small enough
  have kept := step_kept (machine sweep task x) none fuel
  rw [ran] at kept
  rw [← h.limit] at ran
  have notice : task.thread.notice m.thread = [] := by
    apply Thread.notice_eq_nil
    simp [Thread.isRetired, waits.status, waits'.status]
  obtain ⟨code, runs, first⟩ := h.provided
  refine ⟨_, (stepTask_there there ran).trans (if_neg (by simp)), h.limit, ⟨code, runs.absorb kept, first⟩,
    ?_, ?_, ?_, ?_, ?_⟩
  · exact Array.size_setIfInBounds.trans h.size
  · have post : Task.post ⟨m.thread, task.program⟩ = task.post := by
      simp only [Task.post]
      rw [kept.id, kept.place]
      rfl
    have posts := h.posts
    simpa [Sweep.enter, record, post] using posts
  · simp [Sweep.enter, record, notice, h.report]
  · intro other mem
    rcases List.mem_cons.mp mem with rfl | mem
    · -- its target is the one that the step has left
      refine ⟨m.target, ?_, waits'⟩
      have inside := (Array.getElem?_eq_some_iff.mp there).1
      show (sweep.state.targets.setIfInBounds task.thread.target m.target)[m.thread.target]? = _
      rw [show m.thread.target = task.thread.target from kept.place]
      exact Array.getElem?_setIfInBounds_self_of_lt inside
    · exact (h.done other mem).absorb (h.apart (.inl mem))
  · intro other mem
    exact (h.left other (List.mem_cons_of_mem _ mem)).absorb (h.apart (.inr mem))

theorem Midway.foldlM (h : Midway iterations warp threads ticks left sweep)
    (small : counted iterations warp (ticks + 1) ≤ 2 ^ 53) (enough : iterations.toNat + 4 ≤ fuel) :
    ∃ sweep', left.foldlM (stepTask fuel) sweep = some sweep' ∧ Midway iterations warp threads ticks [] sweep' := by
  induction left generalizing sweep with
  | nil => exact ⟨sweep, rfl, h⟩
  | cons task left ih =>
    obtain ⟨sweep₁, stepped, midway⟩ := h.step small enough
    obtain ⟨sweep', rest, ended⟩ := ih midway
    refine ⟨sweep', ?_, ended⟩
    rw [List.foldlM_cons, stepped]
    exact rest

theorem Between.tick {s : Scheduler σ} (h : Between iterations warp threads ticks s)
    (small : counted iterations warp (ticks + 1) ≤ 2 ^ 53) (enough : iterations.toNat + 4 ≤ fuel) :
    ∃ s', s.tick fuel = some (⟨threads, [], []⟩, s') ∧ Between iterations warp threads (ticks + 1) s' := by
  have begins : Midway iterations warp threads ticks s.tasks ⟨s, ⟨0, [], []⟩, []⟩ := by
    refine ⟨h.limit, h.provided, h.size, h.posts, rfl, ?_, h.posted⟩
    intro task mem
    cases mem
  obtain ⟨sweep, swept, midway⟩ := begins.foldlM small enough
  have posts : sweep.done.reverse.map Task.post = roster threads := by
    rw [← midway.posts, List.append_nil]
  have length : sweep.done.length = threads := by
    have := congrArg List.length posts
    simpa [roster] using this
  have active : sweep.done.reverse.filter (!·.thread.isRetired) = sweep.done.reverse := by
    rw [List.filter_eq_self]
    intro task mem
    obtain ⟨x, -, waits⟩ := midway.done task (List.mem_reverse.mp mem)
    simp [Thread.isRetired, waits.status]
  refine ⟨{ sweep.state with tasks := sweep.done.reverse, ticks := s.ticks + 1 }, ?_, midway.limit, midway.provided,
    midway.size, congrArg (· + 1) h.made, posts, ?_⟩
  · rw [Scheduler.tick, swept, Option.bind_eq_bind, Option.bind_some, active, midway.report, length]
    rfl
  · intro task mem
    exact midway.done task (List.mem_reverse.mp mem)

/-! ## From the start -/

theorem counted_mono (iterations : UInt32) (warp : Bool) : Monotone (counted iterations warp) := by
  apply monotone_nat_of_le_succ
  intro ticks
  have next := congrArg Prod.snd (onward_phase iterations warp ticks)
  simp only at next
  rw [← next, onward]
  split_ifs <;> simp

theorem Between.run {s : Scheduler σ} (h : Between iterations warp threads ticks s) (more steps : ℕ)
    (small : counted iterations warp (ticks + more) ≤ 2 ^ 53) (enough : iterations.toNat + 4 ≤ fuel) :
    ∃ s', s.tickEach (List.replicate more fuel) = some (List.replicate more ⟨threads, [], []⟩, s') ∧
      runTicks fuel more steps s = some (steps + threads * more, s') ∧
      Between iterations warp threads (ticks + more) s' := by
  induction more generalizing s ticks steps with
  | zero => exact ⟨s, rfl, rfl, h⟩
  | succ more ih =>
    have first : counted iterations warp (ticks + 1) ≤ 2 ^ 53 :=
      (counted_mono iterations warp (by omega)).trans small
    obtain ⟨s₁, ticked, between⟩ := h.tick first enough
    have later : ticks + (more + 1) = ticks + 1 + more := by omega
    rw [later] at small ⊢
    obtain ⟨s', each, ran, ended⟩ := ih between (steps + threads) small
    refine ⟨s', ?_, ?_, ended⟩
    · simp [List.replicate_succ, tickEach, ticked, each]
    · simp [runTicks, ticked, ran, Nat.mul_succ, Nat.add_assoc, Nat.add_comm threads]

theorem waits_new (iterations : UInt32) (warp : Bool) (id : ThreadId) (target : ℕ) (name : String) :
    Waits iterations warp 0 (.new id target ⟨0⟩) (.new name) := by
  have phase : phase iterations warp 0 = 0 := by simp [phase]
  have counted : counted iterations warp 0 = 0 := by simp [counted]
  refine ⟨rfl, rfl, ?_⟩
  rw [phase, counted]
  exact stands_outside ⟨rfl, rfl, rfl⟩

theorem Between.addThread {s : Scheduler σ} (h : Between iterations warp threads 0 s)
    (next : s.nextId = threads + 1) : Between iterations warp (threads + 1) 0 (addThread 0 s threads) ∧
      (addThread 0 s threads).nextId = threads + 1 + 1 := by
  obtain ⟨code, runs, first⟩ := h.provided
  have entry : (s.programs.getD 0 default).program.entry = ⟨0⟩ := by
    rw [show (s.programs.getD 0 default).program = code 0 from (runs 0).1, first]
    rfl
  have added : Benchmark.addThread 0 s threads =
      { s with
        targets := s.targets.push (.new ("Sprite" ++ toString (threads + 1)))
        tasks := s.tasks ++ [⟨.new ⟨threads + 1⟩ threads ⟨0⟩, 0⟩]
        nextId := threads + 1 + 1 } := by
    simp only [Benchmark.addThread, addTarget, Scheduler.start, Array.size_push, h.size, Nat.lt_succ_self,
      if_true, next, entry]
  rw [added]
  refine ⟨⟨h.limit, ⟨code, runs, first⟩, ?_, h.made, ?_, ?_⟩, rfl⟩
  · rw [Array.size_push, h.size]
  · rw [List.map_append, h.posts, roster, roster, List.range_succ, List.map_append]
    rfl
  · rw [List.forall_mem_append, List.forall_mem_singleton]
    constructor
    · intro task mem
      obtain ⟨x, there, waits⟩ := h.posted task mem
      refine ⟨x, ?_, waits⟩
      have inside := (Array.getElem?_eq_some_iff.mp there).1
      rw [Array.getElem?_push, if_neg inside.ne]
      exact there
    · refine ⟨.new ("Sprite" ++ toString (threads + 1)), ?_, waits_new iterations warp _ threads _⟩
      simp [Thread.new, ← h.size]

end

theorem between_prepare (p : Parameters) (devices : Devices σ) (dice : Dice) :
    Between p.iterations p.warp p.threads 0 (prepare p none devices dice) := by
  let s := ((Scheduler.new none devices dice).load (countingProgram p.iterations p.warp)).2
  have reached : s.Reached fun _ => True := .load _ (.new none devices dice)
  have all : ∀ threads, Between p.iterations p.warp threads 0 ((List.range threads).foldl (addThread 0) s) ∧
      ((List.range threads).foldl (addThread 0) s).nextId = threads + 1 := by
    intro threads
    induction threads with
    | zero =>
      refine ⟨⟨rfl, ⟨s.code, reached.cached.runs, rfl⟩, rfl, rfl, rfl, ?_⟩, rfl⟩
      intro task mem
      cases mem
    | succ threads ih =>
      rw [List.range_succ, List.foldl_append]
      exact ih.1.addThread ih.2
  exact (all p.threads).1

section
variable {iterations : UInt32} {warp : Bool} {threads ticks n sum : ℕ} {t : Thread} {x : Target}

theorem Stands.total (h : Stands iterations warp n sum t x) :
    x.getVariable "total" = .num (Float.ofNat sum) := by
  by_cases zero : n = 0
  · exact (h.outside zero).total
  · exact (h.inside zero).total

theorem Between.total {s : Scheduler σ} (h : Between iterations warp threads ticks s) (mem : x ∈ s.targets) :
    x.getVariable "total" = .num (Float.ofNat (counted iterations warp ticks)) := by
  obtain ⟨i, there⟩ := Array.mem_iff_getElem?.mp mem
  have inside := (Array.getElem?_eq_some_iff.mp there).1
  rw [h.size] at inside
  have listed : (⟨i + 1⟩, i, 0) ∈ s.tasks.map Task.post := by
    rw [h.posts]
    exact List.mem_map_of_mem (List.mem_range.mpr inside)
  obtain ⟨task, mem, post⟩ := List.mem_map.mp listed
  obtain ⟨x', there', waits⟩ := h.posted task mem
  have place : task.thread.target = i := congrArg (·.2.1) post
  rw [place, there, Option.some.injEq] at there'
  rw [there']
  exact waits.stands.total

/-- Once it has made a step, a thread waits at the head of the loop or in the loop of the procedure. -/
theorem Waits.place (h : Waits iterations warp ticks t x) (begun : ticks ≠ 0) :
    t.fragment = some ⟨1⟩ ∧ t.stack = [] ∨ t.fragment = some ⟨4⟩ ∧ t.stack = [callFrame iterations warp] := by
  have fragment := h.fragment
  rw [if_neg begun, resting] at fragment
  by_cases zero : phase iterations warp ticks = 0
  · rw [if_pos zero] at fragment
    exact .inl ⟨fragment, (h.stands.outside zero).stack⟩
  · rw [if_neg zero] at fragment
    exact .inr ⟨fragment, (h.stands.inside zero).stack⟩

end

end Benchmark

open Benchmark Number

/-- The benchmark, run without a limit, for at least one tick and with totals that doubles can count. Its
ticks end, each of them steps all threads and reports that none has failed or retired, so the steps are the
threads times the ticks. After the last one every target's total is what a thread counts in that many ticks,
and the threads are those of the start, suspended at the head of the loop or in the loop of the procedure. -/
theorem benchmark_counts {σ : Type} (p : Parameters) (devices : Devices σ) (dice : Dice) (fuel : ℕ)
    (enough : p.iterations.toNat + 4 ≤ fuel) (begun : 1 ≤ p.ticks)
    (small : counted p.iterations p.warp p.ticks ≤ 2 ^ 53) :
    ∃ s, runTicks fuel p.ticks 0 (prepare p none devices dice) = some (p.threads * p.ticks, s) ∧
      (prepare p none devices dice).tickEach (List.replicate p.ticks fuel) =
        some (List.replicate p.ticks ⟨p.threads, [], []⟩, s) ∧
      s.ticks = p.ticks ∧ s.targets.size = p.threads ∧
      (∀ x ∈ s.targets, ∃ total, x.getVariable "total" = .num total ∧
        rational? total = some (counted p.iterations p.warp p.ticks : ℚ)) ∧
      s.active = p.threads ∧ s.tasks.map Task.post = (List.range p.threads).map (fun i => (⟨i + 1⟩, i, 0)) ∧
      ∀ task ∈ s.tasks, task.thread.status = .suspended ∧
        (task.thread.fragment = some ⟨1⟩ ∧ task.thread.stack = [] ∨
          task.thread.fragment = some ⟨4⟩ ∧ task.thread.stack = [callFrame p.iterations p.warp]) := by
  have start := between_prepare p devices dice
  obtain ⟨s, each, ran, between⟩ := start.run p.ticks 0 (by rwa [Nat.zero_add]) enough
  rw [Nat.zero_add] at ran between
  refine ⟨s, ran, each, between.made, between.size, ?_, ?_, between.posts, ?_⟩
  · intro x mem
    exact ⟨_, between.total mem, rational?_whole small⟩
  · have length := congrArg List.length between.posts
    simpa [roster, Scheduler.active] using length
  · intro task mem
    obtain ⟨x, -, waits⟩ := between.posted task mem
    exact ⟨waits.status, waits.place (by omega)⟩

theorem benchmark_counts_pair :
    let p : Parameters := ⟨2, 6, 4, false⟩
    ∃ s, runTicks 8 p.ticks 0 (prepare p none World.bare.devices .first) = some (12, s) ∧ s.targets.size = 2 ∧
      ∀ x ∈ s.targets, ∃ total, x.getVariable "total" = .num total ∧ rational? total = some 5 := by
  intro p
  obtain ⟨s, ran, -, -, size, total, -⟩ :=
    benchmark_counts p World.bare.devices .first 8 (by decide) (by decide) (by decide)
  have five : counted p.iterations p.warp p.ticks = 5 := by decide
  rw [five] at total
  exact ⟨s, ran, size, total⟩

end BlockScript
