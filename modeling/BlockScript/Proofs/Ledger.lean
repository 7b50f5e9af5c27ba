import BlockScript.Proofs.Passage
import BlockScript.Proofs.Retirement
import BlockScript.Proofs.Ticks
import Mathlib.Data.List.Nodup
import Mathlib.Data.List.Perm.Basic

/-!
# The scheduler's ledger

In a tick there are three ways in which a thread comes to be retired: its transfers give notice, a fault
retires it on its behalf, and at the end of the tick all that have retired are taken off. They agree:
the list of the retired is made of the tasks that the tick takes off, in their order (`Booked`). Over a
whole history of calls, the identifiers given out are therefore those of the active threads and those in
the reports, each of them once (`ledger_exact`).
-/

namespace BlockScript

open Machine

/-- Whose thread it is, where it acts and what it runs: all of a task that stays the same. -/
def Task.post (task : Task) : ThreadId × Nat × Nat := (task.thread.id, task.thread.target, task.program)

def Rising (ids : List ThreadId) : Prop := ids.Pairwise (·.number < ·.number)

theorem Rising.nodup {ids : List ThreadId} (h : Rising ids) : ids.Nodup := by
  apply List.Pairwise.imp _ h
  rintro a b hab rfl
  exact Nat.lt_irrefl _ hab

theorem Rising.sublist {ids ids' : List ThreadId} (h : Rising ids) (hs : ids'.Sublist ids) : Rising ids' :=
  List.Pairwise.sublist hs h

namespace Scheduler

variable {σ : Type}

def ids (s : Scheduler σ) : List ThreadId := s.tasks.map (·.thread.id)

structure Settled (s : Scheduler σ) : Prop where
  rising : Rising s.ids
  suspended : ∀ task ∈ s.tasks, task.thread.status = .suspended
  placed : ∀ task ∈ s.tasks, task.thread.target < s.targets.size

/-! ## One task -/

structure Record where
  thread : Thread
  retired : List ThreadId
  failed : List ThreadId

/-- A step has given an answer and left a thread. If it has failed, the thread retires all the same. -/
def record (task : Task) (r : Except Fault Outcome) (t : Thread) : Record :=
  match r with
  | .ok _ => ⟨t, task.thread.notice t, []⟩
  | .error _ =>
    if t.isRetired then ⟨t, task.thread.notice t, [t.id]⟩
    else ⟨t.markRetired, task.thread.notice t ++ [t.id], [t.id]⟩

def Sweep.enter (sweep : Sweep σ) (state : Scheduler σ) (task : Task) (record : Record) : Sweep σ where
  state
  report := ⟨sweep.report.stepped + 1, sweep.report.retired ++ record.retired, sweep.report.failed ++ record.failed⟩
  done := { task with thread := record.thread } :: sweep.done

section
variable {fuel : Nat} {sweep sweep' : Sweep σ} {task : Task} {target : Target}

theorem stepTask_lost (lost : sweep.state.targets[task.thread.target]? = none) (fuel : Nat) :
    stepTask fuel sweep task =
      some (sweep.enter sweep.state task
        (record task (.error (.unknownTarget task.thread.target)) task.thread)) := by
  unfold stepTask
  simp only [lost, fail, record, Sweep.enter, Thread.notice_eq_nil]
  by_cases hr : task.thread.isRetired = true
  · simp [hr]
  · simp [hr]

theorem stepTask_there (there : sweep.state.targets[task.thread.target]? = some target) {r : Except Fault Outcome}
    {m : Machine σ} (ran : (machine sweep task target).perform (step sweep.state.limit fuel) = (r, m)) :
    stepTask fuel sweep task =
      if r = .ok .unfinished then none
      else some (sweep.enter (absorb sweep task m).state task (record task r m.thread)) := by
  have kept := step_kept (machine sweep task target) sweep.state.limit fuel
  rw [ran] at kept
  have notices : m.notices = sweep.report.retired ++ task.thread.notice m.thread := kept.notices
  have same : ({ sweep with report.stepped := sweep.report.stepped + 1 } : Sweep σ) = counted sweep := rfl
  have hrun : (step sweep.state.limit fuel).run.run (machine (counted sweep) task target) = (r, m) := ran
  unfold stepTask
  simp only [there, same, hrun]
  cases r with
  | ok outcome =>
    cases outcome with
    | unfinished => rfl
    | suspended | retired => simp [absorb, counted, Sweep.enter, record, notices]
  | error f =>
    by_cases hr : m.thread.isRetired = true
    · simp [fail, absorb, counted, Sweep.enter, record, notices, hr]
    · simp [fail, absorb, counted, Sweep.enter, record, notices, hr]

theorem exists_ran (there : sweep.state.targets[task.thread.target]? = some target)
    (h : stepTask fuel sweep task = some sweep') :
    ∃ r m, (machine sweep task target).perform (step sweep.state.limit fuel) = (r, m) ∧ r ≠ .ok .unfinished ∧
      Kept (machine sweep task target) m ∧
      sweep' = sweep.enter (absorb sweep task m).state task (record task r m.thread) := by
  have kept := step_kept (machine sweep task target) sweep.state.limit fuel
  rcases ran : (machine sweep task target).perform (step sweep.state.limit fuel) with ⟨r, m⟩
  rw [ran] at kept
  rw [stepTask_there there ran] at h
  by_cases ends : r = .ok .unfinished
  · rw [if_pos ends] at h
    cases h
  · rw [if_neg ends] at h
    cases h
    exact ⟨r, m, rfl, ends, kept, rfl⟩

end

structure Record.Of (record : Record) (task : Task) : Prop where
  id : record.thread.id = task.thread.id
  place : record.thread.target = task.thread.target
  retired : ∀ id ∈ record.retired, id = task.thread.id
  failed : ∀ id ∈ record.failed, id = task.thread.id

structure Record.Balanced (record : Record) : Prop where
  settled : record.thread.isRetired = true ∨ record.thread.status = .suspended
  retired : record.retired = if record.thread.isRetired then [record.thread.id] else []
  failed : record.failed.Sublist record.retired

section
variable {task : Task} {t : Thread}

theorem record_of (id : t.id = task.thread.id) (place : t.target = task.thread.target) (r : Except Fault Outcome) :
    (record task r t).Of task := by
  have notice : ∀ id ∈ task.thread.notice t, id = task.thread.id := fun _ h => Thread.mem_notice h
  unfold record
  cases r with
  | ok outcome =>
    refine ⟨id, place, notice, ?_⟩
    intro id h
    cases h
  | error f =>
    by_cases hr : t.isRetired = true
    · simp only [hr, if_true]
      exact ⟨id, place, notice, List.forall_mem_singleton.mpr id⟩
    · simp only [hr]
      refine ⟨id, place, ?_, List.forall_mem_singleton.mpr id⟩
      exact List.forall_mem_append.mpr ⟨notice, List.forall_mem_singleton.mpr id⟩

theorem exists_enter {fuel : Nat} {sweep sweep' : Sweep σ} (h : stepTask fuel sweep task = some sweep') :
    ∃ state record, record.Of task ∧ sweep' = sweep.enter state task record ∧
      (state = sweep.state ∨
        ∃ target m, Kept (machine sweep task target) m ∧ state = (absorb sweep task m).state) := by
  cases there : sweep.state.targets[task.thread.target]? with
  | none =>
    rw [stepTask_lost there] at h
    cases h
    exact ⟨_, _, record_of rfl rfl _, rfl, .inl rfl⟩
  | some target =>
    obtain ⟨r, m, -, -, kept, rfl⟩ := exists_ran there h
    exact ⟨_, _, record_of kept.id kept.place r, rfl, .inr ⟨target, m, kept, rfl⟩⟩

theorem record_balanced (live : task.thread.isRetired = false) (same : t.id = task.thread.id)
    {r : Except Fault Outcome} (settled : ∀ outcome, r = .ok outcome → t.isRetired = true ∨ t.status = .suspended) :
    (record task r t).Balanced := by
  have notice : task.thread.notice t = if t.isRetired then [t.id] else [] := by simp [Thread.notice, live, same]
  unfold record
  cases r with
  | ok outcome => exact ⟨settled outcome rfl, notice, List.nil_sublist _⟩
  | error f =>
    by_cases hr : t.isRetired = true
    · simp only [hr, if_true]
      rw [if_pos hr] at notice
      exact ⟨.inl hr, by simp [notice, hr], by simp [notice]⟩
    · have retired : t.markRetired.isRetired = true := rfl
      simp only [hr]
      rw [if_neg hr] at notice
      refine ⟨.inl retired, ?_, by simp [notice]⟩
      simp only [notice, List.nil_append, Bool.false_eq_true, if_false, retired, if_true]
      rfl

end

/-! ## One tick -/

/-- The books part way through a tick of `s`. -/
structure Booked (s : Scheduler σ) (left : List Task) (sweep : Sweep σ) : Prop where
  size : sweep.state.targets.size = s.targets.size
  ahead : ∀ task ∈ left, task ∈ s.tasks
  posts : sweep.done.reverse.map Task.post ++ left.map Task.post = s.tasks.map Task.post
  settled : ∀ task ∈ sweep.done, task.thread.isRetired = true ∨ task.thread.status = .suspended
  stepped : sweep.report.stepped = sweep.done.length
  retired : sweep.report.retired = (sweep.done.reverse.filter (·.thread.isRetired)).map (·.thread.id)
  failed : sweep.report.failed.Sublist sweep.report.retired

section
variable {s : Scheduler σ} {left : List Task} {sweep sweep' : Sweep σ}

theorem booked_start (s : Scheduler σ) : Booked s s.tasks ⟨s, ⟨0, [], []⟩, []⟩ := by
  refine ⟨rfl, fun _ h => h, rfl, ?_, rfl, rfl, List.Sublist.refl _⟩
  intro task h
  cases h

theorem Booked.enter {task : Task} (h : Booked s (task :: left) sweep) {state : Scheduler σ} {record : Record}
    (size : state.targets.size = sweep.state.targets.size) (own : record.Of task) (balanced : record.Balanced) :
    Booked s left (sweep.enter state task record) := by
  have post : Task.post { task with thread := record.thread } = task.post := by
    simp [Task.post, own.id, own.place]
  refine ⟨size.trans h.size, ?_, ?_, ?_, ?_, ?_, ?_⟩
  · intro task' ht
    exact h.ahead task' (List.mem_cons_of_mem _ ht)
  · have posts := h.posts
    simpa [Sweep.enter, post] using posts
  · exact List.forall_mem_cons.mpr ⟨balanced.settled, h.settled⟩
  · simp [Sweep.enter, h.stepped]
  · simp only [Sweep.enter, h.retired, balanced.retired]
    by_cases hr : record.thread.isRetired = true
    · simp [hr]
    · simp [hr]
  · exact h.failed.append balanced.failed

theorem Settled.booked (hs : s.Settled) {fuel : Nat} (h : Sweeping fuel s left sweep) : Booked s left sweep := by
  induction h with
  | begins => exact booked_start s
  | @steps task left sweep sweep' _ hstep ih =>
    have mem := ih.ahead task List.mem_cons_self
    have live : task.thread.isRetired = false := by simp [Thread.isRetired, hs.suspended task mem]
    have placed := hs.placed task mem
    rw [← ih.size] at placed
    obtain ⟨r, m, ran, ends, kept, rfl⟩ := exists_ran (Array.getElem?_eq_getElem placed) hstep
    have settled : ∀ outcome, r = .ok outcome → m.thread.isRetired = true ∨ m.thread.status = .suspended := by
      rintro outcome rfl
      obtain ⟨-, hs⟩ | ⟨-, hs⟩ := step_status ran (fun h => ends (congrArg _ h))
      · exact .inl (by simp [Thread.isRetired, hs])
      · exact .inr hs
    exact ih.enter Array.size_setIfInBounds (record_of kept.id kept.place r) (record_balanced live kept.id settled)

theorem Settled.exists_target (hs : s.Settled) {fuel : Nat} {task : Task}
    (h : Sweeping fuel s (task :: left) sweep) :
    ∃ target, sweep.state.targets[task.thread.target]? = some target := by
  have booked := hs.booked h
  have placed := hs.placed task (booked.ahead task List.mem_cons_self)
  rw [← booked.size] at placed
  exact ⟨_, Array.getElem?_eq_getElem placed⟩

end

structure Ticked (s : Scheduler σ) (report : Report) (s' : Scheduler σ) : Prop where
  stepped : report.stepped = s.active
  retired : report.retired.Sublist s.ids
  failed : report.failed.Sublist report.retired
  posts : s'.tasks.map Task.post = (s.tasks.filter (·.thread.id ∉ report.retired)).map Task.post
  balance : s.ids.Perm (s'.ids ++ report.retired)
  nextId : s'.nextId = s.nextId

theorem ids_eq_posts (tasks : List Task) : tasks.map (·.thread.id) = (tasks.map Task.post).map (·.1) := by
  rw [List.map_map]
  rfl

theorem Sweeping.nextId {s : Scheduler σ} {fuel : Nat} {left : List Task} {sweep : Sweep σ}
    (h : Sweeping fuel s left sweep) : sweep.state.nextId = s.nextId := by
  induction h with
  | begins => rfl
  | steps _ hstep ih =>
    obtain ⟨state, record, -, rfl, rfl | ⟨target, m, -, rfl⟩⟩ := exists_enter hstep
    · exact ih
    · exact ih

theorem filter_retired {tasks : List Task} (nodup : (tasks.map (·.thread.id)).Nodup) :
    tasks.filter (!·.thread.isRetired) =
      tasks.filter (·.thread.id ∉ (tasks.filter (·.thread.isRetired)).map (·.thread.id)) := by
  apply List.filter_congr
  intro task mem
  have iff : task.thread.id ∈ (tasks.filter (·.thread.isRetired)).map (·.thread.id) ↔
      task.thread.isRetired = true := by
    constructor
    · intro h
      obtain ⟨other, ho, he⟩ := List.mem_map.mp h
      obtain ⟨mem', hr⟩ := List.mem_filter.mp ho
      have same : other = task := List.inj_on_of_nodup_map nodup mem' mem he
      rwa [same] at hr
    · intro hr
      exact List.mem_map.mpr ⟨task, List.mem_filter.mpr ⟨mem, hr⟩, rfl⟩
  simp [iff]

theorem Settled.tick {s s' : Scheduler σ} (hs : s.Settled) {fuel : Nat} {report : Report}
    (h : s.tick fuel = some (report, s')) : Ticked s report s' ∧ s'.Settled := by
  obtain ⟨sweep, hsweep, rfl, rfl⟩ := tick_sweeping h
  have booked := hs.booked hsweep
  have posts : sweep.done.reverse.map Task.post = s.tasks.map Task.post := by simpa using booked.posts
  have ids : sweep.done.reverse.map (·.thread.id) = s.ids := by
    rw [ids, ids_eq_posts, ids_eq_posts, posts]
  have nodup : (sweep.done.reverse.map (·.thread.id)).Nodup := by
    rw [ids]
    exact hs.rising.nodup
  have kept : (sweep.done.reverse.filter (!·.thread.isRetired)).map Task.post =
      (s.tasks.filter (·.thread.id ∉ sweep.report.retired)).map Task.post := by
    rw [filter_retired nodup, ← booked.retired]
    have split : ∀ tasks : List Task, (tasks.filter (·.thread.id ∉ sweep.report.retired)).map Task.post =
        (tasks.map Task.post).filter (·.1 ∉ sweep.report.retired) := by
      intro tasks
      rw [List.filter_map]
      rfl
    rw [split, split, posts]
  constructor
  · refine ⟨?_, ?_, booked.failed, kept, ?_, hsweep.nextId⟩
    · rw [booked.stepped, ← List.length_reverse, ← List.length_map Task.post, posts, List.length_map]
      rfl
    · rw [booked.retired, ← ids]
      exact List.filter_sublist.map _
    · rw [booked.retired, ← ids, Scheduler.ids, ← List.map_append]
      apply List.Perm.map
      exact ((List.filter_append_perm _ _).symm.trans List.perm_append_comm)
  · refine ⟨?_, ?_, ?_⟩
    · apply hs.rising.sublist
      rw [← ids]
      exact List.filter_sublist.map _
    · intro task mem
      obtain ⟨mem, live⟩ := List.mem_filter.mp mem
      obtain hr | hs := booked.settled task (List.mem_reverse.mp mem)
      · simp [hr] at live
      · exact hs
    · intro task mem
      have mem' : task.post ∈ s.tasks.map Task.post := by
        rw [← posts]
        exact List.mem_map_of_mem (List.mem_filter.mp mem).1
      obtain ⟨other, ho, he⟩ := List.mem_map.mp mem'
      have placed := hs.placed other ho
      have same : other.thread.target = task.thread.target := congrArg (·.2.1) he
      rw [same, ← booked.size] at placed
      exact placed

/-! ## Histories -/

inductive Call (σ : Type) where
  | addTarget (target : Target)
  | load (program : Program)
  | install (devices : Devices σ)
  | start (target program : Nat)
  | tick (fuel : Nat)

inductive Reply where
  | number (n : Nat)
  | installed
  | started (id : ThreadId)
  | refused (f : Fault)
  | ticked (report : Report)
deriving DecidableEq

def serve (s : Scheduler σ) : Call σ → Option (Reply × Scheduler σ)
  | .addTarget target => some (.number (s.addTarget target).1, (s.addTarget target).2)
  | .load program => some (.number (s.load program).1, (s.load program).2)
  | .install devices => some (.installed, { s with devices })
  | .start target program =>
    match s.start target program with
    | .ok (id, s') => some (.started id, s')
    | .error f => some (.refused f, s)
  | .tick fuel => (s.tick fuel).map fun (report, s') => (.ticked report, s')

/-- All the replies to a sequence of calls; nothing when one of the ticks does not end. -/
def serveAll : List (Call σ) → Scheduler σ → Option (List Reply × Scheduler σ)
  | [], s => some ([], s)
  | call :: rest, s => do
    let (reply, s) ← s.serve call
    let (replies, s) ← serveAll rest s
    return (reply :: replies, s)

def Reply.started? : Reply → Option ThreadId
  | .started id => some id
  | _ => none

def Reply.report? : Reply → Option Report
  | .ticked report => some report
  | _ => none

def started (replies : List Reply) : List ThreadId := replies.filterMap Reply.started?

def reports (replies : List Reply) : List Report := replies.filterMap Reply.report?

/-- What the replies so far and the scheduler say agrees. -/
structure Ledger (replies : List Reply) (s : Scheduler σ) : Prop where
  settled : s.Settled
  nextId : s.nextId = (started replies).length + 1
  numbered : started replies = (List.range (started replies).length).map fun i => ⟨i + 1⟩
  balance : (started replies).Perm (s.ids ++ (reports replies).flatMap Report.retired)

section
variable {replies : List Reply} {s s' : Scheduler σ}

theorem ledger_new (limit : Option Nat) (devices : Devices σ) (dice : Dice) :
    Ledger [] (new limit devices dice) := by
  refine ⟨⟨List.Pairwise.nil, ?_, ?_⟩, rfl, rfl, List.Perm.refl _⟩
  · intro task h
    cases h
  · intro task h
    cases h

theorem Ledger.rising (h : Ledger replies s) : Rising (started replies) := by
  rw [h.numbered, Rising, List.pairwise_map]
  apply List.Pairwise.imp _ List.pairwise_lt_range
  intro a b hab
  exact Nat.succ_lt_succ hab

theorem Ledger.number_lt (h : Ledger replies s) {id : ThreadId} (mem : id ∈ started replies) :
    id.number < s.nextId := by
  rw [h.numbered] at mem
  obtain ⟨i, hi, rfl⟩ := List.mem_map.mp mem
  have hi := List.mem_range.mp hi
  rw [h.nextId]
  exact Nat.succ_lt_succ hi

theorem Ledger.idle (h : Ledger replies s) {reply : Reply} (no_start : reply.started? = none)
    (no_report : reply.report? = none) (settled : s'.Settled) (ids : s'.ids = s.ids)
    (nextId : s'.nextId = s.nextId) : Ledger (replies ++ [reply]) s' := by
  have hstarted : started (replies ++ [reply]) = started replies := by simp [started, no_start]
  have hreports : reports (replies ++ [reply]) = reports replies := by simp [reports, no_report]
  refine ⟨settled, ?_, ?_, ?_⟩
  · rw [nextId, hstarted, h.nextId]
  · rw [hstarted]
    exact h.numbered
  · rw [hstarted, hreports, ids]
    exact h.balance

theorem Ledger.start (h : Ledger replies s) {target program : Nat} {id : ThreadId}
    (hstart : s.start target program = .ok (id, s')) :
    id = ⟨s.nextId⟩ ∧ target < s.targets.size ∧ Ledger (replies ++ [.started id]) s' := by
  unfold Scheduler.start at hstart
  by_cases there : target < s.targets.size
  · simp only [there, if_true] at hstart
    cases hstart
    have hstarted : started (replies ++ [.started ⟨s.nextId⟩]) = started replies ++ [⟨s.nextId⟩] := by
      simp [started, Reply.started?]
    have hreports : reports (replies ++ [.started ⟨s.nextId⟩]) = reports replies := by
      simp [reports, Reply.report?]
    refine ⟨rfl, there, ⟨?_, ?_, ?_⟩, ?_, ?_, ?_⟩
    · simp only [Rising, Scheduler.ids, List.map_append, List.pairwise_append]
      refine ⟨h.settled.rising, List.pairwise_singleton _ _, ?_⟩
      intro id hid new hnew
      have mem : id ∈ started replies := h.balance.mem_iff.mpr (List.mem_append_left _ hid)
      cases List.mem_singleton.mp hnew
      exact h.number_lt mem
    · rw [List.forall_mem_append, List.forall_mem_singleton]
      exact ⟨h.settled.suspended, rfl⟩
    · rw [List.forall_mem_append, List.forall_mem_singleton]
      exact ⟨h.settled.placed, there⟩
    · rw [hstarted, List.length_append, List.length_singleton, h.nextId]
    · rw [hstarted, List.length_append, List.length_singleton, List.range_succ, List.map_append, ← h.numbered,
        h.nextId]
      rfl
    · rw [hstarted, hreports, Scheduler.ids, List.map_append]
      have moved := (h.balance.append_right [⟨s.nextId⟩])
      rw [List.append_assoc] at moved ⊢
      exact moved.trans (List.Perm.append_left _ List.perm_append_comm)
  · simp only [there, if_false] at hstart
    cases hstart

theorem Ledger.tick (h : Ledger replies s) {fuel : Nat} {report : Report}
    (htick : s.tick fuel = some (report, s')) : Ledger (replies ++ [.ticked report]) s' := by
  obtain ⟨ticked, settled⟩ := h.settled.tick htick
  have hstarted : started (replies ++ [.ticked report]) = started replies := by simp [started, Reply.started?]
  have hreports : reports (replies ++ [.ticked report]) = reports replies ++ [report] := by
    simp [reports, Reply.report?]
  refine ⟨settled, ?_, ?_, ?_⟩
  · rw [ticked.nextId, hstarted, h.nextId]
  · rw [hstarted]
    exact h.numbered
  · rw [hstarted, hreports, List.flatMap_append, List.flatMap_singleton]
    have moved := h.balance.trans (ticked.balance.append_right _)
    rw [List.append_assoc] at moved
    exact moved.trans (List.Perm.append_left _ List.perm_append_comm)

theorem Ledger.serve (h : Ledger replies s) {call : Call σ} {reply : Reply}
    (served : s.serve call = some (reply, s')) : Ledger (replies ++ [reply]) s' := by
  cases call with
  | addTarget target =>
    cases served
    refine h.idle rfl rfl ⟨h.settled.rising, h.settled.suspended, ?_⟩ rfl rfl
    intro task mem
    have placed := h.settled.placed task mem
    simp only [Scheduler.addTarget, Array.size_push]
    omega
  | load program | install devices =>
    cases served
    exact h.idle rfl rfl ⟨h.settled.rising, h.settled.suspended, h.settled.placed⟩ rfl rfl
  | start target program =>
    unfold Scheduler.serve at served
    simp only at served
    split at served
    · rename_i hstart
      cases served
      exact (h.start hstart).2.2
    · cases served
      exact h.idle rfl rfl h.settled rfl rfl
  | tick fuel =>
    obtain ⟨⟨report, s₁⟩, htick, hreply⟩ := Option.map_eq_some_iff.mp served
    cases hreply
    exact h.tick htick

theorem Ledger.serveAll {earlier : List Reply} (h : Ledger earlier s) {calls : List (Call σ)}
    (ran : s.serveAll calls = some (replies, s')) : Ledger (earlier ++ replies) s' := by
  induction calls generalizing earlier replies s with
  | nil =>
    cases ran
    rw [List.append_nil]
    exact h
  | cons call rest ih =>
    simp only [Scheduler.serveAll, Option.bind_eq_bind, Option.bind_eq_some_iff] at ran
    obtain ⟨⟨reply, s₁⟩, served, ⟨replies₁, s₂⟩, ran, hr⟩ := ran
    cases hr
    have first := h.serve served
    have all := ih first ran
    rw [List.append_assoc] at all
    exact all

end

theorem countP_retired {reports : List Report} (nodup : (reports.flatMap Report.retired).Nodup) (id : ThreadId) :
    reports.countP (id ∈ ·.retired) = (reports.flatMap Report.retired).count id := by
  induction reports with
  | nil => rfl
  | cons report rest ih =>
    rw [List.flatMap_cons] at nodup
    obtain ⟨first, later, -⟩ := List.nodup_append.mp nodup
    rw [List.countP_cons, ih later, List.flatMap_cons, List.count_append, first.count, Nat.add_comm]
    simp

end Scheduler

open Scheduler

/-- After any calls on a new scheduler: the threads started have the numbers from one on, in order, and a
start that is refused changes nothing. The active threads are in ascending order, suspended, and on
targets that are there, so every task that a tick comes to has one. A tick steps all of them, reports the
retired in ascending order and the failed among them, and leaves the others active in the order they had.
And of the threads started each one is active or in one report, and only one of the two. -/
theorem ledger_exact {σ : Type} (limit : Option Nat) (devices : Devices σ) (dice : Dice) (calls : List (Call σ))
    (replies : List Reply) (s : Scheduler σ)
    (ran : (Scheduler.new limit devices dice).serveAll calls = some (replies, s)) :
    (started replies = (List.range (started replies).length).map fun i => ⟨i + 1⟩) ∧
    (∀ target program reply s', s.serve (.start target program) = some (reply, s') →
      target < s.targets.size ∧ reply = .started ⟨(started replies).length + 1⟩ ∨
      s.targets.size ≤ target ∧ reply = .refused (.unknownTarget target) ∧ s' = s) ∧
    Rising s.ids ∧
    (∀ task ∈ s.tasks, task.thread.status = .suspended ∧ task.thread.target < s.targets.size) ∧
    (∀ fuel task left sweep, Sweeping fuel s (task :: left) sweep →
      ∃ target, sweep.state.targets[task.thread.target]? = some target) ∧
    (∀ fuel report s', s.tick fuel = some (report, s') →
      report.stepped = s.active ∧ Rising report.retired ∧ report.retired.Sublist s.ids ∧
      report.failed.Sublist report.retired ∧
      s'.tasks.map Task.post = (s.tasks.filter (·.thread.id ∉ report.retired)).map Task.post) ∧
    (∀ id, id ∈ started replies ↔ id ∈ s.ids ∨ ∃ report ∈ reports replies, id ∈ report.retired) ∧
    ∀ id ∈ started replies, (reports replies).countP (id ∈ ·.retired) = if id ∈ s.ids then 0 else 1 := by
  have ledger : Ledger replies s := (ledger_new limit devices dice).serveAll ran
  refine ⟨ledger.numbered, ?_, ledger.settled.rising, ?_, ?_, ?_, ?_, ?_⟩
  · intro target program reply s' served
    unfold Scheduler.serve at served
    simp only at served
    split at served
    · rename_i hstart
      cases served
      obtain ⟨rfl, there, -⟩ := ledger.start hstart
      rw [ledger.nextId]
      exact .inl ⟨there, rfl⟩
    · rename_i hstart
      cases served
      unfold Scheduler.start at hstart
      by_cases there : target < s.targets.size
      · simp [there] at hstart
      · simp only [there, if_false] at hstart
        cases hstart
        exact .inr ⟨Nat.le_of_not_lt there, rfl, rfl⟩
  · intro task mem
    exact ⟨ledger.settled.suspended task mem, ledger.settled.placed task mem⟩
  · intro fuel task left sweep h
    exact ledger.settled.exists_target h
  · intro fuel report s' htick
    obtain ⟨ticked, -⟩ := ledger.settled.tick htick
    exact ⟨ticked.stepped, ledger.settled.rising.sublist ticked.retired, ticked.retired, ticked.failed,
      ticked.posts⟩
  · intro id
    rw [ledger.balance.mem_iff, List.mem_append, List.mem_flatMap]
  · intro id mem
    have nodup : (s.ids ++ (reports replies).flatMap Report.retired).Nodup :=
      ledger.balance.nodup_iff.mp ledger.rising.nodup
    have once : (s.ids ++ (reports replies).flatMap Report.retired).count id = 1 :=
      List.count_eq_one_of_mem nodup (ledger.balance.mem_iff.mp mem)
    obtain ⟨active, retired, -⟩ := List.nodup_append.mp nodup
    rw [List.count_append, active.count] at once
    rw [countP_retired retired]
    by_cases ha : id ∈ s.ids
    · simp only [ha, if_true] at once ⊢
      omega
    · simp only [ha, if_false] at once ⊢
      omega

theorem ledger_exact_relay :
    let calls : List (Call Unit) := [.addTarget (.new ""), .load (relay false).program,
      .load ⟨⟨0⟩, #[.fragment [.jump ⟨7⟩]], #[]⟩, .start 0 0, .start 7 0, .start 0 1, .tick 5, .start 0 0, .tick 5]
    ∃ replies s, (Scheduler.new none World.bare.devices .first).serveAll calls = some (replies, s) ∧
      replies = [.number 0, .number 0, .number 1, .started ⟨1⟩, .refused (.unknownTarget 7), .started ⟨2⟩,
        .ticked ⟨2, [⟨2⟩], [⟨2⟩]⟩, .started ⟨3⟩, .ticked ⟨2, [⟨1⟩], []⟩] ∧
      s.ids = [⟨3⟩] ∧ Rising s.ids ∧
      ∀ id ∈ started replies, (reports replies).countP (id ∈ ·.retired) = if id ∈ s.ids then 0 else 1 := by
  intro calls
  have evaluated : ((Scheduler.new none World.bare.devices .first).serveAll calls).map (fun r => (r.1, r.2.ids)) =
      some ([.number 0, .number 0, .number 1, .started ⟨1⟩, .refused (.unknownTarget 7), .started ⟨2⟩,
        .ticked ⟨2, [⟨2⟩], [⟨2⟩]⟩, .started ⟨3⟩, .ticked ⟨2, [⟨1⟩], []⟩], [⟨3⟩]) := by
    decide +kernel
  obtain ⟨⟨replies, s⟩, ran, same⟩ := Option.map_eq_some_iff.mp evaluated
  obtain ⟨hreplies, hids⟩ := Prod.mk.inj same
  obtain ⟨-, -, rising, -, -, -, -, once⟩ := ledger_exact none World.bare.devices .first calls replies s ran
  exact ⟨replies, s, ran, hreplies, hids, rising, once⟩

end BlockScript
