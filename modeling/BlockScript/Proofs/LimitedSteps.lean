import BlockScript.Proofs.Ledger
import Mathlib.Data.List.Forall2

/-!
# Steps with a limit return

A step runs a label, and as long as that leaves a label pending, one more transfer is counted and the
label is run in turn, or stored if the count is over the limit (`Machine.Runs`). There is no fuel in
this, and without a limit it may go on for ever. With a limit there is one way in which it ends, and
`step` ends that way whatever its fuel is. The step runs at most one label more than the limit; if it
stops because of the limit, the labels of the next step carry on where it has stopped. So a tick ends
too (`limited_steps_return`).
-/

namespace BlockScript

open Machine

namespace Machine

variable {σ : Type}

/-- A step that has counted `taken` transfers runs a label: the visits from there on, and how it ends. -/
inductive Runs (limit : Option Nat) :
    Nat → Label → Machine σ → List (Visit σ) → Except Fault Outcome × Machine σ → Prop
  | fails {taken : Nat} {label : Label} {m : Machine σ} {f : Fault} :
      (m.fresh.visit label).result = .error f →
      Runs limit taken label m [m.fresh.visit label] (.error f, (m.fresh.visit label).after)
  | rests {taken : Nat} {label : Label} {m : Machine σ} {flow : Flow} :
      (m.fresh.visit label).result = .ok flow → (m.fresh.visit label).after.pending = none →
      Runs limit taken label m [m.fresh.visit label] ((m.fresh.visit label).after.perform settle)
  | holds {taken k : Nat} {label next : Label} {m : Machine σ} :
      (m.fresh.visit label).next? = some next → limit = some k → k < taken + 1 →
      Runs limit taken label m [m.fresh.visit label]
        (((m.fresh.visit label).after.fresh.withFragment (some next)).perform settle)
  | turns {taken : Nat} {label next : Label} {m : Machine σ} {ran : List (Visit σ)}
      {run : Except Fault Outcome × Machine σ} :
      (m.fresh.visit label).next? = some next → (∀ k, limit = some k → taken + 1 ≤ k) →
      Runs limit (taken + 1) next (m.fresh.visit label).after ran run →
      Runs limit taken label m (m.fresh.visit label :: ran) run

/-- A step: the labels that it runs, and how it ends. -/
inductive Steps (limit : Option Nat) : Machine σ → List (Visit σ) → Except Fault Outcome × Machine σ → Prop
  | retired {m : Machine σ} : m.thread.isRetired = true → Steps limit m [] (.ok .retired, m)
  | unstored {m : Machine σ} : m.thread.isRetired = false → m.thread.fragment = none →
      Steps limit m [] (.ok .retired, m.ended)
  | runs {m : Machine σ} {entry : Label} {ran : List (Visit σ)} {run : Except Fault Outcome × Machine σ} :
      m.thread.isRetired = false → m.thread.fragment = some entry → Runs limit 0 entry m.running ran run →
      Steps limit m ran run

/-! ## One way to go -/

section
variable {limit : Option Nat} {taken : Nat} {label : Label} {m : Machine σ} {ran ran' : List (Visit σ)}
  {run run' : Except Fault Outcome × Machine σ}

theorem Runs.unique (h : Runs limit taken label m ran run) (h' : Runs limit taken label m ran' run') :
    ran' = ran ∧ run' = run := by
  induction h generalizing ran' run' with
  | fails hr => cases h' <;> grind [Visit.next?]
  | rests hr hp => cases h' <;> grind [Visit.next?]
  | holds hn hk past => cases h' <;> grind [Visit.next?]
  | turns hn below _ ih =>
    cases h' with
    | turns hn' _ h' =>
      rw [hn] at hn'
      cases hn'
      obtain ⟨rfl, rfl⟩ := ih h'
      exact ⟨rfl, rfl⟩
    | fails | rests | holds => grind [Visit.next?]

theorem Steps.unique (h : Steps limit m ran run) (h' : Steps limit m ran' run') : ran' = ran ∧ run' = run := by
  cases h with
  | retired hr => cases h' <;> simp_all
  | unstored live hf => cases h' <;> simp_all
  | runs live hf h =>
    cases h' with
    | retired hr => simp [live] at hr
    | unstored _ hf' => simp [hf] at hf'
    | runs _ hf' h' =>
      rw [hf] at hf'
      cases hf'
      exact h.unique h'

end

/-! ## The way that a step goes -/

section
variable {limit : Option Nat} {label : Label} {m : Machine σ}

theorem runs_of_next?_none (h : (m.fresh.visit label).next? = none) (limit : Option Nat) (taken : Nat) :
    Runs limit taken label m [m.fresh.visit label] (conclude limit (m.fresh.visit label)) := by
  rw [conclude_of_next?_none h, conclude]
  cases hr : (m.fresh.visit label).result with
  | error f => exact .fails hr
  | ok flow =>
    have hp : (m.fresh.visit label).after.pending = none := by rwa [Visit.next?, hr] at h
    simp only [leave, hp]
    exact .rests hr hp

theorem runs_visits (n : Nat) {taken : Nat} (counted : ∀ k, limit = some k → taken + n = k)
    (returns : limit = none → (final n label m).next? = none) :
    Runs limit taken label m (visits n label m) (conclude limit (final n label m)) := by
  -- the count goes up as `n` goes down, so that it is over the limit where no visit is left
  induction n generalizing taken label m with
  | zero =>
    cases hn : (m.fresh.visit label).next? with
    | none => exact runs_of_next?_none hn limit taken
    | some next =>
      cases limit with
      | none =>
        rw [final, hn] at returns
        cases returns rfl
      | some k =>
        have hk := counted k rfl
        rw [final, conclude_stored hn]
        exact .holds hn rfl (by omega)
  | succ n ih =>
    cases hn : (m.fresh.visit label).next? with
    | none =>
      rw [visits_none hn, final_none hn]
      exact runs_of_next?_none hn limit taken
    | some next =>
      rw [final_some hn] at returns
      rw [visits_some hn, final_some hn]
      refine .turns hn ?_ (ih ?_ returns)
      · intro k hk
        have := counted k hk
        omega
      · intro k hk
        have := counted k hk
        omega

/-- A step runs the stored label of a live thread, or else no label at all, and then no limit matters. -/
theorem steps_or_stored (m : Machine σ) :
    (∀ limit limit' fuel, Steps limit' m (m.stepVisits limit fuel) (m.perform (step limit fuel))) ∨
      ∃ entry, m.thread.isRetired = false ∧ m.thread.fragment = some entry := by
  cases hr : m.thread.isRetired with
  | true =>
    refine .inl fun limit limit' fuel => ?_
    rw [show m.stepVisits limit fuel = [] by simp [stepVisits, hr], perform_step_retired hr]
    exact .retired hr
  | false =>
    cases hf : m.thread.fragment with
    | none =>
      refine .inl fun limit limit' fuel => ?_
      rw [show m.stepVisits limit fuel = [] by simp [stepVisits, hf], perform_step_unstored hr hf]
      exact .unstored hr hf
    | some entry => exact .inr ⟨entry, rfl, rfl⟩

theorem steps_step {fuel : Nat} (returns : (m.perform (step limit fuel)).1 ≠ .ok .unfinished) :
    Steps limit m (m.stepVisits limit fuel) (m.perform (step limit fuel)) := by
  obtain h | ⟨entry, live, stored⟩ := steps_or_stored m
  · exact h limit limit fuel
  · rw [perform_step live stored] at returns
    rw [stepVisits_eq live stored, perform_step live stored]
    refine .runs live stored (runs_visits _ ?_ ?_)
    · rintro k rfl
      simp
    · rintro rfl
      rwa [ne_eq, conclude_unfinished, not_not] at returns

end

/-! ## Where a limit stops -/

theorem visits_withFragment (n : Nat) (label : Label) (m : Machine σ) (f : Option Label) :
    List.Forall₂ Visit.SameButStored (visits n label m) (visits n label (m.withFragment f)) := by
  induction n generalizing label m f with
  | zero => exact .cons (visit_withFragment m.fresh f label) .nil
  | succ n ih =>
    have hv : (m.fresh.visit label).SameButStored ((m.withFragment f).fresh.visit label) :=
      visit_withFragment m.fresh f label
    have hn := hv.next?_eq
    cases h : (m.fresh.visit label).next? with
    | none =>
      rw [h] at hn
      rw [visits_none h, visits_none hn]
      exact .cons hv .nil
    | some next =>
      obtain ⟨g, hg, -⟩ := hv.after
      rw [h] at hn
      rw [visits_some h, visits_some hn, hg]
      exact .cons hv (ih next _ g)

/-- How a step ends that the limit `k` has stopped after the visits `ran`. The last of them has left a
label, which the next step begins with: its labels follow on those of this one as they do when there is
no limit. -/
structure Stopped (k : Nat) (m : Machine σ) (ran : List (Visit σ)) (run : Except Fault Outcome × Machine σ) :
    Prop where
  length : ran.length = k + 1
  outcome : run.1 = .ok .suspended
  stored : ∃ v next, ran.getLast? = some v ∧ v.next? = some next ∧ run.2.thread.fragment = some next
  idle : run.2.pending = none
  continues : ∀ j fuel, List.Forall₂ Visit.SameButStored (m.stepVisits none (k + 1 + j))
    (ran ++ run.2.stepVisits (some j) fuel)

theorem Runs.last_next? {taken : Nat} {label : Label} {m : Machine σ} {ran : List (Visit σ)}
    {run : Except Fault Outcome × Machine σ} (h : Runs none taken label m ran run) :
    ∃ v, ran.getLast? = some v ∧ v.next? = none := by
  induction h with
  | fails hr => exact ⟨_, List.getLast?_singleton, by rw [Visit.next?, hr]⟩
  | rests hr hp => exact ⟨_, List.getLast?_singleton, by rw [Visit.next?, hr, hp]⟩
  | holds _ hk _ => cases hk
  | turns _ _ _ ih =>
    obtain ⟨v, hv, hn⟩ := ih
    refine ⟨v, ?_, hn⟩
    rw [List.getLast?_cons, hv]
    rfl

theorem Stopped.not_steps {k : Nat} {m : Machine σ} {ran : List (Visit σ)} {run : Except Fault Outcome × Machine σ}
    (stopped : Stopped k m ran run) : ¬ Steps none m ran run := by
  obtain ⟨v, next, hv, hn, -⟩ := stopped.stored
  intro h
  cases h with
  | retired _ => cases hv
  | unstored _ _ => cases hv
  | runs _ _ h =>
    obtain ⟨v', hv', hn'⟩ := h.last_next?
    rw [hv] at hv'
    cases hv'
    rw [hn] at hn'
    cases hn'

theorem steps_or_stopped (m : Machine σ) (k fuel : Nat) :
    Steps none m (m.stepVisits (some k) fuel) (m.perform (step (some k) fuel)) ∨
      Stopped k m (m.stepVisits (some k) fuel) (m.perform (step (some k) fuel)) := by
  obtain h | ⟨entry, live, stored⟩ := steps_or_stored m
  · exact .inl (h (some k) none fuel)
  · rw [stepVisits_eq live stored, perform_step live stored, Option.getD_some]
    cases hn : (final k entry m.running).next? with
    | none =>
      rw [conclude_of_next?_none hn]
      exact .inl (.runs live stored (runs_visits k (fun _ h => by cases h) fun _ => hn))
    | some next =>
      have status : (final k entry m.running).after.thread.status = .running := final_status hn
      rw [conclude_of_next?_some hn (isRetired_of_running status)]
      obtain ⟨-, -, length⟩ := visits_add hn 0
      refine .inr ⟨length, rfl, ⟨_, next, getLast?_visits k entry m.running, hn, rfl⟩, rfl, fun j fuel' => ?_⟩
      rw [stepVisits_eq live stored, Option.getD_none, (visits_add hn j).1, stepVisits_eq rfl rfl,
        running_suspended (by exact status), visits_fresh]
      -- here the next step has a stored label that the unlimited one has not, and visits do not read it
      have rest := visits_withFragment j next (final k entry m.running).after.fresh (some next)
      rw [visits_fresh] at rest
      exact List.rel_append (List.forall₂_same.mpr fun v _ => .refl v) rest

theorem length_stepVisits_le (m : Machine σ) (k fuel : Nat) : (m.stepVisits (some k) fuel).length ≤ k + 1 := by
  unfold stepVisits
  split
  · simp
  · split
    · simp
    · exact length_visits_le k _ m.running

end Machine

/-! ## Ticks -/

namespace Scheduler

variable {σ : Type}

def taskVisits (fuel : Nat) (sweep : Sweep σ) (task : Task) : List (Visit σ) :=
  match sweep.state.targets[task.thread.target]? with
  | none => []
  | some target => (machine sweep task target).stepVisits sweep.state.limit fuel

def sweepVisits (fuel : Nat) : List Task → Sweep σ → List (Visit σ)
  | [], _ => []
  | task :: left, sweep =>
    match stepTask fuel sweep task with
    | none => taskVisits fuel sweep task
    | some sweep' => taskVisits fuel sweep task ++ sweepVisits fuel left sweep'

/-- The labels that are run in a tick, in order. -/
def tickVisits (fuel : Nat) (s : Scheduler σ) : List (Visit σ) :=
  sweepVisits fuel s.tasks ⟨s, ⟨0, [], []⟩, []⟩

section
variable {k : Nat} {sweep : Sweep σ}

theorem length_taskVisits_le (limited : sweep.state.limit = some k) (fuel : Nat) (task : Task) :
    (taskVisits fuel sweep task).length ≤ k + 1 := by
  unfold taskVisits
  split
  · simp
  · rw [limited]
    exact length_stepVisits_le _ k fuel

theorem stepTask_limited (limited : sweep.state.limit = some k) (task : Task) :
    ∃ sweep', sweep'.state.limit = some k ∧ ∀ fuel, stepTask fuel sweep task = some sweep' := by
  obtain ⟨sweep', stepped⟩ := exists_stepTask (sweep.state.limit.ne_none_iff_exists'.mpr ⟨k, limited⟩) 0 task
  refine ⟨sweep', ?_, fun fuel => ?_⟩
  · obtain ⟨state, record, -, rfl, rfl | ⟨target, m, -, rfl⟩⟩ := exists_enter stepped
    · exact limited
    · exact limited
  · rw [← stepped]
    unfold stepTask
    simp only [limited]
    rfl

theorem exists_sweep (tasks : List Task) (limited : sweep.state.limit = some k) :
    ∃ sweep', ∀ fuel, tasks.foldlM (stepTask fuel) sweep = some sweep' ∧
      (sweepVisits fuel tasks sweep).length ≤ (k + 1) * tasks.length := by
  induction tasks generalizing sweep with
  | nil => exact ⟨sweep, fun fuel => ⟨rfl, Nat.zero_le _⟩⟩
  | cons task left ih =>
    obtain ⟨sweep₁, limited₁, stepped⟩ := stepTask_limited limited task
    obtain ⟨sweep', rest⟩ := ih limited₁
    refine ⟨sweep', fun fuel => ⟨?_, ?_⟩⟩
    · rw [List.foldlM_cons, stepped fuel]
      exact (rest fuel).1
    · have first := length_taskVisits_le limited fuel task
      have later := (rest fuel).2
      rw [sweepVisits, stepped fuel, List.length_append, List.length_cons, Nat.mul_succ]
      omega

end

theorem tick_returns {k : Nat} {s : Scheduler σ} (limited : s.limit = some k) :
    ∃ report s', ∀ fuel, s.tick fuel = some (report, s') ∧ (s.tickVisits fuel).length ≤ (k + 1) * s.active := by
  have begun : (⟨s, ⟨0, [], []⟩, []⟩ : Sweep σ).state.limit = some k := limited
  obtain ⟨sweep, swept⟩ := exists_sweep s.tasks begun
  refine ⟨sweep.report, { sweep.state with
    tasks := sweep.done.reverse.filter (!·.thread.isRetired), ticks := s.ticks + 1 },
      fun fuel => ⟨?_, (swept fuel).2⟩⟩
  rw [tick, (swept fuel).1]
  rfl

end Scheduler

/-- Under the limit `k` every step returns, in one way only and whatever its fuel is. It runs at most
`k + 1` labels, and at least one if the thread is live and has a stored label. The step is as without a
limit, or else it is stopped after exactly `k + 1` labels. A tick of a scheduler with that limit returns
after at most `k + 1` labels for each active thread. -/
theorem limited_steps_return {σ : Type} (k : Nat) :
    (∀ m : Machine σ, ∃ ran run, Steps (some k) m ran run ∧
      (∀ ran' run', Steps (some k) m ran' run' → ran' = ran ∧ run' = run) ∧
      (∀ fuel, m.stepVisits (some k) fuel = ran ∧ m.perform (step (some k) fuel) = run) ∧
      run.1 ≠ .ok .unfinished ∧ ran.length ≤ k + 1 ∧
      (m.thread.isRetired = false → m.thread.fragment ≠ none → 1 ≤ ran.length) ∧
      (Stopped k m ran run ↔ ¬ Steps none m ran run)) ∧
    ∀ s : Scheduler σ, s.limit = some k → ∃ report s', ∀ fuel,
      s.tick fuel = some (report, s') ∧ (s.tickVisits fuel).length ≤ (k + 1) * s.active := by
  refine ⟨?_, ?_⟩
  · intro m
    have ends := step_ends m (Option.some_ne_none k) 0
    refine ⟨_, _, steps_step ends, fun _ _ h => (steps_step ends).unique h, fun fuel => ⟨rfl, rfl⟩, ends,
      length_stepVisits_le m k 0, ?_, Stopped.not_steps, (steps_or_stopped m k 0).resolve_left⟩
    intro live stored
    obtain ⟨entry, stored⟩ := Option.ne_none_iff_exists'.mp stored
    rw [stepVisits_eq live stored]
    exact length_visits_pos k entry m.running
  · intro s limited
    exact Scheduler.tick_returns limited

/-- A thread at a label that jumps to itself. -/
def spin : Machine Unit :=
  start ⟨⟨0⟩, #[.fragment [.jump ⟨0⟩]], #[]⟩ ⟨#[some [.jump ⟨0⟩]]⟩ ⟨1⟩ 0 .bare []

theorem visit_spin :
    spin.running.visit ⟨0⟩ =
      ⟨⟨0⟩, spin.running, [.jump ⟨0⟩], .ok .transferred, { spin.running with pending := some ⟨0⟩ }⟩ := by
  have found : spin.running.perform (block ⟨0⟩) = (.ok [.jump ⟨0⟩], spin.running) := by
    rw [perform_block, Program.block, Program.run_resolve]
    rfl
  rw [visit, found]
  rfl

theorem not_runs_spin {taken : Nat} {label : Label} {m : Machine Unit} {ran : List (Visit Unit)}
    {run : Except Fault Outcome × Machine Unit} (h : Runs none taken label m ran run) :
    label = ⟨0⟩ → m.fresh ≠ spin.running := by
  induction h with
  | fails hr =>
    rintro rfl hm
    rw [hm, visit_spin] at hr
    cases hr
  | rests hr hp =>
    rintro rfl hm
    rw [hm, visit_spin] at hp
    cases hp
  | holds _ hk _ => cases hk
  | turns hn _ _ ih =>
    -- the label is left pending again, on the machine that it was run on
    rintro rfl hm
    rw [hm, visit_spin] at hn ih
    cases hn
    exact ih rfl rfl

theorem not_steps_spin {ran : List (Visit Unit)} {run : Except Fault Outcome × Machine Unit} :
    ¬ Steps none spin ran run := by
  intro h
  cases h with
  | retired hr => cases hr
  | unstored _ hf => cases hf
  | runs _ hf h =>
    cases hf
    exact not_runs_spin h rfl rfl

theorem limited_steps_return_spin :
    (∀ ran run, ¬ Steps none spin ran run) ∧
      (∃ ran run, Steps (some 2) spin ran run ∧ Stopped 2 spin ran run) ∧
      ∃ report s', { relayed with limit := some 2 }.tick 0 = some (report, s') ∧
        (Scheduler.tickVisits 0 { relayed with limit := some 2 }).length ≤ 3 := by
  refine ⟨fun _ _ => not_steps_spin, ?_, ?_⟩
  · obtain ⟨ran, run, steps, -, -, -, -, -, stopped⟩ := (limited_steps_return 2).1 spin
    exact ⟨ran, run, steps, stopped.mpr not_steps_spin⟩
  · obtain ⟨report, s', ticked⟩ := (limited_steps_return 2).2 { relayed with limit := some 2 } rfl
    exact ⟨report, s', ticked 0⟩

end BlockScript
