import BlockScript.Proofs.LimitedSteps
import BlockScript.Session

/-!
# Runs in slices

A run until no thread is active makes the same ticks whether it is made at once or in slices, since all
that it goes by is the scheduler and how many ticks are left. A run that is capped by the tick counter goes
by the counter instead. It makes the same ticks too, for the counter moves by one in each of them
(`slices_add_up`). What a tick does is said without fuel here: a tick that ends, ends the same way with more
fuel (`Scheduler.tick_mono`).
-/

namespace BlockScript

open Machine Relation

/-! ## More fuel -/

theorem Machine.step_mono {σ : Type} {m : Machine σ} {limit : Option Nat} {fuel fuel' : Nat} (le : fuel ≤ fuel')
    (returns : (m.perform (step limit fuel)).1 ≠ .ok .unfinished) :
    m.perform (step limit fuel') = m.perform (step limit fuel) := by
  cases limit with
  | some k => rfl
  | none =>
    cases retired : m.thread.isRetired with
    | true => rw [perform_step_retired retired, perform_step_retired retired]
    | false =>
      cases stored : m.thread.fragment with
      | none => rw [perform_step_unstored retired stored, perform_step_unstored retired stored]
      | some entry =>
        rw [perform_step retired stored, ne_eq, conclude_unfinished, not_not] at returns
        have short := length_visits_le fuel entry m.running
        obtain ⟨-, same⟩ := visits_stable (b := fuel') returns (by simp only [Option.getD_none]; omega)
        rw [perform_step retired stored, perform_step retired stored]
        exact congrArg _ same

namespace Scheduler

variable {σ : Type}

section
variable {fuel fuel' : Nat} (le : fuel ≤ fuel')
include le

theorem stepTask_mono {sweep sweep' : Sweep σ} {task : Task} (h : stepTask fuel sweep task = some sweep') :
    stepTask fuel' sweep task = some sweep' := by
  cases there : sweep.state.targets[task.thread.target]? with
  | none => rwa [stepTask_lost there] at h ⊢
  | some target =>
    obtain ⟨r, m, ran, ends, -, rfl⟩ := exists_ran there h
    have same : (machine sweep task target).perform (step sweep.state.limit fuel') =
        (machine sweep task target).perform (step sweep.state.limit fuel) := step_mono le (by rwa [ran])
    rw [stepTask_there there (same.trans ran), if_neg ends]

theorem foldlM_mono {tasks : List Task} {sweep sweep' : Sweep σ}
    (h : tasks.foldlM (stepTask fuel) sweep = some sweep') : tasks.foldlM (stepTask fuel') sweep = some sweep' := by
  induction tasks generalizing sweep with
  | nil => exact h
  | cons task left ih =>
    rw [List.foldlM_cons, Option.bind_eq_bind, Option.bind_eq_some_iff] at h ⊢
    obtain ⟨sweep₁, first, rest⟩ := h
    exact ⟨sweep₁, stepTask_mono le first, ih rest⟩

theorem tick_mono {s s' : Scheduler σ} {report : Report} (h : s.tick fuel = some (report, s')) :
    s.tick fuel' = some (report, s') := by
  simp only [tick, Option.bind_eq_bind, Option.bind_eq_some_iff] at h ⊢
  obtain ⟨sweep, swept, ended⟩ := h
  exact ⟨sweep, foldlM_mono le swept, ended⟩

end

/-- The scheduler can be ticked, and so can whatever ticks make of it. -/
def TicksReturn (s : Scheduler σ) : Prop :=
  ∀ s', ReflTransGen (fun s s' => ∃ fuel report, s.tick fuel = some (report, s')) s s' →
    ∃ fuel report s'', s'.tick fuel = some (report, s'')

theorem TicksReturn.tick {s s' : Scheduler σ} (h : s.TicksReturn) {fuel : Nat} {report : Report}
    (ticked : s.tick fuel = some (report, s')) : s'.TicksReturn := by
  intro s'' later
  exact h s'' (.head ⟨fuel, report, ticked⟩ later)

theorem ticks_tick {s s' : Scheduler σ} {fuel : Nat} {report : Report} (h : s.tick fuel = some (report, s')) :
    s'.ticks = s.ticks + 1 := by
  obtain ⟨sweep, -, -, rfl⟩ := tick_sweeping h
  rfl

/-! ## Until no thread is active -/

section
variable {fuel : Nat} {s s' : Scheduler σ}

theorem runUntilIdle_idle (idle : s.tasks.isEmpty = true) (fuel most : Nat) :
    s.runUntilIdle fuel most = some (0, s) := by
  cases most with
  | zero => rfl
  | succ most => rw [runUntilIdle, if_pos idle]

theorem runUntilIdle_tick (busy : ¬ s.tasks.isEmpty = true) (fuel most : Nat) :
    s.runUntilIdle fuel (most + 1) =
      (s.tick fuel).bind fun ticked => (ticked.2.runUntilIdle fuel most).map fun r => (r.1 + 1, r.2) := by
  rw [runUntilIdle, if_neg busy]
  cases s.tick fuel with
  | none => rfl
  | some ticked => cases hr : ticked.2.runUntilIdle fuel most <;> simp [hr]

theorem runUntilIdle_add (fuel a b : Nat) (s : Scheduler σ) :
    s.runUntilIdle fuel (a + b) =
      (s.runUntilIdle fuel a).bind fun r => (r.2.runUntilIdle fuel b).map fun r' => (r.1 + r'.1, r'.2) := by
  induction a generalizing s with
  | zero =>
    rw [Nat.zero_add]
    cases hr : s.runUntilIdle fuel b <;> simp [runUntilIdle, hr]
  | succ a ih =>
    by_cases idle : s.tasks.isEmpty = true
    · simp [runUntilIdle_idle idle]
    · rw [Nat.succ_add_eq_add_succ, Nat.add_succ, runUntilIdle_tick idle, runUntilIdle_tick idle]
      cases s.tick fuel with
      | none => rfl
      | some ticked =>
        simp only [Option.bind_some, ih]
        cases ticked.2.runUntilIdle fuel a with
        | none => rfl
        | some r => cases hr : r.2.runUntilIdle fuel b <;> simp [hr, Nat.add_right_comm]

/-- A run stops early only where no thread is active, and counts what the tick counter counts. -/
theorem runUntilIdle_count {most count : Nat} (h : s.runUntilIdle fuel most = some (count, s')) :
    count ≤ most ∧ (count < most → s'.active = 0) ∧ s'.ticks = s.ticks + count := by
  induction most generalizing s count with
  | zero =>
    cases h
    exact ⟨Nat.le_refl 0, fun less => absurd less (Nat.lt_irrefl 0), rfl⟩
  | succ most ih =>
    by_cases idle : s.tasks.isEmpty = true
    · rw [runUntilIdle_idle idle] at h
      cases h
      exact ⟨Nat.zero_le _, fun _ => List.length_eq_zero_iff.mpr (List.isEmpty_iff.mp idle), rfl⟩
    · rw [runUntilIdle_tick idle, Option.bind_eq_some_iff] at h
      obtain ⟨⟨report, s₁⟩, ticked, rest⟩ := h
      obtain ⟨⟨later, s₂⟩, ran, ended⟩ := Option.map_eq_some_iff.mp rest
      simp only [Prod.mk.injEq] at ended
      obtain ⟨rfl, rfl⟩ := ended
      obtain ⟨most_le, stopped, counter⟩ : later ≤ most ∧ (later < most → s₂.active = 0) ∧
        s₂.ticks = s₁.ticks + later := ih ran
      have counted := ticks_tick ticked
      refine ⟨by omega, ?_, by omega⟩
      intro less
      exact stopped (by omega)

theorem TicksReturn.runUntilIdle (h : s.TicksReturn) (most : Nat) :
    ∃ count s' least, s'.TicksReturn ∧ ∀ fuel, least ≤ fuel → s.runUntilIdle fuel most = some (count, s') := by
  induction most generalizing s with
  | zero => exact ⟨0, s, 0, h, fun fuel _ => rfl⟩
  | succ most ih =>
    by_cases idle : s.tasks.isEmpty = true
    · exact ⟨0, s, 0, h, fun fuel _ => runUntilIdle_idle idle fuel _⟩
    · obtain ⟨fuel₀, report, s₁, ticked⟩ := h s .refl
      obtain ⟨count, s', least, returns, ran⟩ := ih (h.tick ticked)
      refine ⟨count + 1, s', max fuel₀ least, returns, ?_⟩
      intro fuel enough
      rw [runUntilIdle_tick idle, tick_mono (by omega) ticked, Option.bind_some, ran fuel (by omega)]
      rfl

end

/-! ## Up to a cap -/

theorem runCapped_over {s : Scheduler σ} {cap : Option Nat} (ends : s.isOver cap = true) (fuel rounds : Nat) :
    s.runCapped fuel cap rounds = some s := by
  cases rounds <;> simp [runCapped, runPrepared, ends]

theorem runCapped_tick {s : Scheduler σ} {cap : Option Nat} (goes : s.isOver cap = false) (fuel rounds : Nat) :
    s.runCapped fuel cap (rounds + 1) = (s.tick fuel).bind fun ticked => ticked.2.runCapped fuel cap rounds := by
  simp only [runCapped, runPrepared, goes, Bool.false_eq_true, if_false, pure_bind]
  cases s.tick fuel <;> rfl

theorem runUntilIdle_over {s : Scheduler σ} {cap : Nat} (ends : s.isOver (some cap) = true) (fuel : Nat) :
    s.runUntilIdle fuel (cap - s.ticks) = some (0, s) := by
  rw [isOver, Bool.or_eq_true] at ends
  rcases ends with idle | reached
  · exact runUntilIdle_idle idle fuel _
  · have reached : cap ≤ s.ticks := by simpa using reached
    rw [Nat.sub_eq_zero_of_le reached]
    rfl

/-- By then a run that the counter stops has been over. -/
theorem runCapped_eq {cap rounds : Nat} {s : Scheduler σ} (enough : cap ≤ s.ticks + rounds) (fuel : Nat) :
    s.runCapped fuel (some cap) rounds = (s.runUntilIdle fuel (cap - s.ticks)).map (·.2) := by
  induction rounds generalizing s with
  | zero =>
    have reached : cap ≤ s.ticks := enough
    have ends : s.isOver (some cap) = true := by simp [isOver, reached]
    rw [runCapped_over ends, runUntilIdle_over ends]
    rfl
  | succ rounds ih =>
    cases ends : s.isOver (some cap) with
    | true =>
      rw [runCapped_over ends, runUntilIdle_over ends]
      rfl
    | false =>
      obtain ⟨idle, reached⟩ : ¬ s.tasks.isEmpty = true ∧ s.ticks < cap := by simpa [isOver] using ends
      obtain ⟨left, hleft⟩ : ∃ left, cap - s.ticks = left + 1 := ⟨cap - s.ticks - 1, by omega⟩
      rw [runCapped_tick ends, hleft, runUntilIdle_tick idle]
      cases ticked : s.tick fuel with
      | none => rfl
      | some r =>
        obtain ⟨report, s₁⟩ := r
        -- the counter has moved on by the tick that the other run counts down
        have counted := ticks_tick ticked
        have rest := ih (s := s₁) (by omega)
        rw [show cap - s₁.ticks = left by omega] at rest
        simp [rest, Function.comp_def]

/-! ## Limited schedulers -/

theorem Sweeping.limit {s : Scheduler σ} {fuel : Nat} {left : List Task} {sweep : Sweep σ}
    (h : Sweeping fuel s left sweep) : sweep.state.limit = s.limit := by
  induction h with
  | begins => rfl
  | steps _ hstep ih =>
    obtain ⟨state, record, -, rfl, rfl | ⟨target, m, -, rfl⟩⟩ := exists_enter hstep
    · exact ih
    · exact ih

theorem ticksReturn_of_limit {s : Scheduler σ} {k : Nat} (limited : s.limit = some k) : s.TicksReturn := by
  intro s' ticks
  have limited' : s'.limit = some k := by
    induction ticks with
    | refl => exact limited
    | tail _ ticked ih =>
      obtain ⟨fuel, report, ticked⟩ := ticked
      obtain ⟨sweep, swept, -, rfl⟩ := tick_sweeping ticked
      exact swept.limit.trans ih
  obtain ⟨report, s'', ticked⟩ := tick_returns limited'
  exact ⟨0, report, s'', (ticked 0).1⟩

end Scheduler

theorem Session.exists_start {σ : Type} (settings : Settings) (program : Program) (devices : Devices σ)
    (dice : Dice) : ∃ s, Session.start settings program devices dice = .ok s ∧ s.ticks = 0 :=
  ⟨_, rfl, rfl⟩

/-- On a scheduler whose ticks end, a run of at most `a` ticks and then one of at most `b` ticks leave what a
run of at most `a + b` ticks leaves, and their counts add up to its count, with any fuel from some amount on. A
count is at most the cap, below it only if no thread is active any more, and what the tick counter has gone up
by. The loop of a run command under the cap `n` leaves what a run of at most `n` ticks leaves on the new
scheduler, and neither ends without the other. -/
theorem slices_add_up {σ : Type} :
    (∀ s : Scheduler σ, s.TicksReturn → ∀ a b, ∃ m n s₁ s₂ least, ∀ fuel, least ≤ fuel →
      s.runUntilIdle fuel a = some (m, s₁) ∧ s₁.runUntilIdle fuel b = some (n, s₂) ∧
      s.runUntilIdle fuel (a + b) = some (m + n, s₂)) ∧
    (∀ (s s' : Scheduler σ) fuel most count, s.runUntilIdle fuel most = some (count, s') →
      count ≤ most ∧ (count < most → s'.active = 0) ∧ s'.ticks = s.ticks + count) ∧
    ∀ settings program (devices : Devices σ) dice ticks n, Session.tickCap settings ticks = some n →
      ∃ s, Session.start settings program devices dice = .ok s ∧
        (∀ fuel rounds, n ≤ rounds →
          s.runCapped fuel (Session.tickCap settings ticks) rounds = (s.runUntilIdle fuel n).map (·.2)) ∧
        (s.TicksReturn → ∃ count s' least, ∀ fuel rounds, least ≤ fuel → n ≤ rounds →
          s.runUntilIdle fuel n = some (count, s') ∧
          s.runCapped fuel (Session.tickCap settings ticks) rounds = some s') := by
  refine ⟨?_, ?_, ?_⟩
  · intro s returns a b
    obtain ⟨m, s₁, least, returns₁, first⟩ := returns.runUntilIdle a
    obtain ⟨n, s₂, least', -, second⟩ := returns₁.runUntilIdle b
    refine ⟨m, n, s₁, s₂, max least least', fun fuel enough => ?_⟩
    have first := first fuel (by omega)
    have second := second fuel (by omega)
    refine ⟨first, second, ?_⟩
    rw [Scheduler.runUntilIdle_add, first, Option.bind_some, second]
    rfl
  · intro s s' fuel most count ran
    exact Scheduler.runUntilIdle_count ran
  · intro settings program devices dice ticks n cap
    obtain ⟨s, started, new⟩ := Session.exists_start settings program devices dice
    have capped (fuel rounds) (enough : n ≤ rounds) :
        s.runCapped fuel (some n) rounds = (s.runUntilIdle fuel n).map (·.2) := by
      have same := s.runCapped_eq (show n ≤ s.ticks + rounds by omega) fuel
      rwa [new] at same
    rw [cap]
    refine ⟨s, started, capped, ?_⟩
    intro returns
    obtain ⟨count, s', least, -, ran⟩ := returns.runUntilIdle n
    refine ⟨count, s', least, fun fuel rounds enough rounds_enough => ⟨ran fuel enough, ?_⟩⟩
    rw [capped fuel rounds rounds_enough, ran fuel enough]
    rfl

/-- The relay yields in its first tick and retires in the second, so that the second slice stops early. -/
theorem slices_add_up_relay :
    let s := { relayed with limit := some 2 }
    s.TicksReturn ∧
    (∃ m n s₁ s₂ least, ∀ fuel, least ≤ fuel →
      s.runUntilIdle fuel 1 = some (m, s₁) ∧ s₁.runUntilIdle fuel 4 = some (n, s₂) ∧
      s.runUntilIdle fuel 5 = some (m + n, s₂)) ∧
    (∃ s', s.runUntilIdle 0 5 = some (2, s') ∧ s'.active = 0 ∧ s'.ticks = 2) ∧
    Session.tickCap { scheduler.maxTicks := some 1 } none = some 1 ∧
    ∃ s', Session.start { scheduler.maxTicks := some 1 } (relay false).program World.bare.devices .first = .ok s' ∧
      s'.runCapped 5 (some 1) 1 = (s'.runUntilIdle 5 1).map (·.2) ∧
      (s'.runUntilIdle 5 1).map (·.1) = some 1 := by
  intro s
  have returns : s.TicksReturn := Scheduler.ticksReturn_of_limit rfl
  have evaluated : (s.runUntilIdle 0 5).map (·.1) = some 2 := by decide +kernel
  obtain ⟨⟨count, s'⟩, ran, rfl⟩ := Option.map_eq_some_iff.mp evaluated
  obtain ⟨-, stopped, counter⟩ := slices_add_up.2.1 s s' 0 5 2 ran
  obtain ⟨new, started, capped, -⟩ := slices_add_up.2.2 { scheduler.maxTicks := some 1 } (relay false).program
    World.bare.devices .first none 1 rfl
  cases started
  exact ⟨returns, slices_add_up.1 s returns 1 4, ⟨s', ran, stopped (by decide), counter⟩, rfl, _, rfl,
    capped 5 1 (Nat.le_refl 1), by decide +kernel⟩

end BlockScript
