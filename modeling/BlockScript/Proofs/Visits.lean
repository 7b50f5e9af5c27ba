import BlockScript.Machine.Step
import BlockScript.Proofs.Yielding

/-!
# The labels that a step runs

A step runs its stored label and then one pending label after the other. Each of them is a visit:
the label, its block, how the block ended and the machine it left. What a step answers depends on
its last visit alone (`perform_step`), and a longer sequence of visits is a shorter one followed by
the visits that start at the label left over (`visits_add`).
-/

namespace BlockScript

open Machine

/-- One label that is run in the course of a step. -/
structure Visit (σ : Type) where
  label : Label
  /-- The machine once the block has been looked up. -/
  found : Machine σ
  /-- Empty when there is no block to find. -/
  body : Block
  result : Except Fault Flow
  after : Machine σ

namespace Visit

variable {σ : Type}

def next? (v : Visit σ) : Option Label :=
  match v.result with
  | .ok _ => v.after.pending
  | .error _ => none

def FellOff (v : Visit σ) : Prop := v.result = .ok .next

def Yielded (v : Visit σ) : Prop := v.found.Yields v.body

def Retired (v : Visit σ) : Prop := v.found.Retires v.body

end Visit

namespace Machine

variable {σ : Type}

def visit (m : Machine σ) (label : Label) : Visit σ :=
  match m.perform (block label) with
  | (.ok body, found) =>
    ⟨label, found, body, (found.perform (execBlock body)).1, (found.perform (execBlock body)).2⟩
  | (.error f, found) => ⟨label, found, [], .error f, found⟩

theorem perform_runLabel (m : Machine σ) (label : Label) :
    m.perform (runLabel label) = ((m.visit label).result.map fun _ => (), (m.visit label).after) := by
  unfold runLabel visit
  rw [perform_bind]
  rcases m.perform (block label) with ⟨f | body, found⟩
  · rfl
  · simp only
    rw [perform_bind]
    rcases found.perform (execBlock body) with ⟨_ | _, m'⟩ <;> rfl

/-- Runs a label and then pending ones, `n` of them at most. -/
def visits : Nat → Label → Machine σ → List (Visit σ)
  | 0, label, m => [m.fresh.visit label]
  | n + 1, label, m =>
    match (m.fresh.visit label).next? with
    | none => [m.fresh.visit label]
    | some next => m.fresh.visit label :: visits n next (m.fresh.visit label).after

def final : Nat → Label → Machine σ → Visit σ
  | 0, label, m => m.fresh.visit label
  | n + 1, label, m =>
    match (m.fresh.visit label).next? with
    | none => m.fresh.visit label
    | some next => final n next (m.fresh.visit label).after

section
variable {n : Nat} {label next : Label} {m : Machine σ}

theorem visits_none (h : (m.fresh.visit label).next? = none) (n : Nat) :
    visits n label m = [m.fresh.visit label] := by
  cases n with
  | zero => rfl
  | succ n => rw [visits, h]

theorem visits_some (h : (m.fresh.visit label).next? = some next) (n : Nat) :
    visits (n + 1) label m = m.fresh.visit label :: visits n next (m.fresh.visit label).after := by
  rw [visits, h]

theorem final_none (h : (m.fresh.visit label).next? = none) (n : Nat) :
    final n label m = m.fresh.visit label := by
  cases n with
  | zero => rfl
  | succ n => rw [final, h]

theorem final_some (h : (m.fresh.visit label).next? = some next) (n : Nat) :
    final (n + 1) label m = final n next (m.fresh.visit label).after := by
  rw [final, h]

end

theorem visits_ne_nil (n : Nat) (label : Label) (m : Machine σ) : visits n label m ≠ [] := by
  cases n with
  | zero => simp [visits]
  | succ n =>
    cases h : (m.fresh.visit label).next? with
    | none => simp [visits_none h]
    | some next => simp [visits_some h]

theorem getLast?_visits (n : Nat) (label : Label) (m : Machine σ) :
    (visits n label m).getLast? = some (final n label m) := by
  induction n generalizing label m with
  | zero => rfl
  | succ n ih =>
    cases h : (m.fresh.visit label).next? with
    | none => rw [visits_none h, final_none h]; rfl
    | some next =>
      obtain ⟨v, vs, hv⟩ := List.exists_cons_of_ne_nil (visits_ne_nil n next (m.fresh.visit label).after)
      rw [visits_some h, final_some h, ← ih, hv, List.getLast?_cons_cons]

/-! ## Steps in terms of visits -/

theorem perform_runLabel_drain (n : Nat) (label : Label) (m : Machine σ) :
    m.fresh.perform (runLabel label >>= fun _ => drain n) =
      ((final n label m).result.map fun _ => (), (final n label m).after) := by
  induction n generalizing label m with
  | zero =>
    rw [perform_bind, perform_runLabel]
    cases hr : (m.fresh.visit label).result <;> simp [final, hr, drain, Except.map]
  | succ n ih =>
    rw [perform_bind, perform_runLabel]
    cases hr : (m.fresh.visit label).result with
    | error f =>
      have hn : (m.fresh.visit label).next? = none := by rw [Visit.next?, hr]
      rw [final_none hn, hr]
      rfl
    | ok flow =>
      have hn : (m.fresh.visit label).next? = (m.fresh.visit label).after.pending := by rw [Visit.next?, hr]
      simp only [Except.map]
      rw [drain, perform_bind_ok (perform_get _)]
      cases hp : (m.fresh.visit label).after.pending with
      | none => rw [final_none (hn.trans hp), hr]; rfl
      | some next =>
        simp only
        rw [final_some (hn.trans hp), perform_bind_ok (perform_setPending _ _)]
        exact ih next (m.fresh.visit label).after

def running (m : Machine σ) : Machine σ :=
  { m with thread.status := .running, pending := none }

theorem isRetired_of_running {t : Thread} (h : t.status = .running) : t.isRetired = false := by
  rw [Thread.isRetired, h]
  rfl

def suspended (m : Machine σ) : Machine σ := { m with thread.status := .suspended }

theorem perform_settle (m : Machine σ) :
    m.perform settle = if m.thread.isRetired then (.ok .retired, m) else (.ok .suspended, m.suspended) := by
  unfold settle
  rw [perform_bind_ok (perform_get m)]
  split <;> rfl

/-- How a step ends once its loop is over. A label that is left over is stored if there is a limit;
without a limit the fuel is used up. -/
def leave (limit : Option Nat) (m : Machine σ) : Except Fault Outcome × Machine σ :=
  match m.pending, limit with
  | none, _ => m.perform settle
  | some label, some _ => (m.fresh.withFragment (some label)).perform settle
  | some _, none => (.ok .unfinished, m)

def conclude (limit : Option Nat) (v : Visit σ) : Except Fault Outcome × Machine σ :=
  match v.result with
  | .error f => (.error f, v.after)
  | .ok _ => v.after.leave limit

theorem perform_afterFirst (limit : Option Nat) (fuel : Nat) (m : Machine σ) :
    m.perform (afterFirst limit fuel) =
      match m.perform (drain (limit.getD fuel)) with
      | (.ok _, m') => m'.leave limit
      | (.error f, m') => (.error f, m') := by
  unfold afterFirst
  rw [perform_bind]
  rcases m.perform (drain (limit.getD fuel)) with ⟨f | _, m'⟩
  · rfl
  · simp only
    rw [perform_bind_ok (perform_get m')]
    unfold leave
    cases m'.pending with
    | none => rfl
    | some label => cases limit <;> rfl

theorem perform_step {m : Machine σ} {entry : Label} (live : m.thread.isRetired = false)
    (stored : m.thread.fragment = some entry) (limit : Option Nat) (fuel : Nat) :
    m.perform (step limit fuel) = conclude limit (final (limit.getD fuel) entry m.running) := by
  have hl := perform_runLabel_drain (limit.getD fuel) entry m.running
  unfold step
  rw [perform_bind_ok (perform_get m), live, stored]
  simp only [Bool.false_eq_true, if_false]
  rw [perform_bind_ok (perform_modifyThread m _), perform_bind_ok (perform_setPending _ _)]
  show m.running.fresh.perform (runLabel entry >>= fun _ => afterFirst limit fuel) = _
  rw [perform_bind] at hl ⊢
  unfold conclude
  rcases hx : m.running.fresh.perform (runLabel entry) with ⟨f | _, m₁⟩ <;> rw [hx] at hl <;> simp only at hl ⊢
  · cases hr : (final (limit.getD fuel) entry m.running).result with
    | error g =>
      rw [hr] at hl
      cases hl
      rfl
    | ok flow =>
      rw [hr] at hl
      cases hl
  · rw [perform_afterFirst, hl]
    cases (final (limit.getD fuel) entry m.running).result <;> rfl

theorem perform_step_fresh {m : Machine σ} {entry : Label} (live : m.thread.isRetired = false)
    (stored : m.thread.fragment = some entry) (limit : Option Nat) (fuel : Nat) :
    m.fresh.perform (step limit fuel) = conclude limit (final (limit.getD fuel) entry m.running) :=
  perform_step (m := m.fresh) live stored limit fuel

/-- The labels that a step runs, in order. -/
def stepVisits (limit : Option Nat) (fuel : Nat) (m : Machine σ) : List (Visit σ) :=
  if m.thread.isRetired then []
  else
    match m.thread.fragment with
    | none => []
    | some entry => visits (limit.getD fuel) entry m.running

theorem stepVisits_eq {m : Machine σ} {entry : Label} (live : m.thread.isRetired = false)
    (stored : m.thread.fragment = some entry) (limit : Option Nat) (fuel : Nat) :
    stepVisits limit fuel m = visits (limit.getD fuel) entry m.running := by
  unfold stepVisits
  rw [live, stored]
  rfl

/-! ## Long and short sequences -/

theorem visits_fresh (n : Nat) (label : Label) (m : Machine σ) : visits n label m.fresh = visits n label m := by
  cases n <;> rfl

theorem final_fresh (n : Nat) (label : Label) (m : Machine σ) : final n label m.fresh = final n label m := by
  cases n <;> rfl

/-- From a machine that has nothing pending, a visit that leaves a label takes the run on from there. -/
theorem final_turn {m : Machine σ} {label next : Label} {v : Visit σ} (visited : m.visit label = v)
    (idle : m.fresh = m) (left : v.next? = some next) (n : Nat) :
    final (n + 1) label m = final n next v.after.fresh := by
  subst visited
  rw [← idle] at left
  rw [final_some left, idle, final_fresh]

theorem length_visits_le (n : Nat) (label : Label) (m : Machine σ) : (visits n label m).length ≤ n + 1 := by
  induction n generalizing label m with
  | zero => exact Nat.le_refl 1
  | succ n ih =>
    cases h : (m.fresh.visit label).next? with
    | none => rw [visits_none h]; simp
    | some next =>
      have := ih next (m.fresh.visit label).after
      rw [visits_some h, List.length_cons]
      omega

theorem length_visits_pos (n : Nat) (label : Label) (m : Machine σ) : 0 < (visits n label m).length :=
  List.length_pos_iff.mpr (visits_ne_nil n label m)

theorem visits_add {a : Nat} {label next : Label} {m : Machine σ} (h : (final a label m).next? = some next)
    (b : Nat) :
    visits (a + 1 + b) label m = visits a label m ++ visits b next (final a label m).after ∧
      final (a + 1 + b) label m = final b next (final a label m).after ∧
      (visits a label m).length = a + 1 := by
  induction a generalizing label m with
  | zero =>
    have hv : (m.fresh.visit label).next? = some next := h
    rw [Nat.zero_add, Nat.add_comm 1 b, visits_some hv, final_some hv]
    exact ⟨rfl, rfl, rfl⟩
  | succ a ih =>
    cases hv : (m.fresh.visit label).next? with
    | none =>
      rw [final_none hv, hv] at h
      cases h
    | some next' =>
      rw [final_some hv] at h
      obtain ⟨h₁, h₂, h₃⟩ := ih h
      rw [show a + 1 + 1 + b = (a + 1 + b) + 1 by omega, visits_some hv, visits_some hv, final_some hv,
        final_some hv, h₁, h₂, List.length_cons, h₃]
      exact ⟨rfl, rfl, rfl⟩

theorem visits_stable {a : Nat} {label : Label} {m : Machine σ} (h : (final a label m).next? = none) {b : Nat}
    (hb : (visits a label m).length ≤ b + 1) :
    visits b label m = visits a label m ∧ final b label m = final a label m := by
  induction a generalizing label m b with
  | zero =>
    have hv : (m.fresh.visit label).next? = none := h
    rw [visits_none hv, final_none hv]
    exact ⟨rfl, rfl⟩
  | succ a ih =>
    cases hv : (m.fresh.visit label).next? with
    | none => simp only [visits_none hv, final_none hv, and_self]
    | some next =>
      rw [final_some hv] at h
      rw [visits_some hv, List.length_cons] at hb
      have hpos := length_visits_pos a next (m.fresh.visit label).after
      cases b with
      | zero => omega
      | succ b =>
        obtain ⟨h₁, h₂⟩ := ih (b := b) h (by omega)
        rw [visits_some hv, visits_some hv, final_some hv, final_some hv, h₁, h₂]
        exact ⟨rfl, rfl⟩

/-! ## What visits keep -/

theorem perform_block (m : Machine σ) (label : Label) :
    m.perform (block label) =
      (((m.program.block label).run m.cache).1, { m with cache := ((m.program.block label).run m.cache).2 }) := by
  unfold block
  rw [perform_bind_ok (perform_get m)]
  rcases (m.program.block label).run m.cache with ⟨_ | _, cache⟩ <;> rfl

theorem visit_cases (m : Machine σ) (label : Label) :
    ∃ cache, (∃ f, m.visit label = ⟨label, { m with cache }, [], .error f, { m with cache }⟩) ∨
      ∃ body, m.visit label = ⟨label, { m with cache }, body, ({ m with cache }.perform (execBlock body)).1,
        ({ m with cache }.perform (execBlock body)).2⟩ := by
  unfold visit
  rw [perform_block]
  rcases (m.program.block label).run m.cache with ⟨f | body, cache⟩
  · exact ⟨cache, .inl ⟨f, rfl⟩⟩
  · exact ⟨cache, .inr ⟨body, rfl⟩⟩

theorem visit_status (m : Machine σ) (label : Label) :
    (m.visit label).after.thread.status = m.thread.status ∨
      (m.visit label).after.thread.status = .retired ∧ (m.visit label).after.pending = none := by
  obtain ⟨cache, ⟨f, hv⟩ | ⟨body, hv⟩⟩ := visit_cases m label <;> rw [hv]
  · exact .inl rfl
  · exact execBlock_status { m with cache } body

theorem status_of_fellOff {m : Machine σ} {label : Label} (h : (m.visit label).FellOff) :
    (m.visit label).after.thread.status = m.thread.status := by
  obtain ⟨cache, ⟨f, hv⟩ | ⟨body, hv⟩⟩ := visit_cases m label
  · rw [hv]
  · rw [hv] at h ⊢
    have hb : { m with cache }.perform (execBlock body) =
        (.ok .next, ({ m with cache }.perform (execBlock body)).2) := Prod.ext h rfl
    exact congrArg (·.thread.status) (execBlock_next_frame hb)

theorem status_of_next? {m : Machine σ} {label next : Label} (h : (m.visit label).next? = some next) :
    (m.visit label).after.thread.status = m.thread.status := by
  rcases visit_status m label with hs | ⟨-, hp⟩
  · exact hs
  · rw [Visit.next?, hp] at h
    split at h <;> cases h

theorem exists_visit_of_mem {n : Nat} {label : Label} {m : Machine σ} {v : Visit σ} (h : v ∈ visits n label m) :
    ∃ (m' : Machine σ) (label' : Label), m'.thread.status = m.thread.status ∧ v = m'.fresh.visit label' := by
  induction n generalizing label m with
  | zero => exact ⟨m, label, rfl, List.mem_singleton.mp h⟩
  | succ n ih =>
    cases hn : (m.fresh.visit label).next? with
    | none =>
      rw [visits_none hn] at h
      exact ⟨m, label, rfl, List.mem_singleton.mp h⟩
    | some next =>
      rw [visits_some hn] at h
      rcases List.mem_cons.mp h with rfl | h
      · exact ⟨m, label, rfl, rfl⟩
      · obtain ⟨m', label', hs, hv⟩ := ih h
        exact ⟨m', label', by rw [hs, status_of_next? hn, fresh_thread], hv⟩

theorem exists_visit_eq_final (n : Nat) (label : Label) (m : Machine σ) :
    ∃ (m' : Machine σ) (label' : Label),
      m'.thread.status = m.thread.status ∧ final n label m = m'.fresh.visit label' :=
  exists_visit_of_mem (List.mem_of_getLast? (getLast?_visits n label m))

theorem final_status {n : Nat} {label next : Label} {m : Machine σ} (h : (final n label m).next? = some next) :
    (final n label m).after.thread.status = m.thread.status := by
  obtain ⟨m', label', hs, hf⟩ := exists_visit_eq_final n label m
  rw [hf] at h ⊢
  rw [status_of_next? h, fresh_thread, hs]

/-! ## Visits do not read the stored label -/

end Machine

/-- Visits alike in all but the stored label, and in that too if the block yielded or retired. -/
structure Visit.SameButStored {σ : Type} (v v' : Visit σ) : Prop where
  label : v'.label = v.label
  body : v'.body = v.body
  result : v'.result = v.result
  found : ∃ f, v'.found = v.found.withFragment f
  after : ∃ f, v'.after = v.after.withFragment f ∧ (v.Yielded ∨ v.Retired → f = v.after.thread.fragment)

namespace Machine

variable {σ : Type}

theorem not_endsBy_nil (m : Machine σ) (transfer : Transfer) : ¬ m.EndsBy [] transfer := by
  rintro ⟨-, h⟩
  rw [approachBlock] at h
  cases h

theorem visit_withFragment (m : Machine σ) (f : Option Label) (label : Label) :
    (m.visit label).SameButStored ((m.withFragment f).visit label) := by
  have hb : (m.withFragment f).perform (block label) =
      ((m.perform (block label)).1, (m.perform (block label)).2.withFragment f) := by
    rw [perform_block, perform_block]
    rfl
  unfold visit
  rw [hb]
  rcases m.perform (block label) with ⟨fault | body, found⟩
  · refine ⟨rfl, rfl, rfl, ⟨f, rfl⟩, f, rfl, ?_⟩
    rintro (⟨transfer, h, -⟩ | ⟨transfer, h, -⟩) <;> exact absurd h (not_endsBy_nil found transfer)
  · obtain ⟨g, hg, hs⟩ := perform_execBlock_withFragment found f body
    simp only
    rw [hg]
    exact ⟨rfl, rfl, rfl, ⟨f, rfl⟩, g, rfl, hs⟩

theorem final_withFragment (n : Nat) (label : Label) (m : Machine σ) (f : Option Label) :
    (visits n label (m.withFragment f)).length = (visits n label m).length ∧
      (final n label m).SameButStored (final n label (m.withFragment f)) := by
  induction n generalizing label m f with
  | zero => exact ⟨rfl, visit_withFragment m.fresh f label⟩
  | succ n ih =>
    have hv := visit_withFragment m.fresh f label
    obtain ⟨g, hg, -⟩ := hv.after
    have hn : ((m.withFragment f).fresh.visit label).next? = (m.fresh.visit label).next? := by
      show ((m.fresh.withFragment f).visit label).next? = _
      rw [Visit.next?, Visit.next?, hv.result, hg]
      rfl
    cases h : (m.fresh.visit label).next? with
    | none =>
      rw [h] at hn
      rw [visits_none h, visits_none hn, final_none h, final_none hn]
      exact ⟨rfl, hv⟩
    | some next =>
      rw [h] at hn
      rw [visits_some h, visits_some hn, final_some h, final_some hn, List.length_cons, List.length_cons]
      have hg' : ((m.withFragment f).fresh.visit label).after = (m.fresh.visit label).after.withFragment g := hg
      rw [hg']
      obtain ⟨hlen, hlast⟩ := ih next (m.fresh.visit label).after g
      exact ⟨by rw [hlen], hlast⟩

end Machine

end BlockScript
