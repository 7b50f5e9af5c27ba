import BlockScript.Proofs.TransferLimit
import BlockScript.Proofs.Unwarped

/-!
# Warp decides only when a thread yields

A thread that runs alone keeps to a course of labels that depends neither on warp nor on where its
steps end: at each label the unwarped machine does what the thread does, and goes on where the
thread goes on, in the same step or in a later one (`onCourse_runVisits`). Two programs that differ in
their warp flags have one course, so they compute the same (`warp_moves_yields`). Only a block that
falls off its end leaves the course, since the next step then starts at whatever label was stored.
-/

namespace BlockScript

open Machine

namespace Machine

variable {σ : Type}

/-- The visits of a thread that is stepped as long as it is suspended, each step with a transfer
limit and, if it has none, with fuel. -/
def runVisits : List (Option Nat × Nat) → Machine σ → List (Visit σ)
  | [], _ => []
  | (limit, fuel) :: plan, m =>
    stepVisits limit fuel m ++
      match m.fresh.perform (step limit fuel) with
      | (.ok .suspended, m') => runVisits plan m'
      | _ => []

/-! ## From one step to the next -/

theorem status_of_onward? {m : Machine σ} {label next : Label} (h : (m.visit label).onward? = some next) :
    (m.visit label).after.thread.status = m.thread.status := by
  rcases visit_status m label with hs | ⟨hr, -⟩
  · exact hs
  · have hn : (m.visit label).after.onward? = none := if_pos (by rw [Thread.isRetired, hr]; rfl)
    unfold Visit.onward? at h
    split at h
    · rw [hn] at h
      cases h
    · cases h

theorem onward?_of_transferred {m : Machine σ} {label : Label}
    (h : (m.visit label).result = .ok .transferred) :
    (m.visit label).after.thread.isRetired = true ∨ (m.visit label).onward? ≠ none := by
  have ho : (m.visit label).onward? = (m.visit label).after.onward? := by rw [Visit.onward?, h]
  rw [ho]
  obtain ⟨cache, ⟨f, hv⟩ | ⟨body, hv⟩⟩ := visit_cases m label <;> rw [hv] at h ⊢ <;> simp only at h ⊢
  · cases h
  · obtain ⟨w, ⟨f, hb⟩ | hb | ⟨transfer, m', -, hmade, hb⟩⟩ := execBlock_cases { m with cache } body <;>
      rw [hb] at h ⊢
    · cases h
    · cases h
    · exact hmade.onward

theorem conclude_onward {v : Visit σ} {next : Label} (hs : v.after.thread.status = .running)
    (h : v.onward? = some next) (limit : Option Nat) :
    (∃ m, conclude limit v = (.ok .suspended, m) ∧ m.thread.isRetired = false ∧
      m.thread.fragment = some next ∧ m.running.unwarped = v.after.unwarped) ∨
      limit = none ∧ v.next? ≠ none ∧ conclude limit v = (.ok .unfinished, v.after) := by
  have live : v.after.thread.isRetired = false := isRetired_of_running hs
  have hr : v.result = .ok .transferred := by
    unfold Visit.onward? at h
    split at h
    · assumption
    · cases h
  have hn : v.next? = v.after.pending := by rw [Visit.next?, hr]
  rw [Visit.onward?, hr] at h
  simp only [onward?, live] at h
  cases hp : v.after.pending with
  | none =>
    rw [hp] at h
    refine .inl ⟨v.after.suspended, ?_, rfl, h, ?_⟩
    · rw [conclude_of_next?_none (hn.trans hp), conclude, hr]
      simp only [leave, hp]
      rw [perform_settle, live]
      rfl
    · rw [running_suspended hs, fresh_unwarped]
  | some label =>
    rw [hp] at h
    cases h
    cases limit with
    | none =>
      refine .inr ⟨rfl, by simp [hn, hp], ?_⟩
      rw [conclude, hr]
      simp only [leave, hp]
    | some k =>
      refine .inl ⟨_, conclude_of_next?_some (hn.trans hp) live k, rfl, rfl, ?_⟩
      rw [running_suspended (m := v.after.fresh.withFragment (some next)) hs]
      rfl

theorem conclude_stopped {v : Visit σ} (h : v.onward? = none) (kept : ¬ v.FellOff)
    (ht : v.result = .ok .transferred → v.after.thread.isRetired = true ∨ v.onward? ≠ none) (limit : Option Nat) :
    (conclude limit v).1 ≠ .ok .suspended := by
  unfold conclude
  cases hr : v.result with
  | error f => simp
  | ok flow =>
    cases flow with
    | next => exact absurd hr kept
    | transferred =>
      have retired : v.after.thread.isRetired = true := (ht hr).resolve_right fun hn => hn h
      simp only [leave]
      cases v.after.pending with
      | none => simp [settle_retired retired]
      | some label =>
        cases limit with
        | none => simp
        | some k => simp [settle_retired (m := v.after.fresh.withFragment (some label)) retired]

section
variable {m : Machine σ} {entry : Label} (live : m.thread.isRetired = false)
  (stored : m.thread.fragment = some entry)
include live stored

theorem runVisits_onward {limit : Option Nat} {fuel : Nat} {next : Label}
    (h : (final (limit.getD fuel) entry m.running).onward? = some next) (plan : List (Option Nat × Nat)) :
    (∃ m₁ : Machine σ, runVisits ((limit, fuel) :: plan) m =
        visits (limit.getD fuel) entry m.running ++ runVisits plan m₁ ∧ m₁.thread.isRetired = false ∧
      m₁.thread.fragment = some next ∧
      m₁.running.unwarped = (final (limit.getD fuel) entry m.running).after.unwarped) ∨
      limit = none ∧ runVisits ((limit, fuel) :: plan) m = visits (limit.getD fuel) entry m.running ∧
        (visits (limit.getD fuel) entry m.running).length = fuel + 1 := by
  have hs : (final (limit.getD fuel) entry m.running).after.thread.status = .running := by
    obtain ⟨m', label', running, hf⟩ := exists_visit_eq_final (limit.getD fuel) entry m.running
    rw [hf] at h ⊢
    rw [status_of_onward? h]
    exact running
  rw [runVisits, stepVisits_eq live stored, perform_step_fresh live stored]
  obtain ⟨m₁, hc, live₁, stored₁, hu⟩ | ⟨rfl, hn, hc⟩ := conclude_onward hs h limit <;> rw [hc]
  · exact .inl ⟨m₁, rfl, live₁, stored₁, hu⟩
  · obtain ⟨label, hl⟩ := Option.ne_none_iff_exists'.mp hn
    exact .inr ⟨rfl, List.append_nil _, (visits_add hl 0).2.2⟩

theorem runVisits_stopped {limit : Option Nat} {fuel : Nat}
    (h : (final (limit.getD fuel) entry m.running).onward? = none)
    (kept : ¬ (final (limit.getD fuel) entry m.running).FellOff) (plan : List (Option Nat × Nat)) :
    runVisits ((limit, fuel) :: plan) m = visits (limit.getD fuel) entry m.running := by
  have stopped : (conclude limit (final (limit.getD fuel) entry m.running)).1 ≠ .ok .suspended := by
    refine conclude_stopped h kept ?_ limit
    obtain ⟨m', label', -, hf⟩ := exists_visit_eq_final (limit.getD fuel) entry m.running
    rw [hf]
    exact onward?_of_transferred
  rw [runVisits, stepVisits_eq live stored, perform_step_fresh live stored]
  split
  next hc => exact absurd (congrArg Prod.fst hc) stopped
  next => exact List.append_nil _

end

/-! ## The course of a thread -/

/-- Each visit is made where the one before it says to go on, unless that fell off its end. -/
def OnCourse : List (Visit σ) → Label → Machine σ → Prop
  | [], _, _ => True
  | v :: rest, label, m =>
    v.gist = (m.unwarped.visit label).gist ∧
      (¬ v.FellOff → rest ≠ [] → ∃ next, v.onward? = some next ∧ OnCourse rest next v.after)

theorem OnCourse.congr {ran : List (Visit σ)} {label : Label} {m m' : Machine σ} (h : OnCourse ran label m)
    (hu : m.unwarped = m'.unwarped) : OnCourse ran label m' := by
  cases ran with
  | nil => trivial
  | cons v rest =>
    rw [OnCourse, hu] at h
    exact h

theorem onward?_of_next? {m : Machine σ} {label next : Label} (running : m.thread.status = .running)
    (kept : ¬ (m.visit label).FellOff) (h : (m.visit label).next? = some next) :
    (m.visit label).onward? = some next := by
  have live : (m.visit label).after.thread.isRetired = false :=
    isRetired_of_running ((status_of_next? h).trans running)
  unfold Visit.next? at h
  split at h
  next flow hr =>
    cases flow with
    | next => exact absurd hr kept
    | transferred =>
      rw [Visit.onward?, hr]
      simp only [onward?, live, h]
      rfl
  next => cases h

theorem onCourse_visits {n : Nat} {label : Label} {m : Machine σ} {ran : List (Visit σ)}
    (running : m.thread.status = .running)
    (h : ¬ (final n label m).FellOff → ran ≠ [] →
      ∃ next, (final n label m).onward? = some next ∧ OnCourse ran next (final n label m).after) :
    OnCourse (visits n label m ++ ran) label m := by
  induction n generalizing label m with
  | zero => exact ⟨gist_visit_fresh m label, h⟩
  | succ n ih =>
    cases hn : (m.fresh.visit label).next? with
    | none =>
      rw [final_none hn] at h
      rw [visits_none hn]
      exact ⟨gist_visit_fresh m label, h⟩
    | some next =>
      rw [final_some hn] at h
      rw [visits_some hn]
      have running' : (m.fresh.visit label).after.thread.status = .running := (status_of_next? hn).trans running
      exact ⟨gist_visit_fresh m label, fun kept _ => ⟨next, onward?_of_next? running kept hn, ih running' h⟩⟩

theorem onCourse_runVisits (plan : List (Option Nat × Nat)) {m : Machine σ} {entry : Label}
    (live : m.thread.isRetired = false) (stored : m.thread.fragment = some entry) :
    OnCourse (runVisits plan m) entry m.running := by
  induction plan generalizing m entry with
  | nil => trivial
  | cons limits plan ih =>
    obtain ⟨limit, fuel⟩ := limits
    by_cases kept : (final (limit.getD fuel) entry m.running).FellOff
    · rw [runVisits, stepVisits_eq live stored]
      exact onCourse_visits rfl fun h => absurd kept h
    cases ho : (final (limit.getD fuel) entry m.running).onward? with
    | none =>
      rw [runVisits_stopped live stored ho kept, ← List.append_nil (visits _ _ _)]
      exact onCourse_visits rfl fun _ h => absurd rfl h
    | some next =>
      obtain ⟨m₁, hran, live₁, stored₁, hu⟩ | ⟨-, hran, -⟩ := runVisits_onward live stored ho plan <;> rw [hran]
      · exact onCourse_visits rfl fun _ _ => ⟨next, ho, (ih live₁ stored₁).congr hu⟩
      · rw [← List.append_nil (visits _ _ _)]
        exact onCourse_visits rfl fun _ h => absurd rfl h

/-! ## One course for both -/

theorem of_gist_eq {v v' : Visit σ} (h : v.gist = v'.gist) :
    v.label = v'.label ∧ v.result = v'.result ∧ v.after.unwarped = v'.after.unwarped ∧ v.onward? = v'.onward? := by
  simpa only [Visit.gist, Prod.mk.injEq] using h

theorem OnCourse.agree {ran ran' : List (Visit σ)} {label : Label} {m m' : Machine σ} (h : OnCourse ran label m)
    (h' : OnCourse ran' label m') (hu : m.unwarped = m'.unwarped) {n : Nat}
    (kept : ∀ i < n, ∀ v, ran[i]? = some v → ¬ v.FellOff) {v v' : Visit σ} (hv : ran[n]? = some v)
    (hv' : ran'[n]? = some v') : v.gist = v'.gist := by
  induction n generalizing ran ran' label m m' with
  | zero =>
    cases ran with
    | nil => cases hv
    | cons u rest =>
      cases ran' with
      | nil => cases hv'
      | cons u' rest' =>
        cases hv
        cases hv'
        rw [h.1, h'.1, hu]
  | succ n ih =>
    cases ran with
    | nil => cases hv
    | cons u rest =>
      cases ran' with
      | nil => cases hv'
      | cons u' rest' =>
        -- one gist means one label to go on at, which a block that fell off its end does not have
        obtain ⟨-, hresult, hafter, honward⟩ := of_gist_eq (h.1.trans (hu ▸ h'.1.symm))
        have stays : ¬ u.FellOff := kept 0 (Nat.succ_pos n) u rfl
        obtain ⟨next, ho, hr⟩ := h.2 stays (by rintro rfl; cases hv)
        obtain ⟨next', ho', hr'⟩ := h'.2 (fun hf => stays (hresult.trans hf)) (by rintro rfl; cases hv')
        rw [ho, ho'] at honward
        cases honward
        exact ih hr hr' hafter (fun i hi => kept (i + 1) (Nat.succ_lt_succ hi)) hv hv'

theorem OnCourse.length_eq {ran : List (Visit σ)} {label : Label} {m : Machine σ} (h : OnCourse ran label m)
    {n : Nat} (kept : ∀ i < n, ∀ v, ran[i]? = some v → ¬ v.FellOff) {v : Visit σ} (hv : ran[n]? = some v)
    (stays : ¬ v.FellOff) (stopped : v.onward? = none) : ran.length = n + 1 := by
  induction n generalizing ran label m with
  | zero =>
    cases ran with
    | nil => cases hv
    | cons u rest =>
      cases hv
      cases rest with
      | nil => rfl
      | cons _ _ =>
        obtain ⟨next, ho, -⟩ := h.2 stays (List.cons_ne_nil _ _)
        rw [stopped] at ho
        cases ho
  | succ n ih =>
    cases ran with
    | nil => cases hv
    | cons u rest =>
      obtain ⟨next, -, hr⟩ := h.2 (kept 0 (Nat.succ_pos _) u rfl) (by rintro rfl; cases hv)
      rw [List.length_cons, ih hr (fun i hi => kept (i + 1) (Nat.succ_lt_succ hi)) hv]

/-! ## Coming as far -/

/-- Enough steps, and enough fuel in those without a limit, to run more than `n` labels. -/
def Enough (n : Nat) (plan : List (Option Nat × Nat)) : Prop :=
  n < plan.length ∧ ∀ fuel, (none, fuel) ∈ plan → n ≤ fuel

theorem runVisits_enough {n : Nat} {plan : List (Option Nat × Nat)} (enough : Enough n plan) {m : Machine σ}
    {entry : Label} (live : m.thread.isRetired = false) (stored : m.thread.fragment = some entry) :
    n < (runVisits plan m).length ∨
      ∃ i < n, ∃ v, (runVisits plan m)[i]? = some v ∧ (v.FellOff ∨ v.onward? = none) := by
  induction plan generalizing n m entry with
  | nil => exact absurd enough.1 (Nat.not_lt_zero n)
  | cons limits plan ih =>
    obtain ⟨limit, fuel⟩ := limits
    obtain ⟨rest, hrest⟩ : ∃ rest, runVisits ((limit, fuel) :: plan) m =
        visits (limit.getD fuel) entry m.running ++ rest := ⟨_, by rw [runVisits, stepVisits_eq live stored]⟩
    obtain ⟨count, hcount⟩ : ∃ count, (visits (limit.getD fuel) entry m.running).length = count := ⟨_, rfl⟩
    have hlast := getLast?_visits (limit.getD fuel) entry m.running
    have hpos := length_visits_pos (limit.getD fuel) entry m.running
    rw [List.getLast?_eq_getElem?, hcount] at hlast
    rw [hcount] at hpos
    rcases Nat.lt_or_ge n count with short | long
    · rw [hrest, List.length_append]
      exact .inl (by omega)
    by_cases stopped : (final (limit.getD fuel) entry m.running).FellOff ∨
        (final (limit.getD fuel) entry m.running).onward? = none
    · refine .inr ⟨count - 1, by omega, _, ?_, stopped⟩
      rw [hrest, List.getElem?_append_left (by omega), hlast]
    rw [not_or] at stopped
    obtain ⟨next, ho⟩ := Option.ne_none_iff_exists'.mp stopped.2
    obtain ⟨m₁, hran, live₁, stored₁, -⟩ | ⟨rfl, -, hlen⟩ := runVisits_onward live stored ho plan
    · have enough₁ : Enough (n - count) plan := by
        refine ⟨?_, fun fuel' hmem => ?_⟩
        · have := enough.1
          rw [List.length_cons] at this
          omega
        · exact Nat.le_trans (Nat.sub_le _ _) (enough.2 fuel' (List.mem_cons_of_mem _ hmem))
      rw [hran]
      rcases ih enough₁ live₁ stored₁ with h | ⟨i, hi, v, hv, hs⟩
      · rw [List.length_append]
        exact .inl (by omega)
      · refine .inr ⟨count + i, by omega, v, ?_, hs⟩
        rw [List.getElem?_append_right (by omega), hcount, Nat.add_sub_cancel_left, hv]
    · have := enough.2 fuel (List.mem_cons_self ..)
      omega

/-! ## The end of a thread -/

theorem exists_visit_of_mem_runVisits {plan : List (Option Nat × Nat)} {m : Machine σ} {v : Visit σ}
    (h : v ∈ runVisits plan m) :
    ∃ (m' : Machine σ) (label : Label), m'.thread.status = .running ∧ v = m'.fresh.visit label := by
  induction plan generalizing m with
  | nil => cases h
  | cons limits plan ih =>
    obtain ⟨limit, fuel⟩ := limits
    rcases List.mem_append.mp h with h | h
    · unfold stepVisits at h
      split at h
      · cases h
      · split at h
        · cases h
        · exact exists_visit_of_mem h
    · split at h
      · exact ih h
      · cases h

end Machine

namespace Visit

variable {σ : Type}

/-- The visit failed, or the thread has retired by its end. -/
def Over (v : Visit σ) : Prop := (∃ f, v.result = .error f) ∨ v.after.thread.isRetired = true

theorem Over.onward?_eq_none {v : Visit σ} (h : v.Over) : v.onward? = none := by
  unfold onward?
  rcases h with ⟨f, hf⟩ | hr
  · rw [hf]
  · split
    · exact if_pos hr
    · rfl

theorem Over.not_fellOff {v : Visit σ} (h : v.Over) {plan : List (Option Nat × Nat)} {m : Machine σ}
    (hv : v ∈ m.runVisits plan) : ¬ v.FellOff := by
  intro hf
  obtain ⟨m', label, running, rfl⟩ := exists_visit_of_mem_runVisits hv
  rcases h with ⟨f, he⟩ | hr
  · rw [FellOff, he] at hf
    cases hf
  · rw [Thread.isRetired, status_of_fellOff hf, fresh_thread, running] at hr
    cases hr

theorem Over.of_gist_eq {v v' : Visit σ} (h : v.Over) (hg : v.gist = v'.gist) : v'.Over := by
  obtain ⟨-, hresult, hafter, -⟩ := Machine.of_gist_eq hg
  rcases h with ⟨f, hf⟩ | hr
  · exact .inl ⟨f, hresult ▸ hf⟩
  · have hs : v.after.thread.status = v'.after.thread.status := congrArg (·.thread.status) hafter
    exact .inr (by rwa [Thread.isRetired, ← hs])

end Visit

/-- Two programs that are the same but for their warp flags, and a new thread of each, stepped alone
and in whatever steps. As long as no block falls off its end they run the same labels to the same
effect, and if one of them retires or fails so does the other, at the same label. -/
theorem warp_moves_yields {σ : Type} {p p' : Program} (same : p.unwarped = p'.unwarped) (cache : Cache)
    (id : ThreadId) (number : Nat) (w : World σ) (notices : List ThreadId) (plan plan' : List (Option Nat × Nat)) :
    let ran := (start p cache id number w notices).runVisits plan
    let ran' := (start p' cache id number w notices).runVisits plan'
    ∀ n, (∀ i < n, ∀ v, ran[i]? = some v → ¬ v.FellOff) →
      (n < ran.length → Enough n plan' → n < ran'.length) ∧
      ∀ v v', ran[n]? = some v → ran'[n]? = some v' →
        v.label = v'.label ∧ v.result = v'.result ∧ v.after.unwarped = v'.after.unwarped ∧
        (v.Over → v'.Over ∧ ran.length = n + 1 ∧ ran'.length = n + 1) := by
  intro ran ran' n kept
  have on : OnCourse ran p.entry (start p cache id number w notices).running := onCourse_runVisits plan rfl rfl
  have on' : OnCourse ran' p.entry (start p' cache id number w notices).running := by
    have hentry : p.unwarped.entry = p'.unwarped.entry := congrArg Program.entry same
    rw [show p.entry = p'.entry from hentry]
    exact onCourse_runVisits plan' rfl rfl
  have hu : (start p cache id number w notices).running.unwarped =
      (start p' cache id number w notices).running.unwarped := by
    simp only [start, running, unwarped, same]
    rfl
  have agree : ∀ i ≤ n, ∀ v v', ran[i]? = some v → ran'[i]? = some v' → v.gist = v'.gist :=
    fun i hi v v' hv hv' => on.agree on' hu (fun j hj => kept j (by omega)) hv hv'
  have earlier : ∀ i < n, i < ran.length → ∀ u', ran'[i]? = some u' →
      ¬ u'.FellOff ∧ ∃ u, ran[i]? = some u ∧ u.onward? = u'.onward? := by
    intro i hi hlen u' hu'
    have hu : ran[i]? = some ran[i] := List.getElem?_eq_getElem hlen
    obtain ⟨-, hresult, -, honward⟩ := of_gist_eq (agree i (Nat.le_of_lt hi) _ _ hu hu')
    exact ⟨fun hf => kept i hi _ hu (hresult.trans hf), ran[i], hu, honward⟩
  constructor
  · intro hn enough
    rcases runVisits_enough enough (m := start p' cache id number w notices) rfl rfl with h | ⟨i, hi, u', hu', hs⟩
    · exact h
    -- the second run cannot have stopped earlier, since the first one goes on there
    · obtain ⟨stays', u, hu, honward⟩ := earlier i hi (by omega) u' hu'
      have stopped : u.onward? = none := honward.trans (hs.resolve_left stays')
      have := on.length_eq (fun j hj => kept j (by omega)) hu (kept i hi u hu) stopped
      omega
  · intro v v' hv hv'
    have hg := agree n (Nat.le_refl n) v v' hv hv'
    obtain ⟨hlabel, hresult, hafter, -⟩ := of_gist_eq hg
    refine ⟨hlabel, hresult, hafter, fun hover => ⟨hover.of_gist_eq hg, ?_, ?_⟩⟩
    · exact on.length_eq kept hv (hover.not_fellOff (List.mem_of_getElem? hv)) hover.onward?_eq_none
    · have hover' := hover.of_gist_eq hg
      have hlen : n < ran.length := (List.getElem?_eq_some_iff.mp hv).1
      have kept' : ∀ i < n, ∀ u', ran'[i]? = some u' → ¬ u'.FellOff :=
        fun i hi u' hu' => (earlier i hi (by omega) u' hu').1
      exact on'.length_eq kept' hv' (hover'.not_fellOff (List.mem_of_getElem? hv')) hover'.onward?_eq_none

theorem warp_moves_yields_relay :
    let ran := (relay true).runVisits [(none, 2)]
    let ran' := (relay false).runVisits [(some 0, 0), (some 0, 0), (some 0, 0)]
    (relay true).program.unwarped = (relay false).program.unwarped ∧
      ∃ v v', ran[2]? = some v ∧ ran'[2]? = some v' ∧ v.label = v'.label ∧
        v.after.unwarped = v'.after.unwarped := by
  intro ran ran'
  have same : (relay true).program.unwarped = (relay false).program.unwarped := by
    simp [relay, start, Program.unwarped, Procedure.unwarped]
  have results : ran.map (·.result.toOption) = [some .transferred, some .transferred, some .transferred] := by
    decide +kernel
  have kept : ∀ i < 2, ∀ v, ran[i]? = some v → ¬ v.FellOff := by
    intro i hi v hv hf
    have hr : (ran.map (·.result.toOption))[i]? = some (some .next) := by
      rw [List.getElem?_map, hv, Option.map_some, hf]
      rfl
    rw [results] at hr
    obtain rfl | rfl : i = 0 ∨ i = 1 := by omega
    · cases hr
    · cases hr
  have long : 2 < ran.length := by decide +kernel
  have enough : Enough 2 [(some 0, 0), (some 0, 0), (some 0, 0)] := ⟨by decide, by simp⟩
  obtain ⟨reaches, agrees⟩ := warp_moves_yields same (relay true).cache ⟨1⟩ 0 .bare [] [(none, 2)]
    [(some 0, 0), (some 0, 0), (some 0, 0)] 2 kept
  have long' : 2 < ran'.length := reaches long enough
  have hv : ran[2]? = some ran[2] := List.getElem?_eq_getElem long
  have hv' : ran'[2]? = some ran'[2] := List.getElem?_eq_getElem long'
  obtain ⟨hlabel, -, hafter, -⟩ := agrees ran[2] ran'[2] hv hv'
  exact ⟨same, ran[2], ran'[2], hv, hv', hlabel, hafter⟩

end BlockScript
