import BlockScript.Proofs.Visits

/-!
# A transfer limit only moves the ends of steps

A step under the limit `k` makes the first `k + 1` visits of the step without a limit and stores the
label of the next one. The step after it starts there, so the same visits are made, `k + 1` in every
step but the last, and the last one ends as the unlimited step does (`limit_moves_boundaries`). The
stored label alone may differ, when the last block falls off its end or fails.
-/

namespace BlockScript

open Machine

/-! ## Ends of steps -/

namespace Visit

variable {σ : Type} {v v' v'' : Visit σ}

theorem SameButStored.refl (v : Visit σ) : v.SameButStored v :=
  ⟨rfl, rfl, rfl, ⟨v.found.thread.fragment, rfl⟩, v.after.thread.fragment, rfl, fun _ => rfl⟩

theorem SameButStored.stored_iff (h : v.SameButStored v') : v'.Yielded ∨ v'.Retired ↔ v.Yielded ∨ v.Retired := by
  obtain ⟨f, hf⟩ := h.found
  unfold Yielded Retired
  rw [hf, h.body, yields_withFragment, retires_withFragment]

theorem SameButStored.trans (h : v.SameButStored v') (h' : v'.SameButStored v'') : v.SameButStored v'' := by
  obtain ⟨f, hf⟩ := h.found
  obtain ⟨f', hf'⟩ := h'.found
  obtain ⟨g, hg, hs⟩ := h.after
  obtain ⟨g', hg', hs'⟩ := h'.after
  refine ⟨h'.label.trans h.label, h'.body.trans h.body, h'.result.trans h.result, ⟨f', ?_⟩, g', ?_, fun he => ?_⟩
  · rw [hf', hf, withFragment_withFragment]
  · rw [hg', hg, withFragment_withFragment]
  · rw [hs' (h.stored_iff.mpr he), hg, hs he, withFragment_self]

theorem SameButStored.next?_eq (h : v.SameButStored v') : v'.next? = v.next? := by
  obtain ⟨f, hf, -⟩ := h.after
  rw [next?, next?, h.result, hf]
  rfl

end Visit

namespace Machine

variable {σ : Type}

theorem settle_ne_unfinished (m : Machine σ) : (m.perform settle).1 ≠ .ok .unfinished := by
  rw [perform_settle]
  split <;> simp

theorem settle_retired {m : Machine σ} (h : m.thread.isRetired = true) : m.perform settle = (.ok .retired, m) := by
  rw [perform_settle, if_pos h]

theorem settle_withFragment (m : Machine σ) (f : Option Label) :
    (m.withFragment f).perform settle = ((m.perform settle).1, (m.perform settle).2.withFragment f) := by
  rw [perform_settle, perform_settle]
  show (if m.thread.isRetired = true then _ else _) = _
  split <;> rfl

theorem settle_fragment (m : Machine σ) : (m.perform settle).2.thread.fragment = m.thread.fragment := by
  rw [perform_settle]
  split <;> rfl

theorem conclude_unfinished (v : Visit σ) : (conclude none v).1 = .ok .unfinished ↔ v.next? ≠ none := by
  unfold conclude Visit.next?
  cases v.result with
  | error f => simp
  | ok flow =>
    simp only [leave]
    cases v.after.pending with
    | none => simpa using settle_ne_unfinished v.after
    | some label => simp

theorem conclude_of_next?_none {v : Visit σ} (h : v.next? = none) (limit : Option Nat) :
    conclude limit v = conclude none v := by
  unfold conclude
  cases hr : v.result with
  | error f => rfl
  | ok flow =>
    have hp : v.after.pending = none := by rwa [Visit.next?, hr] at h
    simp only [leave, hp]

theorem conclude_stored {v : Visit σ} {next : Label} (h : v.next? = some next) (k : Nat) :
    conclude (some k) v = (v.after.fresh.withFragment (some next)).perform settle := by
  unfold conclude
  cases hr : v.result with
  | error f => rw [Visit.next?, hr] at h; cases h
  | ok flow =>
    have hp : v.after.pending = some next := by rwa [Visit.next?, hr] at h
    simp only [leave, hp]

theorem conclude_of_next?_some {v : Visit σ} {next : Label} (h : v.next? = some next)
    (live : v.after.thread.isRetired = false) (k : Nat) :
    conclude (some k) v = (.ok .suspended, (v.after.fresh.withFragment (some next)).suspended) := by
  rw [conclude_stored h, perform_settle]
  have hl : ¬ (v.after.fresh.withFragment (some next)).thread.isRetired = true := ne_true_of_eq_false live
  exact if_neg hl

theorem conclude_sameButStored {v v' : Visit σ} (h : v.SameButStored v') (hn : v.next? = none) :
    (conclude none v').1 = (conclude none v).1 ∧
      (∃ f, (conclude none v').2 = (conclude none v).2.withFragment f) ∧
      (v.Yielded ∨ v.Retired → (conclude none v').2 = (conclude none v).2) := by
  obtain ⟨f, hf, hs⟩ := h.after
  unfold conclude
  rw [h.result, hf]
  cases hr : v.result with
  | error e =>
    refine ⟨rfl, ⟨f, rfl⟩, fun he => ?_⟩
    simp only [hs he, withFragment_self]
  | ok flow =>
    have hp : v.after.pending = none := by rwa [Visit.next?, hr] at hn
    have hp' : (v.after.withFragment f).pending = none := hp
    simp only [leave, hp, hp', settle_withFragment]
    refine ⟨trivial, ⟨f, rfl⟩, fun he => ?_⟩
    rw [hs he, ← settle_fragment v.after, withFragment_self]

/-! ## Step after step -/

theorem running_suspended {m : Machine σ} (h : m.thread.status = .running) : m.suspended.running = m.fresh := by
  unfold running suspended fresh
  rw [← h]

/-- A limited step that the visits do not fit in makes the first of them and leaves the rest to the
next step, which starts with another stored label than they were made with. -/
theorem step_limited {m : Machine σ} {entry : Label} (live : m.thread.isRetired = false)
    (stored : m.thread.fragment = some entry) {fuel k : Nat} (done : (final fuel entry m.running).next? = none)
    (long : k + 1 < (visits fuel entry m.running).length) (fuel' : Nat) :
    ∃ m₁ next rest, m.fresh.perform (step (some k) fuel') = (.ok .suspended, m₁) ∧
      m₁.thread.isRetired = false ∧ m₁.thread.fragment = some next ∧
      (visits rest next m₁.running).length + (k + 1) = (visits fuel entry m.running).length ∧
      (final fuel entry m.running).SameButStored (final rest next m₁.running) := by
  have hfuel := length_visits_le fuel entry m.running
  cases hk : (final k entry m.running).next? with
  | none =>
    have hlen := length_visits_le k entry m.running
    -- then `k` is as good as any fuel, and there would be at most `k + 1` visits
    have hsame := (visits_stable hk (b := fuel) (by omega)).1
    rw [hsame] at long
    omega
  | some next =>
    obtain ⟨rest, rfl⟩ : ∃ rest, fuel = k + 1 + rest := ⟨fuel - (k + 1), by omega⟩
    obtain ⟨hvisits, hfinal, hlen⟩ := visits_add hk rest
    have hstatus : (final k entry m.running).after.thread.status = .running := final_status hk
    refine ⟨((final k entry m.running).after.fresh.withFragment (some next)).suspended, next, rest,
      ?_, rfl, rfl, ?_, ?_⟩
    · rw [perform_step_fresh live stored]
      exact conclude_of_next?_some hk (isRetired_of_running hstatus) k
    · rw [running_suspended (by exact hstatus), visits_fresh, (final_withFragment rest next _ (some next)).1,
        visits_fresh, hvisits, List.length_append, hlen]
      omega
    · rw [running_suspended (by exact hstatus), final_fresh, hfinal,
        ← final_fresh rest next (final k entry m.running).after]
      exact (final_withFragment rest next _ (some next)).2

def stepped (limit : Option Nat) (fuel : Nat) : Nat → Machine σ → Machine σ
  | 0, m => m
  | n + 1, m => stepped limit fuel n (m.fresh.perform (step limit fuel)).2

/-- What the `n`-th step answers, and the machine after it. -/
def nthStep (limit : Option Nat) (fuel : Nat) (n : Nat) (m : Machine σ) : Except Fault Outcome × Machine σ :=
  (stepped limit fuel n m).fresh.perform (step limit fuel)

theorem nthStep_succ {limit : Option Nat} {fuel : Nat} {m m₁ : Machine σ} {r : Except Fault Outcome}
    (h : m.fresh.perform (step limit fuel) = (r, m₁)) (n : Nat) :
    nthStep limit fuel (n + 1) m = nthStep limit fuel n m₁ := by
  rw [nthStep, stepped, h]
  rfl

theorem steps_limited (q : Nat) {m : Machine σ} {entry : Label} (live : m.thread.isRetired = false)
    (stored : m.thread.fragment = some entry) {fuel k : Nat} (done : (final fuel entry m.running).next? = none)
    (above : q * (k + 1) < (visits fuel entry m.running).length)
    (below : (visits fuel entry m.running).length ≤ (q + 1) * (k + 1)) (fuel' : Nat) :
    (∀ i < q, (nthStep (some k) fuel' i m).1 = .ok .suspended) ∧
      ∃ v, (final fuel entry m.running).SameButStored v ∧ nthStep (some k) fuel' q m = conclude none v := by
  -- every full step leaves the same number of steps for the visits that are left, so the induction
  -- is on that number, and the visits change with the stored label
  induction q generalizing m entry fuel with
  | zero =>
    refine ⟨fun i hi => absurd hi (Nat.not_lt_zero i), final fuel entry m.running, .refl _, ?_⟩
    have hsame := (visits_stable done (b := k) (by omega)).2
    rw [nthStep, stepped, perform_step_fresh live stored, Option.getD_some, hsame]
    exact conclude_of_next?_none done _
  | succ q ih =>
    rw [Nat.succ_mul] at above below
    obtain ⟨m₁, next, rest, hstep, live₁, stored₁, hlen, hsame⟩ :=
      step_limited live stored done (k := k) (by omega) fuel'
    obtain ⟨hsuspended, v, hv, hlast⟩ :=
      ih live₁ stored₁ (by rw [hsame.next?_eq, done]) (by omega) (by omega)
    refine ⟨fun i hi => ?_, v, hsame.trans hv, ?_⟩
    · cases i with
      | zero => rw [nthStep, stepped, hstep]
      | succ i => rw [nthStep_succ hstep]; exact hsuspended i (by omega)
    · rw [nthStep_succ hstep, hlast]

theorem unfinished_iff {m : Machine σ} {entry : Label} (live : m.thread.isRetired = false)
    (stored : m.thread.fragment = some entry) {fuel : Nat} (done : (final fuel entry m.running).next? = none)
    (f : Nat) :
    (m.fresh.perform (step none f)).1 = .ok .unfinished ↔ f + 1 < (visits fuel entry m.running).length := by
  rw [perform_step_fresh live stored, conclude_unfinished, ← Nat.not_le, Option.getD_none]
  refine not_congr ⟨fun hf => ?_, fun hle => ?_⟩
  · have hfuel := length_visits_le fuel entry m.running
    have hlen := length_visits_le f entry m.running
    rcases Nat.le_total fuel f with h | h
    · omega
    · rw [(visits_stable hf (b := fuel) (by omega)).1]
      exact hlen
  · rw [(visits_stable done hle).2, done]

theorem div_ceil {n : Nat} (h : 0 < n) (k : Nat) :
    ∃ q, (n + k) / (k + 1) = q + 1 ∧ q * (k + 1) < n ∧ n ≤ (q + 1) * (k + 1) := by
  obtain ⟨p, rfl⟩ := Nat.exists_eq_succ_of_ne_zero (Nat.ne_of_gt h)
  refine ⟨p / (k + 1), ?_, ?_, ?_⟩
  · rw [show p.succ + k = p + (k + 1) by omega, Nat.add_div_right p (Nat.succ_pos k)]
  · exact Nat.lt_succ_of_le (Nat.div_mul_le_self p (k + 1))
  · exact Nat.lt_mul_of_div_lt (Nat.lt_succ_self _) (Nat.succ_pos k)

end Machine

/-- A live thread whose step without a limit comes to an end after as many visits as the list `ran` is
long: under the limit `k` it takes that many over `k + 1` steps, rounded up. All of them but the last
suspend it, and the last one ends as the single step does. -/
theorem limit_moves_boundaries {σ : Type} {m : Machine σ} {entry : Label} {fuel : Nat}
    (live : m.thread.isRetired = false) (stored : m.thread.fragment = some entry)
    (returns : (m.fresh.perform (step none fuel)).1 ≠ .ok .unfinished) (k fuel' : Nat) :
    let whole := m.fresh.perform (step none fuel)
    let ran := m.stepVisits none fuel
    let count := (ran.length + k) / (k + 1)
    let last := nthStep (some k) fuel' (count - 1) m
    (∀ f, (m.fresh.perform (step none f)).1 = .ok .unfinished ↔ f + 1 < ran.length) ∧ 1 ≤ count ∧
      (∀ i < count - 1, (nthStep (some k) fuel' i m).1 = .ok .suspended) ∧
      last.1 = whole.1 ∧ (∃ fragment, last.2 = whole.2.withFragment fragment) ∧
      ((∃ v ∈ ran.getLast?, v.Yielded ∨ v.Retired) → last.2 = whole.2) := by
  intro whole ran count last
  have hran : ran = visits fuel entry m.running := stepVisits_eq live stored none fuel
  have hwhole : whole = conclude none (final fuel entry m.running) := perform_step_fresh live stored none fuel
  have done : (final fuel entry m.running).next? = none := by
    rw [show m.fresh.perform (step none fuel) = _ from hwhole, ne_eq, conclude_unfinished] at returns
    exact Decidable.not_not.mp returns
  obtain ⟨q, hq, above, below⟩ := div_ceil (length_visits_pos fuel entry m.running) k
  have hcount : count = q + 1 := by rw [← hq, ← hran]
  obtain ⟨hsuspended, v, hv, hlast⟩ := steps_limited q live stored done above below fuel'
  obtain ⟨houtcome, hmachine, hstored⟩ := conclude_sameButStored hv done
  have hlast' : last = conclude none v := by rw [← hlast, ← Nat.add_sub_cancel q 1, ← hcount]
  rw [hlast', hwhole, hcount]
  refine ⟨fun f => hran ▸ unfinished_iff live stored done f, by omega, hsuspended, houtcome, hmachine, ?_⟩
  rintro ⟨v₁, hv₁, hends⟩
  rw [hran, getLast?_visits] at hv₁
  cases hv₁
  exact hstored hends

/-- A new thread that calls a procedure, which jumps lazily to the last label. -/
def relay (warp : Bool) : Machine Unit :=
  start ⟨⟨0⟩, #[.fragment [.call ⟨0⟩ [] ⟨2⟩], .fragment [.jumpLazy ⟨2⟩], .fragment [.retire]],
    #[⟨"relay", ⟨1⟩, warp⟩]⟩ ⟨#[none, none, none]⟩ ⟨1⟩ 0 .bare []

theorem limit_moves_boundaries_relay :
    ((relay true).fresh.perform (step none 2)).1 ≠ .ok .unfinished ∧ ((relay true).stepVisits none 2).length = 3 ∧
      (nthStep (some 1) 0 0 (relay true)).1 = .ok .suspended ∧
      (nthStep (some 1) 0 1 (relay true)).1 = ((relay true).fresh.perform (step none 2)).1 := by
  have returns : ((relay true).fresh.perform (step none 2)).1 ≠ .ok .unfinished := by
    have hr : ((relay true).fresh.perform (step none 2)).1.toOption = some .retired := by decide +kernel
    intro hu
    rw [hu] at hr
    cases hr
  have long : ((relay true).stepVisits none 2).length = 3 := by decide +kernel
  have h := limit_moves_boundaries (m := relay true) rfl rfl returns 1 0
  simp only [long] at h
  exact ⟨returns, long, h.2.2.1 0 (by decide), h.2.2.2.1⟩

end BlockScript
