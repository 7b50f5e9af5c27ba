import BlockScript.Proofs.Visits
import Mathlib.Data.List.Chain

/-!
# The states that a thread passes

A host may step a thread, make a transfer on it, run a block, a statement or an expression, and go on
in another context, in any order and as often as it likes. The machines that the thread is seen on in
the course of this are its trail: one after each request, and two for every label that is run inside a
step, with the block found and with the block done. From one machine of a trail to the next there are
few things that can happen (`Moved`, `isChain_trail`), so what all of these keep is kept by everything
a host can ask for.
-/

namespace BlockScript

open Machine

/-- What a host can ask of a thread. -/
inductive Request (σ : Type) where
  | step (limit : Option Nat) (fuel : Nat)
  | transfer (transfer : Transfer)
  | block (body : Block)
  | stmt (s : Stmt)
  | expr (e : Expr)
  /-- To go on in a new context: the target, the devices and the blocks built by then are whatever
  they are, and notices of other threads may have come in. -/
  | context (world : World σ) (cache : Cache) (others : List ThreadId)

namespace Machine

variable {σ : Type}

def renewed (m : Machine σ) (w : World σ) (cache : Cache) (others : List ThreadId) : Machine σ :=
  { m.withWorld w with
    cache
    pending := none
    notices := m.notices ++ others.filter (· ≠ m.thread.id) }

def handle (m : Machine σ) : Request σ → Machine σ
  | .step limit fuel => (m.perform (step limit fuel)).2
  | .transfer transfer => (m.perform (make transfer)).2
  | .block body => (m.perform (execBlock body)).2
  | .stmt s => (m.perform (exec s)).2
  | .expr e => (m.perform (eval e)).2
  | .context w cache others => m.renewed w cache others

def handleAll (m : Machine σ) (requests : List (Request σ)) : Machine σ :=
  requests.foldl handle m

/-- The machines inside a step: each label with its block found, and with the block done. -/
def inside (m : Machine σ) : Request σ → List (Machine σ)
  | .step limit fuel => (m.stepVisits limit fuel).flatMap fun v => [v.found, v.after]
  | _ => []

def trail : List (Request σ) → Machine σ → List (Machine σ)
  | [], _ => []
  | request :: rest, m => m.inside request ++ m.handle request :: trail rest (m.handle request)

/-! ## Moves -/

/-- What can happen from one machine of a trail to the next. -/
inductive Moved : Machine σ → Machine σ → Prop
  /-- Expressions and plain statements; also a block that fails or falls off its end. -/
  | acts (m : Machine σ) (w : World σ) : Moved m (m.withWorld w)
  | transfers {m m' : Machine σ} (w : World σ) (transfer : Transfer) :
      m.thread.isRetired = false → Made (m.withWorld w) transfer m' → Moved m m'
  /-- A step takes up a label. -/
  | looksUp {m : Machine σ} (cache : Cache) : m.thread.isRetired = false → Moved m { m.running with cache }
  | suspends {m : Machine σ} : m.thread.isRetired = false → Moved m m.suspended
  /-- The transfer limit is reached. -/
  | holds {m : Machine σ} (label : Label) : m.thread.isRetired = false →
      Moved m (m.fresh.withFragment (some label)).suspended
  | renews (m : Machine σ) (w : World σ) (cache : Cache) (others : List ThreadId) :
      Moved m (m.renewed w cache others)

theorem Moved.rests (m : Machine σ) : Moved m m := by
  have h := Moved.acts m m.world
  rwa [withWorld_world] at h

theorem Moved.local {α : Type} {x : Exec σ α} (hx : Local x) (m : Machine σ) : Moved m (m.perform x).2 := by
  rw [hx.frame m]
  exact .acts m _

theorem make_moved (m : Machine σ) (transfer : Transfer) : Moved m (m.perform (make transfer)).2 := by
  obtain ⟨f, hm⟩ | ⟨live, m', hm, hmade⟩ := make_cases m transfer <;> rw [hm]
  · exact .rests m
  · exact .transfers m.world transfer live hmade

theorem execBlock_moved (m : Machine σ) (body : Block) : Moved m (m.perform (execBlock body)).2 := by
  obtain ⟨w, ⟨f, hb⟩ | hb | ⟨transfer, m', ⟨live, -⟩, hmade, hb⟩⟩ := execBlock_cases m body <;> rw [hb]
  · exact .acts m w
  · exact .acts m w
  · exact .transfers w transfer live hmade

theorem execBlock_singleton (s : Stmt) : (execBlock [s] : Exec σ Flow) = exec s := by
  rw [execBlock_cons, execBlock_nil, followedBy]
  conv => rhs; rw [← bind_pure (exec s)]
  refine bind_congr fun flow => ?_
  cases flow <;> rfl

/-! ## Inside a step -/

theorem perform_step_retired {m : Machine σ} (h : m.thread.isRetired = true) (limit : Option Nat) (fuel : Nat) :
    m.perform (step limit fuel) = (.ok .retired, m) := by
  unfold step
  rw [perform_bind_ok (perform_get m), if_pos h]
  rfl

theorem perform_step_unstored {m : Machine σ} (live : m.thread.isRetired = false)
    (h : m.thread.fragment = none) (limit : Option Nat) (fuel : Nat) :
    m.perform (step limit fuel) = (.ok .retired, m.ended) := by
  unfold step
  rw [perform_bind_ok (perform_get m), live, h]
  exact perform_bind_ok (perform_retire live) _

/-- A step finds the thread retired, or finds nothing stored and retires it, or runs labels. -/
theorem perform_step_cases (m : Machine σ) (limit : Option Nat) (fuel : Nat) :
    m.thread.isRetired = true ∧ m.perform (step limit fuel) = (.ok .retired, m) ∨
      m.thread.isRetired = false ∧ m.perform (step limit fuel) = (.ok .retired, m.ended) ∨
      ∃ entry, m.thread.isRetired = false ∧ m.thread.fragment = some entry ∧
        m.perform (step limit fuel) = conclude limit (final (limit.getD fuel) entry m.running) := by
  cases hr : m.thread.isRetired with
  | true => exact .inl ⟨rfl, perform_step_retired hr limit fuel⟩
  | false =>
    cases hf : m.thread.fragment with
    | none => exact .inr (.inl ⟨rfl, perform_step_unstored hr hf limit fuel⟩)
    | some entry => exact .inr (.inr ⟨entry, rfl, rfl, perform_step hr hf limit fuel⟩)

theorem visit_moved (m : Machine σ) (label : Label) : Moved (m.visit label).found (m.visit label).after := by
  obtain ⟨cache, ⟨f, hv⟩ | ⟨body, hv⟩⟩ := visit_cases m label <;> rw [hv]
  · exact .rests _
  · exact execBlock_moved _ body

theorem found_moved {m₀ m : Machine σ} (live : m₀.thread.isRetired = false) (begun : m₀.running = m.fresh)
    (label : Label) : Moved m₀ (m.fresh.visit label).found := by
  have found : ∃ cache, (m.fresh.visit label).found = { m.fresh with cache } := by
    obtain ⟨cache, ⟨f, hv⟩ | ⟨body, hv⟩⟩ := visit_cases m.fresh label <;> exact ⟨cache, by rw [hv]⟩
  obtain ⟨cache, hc⟩ := found
  rw [hc, ← begun]
  exact .looksUp cache live

theorem running_eq_fresh {m : Machine σ} (h : m.thread.status = .running) : m.running = m.fresh := by
  unfold running fresh
  rw [← h]

theorem isChain_visits (n : Nat) {m₀ m : Machine σ} {label : Label} (live : m₀.thread.isRetired = false)
    (begun : m₀.running = m.fresh) :
    List.IsChain Moved (m₀ :: (visits n label m).flatMap fun v => [v.found, v.after]) := by
  have first := found_moved live begun label
  have second := visit_moved m.fresh label
  induction n generalizing m₀ label m with
  | zero => exact .cons_cons first (.cons_cons second (.singleton _))
  | succ n ih =>
    cases hn : (m.fresh.visit label).next? with
    | none =>
      rw [visits_none hn]
      exact .cons_cons first (.cons_cons second (.singleton _))
    | some next =>
      -- a label is left over, so the thread is still running and the next visit starts from here
      have running : (m.fresh.visit label).after.thread.status = .running := by
        rw [status_of_next? hn, ← begun]
        rfl
      have live' := isRetired_of_running running
      have begun' := running_eq_fresh running
      rw [visits_some hn]
      exact .cons_cons first (.cons_cons second
        (ih live' begun' (found_moved live' begun' next) (visit_moved _ next)))

theorem leave_moved {m : Machine σ} (h : m.pending ≠ none → m.thread.isRetired = false) (limit : Option Nat) :
    Moved m (m.leave limit).2 := by
  unfold leave
  cases hp : m.pending with
  | none =>
    simp only
    rw [perform_settle]
    cases hr : m.thread.isRetired with
    | true => exact .rests m
    | false => exact .suspends hr
  | some label =>
    have live := h (by simp [hp])
    cases limit with
    | none => exact .rests m
    | some k =>
      simp only
      rw [perform_settle, if_neg (by exact ne_true_of_eq_false live)]
      exact .holds label live

theorem conclude_moved {v : Visit σ} (h : v.next? ≠ none → v.after.thread.isRetired = false) (limit : Option Nat) :
    Moved v.after (conclude limit v).2 := by
  unfold conclude
  cases hr : v.result with
  | error f => exact .rests _
  | ok flow =>
    refine leave_moved (fun hp => h ?_) limit
    rwa [Visit.next?, hr]

theorem getLast?_seen (n : Nat) (label : Label) (m₀ m : Machine σ) :
    (m₀ :: (visits n label m).flatMap fun v => [v.found, v.after]).getLast? = some (final n label m).after := by
  obtain ⟨before, hb⟩ := List.getLast?_eq_some_iff.mp (getLast?_visits n label m)
  refine List.getLast?_eq_some_iff.mpr
    ⟨m₀ :: ((before.flatMap fun v => [v.found, v.after]) ++ [(final n label m).found]), ?_⟩
  rw [hb]
  simp

theorem isChain_step (m : Machine σ) (limit : Option Nat) (fuel : Nat) :
    List.IsChain Moved (m :: (m.inside (.step limit fuel) ++ [m.handle (.step limit fuel)])) := by
  simp only [inside, handle]
  cases hr : m.thread.isRetired with
  | true =>
    rw [stepVisits, if_pos hr, perform_step_retired hr]
    exact .cons_cons (.rests m) (.singleton m)
  | false =>
    cases hf : m.thread.fragment with
    | none =>
      have none_run : m.stepVisits limit fuel = [] := by simp [stepVisits, hr, hf]
      rw [none_run, perform_step_unstored hr hf]
      exact .cons_cons (.transfers m.world .retire hr .retire) (.singleton _)
    | some entry =>
      rw [stepVisits_eq hr hf, perform_step hr hf, ← List.cons_append]
      refine (isChain_visits _ hr rfl).append (.singleton _) ?_
      rintro m₁ h₁ m₂ h₂
      rw [getLast?_seen] at h₁
      cases h₁
      cases h₂
      refine conclude_moved (fun hn => ?_) limit
      obtain ⟨next, hn⟩ := Option.ne_none_iff_exists'.mp hn
      exact isRetired_of_running (final_status hn)

/-! ## Along a trail -/

theorem handle_moved (m : Machine σ) (request : Request σ) :
    List.IsChain Moved (m :: (m.inside request ++ [m.handle request])) := by
  cases request with
  | step limit fuel => exact isChain_step m limit fuel
  | transfer transfer => exact .cons_cons (make_moved m transfer) (.singleton _)
  | block body => exact .cons_cons (execBlock_moved m body) (.singleton _)
  | stmt s =>
    have h := execBlock_moved m [s]
    rw [execBlock_singleton] at h
    exact .cons_cons h (.singleton _)
  | expr e => exact .cons_cons (.local (eval_local e) m) (.singleton _)
  | context w cache others => exact .cons_cons (.renews m w cache others) (.singleton _)

theorem isChain_trail (requests : List (Request σ)) (m : Machine σ) :
    List.IsChain Moved (m :: trail requests m) := by
  induction requests generalizing m with
  | nil => exact .singleton m
  | cons request rest ih =>
    have first : List.IsChain Moved ((m :: m.inside request) ++ [m.handle request]) := handle_moved m request
    have h := first.append_overlap (ih (m.handle request)) (List.cons_ne_nil _ [])
    simpa [trail] using h

theorem handleAll_mem_trail (requests : List (Request σ)) (m : Machine σ) :
    m.handleAll requests ∈ m :: trail requests m := by
  induction requests generalizing m with
  | nil => exact List.mem_cons_self
  | cons request rest ih =>
    have h := ih (m.handle request)
    rw [trail]
    exact List.mem_cons_of_mem _ (List.mem_append_right _ h)

theorem step_mem_trail {requests : List (Request σ)} {limit : Option Nat} {fuel : Nat} {m m' : Machine σ}
    {r : Except Fault Outcome} (h : (m.handleAll requests).perform (step limit fuel) = (r, m')) :
    m' ∈ m :: trail (requests ++ [.step limit fuel]) m := by
  have hmem := handleAll_mem_trail (requests ++ [.step limit fuel]) m
  have hlast : m.handleAll (requests ++ [.step limit fuel]) = m' := by
    rw [handleAll, List.foldl_append]
    exact congrArg Prod.snd h
  rwa [hlast] at hmem

/-- What every move keeps holds on the whole trail. -/
theorem trail_induction {I : Machine σ → Prop} (keeps : ∀ ⦃m m' : Machine σ⦄, Moved m m' → I m → I m')
    {m : Machine σ} (h : I m) (requests : List (Request σ)) : ∀ s ∈ m :: trail requests m, I s :=
  (isChain_trail requests m).induction I _ keeps fun _ => h

theorem Moved.keeps {m m' : Machine σ} (h : Moved m m') :
    m'.program = m.program ∧ m'.thread.id = m.thread.id ∧ m'.thread.target = m.thread.target := by
  cases h with
  | acts _ | looksUp _ _ | suspends _ | holds _ _ | renews _ _ _ => exact ⟨rfl, rfl, rfl⟩
  | transfers w transfer _ hmade => cases hmade <;> exact ⟨rfl, rfl, rfl⟩

theorem handle_keeps (m : Machine σ) (request : Request σ) :
    (m.handle request).program = m.program ∧ (m.handle request).thread.id = m.thread.id ∧
      (m.handle request).thread.target = m.thread.target := by
  refine trail_induction
    (I := fun s => s.program = m.program ∧ s.thread.id = m.thread.id ∧ s.thread.target = m.thread.target)
    (fun s s' hmoved hs => ?_) ⟨rfl, rfl, rfl⟩ [request] _ (handleAll_mem_trail [request] m)
  obtain ⟨hp, hid, ht⟩ := hmoved.keeps
  exact ⟨hp.trans hs.1, hid.trans hs.2.1, ht.trans hs.2.2⟩

end Machine

end BlockScript
