import BlockScript.Proofs.TransferLimit
import BlockScript.Proofs.Trail

/-!
# Retirement is final and noticed once

A thread retires by a transfer, or in a step that finds nothing stored. Both give one notice and clear
all that the thread could go on with, and from then on nothing that a host can ask for changes the
thread any more (`retirement_final`).
-/

namespace BlockScript

open Machine

namespace Machine

variable {σ : Type}

/-! ## What retirement leaves -/

/-- One notice of the thread has been given if it has retired and none otherwise, not counting the
`earlier` ones; and a retired thread has nothing left to run. -/
structure Noticed (id : ThreadId) (earlier : Nat) (m : Machine σ) : Prop where
  id_eq : m.thread.id = id
  count : m.notices.count id = earlier + if m.thread.isRetired then 1 else 0
  cleared : m.thread.isRetired = true → m.thread = m.thread.markRetired ∧ m.pending = none

section
variable {id : ThreadId} {earlier : Nat} {m m' : Machine σ}

theorem Noticed.of_live (h : m.Noticed id earlier) (live : m.thread.isRetired = false)
    (hid : m'.thread.id = m.thread.id) (live' : m'.thread.isRetired = false) (hn : m'.notices = m.notices) :
    m'.Noticed id earlier := by
  refine ⟨hid.trans h.id_eq, ?_, fun hr => ?_⟩
  · rw [hn, h.count, live, live']
  · rw [live'] at hr
    cases hr

theorem Noticed.ended (h : m.Noticed id earlier) (live : m.thread.isRetired = false) :
    m.ended.Noticed id earlier := by
  refine ⟨h.id_eq, ?_, fun _ => ⟨rfl, rfl⟩⟩
  have retired : m.ended.thread.isRetired = true := rfl
  have count := h.count
  rw [live] at count
  rw [retired, show m.ended.notices = m.notices ++ [m.thread.id] from rfl, h.id_eq, List.count_append,
    List.count_singleton_self, count]
  rfl

theorem Made.noticed {transfer : Transfer} (hmade : Made m transfer m') (live : m.thread.isRetired = false)
    (h : m.Noticed id earlier) : m'.Noticed id earlier := by
  cases hmade with
  | jump _ | atomic _ _ | yield _ _ | call _ _ _ | back _ => exact h.of_live live rfl live rfl
  | unwound _ | retire => exact h.ended live

theorem Noticed.renewed (h : m.Noticed id earlier) (w : World σ) (cache : Cache) (others : List ThreadId) :
    (m.renewed w cache others).Noticed id earlier := by
  refine ⟨h.id_eq, ?_, fun hr => ⟨(h.cleared hr).1, rfl⟩⟩
  have spared : id ∉ others.filter (· ≠ m.thread.id) := by simp [h.id_eq]
  rw [Machine.renewed, List.count_append, List.count_eq_zero_of_not_mem spared]
  exact h.count

theorem Moved.noticed (hmoved : Moved m m') (h : m.Noticed id earlier) : m'.Noticed id earlier := by
  cases hmoved with
  | acts w => exact ⟨h.id_eq, h.count, h.cleared⟩
  | transfers w transfer live hmade => exact hmade.noticed (m := m.withWorld w) live ⟨h.id_eq, h.count, h.cleared⟩
  | looksUp _ live | suspends live | holds _ live => exact h.of_live live rfl rfl rfl
  | renews w cache others => exact h.renewed w cache others

/-! ## Nothing changes a retired thread -/

theorem Moved.thread_of_retired (hmoved : Moved m m') (retired : m.thread.isRetired = true) :
    m'.thread = m.thread := by
  cases hmoved with
  | acts _ | renews _ _ _ => rfl
  | transfers _ _ live _ | looksUp _ live | suspends live | holds _ live =>
    rw [live] at retired
    cases retired

theorem handleAll_of_retired (retired : m.thread.isRetired = true) (later : List (Request σ)) :
    (m.handleAll later).thread = m.thread := by
  refine trail_induction (I := fun s => s.thread = m.thread) (fun s s' hmoved hs => ?_) rfl later _
    (handleAll_mem_trail later m)
  rw [hmoved.thread_of_retired (by rw [hs, retired]), hs]

theorem handleAll_noticed (h : m.Noticed id earlier) (requests : List (Request σ)) :
    (m.handleAll requests).Noticed id earlier :=
  trail_induction (fun _ _ hmoved hs => hmoved.noticed hs) h requests _ (handleAll_mem_trail requests m)

end

/-! ## The status after a step -/

theorem settle_status {m m' : Machine σ} {outcome : Outcome} (h : m.perform settle = (.ok outcome, m')) :
    outcome = .retired ∧ m'.thread.status = .retired ∨ outcome = .suspended ∧ m'.thread.status = .suspended := by
  rw [perform_settle] at h
  cases hr : m.thread.isRetired with
  | true =>
    rw [hr] at h
    cases h
    exact .inl ⟨rfl, of_decide_eq_true hr⟩
  | false =>
    rw [hr] at h
    cases h
    exact .inr ⟨rfl, rfl⟩

theorem conclude_status {limit : Option Nat} {v : Visit σ} {m' : Machine σ} {outcome : Outcome}
    (h : conclude limit v = (.ok outcome, m')) (returns : outcome ≠ .unfinished) :
    outcome = .retired ∧ m'.thread.status = .retired ∨ outcome = .suspended ∧ m'.thread.status = .suspended := by
  unfold conclude at h
  split at h
  · cases h
  · unfold leave at h
    split at h
    · exact settle_status h
    · exact settle_status h
    · cases h
      exact absurd rfl returns

theorem step_status {limit : Option Nat} {fuel : Nat} {m m' : Machine σ} {outcome : Outcome}
    (h : m.perform (step limit fuel) = (.ok outcome, m')) (returns : outcome ≠ .unfinished) :
    outcome = .retired ∧ m'.thread.status = .retired ∨ outcome = .suspended ∧ m'.thread.status = .suspended := by
  obtain ⟨retired, hs⟩ | ⟨-, hs⟩ | ⟨entry, -, -, hs⟩ := perform_step_cases m limit fuel <;> rw [hs] at h
  · cases h
    exact .inl ⟨rfl, of_decide_eq_true retired⟩
  · cases h
    exact .inl ⟨rfl, rfl⟩
  · exact conclude_status h returns

end Machine

/-- A new thread, of which anything has been asked. One notice of it has been given if it has retired,
and none otherwise. Once it has retired nothing is left of it to run and nothing is pending, whatever
is asked of it later; every transfer is refused, every step answers that the thread has retired, and
both leave the machine as it is. A step that returns leaves the status that it answers with. -/
theorem retirement_final {σ : Type} (p : Program) (cache : Cache) (id : ThreadId) (number : Nat) (w : World σ)
    (notices : List ThreadId) (requests : List (Request σ)) :
    let m := (start p cache id number w notices).handleAll requests
    (m.notices.count id = notices.count id + if m.thread.status = .retired then 1 else 0) ∧
      (m.thread.status = .retired → ∀ later : List (Request σ),
        let m' := m.handleAll later
        m'.thread = m.thread ∧ m'.thread.fragment = none ∧ m'.thread.stack = [] ∧ m'.thread.warp = 0 ∧
        m'.pending = none ∧
        (∀ transfer, m'.perform (make transfer) = (.error (.threadRetired id), m')) ∧
        ∀ limit fuel, m'.perform (step limit fuel) = (.ok .retired, m')) ∧
      ∀ limit fuel outcome m', m.perform (step limit fuel) = (.ok outcome, m') → outcome ≠ .unfinished →
        outcome = .retired ∧ m'.thread.status = .retired ∨
          outcome = .suspended ∧ m'.thread.status = .suspended := by
  intro m
  have new : (start p cache id number w notices).Noticed id (notices.count id) := ⟨rfl, rfl, fun hr => by cases hr⟩
  have h : m.Noticed id (notices.count id) := handleAll_noticed new requests
  refine ⟨?_, fun hr later => ?_, fun limit fuel outcome m' => step_status⟩
  · simpa [Thread.isRetired] using h.count
  · intro m'
    have retired : m.thread.isRetired = true := decide_eq_true hr
    have h' : m'.Noticed id (notices.count id) := handleAll_noticed h later
    have same : m'.thread = m.thread := handleAll_of_retired retired later
    have retired' : m'.thread.isRetired = true := by rw [same, retired]
    obtain ⟨cleared, idle⟩ := h'.cleared retired'
    refine ⟨same, ?_, ?_, ?_, idle, fun transfer => ?_, fun limit fuel => perform_step_retired retired' limit fuel⟩
    · rw [cleared]
      rfl
    · rw [cleared]
      rfl
    · rw [cleared]
      rfl
    · rw [perform_make_retired retired', h'.id_eq]

theorem retirement_final_relay :
    let m := (relay true).handleAll [.expr (.lit .null), .step (some 5) 0]
    m.thread.status = .retired ∧ m.notices.count ⟨1⟩ = 1 ∧
      m.perform (make (.jump ⟨0⟩)) = (.error (.threadRetired ⟨1⟩), m) := by
  intro m
  have retired : m.thread.status = .retired := by decide +kernel
  have count : m.notices.count ⟨1⟩ = 0 + if m.thread.status = .retired then 1 else 0 :=
    (retirement_final (relay true).program (relay true).cache ⟨1⟩ 0 .bare []
      [.expr (.lit .null), .step (some 5) 0]).1
  have refused : m.perform (make (.jump ⟨0⟩)) = (.error (.threadRetired ⟨1⟩), m) :=
    ((retirement_final (relay true).program (relay true).cache ⟨1⟩ 0 .bare []
      [.expr (.lit .null), .step (some 5) 0]).2.1 retired []).2.2.2.2.2.1 (.jump ⟨0⟩)
  rw [if_pos retired] at count
  exact ⟨retired, count, refused⟩

end BlockScript
