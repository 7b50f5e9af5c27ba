import BlockScript.Proofs.Lookup
import BlockScript.Proofs.TransferLimit
import BlockScript.Proofs.Trail

/-!
# The warp depth counts the atomic calls

That a thread runs atomically is written down twice: in its warp depth, and in the frames of the calls
that it has not returned from. The two agree on every trail, as long as there are not more calls than
the depth can count (`warp_depth_exact`). So a step without a limit never suspends a thread inside an
atomic call: it ends at a lazy jump made at depth zero, or where a block falls off its end
(`suspends_outside_atomic`). With more calls the depth comes round to zero while all of them are atomic,
and then a lazy jump does suspend the thread (`atomic_calls_uncounted`).
-/

namespace BlockScript

open Machine

/-! ## The accounts of a thread -/

namespace Thread

/-- The depth is the number of atomic calls, and calls made inside an atomic one are atomic. -/
structure Accounted (t : Thread) : Prop where
  depth : t.warp.toNat = t.stack.countP (·.warped)
  nested : t.stack.Pairwise fun later earlier => earlier.warped = true → later.warped = true

theorem isWarp_eq_false {t : Thread} : t.isWarp = false ↔ t.warp = 0 := by
  rw [isWarp, decide_eq_false_iff_not, UInt32.pos_iff_ne_zero, Decidable.not_not]

theorem isWarp_iff_toNat {t : Thread} : t.isWarp = true ↔ 0 < t.warp.toNat := by
  rw [isWarp, decide_eq_true_iff, UInt32.lt_iff_toNat_lt]
  rfl

namespace Accounted

variable {t : Thread}

theorem congr {t' : Thread} (h : t.Accounted) (hs : t'.stack = t.stack) (hw : t'.warp = t.warp) :
    t'.Accounted := by
  refine ⟨?_, ?_⟩
  · rw [hs, hw]
    exact h.depth
  · rw [hs]
    exact h.nested

theorem depth_le (h : t.Accounted) : t.warp.toNat ≤ t.stack.length := by
  rw [h.depth]
  exact List.countP_le_length

theorem isWarp_of_mem (h : t.Accounted) {frame : Frame} (hf : frame ∈ t.stack) (hw : frame.warped = true) :
    t.isWarp = true := by
  rw [isWarp_iff_toNat, h.depth, List.countP_pos_iff]
  exact ⟨frame, hf, hw⟩

theorem not_warped (h : t.Accounted) (outside : t.warp = 0) : ∀ frame ∈ t.stack, frame.warped = false := by
  intro frame hf
  cases hw : frame.warped with
  | false => rfl
  | true =>
    have := h.isWarp_of_mem hf hw
    rw [isWarp_eq_false.mpr outside] at this
    cases this

/-! ## The two operations on the depth -/

theorem toNat_add_one (h : t.Accounted) (room : t.stack.length + 1 < UInt32.size) :
    (t.warp + 1).toNat = t.warp.toNat + 1 :=
  Machine.toNat_add_one (Nat.lt_of_le_of_lt (Nat.succ_le_succ h.depth_le) room)

theorem toNat_lessOne (h : t.Accounted) {frame : Frame} {rest : List Frame} (hs : t.stack = frame :: rest)
    (hw : frame.warped = true) : (lessOne t.warp).toNat + 1 = t.warp.toNat :=
  Machine.toNat_lessOne (isWarp_iff_toNat.mp (h.isWarp_of_mem (hs ▸ List.mem_cons_self) hw))

theorem entered (h : t.Accounted) (callee : Procedure) (args : List Value) (resume : Label)
    (room : t.stack.length + 1 < UInt32.size) : (entered t callee args resume).Accounted := by
  unfold Machine.entered
  constructor
  · simp only [List.countP_cons]
    split
    · rw [h.toNat_add_one room, h.depth]
    · exact h.depth
  · refine List.pairwise_cons.mpr ⟨fun earlier he hw => ?_, h.nested⟩
    simp only [h.isWarp_of_mem he hw, Bool.or_true]

theorem returned (h : t.Accounted) {frame : Frame} {rest : List Frame} (hs : t.stack = frame :: rest) :
    (returned t frame rest).Accounted := by
  have hdepth := h.depth
  have hnested := h.nested
  rw [hs] at hdepth hnested
  unfold Machine.returned
  refine ⟨?_, (List.pairwise_cons.mp hnested).2⟩
  simp only [List.countP_cons] at hdepth ⊢
  cases hw : frame.warped with
  | false => simpa [hw] using hdepth
  | true =>
    have hless := h.toNat_lessOne hs hw
    simp only [hw, if_true] at hdepth ⊢
    omega

theorem markRetired (t : Thread) : t.markRetired.Accounted := ⟨rfl, .nil⟩

end Accounted

end Thread

/-! ## Along a trail -/

namespace Machine

variable {σ : Type}

theorem Made.accounted {m m' : Machine σ} {transfer : Transfer} (hmade : Made m transfer m')
    (h : m.thread.Accounted) (few : m'.thread.stack.length < UInt32.size) : m'.thread.Accounted := by
  cases hmade with
  | jump _ | atomic _ _ | yield _ _ => exact h.congr rfl rfl
  | call args resume _ => exact h.entered _ args resume few
  | back hs => exact h.returned hs
  | unwound _ | retire => exact .markRetired m.thread

theorem Moved.accounted {m m' : Machine σ} (hmoved : Moved m m') (h : m.thread.Accounted)
    (few : m'.thread.stack.length < UInt32.size) : m'.thread.Accounted := by
  cases hmoved with
  | transfers w transfer _ hmade => exact hmade.accounted (m := m.withWorld w) h few
  | acts _ | looksUp _ _ | suspends _ | holds _ _ | renews _ _ _ => exact h.congr rfl rfl

theorem accounted_along {m : Machine σ} (h : m.thread.Accounted) {requests : List (Request σ)}
    {seen : List (Machine σ)} (part : seen <+: m :: trail requests m)
    (few : ∀ s ∈ seen, s.thread.stack.length < UInt32.size) : ∀ s ∈ seen, s.thread.Accounted := by
  have moves : seen.IsChain Moved := by
    have h := isChain_trail requests m
    obtain ⟨rest, hrest⟩ := part
    rw [← hrest] at h
    exact h.left_of_append
  have chain : seen.IsChain fun s s' => Moved s s' ∧ s'.thread.stack.length < UInt32.size :=
    moves.imp_of_mem_imp fun s s' _ hs' hmoved => ⟨hmoved, few s' hs'⟩
  refine chain.induction (·.thread.Accounted) seen (fun s s' hm hs => hm.1.accounted hs hm.2) fun hne => ?_
  -- a part of the trail begins where the trail begins
  rw [part.head hne]
  exact h

end Machine

/-- A new thread, and any part of what it passes in which it never has as many calls as the depth can
count: the depth is the number of atomic calls all the time, calls inside atomic ones are atomic, a
return from an atomic call has something to take off, and there is room to add one for another call. -/
theorem warp_depth_exact {σ : Type} (p : Program) (cache : Cache) (id : ThreadId) (number : Nat) (w : World σ)
    (notices : List ThreadId) (requests : List (Request σ)) {seen : List (Machine σ)}
    (part : seen <+: start p cache id number w notices :: trail requests (start p cache id number w notices))
    (few : ∀ s ∈ seen, s.thread.stack.length < UInt32.size) :
    ∀ s ∈ seen,
      s.thread.warp.toNat = s.thread.stack.countP (·.warped) ∧
      (s.thread.stack.Pairwise fun later earlier => earlier.warped = true → later.warped = true) ∧
      (∀ frame rest, s.thread.stack = frame :: rest → frame.warped = true →
        (lessOne s.thread.warp).toNat + 1 = s.thread.warp.toNat) ∧
      (s.thread.stack.length + 1 < UInt32.size → (s.thread.warp + 1).toNat = s.thread.warp.toNat + 1) := by
  intro s hs
  have h : s.thread.Accounted := accounted_along ⟨rfl, .nil⟩ part few s hs
  refine ⟨h.depth, h.nested, ?_, ?_⟩
  · intro frame rest hstack hw
    exact h.toNat_lessOne hstack hw
  · intro room
    exact h.toNat_add_one room

theorem warp_depth_exact_relay :
    let seen := relay true :: trail [.step (some 0) 0] (relay true)
    (∀ s ∈ seen, s.thread.stack.length < UInt32.size) ∧ (∃ s ∈ seen, s.thread.warp = 1) ∧
      ∀ s ∈ seen, s.thread.warp.toNat = s.thread.stack.countP (·.warped) := by
  intro seen
  have few : ∀ s ∈ seen, s.thread.stack.length < UInt32.size := by decide +kernel
  have inside : ∃ s ∈ seen, s.thread.warp = 1 := by decide +kernel
  refine ⟨few, inside, fun s hs => ?_⟩
  exact (warp_depth_exact _ _ ⟨1⟩ 0 .bare [] [.step (some 0) 0] (List.prefix_refl _) few s hs).1

/-! ## Where a step suspends -/

namespace Machine

variable {σ : Type}

theorem fragment_of_next? {m : Machine σ} (idle : m.pending = none) {label next : Label}
    (h : (m.visit label).next? = some next) :
    (m.visit label).after.thread.fragment = m.thread.fragment := by
  obtain ⟨cache, ⟨f, hv⟩ | ⟨body, hv⟩⟩ := visit_cases m label <;> rw [hv] at h ⊢
  · obtain ⟨w, ⟨f, hb⟩ | hb | ⟨transfer, m', -, hmade, hb⟩⟩ := execBlock_cases { m with cache } body <;>
      rw [hb] at h ⊢
    · rfl
    · rfl
    · have hp : m'.pending = some next := h
      cases hmade with
      | jump _ | atomic _ _ | call _ _ _ | back _ => rfl
      | yield _ _ =>
        rw [show Machine.pending _ = m.pending from rfl, idle] at hp
        cases hp
      | unwound _ | retire => cases hp

theorem exists_last_visit (n : Nat) (label : Label) (m : Machine σ) :
    ∃ (m' : Machine σ) (label' : Label), m'.thread.status = m.thread.status ∧
      m'.thread.fragment = m.thread.fragment ∧ final n label m = m'.fresh.visit label' := by
  induction n generalizing label m with
  | zero => exact ⟨m, label, rfl, rfl, rfl⟩
  | succ n ih =>
    cases hn : (m.fresh.visit label).next? with
    | none => exact ⟨m, label, rfl, rfl, final_none hn _⟩
    | some next =>
      obtain ⟨m', label', hs, hf, hfinal⟩ := ih next (m.fresh.visit label).after
      refine ⟨m', label', ?_, ?_, ?_⟩
      · rw [hs, status_of_next? hn, fresh_thread]
      · rw [hf, fragment_of_next? rfl hn, fresh_thread]
      · rw [final_some hn, hfinal]

/-- A block that leaves a live thread with nothing pending has fallen off its end or has yielded. -/
theorem visit_idle_cases {m : Machine σ} {label : Label} {flow : Flow}
    (ok : (m.visit label).result = .ok flow) (rests : (m.visit label).after.pending = none)
    (live : (m.visit label).after.thread.isRetired = false) :
    (m.visit label).FellOff ∧ (m.visit label).after.thread.fragment = m.thread.fragment ∨
      (m.visit label).result = .ok .transferred ∧ ∃ target,
        (m.visit label).found.EndsBy (m.visit label).body (.jumpLazy target) ∧
        (m.visit label).found.thread.warp = 0 ∧ (m.visit label).after.thread.warp = 0 ∧
        (m.visit label).after.thread.fragment = some target := by
  obtain ⟨cache, ⟨f, hv⟩ | ⟨body, hv⟩⟩ := visit_cases m label <;> rw [hv] at ok rests live ⊢ <;>
    simp only at ok rests live ⊢
  · cases ok
  · obtain ⟨w, ⟨f, hb⟩ | hb | ⟨transfer, m', hends, hmade, hb⟩⟩ := execBlock_cases { m with cache } body <;>
      rw [hb] at ok rests live ⊢
    · cases ok
    · exact .inl ⟨by rw [Visit.FellOff], rfl⟩
    · refine .inr ⟨rfl, ?_⟩
      cases hmade with
      | jump _ | atomic _ _ | call _ _ _ | back _ => cases rests
      | unwound _ | retire => cases live
      | yield target outside =>
        have hw := Thread.isWarp_eq_false.mp outside
        exact ⟨target, hends, hw, hw, rfl⟩

theorem EndsBy.not_next {m : Machine σ} {body : Block} {transfer : Transfer} (h : m.EndsBy body transfer) :
    (m.perform (execBlock body)).1 ≠ .ok .next := by
  rcases ha : m.perform (approachBlock body) with ⟨r, m₁⟩
  have hr : r = .ok (some transfer) := by
    rw [← h.2, ha]
  subst hr
  rw [perform_execBlock_some ha]
  cases (m₁.perform (make transfer)).1 with
  | error f => simp [Except.map]
  | ok u => simp [Except.map]

theorem visit_not_endsBy {m : Machine σ} {label : Label} (h : (m.visit label).FellOff) (transfer : Transfer) :
    ¬ (m.visit label).found.EndsBy (m.visit label).body transfer := by
  intro hends
  obtain ⟨cache, ⟨f, hv⟩ | ⟨body, hv⟩⟩ := visit_cases m label <;> rw [hv] at h hends
  · cases h
  · exact hends.not_next h

theorem conclude_suspended {v : Visit σ} {m' : Machine σ} (h : conclude none v = (.ok .suspended, m')) :
    (∃ flow, v.result = .ok flow) ∧ v.after.pending = none ∧ v.after.thread.isRetired = false ∧
      m' = v.after.suspended := by
  unfold conclude at h
  cases hr : v.result with
  | error f =>
    rw [hr] at h
    cases h
  | ok flow =>
    rw [hr] at h
    simp only [leave] at h
    cases hp : v.after.pending with
    | some label =>
      rw [hp] at h
      cases h
    | none =>
      rw [hp] at h
      simp only [perform_settle] at h
      cases hl : v.after.thread.isRetired with
      | true =>
        rw [hl] at h
        cases h
      | false =>
        rw [hl] at h
        cases h
        exact ⟨⟨flow, rfl⟩, rfl, rfl, rfl⟩

theorem step_suspended {m m' : Machine σ} {fuel : Nat}
    (h : m.perform (step none fuel) = (.ok .suspended, m')) :
    m.thread.isRetired = false ∧ ∃ entry, m.thread.fragment = some entry := by
  obtain ⟨-, hs⟩ | ⟨-, hs⟩ | ⟨entry, live, stored, -⟩ := perform_step_cases m none fuel
  · rw [hs] at h
    cases h
  · rw [hs] at h
    cases h
  · exact ⟨live, entry, stored⟩

end Machine

/-- A step without a limit that suspends a new thread, of which anything may have been asked before.
Either its last block ended in a lazy jump at depth zero: then the label of the jump is stored, the
depth is zero, and if there were never more calls than the depth can count, none of them is atomic. Or
its last block fell off its end: then the stored label is the one that the step began with. -/
theorem suspends_outside_atomic {σ : Type} (p : Program) (cache : Cache) (id : ThreadId) (number : Nat)
    (w : World σ) (notices : List ThreadId) (requests : List (Request σ)) (fuel : Nat) :
    let new := start p cache id number w notices
    let m := new.handleAll requests
    ∀ m', m.perform (step none fuel) = (.ok .suspended, m') →
      ∃ v, (m.stepVisits none fuel).getLast? = some v ∧
        ((∃ label, v.found.EndsBy v.body (.jumpLazy label) ∧ v.found.thread.warp = 0 ∧
            m'.thread.warp = 0 ∧ m'.thread.fragment = some label ∧
            ((∀ s ∈ trail (requests ++ [.step none fuel]) new, s.thread.stack.length < UInt32.size) →
              ∀ frame ∈ m'.thread.stack, frame.warped = false)) ∧ ¬ v.FellOff ∨
          v.FellOff ∧ m'.thread.fragment = m.thread.fragment ∧
            ¬ ∃ label, v.found.EndsBy v.body (.jumpLazy label)) := by
  intro new m m' suspends
  obtain ⟨live, entry, stored⟩ := step_suspended suspends
  have hconclude := suspends
  rw [perform_step live stored] at hconclude
  obtain ⟨⟨flow, ok⟩, rests, live', rfl⟩ := conclude_suspended hconclude
  refine ⟨final fuel entry m.running, ?_, ?_⟩
  · rw [stepVisits_eq live stored]
    exact getLast?_visits fuel entry m.running
  obtain ⟨m₁, label, -, hfragment, hfinal⟩ := exists_last_visit fuel entry m.running
  simp only [Option.getD_none, hfinal] at suspends ok rests live' ⊢
  obtain ⟨fell, hkept⟩ | ⟨transferred, target, hends, outside, depth, hstored⟩ := visit_idle_cases ok rests live'
  · refine .inr ⟨fell, ?_, ?_⟩
    · exact hkept.trans hfragment
    · rintro ⟨target, hends⟩
      exact visit_not_endsBy fell _ hends
  · refine .inl ⟨⟨target, hends, outside, depth, hstored, fun few => ?_⟩, ?_⟩
    · have passed := step_mem_trail suspends
      have few' : ∀ s ∈ new :: trail (requests ++ [.step none fuel]) new,
          s.thread.stack.length < UInt32.size := by
        intro s hs
        rcases List.mem_cons.mp hs with rfl | hs
        · exact Nat.zero_lt_succ _
        · exact few s hs
      exact (accounted_along ⟨rfl, .nil⟩ (List.prefix_refl _) few' _ passed).not_warped depth
    · intro fell
      rw [Visit.FellOff, transferred] at fell
      cases fell

theorem suspends_outside_atomic_relay :
    let m' := ((relay false).perform (step none 1)).2
    (relay false).perform (step none 1) = (.ok .suspended, m') ∧ m'.thread.stack.length = 1 ∧
      m'.thread.fragment = some ⟨2⟩ ∧ ∀ frame ∈ m'.thread.stack, frame.warped = false := by
  intro m'
  have hr : ((relay false).perform (step none 1)).1.toOption = some .suspended := by decide +kernel
  have suspends : (relay false).perform (step none 1) = (.ok .suspended, m') := by
    refine Prod.ext ?_ rfl
    cases h : ((relay false).perform (step none 1)).1 with
    | error f => rw [h] at hr; cases hr
    | ok outcome => rw [h] at hr; cases hr; rfl
  have few : ∀ s ∈ trail [.step none 1] (relay false), s.thread.stack.length < UInt32.size := by decide +kernel
  have moved_on : m'.thread.fragment ≠ (relay false).thread.fragment := by decide +kernel
  obtain ⟨v, -, ⟨⟨label, -, -, -, -, hcalls⟩, -⟩ | ⟨-, hkept, -⟩⟩ :=
    suspends_outside_atomic _ _ ⟨1⟩ 0 .bare [] [] 1 m' suspends
  · exact ⟨suspends, by decide +kernel, by decide +kernel, hcalls few⟩
  · exact absurd hkept moved_on

/-! ## More calls than the depth counts -/

/-- An atomic procedure is called, which jumps lazily to where the same call is made again. -/
def spiralProgram : Program :=
  ⟨⟨0⟩, #[.fragment [.call ⟨0⟩ [] ⟨0⟩], .fragment [.jumpLazy ⟨2⟩], .fragment [.call ⟨0⟩ [] ⟨0⟩]],
    #[⟨"spiral", ⟨1⟩, true⟩]⟩

/-- A new thread of the program, all blocks of which have been built. -/
def spiral : Machine Unit :=
  start spiralProgram ⟨#[some [.call ⟨0⟩ [] ⟨0⟩], some [.jumpLazy ⟨2⟩], some [.call ⟨0⟩ [] ⟨0⟩]]⟩ ⟨1⟩ 0 .bare []

def spiralIn (calls : Nat) : Machine Unit :=
  { spiral.running with
    thread.stack := List.replicate calls ⟨[], ⟨0⟩, true⟩
    thread.warp := .ofNat calls }

theorem visit_spiral_call (calls : Nat) {label : Label} (h : label = ⟨0⟩ ∨ label = ⟨2⟩) :
    (spiralIn calls).visit label =
      ⟨label, spiralIn calls, [.call ⟨0⟩ [] ⟨0⟩], .ok .transferred,
        { spiralIn (calls + 1) with pending := some ⟨1⟩ }⟩ := by
  have found : (spiralIn calls).perform (block label) = (.ok [.call ⟨0⟩ [] ⟨0⟩], spiralIn calls) := by
    rw [perform_block, Program.block, Program.run_resolve]
    rcases h with rfl | rfl <;> rfl
  have counted : UInt32.ofNat (calls + 1) = UInt32.ofNat calls + 1 := UInt32.ofNat_add calls 1
  rw [visit, found]
  unfold spiralIn
  rw [counted]
  rfl

theorem visit_spiral_jump (calls : Nat) :
    (spiralIn calls).visit ⟨1⟩ =
      ⟨⟨1⟩, spiralIn calls, [.jumpLazy ⟨2⟩], .ok .transferred,
        if (spiralIn calls).thread.isWarp then { spiralIn calls with pending := some ⟨2⟩ }
        else { spiralIn calls with thread.fragment := some ⟨2⟩ }⟩ := by
  have found : (spiralIn calls).perform (block ⟨1⟩) = (.ok [.jumpLazy ⟨2⟩], spiralIn calls) := by
    rw [perform_block, Program.block, Program.run_resolve]
    rfl
  have comes : (spiralIn calls).perform (approachBlock [.jumpLazy ⟨2⟩]) =
      (.ok (some (.jumpLazy ⟨2⟩)), spiralIn calls) := rfl
  rw [visit, found]
  simp only [perform_execBlock_some comes, perform_make (show (spiralIn calls).thread.isRetired = false from rfl)]
  rw [made]
  split <;> rfl

/-- As long as the calls can be counted, each of them leads to the next. -/
theorem final_spiral {calls more : Nat} (room : calls + more < UInt32.size) :
    final (2 * more) ⟨1⟩ (spiralIn (calls + 1)) = (spiralIn (calls + 1 + more)).visit ⟨1⟩ := by
  induction more generalizing calls with
  | zero => rfl
  | succ more ih =>
    have atomic : (spiralIn (calls + 1)).thread.isWarp = true := by
      rw [Thread.isWarp_iff_toNat]
      show 0 < (UInt32.ofNat (calls + 1)).toNat
      rw [UInt32.toNat_ofNat_of_lt' (by omega)]
      exact Nat.succ_pos calls
    have jumped := visit_spiral_jump (calls + 1)
    rw [if_pos atomic] at jumped
    have called := visit_spiral_call (calls + 1) (.inr rfl)
    calc final (2 * more + 2) ⟨1⟩ (spiralIn (calls + 1))
      _ = final (2 * more + 1) ⟨2⟩ (spiralIn (calls + 1)) := final_turn jumped rfl rfl _
      _ = final (2 * more) ⟨1⟩ (spiralIn (calls + 2)) := final_turn called rfl rfl _
      _ = (spiralIn (calls + 2 + more)).visit ⟨1⟩ := ih (by omega)
      _ = (spiralIn (calls + 1 + (more + 1))).visit ⟨1⟩ := by
        congr 2
        omega

theorem spiral_suspends {calls fuel : Nat} (uncounted : (spiralIn calls).thread.warp = 0)
    (last : final fuel ⟨0⟩ spiral.running = (spiralIn calls).visit ⟨1⟩) :
    spiral.perform (step none fuel) =
        (.ok .suspended, ({ spiralIn calls with thread.fragment := some ⟨2⟩ } : Machine Unit).suspended) ∧
      ∃ v, (spiral.stepVisits none fuel).getLast? = some v ∧ v.found.EndsBy v.body (.jumpLazy ⟨2⟩) ∧
        v.found.thread.warp = 0 := by
  have yielded := visit_spiral_jump calls
  rw [if_neg (by rw [Thread.isWarp_eq_false.mpr uncounted]; decide)] at yielded
  rw [yielded] at last
  constructor
  · rw [perform_step rfl rfl]
    show conclude none (final fuel ⟨0⟩ spiral.running) = _
    rw [last]
    rfl
  · have recorded := getLast?_visits fuel ⟨0⟩ spiral.running
    rw [last] at recorded
    exact ⟨_, recorded, ⟨rfl, rfl⟩, uncounted⟩

/-- The bound on the calls is needed: the first step of a new thread is suspended by a lazy jump at depth
zero in as many calls as a word has values, all of them atomic. -/
theorem atomic_calls_uncounted :
    ∃ fuel m', spiral.perform (step none fuel) = (.ok .suspended, m') ∧
      (∃ v, (spiral.stepVisits none fuel).getLast? = some v ∧ v.found.EndsBy v.body (.jumpLazy ⟨2⟩) ∧
        v.found.thread.warp = 0) ∧
      spiral.thread.fragment = some ⟨0⟩ ∧ m'.thread.fragment = some ⟨2⟩ ∧ m'.thread.warp = 0 ∧
      m'.thread.stack.length = UInt32.size ∧ ∀ frame ∈ m'.thread.stack, frame.warped = true := by
  obtain ⟨more, size⟩ : ∃ more, UInt32.size = 0 + 1 + more := ⟨UInt32.size - 1, rfl⟩
  have last : final (2 * more + 1) ⟨0⟩ spiral.running = (spiralIn UInt32.size).visit ⟨1⟩ := by
    rw [size, ← final_spiral (by omega)]
    exact final_turn (visit_spiral_call 0 (.inl rfl)) rfl rfl _
  have uncounted : (spiralIn UInt32.size).thread.warp = 0 := rfl
  obtain ⟨suspends, yields⟩ := spiral_suspends uncounted last
  refine ⟨_, _, suspends, yields, rfl, rfl, uncounted, List.length_replicate, fun frame mem => ?_⟩
  rw [List.eq_of_mem_replicate mem]

end BlockScript
