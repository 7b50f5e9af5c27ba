import BlockScript.Proofs.Resumption

/-!
# Yielding is transparent

A lazy jump before a marker, with the continuation after the marker as the place to go on, does not
change what a block computes: running the block up to the lazy jump and then the continuation is
running the block without the lazy jump (`yield_transparent`). The two runs can only differ in the
stored label, which no statement reads, and they agree on it too when the continuation stores a
label of its own or retires the thread.
-/

namespace BlockScript

open Continuation

namespace Machine

variable {σ : Type}

/-! ## Coming to a place -/

/-- Running the block around the place from `m` comes to the place, with the machine `m'` by then:
what stands before it falls through, and every test around it chooses its arm. -/
inductive Reaches : Place → Machine σ → Machine σ → Prop
  | here {before after : Block} {m m' : Machine σ} :
      m.perform (execBlock before) = (.ok .next, m') → Reaches (.here before after) m m'
  | inYes {before no after : Block} {test : Expr} {inner : Place} {v : Value} {m m₁ m₂ m' : Machine σ} :
      m.perform (execBlock before) = (.ok .next, m₁) → m₁.perform (eval test) = (.ok v, m₂) →
      v.toBool = true → Reaches inner m₂ m' → Reaches (.inYes before test inner no after) m m'
  | inNo {before yes after : Block} {test : Expr} {inner : Place} {v : Value} {m m₁ m₂ m' : Machine σ} :
      m.perform (execBlock before) = (.ok .next, m₁) → m₁.perform (eval test) = (.ok v, m₂) →
      v.toBool = false → Reaches inner m₂ m' → Reaches (.inNo before test yes inner after) m m'

theorem perform_followedBy (m : Machine σ) (x y : Exec σ Flow) :
    m.perform (followedBy x y) =
      match m.perform x with
      | (.ok .next, m') => m'.perform y
      | (.ok .transferred, m') => (.ok .transferred, m')
      | (.error f, m') => (.error f, m') := by
  unfold followedBy
  rw [perform_bind]
  rcases m.perform x with ⟨_ | _ | _, m'⟩ <;> rfl

theorem perform_followedBy_next {m m' : Machine σ} {x : Exec σ Flow} (h : m.perform x = (.ok .next, m'))
    (y : Exec σ Flow) : m.perform (followedBy x y) = m'.perform y := by
  rw [perform_followedBy, h]

theorem perform_followedBy_congr {m m' : Machine σ} {x x' : Exec σ Flow} (h : m.perform x = m'.perform x')
    (y : Exec σ Flow) : m.perform (followedBy x y) = m'.perform (followedBy x' y) := by
  rw [perform_followedBy, perform_followedBy, h]

theorem perform_followedBy_congr_right {m : Machine σ} {x y y' : Exec σ Flow}
    (h : ∀ m', m.perform x = (.ok .next, m') → m'.perform y = m'.perform y') :
    m.perform (followedBy x y) = m.perform (followedBy x y') := by
  rw [perform_followedBy, perform_followedBy]
  rcases hx : m.perform x with ⟨_ | _ | _, m'⟩
  · rfl
  · exact h m' hx
  · rfl

theorem perform_branch_yes {m m' : Machine σ} {test : Expr} {v : Value} (ht : m.perform (eval test) = (.ok v, m'))
    (hv : v.toBool = true) (yes no : Block) :
    m.perform (exec (.branch test yes no)) = m'.perform (execBlock yes) := by
  rw [exec, perform_bind_ok ht, if_pos hv]

theorem perform_branch_no {m m' : Machine σ} {test : Expr} {v : Value} (ht : m.perform (eval test) = (.ok v, m'))
    (hv : v.toBool = false) (yes no : Block) :
    m.perform (exec (.branch test yes no)) = m'.perform (execBlock no) := by
  rw [exec, perform_bind_ok ht, hv]
  rfl

theorem perform_branch_congr {m : Machine σ} {test : Expr} {yes yes' no no' : Block}
    (hy : ∀ v m', m.perform (eval test) = (.ok v, m') → v.toBool = true →
      m'.perform (execBlock yes) = m'.perform (execBlock yes'))
    (hn : ∀ v m', m.perform (eval test) = (.ok v, m') → v.toBool = false →
      m'.perform (execBlock no) = m'.perform (execBlock no')) :
    m.perform (exec (.branch test yes no)) = m.perform (exec (.branch test yes' no')) := by
  rcases ht : m.perform (eval test) with ⟨f | v, m'⟩
  · rw [exec, exec, perform_bind_error ht, perform_bind_error ht]
  · cases hv : v.toBool with
    | true => rw [perform_branch_yes ht hv, perform_branch_yes ht hv, hy v m' ht hv]
    | false => rw [perform_branch_no ht hv, perform_branch_no ht hv, hn v m' ht hv]

theorem perform_fill_of_reaches {place : Place} {m m' : Machine σ} (h : Reaches place m m') (hole : Block) :
    m.perform (execBlock (place.fill hole)) = m'.perform (followedBy (execBlock hole) (resume place)) := by
  induction h with
  | here run =>
    rw [Place.fill, execBlock_append, perform_followedBy_next run, execBlock_append]
    rfl
  | inYes run ht hv _ ih =>
    rw [Place.fill, execBlock_append, perform_followedBy_next run, execBlock_cons,
      perform_followedBy_congr ((perform_branch_yes ht hv _ _).trans ih), followedBy_assoc]
    rfl
  | inNo run ht hv _ ih =>
    rw [Place.fill, execBlock_append, perform_followedBy_next run, execBlock_cons,
      perform_followedBy_congr ((perform_branch_no ht hv _ _).trans ih), followedBy_assoc]
    rfl

theorem perform_fill_of_missed {place : Place} {m : Machine σ} (h : ∀ m', ¬ Reaches place m m')
    (hole hole' : Block) :
    m.perform (execBlock (place.fill hole)) = m.perform (execBlock (place.fill hole')) := by
  induction place generalizing m with
  | here before after =>
    simp only [Place.fill, execBlock_append]
    exact perform_followedBy_congr_right fun m₁ hb => absurd (.here hb) (h m₁)
  | inYes before test inner no after ih =>
    simp only [Place.fill, execBlock_append, execBlock_cons]
    refine perform_followedBy_congr_right fun m₁ hb => perform_followedBy_congr ?_ _
    refine perform_branch_congr (fun v m₂ ht hv => ?_) fun _ _ _ _ => rfl
    exact ih fun m' hr => h m' (.inYes hb ht hv hr)
  | inNo before test yes inner after ih =>
    simp only [Place.fill, execBlock_append, execBlock_cons]
    refine perform_followedBy_congr_right fun m₁ hb => perform_followedBy_congr ?_ _
    refine perform_branch_congr (fun _ _ _ _ => rfl) fun v m₂ ht hv => ?_
    exact ih fun m' hr => h m' (.inNo hb ht hv hr)

theorem Reaches.frame {place : Place} {m m' : Machine σ} (h : Reaches place m m') : m' = m.withWorld m'.world := by
  have tested {m m' : Machine σ} {test : Expr} {v : Value} (ht : m.perform (eval test) = (.ok v, m')) :
      m' = m.withWorld m'.world := by
    have := (eval_local test).frame m
    rwa [ht] at this
  induction h with
  | here run => exact execBlock_next_frame run
  | inYes run ht _ _ ih =>
    rw [ih, tested ht, execBlock_next_frame run]
    rfl
  | inNo run ht _ _ ih =>
    rw [ih, tested ht, execBlock_next_frame run]
    rfl

/-! ## The stored label is never read -/

def withFragment (m : Machine σ) (fragment : Option Label) : Machine σ :=
  { m with thread.fragment := fragment }

@[simp] theorem withFragment_withFragment (m : Machine σ) (f g : Option Label) :
    (m.withFragment f).withFragment g = m.withFragment g := rfl

@[simp] theorem withFragment_self (m : Machine σ) : m.withFragment m.thread.fragment = m := rfl

theorem sameView_withFragment (m : Machine σ) (f : Option Label) : SameView m (m.withFragment f) := ⟨rfl, rfl⟩

theorem Local.withFragment {α : Type} {x : Exec σ α} (hx : Local x) (m : Machine σ) (f : Option Label) :
    (m.withFragment f).perform x = ((m.perform x).1, (m.perform x).2.withFragment f) := by
  rw [hx m _ (sameView_withFragment m f)]
  conv => rhs; rw [hx.frame m]
  rfl

theorem made_withFragment (m : Machine σ) (f : Option Label) (transfer : Transfer) :
    ∃ g, made (m.withFragment f) transfer = ((made m transfer).1, (made m transfer).2.withFragment g) ∧
      (transfer.yields m.thread = true ∨ transfer.retires m.thread = true →
        g = (made m transfer).2.thread.fragment) := by
  cases transfer with
  | jump label => exact ⟨f, rfl, by simp [Transfer.yields, Transfer.retires]⟩
  | jumpLazy label =>
    cases hw : m.thread.isWarp with
    | true =>
      have hw' : (m.withFragment f).thread.isWarp = true := hw
      refine ⟨f, ?_, by simp [Transfer.yields, Transfer.retires, hw]⟩
      rw [made, made, if_pos hw, if_pos hw']
      rfl
    | false =>
      have hw' : (m.withFragment f).thread.isWarp = false := hw
      refine ⟨some label, ?_, fun _ => ?_⟩
      · rw [made, made, hw, hw']
        rfl
      · rw [made, hw]
        rfl
  | call procedure args resume =>
    refine ⟨f, ?_, by simp [Transfer.yields, Transfer.retires]⟩
    simp only [made, withFragment]
    cases m.program.procedure procedure <;> rfl
  | finish =>
    cases hs : m.thread.stack with
    | nil =>
      refine ⟨none, ?_, fun _ => ?_⟩
      · simp [made, withFragment, hs, ended, Thread.markRetired]
      · simp [made, hs, ended, Thread.markRetired]
    | cons frame rest =>
      refine ⟨f, ?_, by simp [Transfer.yields, Transfer.retires, hs]⟩
      simp only [made, withFragment, hs]
      rfl
  | retire => exact ⟨none, rfl, fun _ => rfl⟩

theorem endsBy_withFragment (m : Machine σ) (f : Option Label) (body : Block) (transfer : Transfer) :
    (m.withFragment f).EndsBy body transfer ↔ m.EndsBy body transfer := by
  unfold EndsBy
  rw [(approachBlock_local body).withFragment m f]
  rfl

theorem yields_withFragment (m : Machine σ) (f : Option Label) (body : Block) :
    (m.withFragment f).Yields body ↔ m.Yields body := by
  refine exists_congr fun transfer => and_congr (endsBy_withFragment m f body transfer) ?_
  cases transfer <;> rfl

theorem retires_withFragment (m : Machine σ) (f : Option Label) (body : Block) :
    (m.withFragment f).Retires body ↔ m.Retires body := by
  refine exists_congr fun transfer => and_congr (endsBy_withFragment m f body transfer) ?_
  cases transfer <;> rfl

theorem perform_make_withFragment (m : Machine σ) (f : Option Label) (transfer : Transfer) :
    ∃ g, (m.withFragment f).perform (make transfer) =
        ((m.perform (make transfer)).1, (m.perform (make transfer)).2.withFragment g) ∧
      (m.thread.isRetired = false → transfer.yields m.thread = true ∨ transfer.retires m.thread = true →
        g = (m.perform (make transfer)).2.thread.fragment) := by
  cases hr : m.thread.isRetired with
  | true =>
    have hr' : (m.withFragment f).thread.isRetired = true := hr
    refine ⟨f, ?_, fun h => by cases h⟩
    rw [perform_make_retired hr, perform_make_retired hr']
    rfl
  | false =>
    have hr' : (m.withFragment f).thread.isRetired = false := hr
    rw [perform_make hr, perform_make hr']
    obtain ⟨g, hg, hs⟩ := made_withFragment m f transfer
    exact ⟨g, hg, fun _ => hs⟩

/-- Runs of a block from machines that differ in the stored label alone differ in nothing else, and
not in the label either if the run yields or retires. -/
theorem perform_execBlock_withFragment (m : Machine σ) (f : Option Label) (body : Block) :
    ∃ g, (m.withFragment f).perform (execBlock body) =
        ((m.perform (execBlock body)).1, (m.perform (execBlock body)).2.withFragment g) ∧
      (m.Yields body ∨ m.Retires body → g = (m.perform (execBlock body)).2.thread.fragment) := by
  have ha' := (approachBlock_local body).withFragment m f
  have ht := (approachBlock_local body).thread_eq m
  rcases ha : m.perform (approachBlock body) with ⟨fault | _ | transfer, m₁⟩ <;> rw [ha] at ha' ht
  · refine ⟨f, ?_, ?_⟩
    · rw [perform_execBlock_error ha, perform_execBlock_error ha']
    · rintro (⟨_, ⟨-, h⟩, -⟩ | ⟨_, ⟨-, h⟩, -⟩) <;> rw [ha] at h <;> cases h
  · refine ⟨f, ?_, ?_⟩
    · rw [perform_execBlock_none ha, perform_execBlock_none ha']
    · rintro (⟨_, ⟨-, h⟩, -⟩ | ⟨_, ⟨-, h⟩, -⟩) <;> rw [ha] at h <;> cases h
  · obtain ⟨g, hg, hs⟩ := perform_make_withFragment m₁ f transfer
    simp only at ht
    rw [ht] at hs
    refine ⟨g, ?_, ?_⟩
    · rw [perform_execBlock_some ha, perform_execBlock_some ha', hg]
    · rw [perform_execBlock_some ha]
      rintro (⟨_, ⟨live, h⟩, hy⟩ | ⟨_, ⟨live, h⟩, hy⟩) <;> rw [ha] at h <;> cases h
      · exact hs live (.inl hy)
      · exact hs live (.inr hy)

/-! ## Transparency -/

theorem perform_jumpLazy_fresh {m : Machine σ} (live : m.thread.isRetired = false) (idle : m.pending = none)
    (label : Label) :
    ∃ f, (m.perform (exec (.jumpLazy label))).1 = .ok .transferred ∧
      (m.perform (exec (.jumpLazy label))).2.fresh = m.withFragment f := by
  have hm : m.fresh = m := by rw [fresh, ← idle]
  have he : m.perform (exec (.jumpLazy label)) =
      ((m.perform (make (.jumpLazy label))).1.map fun _ => .transferred,
        (m.perform (make (.jumpLazy label))).2) := by
    rw [exec, perform_bind, make]
    rcases m.perform (jumpLazy label) with ⟨_ | _, m₁⟩ <;> rfl
  rw [he, perform_make live, made]
  split
  · exact ⟨m.thread.fragment, rfl, hm⟩
  · refine ⟨some label, rfl, ?_⟩
    show m.fresh.withFragment (some label) = _
    rw [hm]

end Machine

def Place.past (s : Stmt) : Place → Place
  | .here before after => .here (before ++ [s]) after
  | .inYes before test inner no after => .inYes before test (inner.past s) no after
  | .inNo before test yes inner after => .inNo before test yes (inner.past s) after

theorem Place.fill_past (s : Stmt) (hole : Block) (place : Place) :
    (place.past s).fill hole = place.fill (s :: hole) := by
  induction place with
  | here before after => simp [past, fill]
  | inYes before test inner no after ih => rw [past, fill, fill, ih]
  | inNo before test yes inner after ih => rw [past, fill, fill, ih]

theorem Place.rest_past (s : Stmt) (place : Place) : (place.past s).rest = place.rest := by
  induction place with
  | here before after => rfl
  | inYes before test inner no after ih => rw [past, rest, rest, ih]
  | inNo before test yes inner after ih => rw [past, rest, rest, ih]

open Machine in
/-- A block with a lazy jump just before the one occurrence of a marker. A run that does not come to
the lazy jump is the same without it. After one that does, the continuation does the rest of what
the block does without the lazy jump, in or out of atomic code. -/
theorem yield_transparent {σ : Type} (marker : Marker) (label : Label) (place : Place) (m : Machine σ)
    (once : occurrences marker (place.fill [.jumpLazy label, .marker marker]) = 1)
    (live : m.thread.isRetired = false) (idle : m.pending = none) :
    ((∀ m', ¬ Reaches place m m') →
      m.perform (execBlock (place.fill [.jumpLazy label, .marker marker])) =
        m.perform (execBlock (place.fill [.marker marker]))) ∧
    (∀ m', Reaches place m m' →
      ∃ body, synthesize? marker (place.fill [.jumpLazy label, .marker marker]) = some body ∧
        let yielded := m.perform (execBlock (place.fill [.jumpLazy label, .marker marker]))
        let resumed := yielded.2.fresh.perform (execBlock body)
        let whole := m.perform (execBlock (place.fill [.marker marker]))
        yielded.1 = .ok .transferred ∧
        resumed.1 = whole.1 ∧
        (∃ fragment, resumed.2 = whole.2.withFragment fragment) ∧
        (yielded.2.fresh.Yields body ∨ yielded.2.fresh.Retires body → resumed.2 = whole.2)) := by
  refine ⟨fun missed => perform_fill_of_missed missed _ _, fun m' reached => ?_⟩
  have first : (place.past (.jumpLazy label)).IsFirst marker (place.fill [.jumpLazy label, .marker marker]) := by
    rw [← Place.fill_past] at once ⊢
    exact Place.isFirst_of_once once
  have hbody : (execBlock (reachable place.rest).body : Exec σ Flow) = resume place := by
    rw [execBlock_reachable, execBlock_rest]
  have hyielded : m.perform (execBlock (place.fill [.jumpLazy label, .marker marker])) =
      m'.perform (exec (.jumpLazy label)) := by
    rw [perform_fill_of_reaches reached, execBlock_cons, followedBy_assoc, followedBy_transfer rfl]
  have hwhole : m.perform (execBlock (place.fill [.marker marker])) =
      m'.perform (execBlock (reachable place.rest).body) := by
    rw [perform_fill_of_reaches reached, execBlock_marker, followedBy_next, hbody]
  -- on the way to the lazy jump neither the thread nor the pending label has changed
  have live' : m'.thread.isRetired = false := by rw [reached.frame]; exact live
  have idle' : m'.pending = none := by rw [reached.frame]; exact idle
  obtain ⟨f, hflow, hfresh⟩ := perform_jumpLazy_fresh live' idle' label
  obtain ⟨g, hrun, hstored⟩ := perform_execBlock_withFragment m' f (reachable place.rest).body
  refine ⟨(reachable place.rest).body, ?_, ?_⟩
  · rw [synthesize?, after?_of_isFirst first, Place.rest_past]
    rfl
  · simp only
    rw [hyielded, hwhole, hfresh, hrun, yields_withFragment, retires_withFragment]
    refine ⟨hflow, rfl, ⟨g, rfl⟩, fun h => ?_⟩
    rw [hstored h, withFragment_self]

open Machine in
theorem yield_transparent_inYes :
    let place : Place := .inYes [] (.lit (.bool true)) (.here [.marker ⟨5⟩] [.marker ⟨6⟩]) [.finish] [.retire]
    let m : Machine Unit := start ⟨⟨0⟩, #[], #[]⟩ ⟨#[]⟩ ⟨1⟩ 0 .bare []
    (occurrences ⟨7⟩ (place.fill [.jumpLazy ⟨3⟩, .marker ⟨7⟩]) = 1 ∧ m.thread.isRetired = false ∧
      m.pending = none) ∧
    ∃ body, synthesize? ⟨7⟩ (place.fill [.jumpLazy ⟨3⟩, .marker ⟨7⟩]) = some body ∧
      ((m.perform (execBlock (place.fill [.jumpLazy ⟨3⟩, .marker ⟨7⟩]))).2.fresh.perform (execBlock body)).1 =
        (m.perform (execBlock (place.fill [.marker ⟨7⟩]))).1 := by
  intro place m
  have once : occurrences ⟨7⟩ (place.fill [.jumpLazy ⟨3⟩, .marker ⟨7⟩]) = 1 := by decide
  have reached : Reaches place m m := .inYes rfl rfl rfl (.here rfl)
  obtain ⟨body, hbody, -, hflow, -⟩ := (yield_transparent ⟨7⟩ ⟨3⟩ place m once rfl rfl).2 m reached
  exact ⟨⟨once, rfl, rfl⟩, body, hbody, hflow⟩

end BlockScript
