import BlockScript.Proofs.Ending

/-!
# Continuations resume where the marker stands

To resume a block at a place is to run what follows the place in its own block, then what follows
the branch around it, and so on outward; no test around the place is evaluated, and nothing before
the place or in another arm is run. The continuation of a block after a marker does just this at
the first place where the marker stands (`synthesize?_resumes`). It is cut after its first
transfer, which changes nothing: a transfer never lets control go on.
-/

namespace BlockScript

open Continuation

/-! ## Places -/

/-- A place inside a block: what stands before and after it, and the branches around it. -/
inductive Place where
  | here (before after : Block)
  | inYes (before : Block) (test : Expr) (inner : Place) (no after : Block)
  | inNo (before : Block) (test : Expr) (yes : Block) (inner : Place) (after : Block)

namespace Place

def fill (hole : Block) : Place → Block
  | .here before after => before ++ (hole ++ after)
  | .inYes before test inner no after => before ++ .branch test (inner.fill hole) no :: after
  | .inNo before test yes inner after => before ++ .branch test yes (inner.fill hole) :: after

/-- The blocks that come before the place, an arm for "yes" coming before the one for "no". -/
def earlier : Place → List Block
  | .here before _ => [before]
  | .inYes before _ inner _ _ => before :: inner.earlier
  | .inNo before _ yes inner _ => before :: yes :: inner.earlier

def rest : Place → Block
  | .here _ after => after
  | .inYes _ _ inner _ after => inner.rest ++ after
  | .inNo _ _ _ inner after => inner.rest ++ after

def behind (s : Stmt) : Place → Place
  | .here before after => .here (s :: before) after
  | .inYes before test inner no after => .inYes (s :: before) test inner no after
  | .inNo before test yes inner after => .inNo (s :: before) test yes inner after

end Place

mutual

/-- How often a marker stands in a block, arms included. -/
def occurrences (marker : Marker) : List Stmt → Nat
  | [] => 0
  | s :: rest => occurrencesIn marker s + occurrences marker rest

def occurrencesIn (marker : Marker) : Stmt → Nat
  | .marker id => if id = marker then 1 else 0
  | .branch _ yes no => occurrences marker yes + occurrences marker no
  | _ => 0

end

/-- The marker stands at the place and nowhere earlier. -/
structure Place.IsFirst (place : Place) (marker : Marker) (block : Block) : Prop where
  fill_eq : place.fill [.marker marker] = block
  absent : ∀ b ∈ place.earlier, occurrences marker b = 0

theorem occurrences_append (marker : Marker) (a b : Block) :
    occurrences marker (a ++ b) = occurrences marker a + occurrences marker b := by
  induction a with
  | nil => simp [occurrences]
  | cons s rest ih => simp only [List.cons_append, occurrences, ih, Nat.add_assoc]

theorem occurrencesIn_marker (marker : Marker) : occurrencesIn marker (.marker marker) = 1 := by
  simp [occurrencesIn]

theorem occurrences_le_fill (marker : Marker) (hole : Block) (place : Place) :
    occurrences marker hole ≤ occurrences marker (place.fill hole) := by
  induction place with
  | here before after =>
    rw [Place.fill, occurrences_append, occurrences_append]
    omega
  | inYes before test inner no after ih =>
    rw [Place.fill, occurrences_append, occurrences, occurrencesIn]
    omega
  | inNo before test yes inner after ih =>
    rw [Place.fill, occurrences_append, occurrences, occurrencesIn]
    omega

theorem occurrences_earlier (marker : Marker) (hole : Block) (place : Place) :
    ∀ b ∈ place.earlier,
      occurrences marker b + occurrences marker hole ≤ occurrences marker (place.fill hole) := by
  induction place with
  | here before after =>
    intro b hb
    rw [Place.earlier, List.mem_singleton] at hb
    subst hb
    rw [Place.fill, occurrences_append, occurrences_append]
    omega
  | inYes before test inner no after ih =>
    have hi := occurrences_le_fill marker hole inner
    intro b hb
    rw [Place.fill, occurrences_append, occurrences, occurrencesIn]
    rcases List.mem_cons.mp hb with rfl | hb
    · omega
    · have := ih b hb
      omega
  | inNo before test yes inner after ih =>
    have hi := occurrences_le_fill marker hole inner
    intro b hb
    rw [Place.fill, occurrences_append, occurrences, occurrencesIn]
    rcases List.mem_cons.mp hb with rfl | hb
    · omega
    · rcases List.mem_cons.mp hb with rfl | hb
      · omega
      · have := ih b hb
        omega

theorem Place.isFirst_of_once {place : Place} {marker : Marker}
    (once : occurrences marker (place.fill [.marker marker]) = 1) :
    place.IsFirst marker (place.fill [.marker marker]) := by
  refine ⟨rfl, fun b hb => ?_⟩
  have h := occurrences_earlier marker [.marker marker] place b hb
  rw [once, occurrences, occurrences, occurrencesIn_marker] at h
  omega

/-! ## The first place of a marker -/

theorem Place.fill_behind (s : Stmt) (hole : Block) (place : Place) :
    (place.behind s).fill hole = s :: place.fill hole := by
  cases place <;> rfl

theorem Place.IsFirst.behind {marker : Marker} {s : Stmt} {rest : Block} {place : Place}
    (hs : occurrencesIn marker s = 0) (h : place.IsFirst marker rest) :
    (place.behind s).IsFirst marker (s :: rest) := by
  refine ⟨by rw [fill_behind, h.fill_eq], ?_⟩
  have ha := h.absent
  cases place <;> simpa [earlier, Place.behind, occurrences, hs] using ha

mutual

theorem exists_isFirst (marker : Marker) : (block : List Stmt) → occurrences marker block ≠ 0 →
    ∃ place : Place, place.IsFirst marker block
  | [], h => absurd rfl h
  | s :: rest, h => by
    by_cases hs : occurrencesIn marker s = 0
    · rw [occurrences, hs, Nat.zero_add] at h
      obtain ⟨place, hp⟩ := exists_isFirst marker rest h
      exact ⟨place.behind s, hp.behind hs⟩
    · exact exists_isFirst_head marker s rest hs

theorem exists_isFirst_head (marker : Marker) (s : Stmt) (rest : List Stmt)
    (h : occurrencesIn marker s ≠ 0) : ∃ place : Place, place.IsFirst marker (s :: rest) := by
  cases s with
  | marker id =>
    have hid : id = marker := by
      rw [occurrencesIn] at h
      split at h
      · assumption
      · exact absurd rfl h
    subst hid
    exact ⟨.here [] rest, rfl, by simp [Place.earlier, occurrences]⟩
  | branch test yes no =>
    by_cases hy : occurrences marker yes = 0
    · rw [occurrencesIn, hy, Nat.zero_add] at h
      obtain ⟨inner, hi⟩ := exists_isFirst marker no h
      refine ⟨.inNo [] test yes inner rest, by rw [Place.fill, hi.fill_eq]; rfl, ?_⟩
      simpa [Place.earlier, occurrences, hy] using hi.absent
    · obtain ⟨inner, hi⟩ := exists_isFirst marker yes hy
      refine ⟨.inYes [] test inner no rest, by rw [Place.fill, hi.fill_eq]; rfl, ?_⟩
      simpa [Place.earlier, occurrences] using hi.absent
  | _ => exact absurd rfl h

end

theorem first_cut_unique {marker : Marker} {s s' : Stmt} {a a' b b' : Block}
    (h : a ++ s :: b = a' ++ s' :: b') (ha : occurrences marker a = 0) (ha' : occurrences marker a' = 0)
    (hs : occurrencesIn marker s ≠ 0) (hs' : occurrencesIn marker s' ≠ 0) :
    a = a' ∧ s = s' ∧ b = b' := by
  induction a generalizing a' with
  | nil =>
    cases a' with
    | nil => simpa using h
    | cons t rest' =>
      simp only [List.nil_append, List.cons_append, List.cons.injEq] at h
      rw [occurrences] at ha'
      obtain ⟨rfl, -⟩ := h
      omega
  | cons t rest ih =>
    cases a' with
    | nil =>
      simp only [List.nil_append, List.cons_append, List.cons.injEq] at h
      rw [occurrences] at ha
      obtain ⟨rfl, -⟩ := h
      omega
    | cons t' rest' =>
      simp only [List.cons_append, List.cons.injEq] at h
      obtain ⟨rfl, h⟩ := h
      rw [occurrences] at ha ha'
      obtain ⟨rfl, rfl, rfl⟩ := ih h (by omega) (by omega)
      exact ⟨rfl, rfl, rfl⟩

def Place.cut (hole : Stmt) : Place → Block × Stmt × Block
  | .here before after => (before, hole, after)
  | .inYes before test inner no after => (before, .branch test (inner.fill [hole]) no, after)
  | .inNo before test yes inner after => (before, .branch test yes (inner.fill [hole]), after)

theorem Place.fill_eq_cut (hole : Stmt) (place : Place) :
    place.fill [hole] = (place.cut hole).1 ++ (place.cut hole).2.1 :: (place.cut hole).2.2 := by
  cases place <;> rfl

theorem Place.occurrences_fill_marker (marker : Marker) (place : Place) :
    occurrences marker (place.fill [.marker marker]) ≠ 0 := by
  have h := occurrences_le_fill marker [.marker marker] place
  rw [occurrences, occurrences, occurrencesIn_marker] at h
  omega

theorem Place.occurrencesIn_cut (marker : Marker) (place : Place) :
    occurrencesIn marker (place.cut (.marker marker)).2.1 ≠ 0 := by
  cases place with
  | here before after => simp [cut, occurrencesIn_marker]
  | inYes before test inner no after =>
    have := inner.occurrences_fill_marker marker
    rw [cut, occurrencesIn]
    omega
  | inNo before test yes inner after =>
    have := inner.occurrences_fill_marker marker
    rw [cut, occurrencesIn]
    omega

theorem Place.IsFirst.cut_eq {marker : Marker} {block : Block} {p q : Place} (hp : p.IsFirst marker block)
    (hq : q.IsFirst marker block) : p.cut (.marker marker) = q.cut (.marker marker) := by
  have hb : ∀ {r : Place}, r.IsFirst marker block → occurrences marker (r.cut (.marker marker)).1 = 0 := by
    intro r hr
    cases r <;> exact hr.absent _ (by simp [earlier, cut])
  have h : p.fill [.marker marker] = q.fill [.marker marker] := hp.fill_eq.trans hq.fill_eq.symm
  rw [fill_eq_cut, fill_eq_cut] at h
  obtain ⟨h₁, h₂, h₃⟩ :=
    first_cut_unique h (hb hp) (hb hq) (p.occurrencesIn_cut marker) (q.occurrencesIn_cut marker)
  exact Prod.ext h₁ (Prod.ext h₂ h₃)

theorem Place.IsFirst.unique {marker : Marker} {block : Block} {p q : Place} (hp : p.IsFirst marker block)
    (hq : q.IsFirst marker block) : p = q := by
  induction p generalizing q block with
  | here before after =>
    have hc := hp.cut_eq hq
    cases q with
    | here before' after' => simpa [cut] using hc
    | _ => simp [cut] at hc
  | inYes before test inner no after ih =>
    have hc := hp.cut_eq hq
    cases q with
    | here before' after' => simp [cut] at hc
    | inYes before' test' inner' no' after' =>
      simp only [cut, Prod.mk.injEq, Stmt.branch.injEq] at hc
      obtain ⟨rfl, ⟨rfl, hfill, rfl⟩, rfl⟩ := hc
      have hi : inner = inner' := ih ⟨hfill, fun b hb => hp.absent b (.tail _ hb)⟩
        ⟨rfl, fun b hb => hq.absent b (.tail _ hb)⟩
      rw [hi]
    | inNo before' test' yes' inner' after' =>
      -- the arm for "yes" would both hold the marker and not hold it
      simp only [cut, Prod.mk.injEq, Stmt.branch.injEq] at hc
      have hy : occurrences marker yes' = 0 := hq.absent yes' (by simp [earlier])
      rw [← hc.2.1.2.1] at hy
      exact absurd hy (inner.occurrences_fill_marker marker)
  | inNo before test yes inner after ih =>
    have hc := hp.cut_eq hq
    cases q with
    | here before' after' => simp [cut] at hc
    | inYes before' test' inner' no' after' =>
      simp only [cut, Prod.mk.injEq, Stmt.branch.injEq] at hc
      have hy : occurrences marker yes = 0 := hp.absent yes (by simp [earlier])
      rw [hc.2.1.2.1] at hy
      exact absurd hy (inner'.occurrences_fill_marker marker)
    | inNo before' test' yes' inner' after' =>
      simp only [cut, Prod.mk.injEq, Stmt.branch.injEq] at hc
      obtain ⟨rfl, ⟨rfl, rfl, hfill⟩, rfl⟩ := hc
      have hi : inner = inner' := ih ⟨hfill, fun b hb => hp.absent b (.tail _ (.tail _ hb))⟩
        ⟨rfl, fun b hb => hq.absent b (.tail _ (.tail _ hb))⟩
      rw [hi]

/-! ## Running blocks one after the other -/

namespace Machine

variable {σ : Type}

/-- Goes on with `y` unless `x` ended in a transfer. -/
def followedBy (x y : Exec σ Flow) : Exec σ Flow := do
  match ← x with
  | .next => y
  | .transferred => return .transferred

theorem followedBy_assoc (x y z : Exec σ Flow) :
    followedBy (followedBy x y) z = followedBy x (followedBy y z) := by
  unfold followedBy
  rw [bind_assoc]
  refine bind_congr fun flow => ?_
  cases flow with
  | next => rfl
  | transferred => rw [pure_bind]

theorem followedBy_next (x : Exec σ Flow) : followedBy (pure .next) x = x := by
  unfold followedBy
  rw [pure_bind]

theorem execBlock_nil : (execBlock [] : Exec σ Flow) = pure .next := by
  rw [execBlock]

theorem execBlock_cons (s : Stmt) (rest : Block) :
    (execBlock (s :: rest) : Exec σ Flow) = followedBy (exec s) (execBlock rest) := by
  rw [execBlock]
  rfl

theorem execBlock_append (a b : Block) :
    (execBlock (a ++ b) : Exec σ Flow) = followedBy (execBlock a) (execBlock b) := by
  induction a with
  | nil => rw [List.nil_append, execBlock_nil, followedBy_next]
  | cons s rest ih => rw [List.cons_append, execBlock_cons, execBlock_cons, ih, followedBy_assoc]

theorem execBlock_marker (marker : Marker) : (execBlock [.marker marker] : Exec σ Flow) = pure .next := by
  rw [execBlock_cons, exec, followedBy_next, execBlock_nil]

theorem followedBy_transfer {s : Stmt} (h : s.isTransfer = true) (x : Exec σ Flow) :
    followedBy (exec s) x = exec s := by
  unfold followedBy
  cases s with
  | jump _ | jumpLazy _ | call _ _ _ | finish | retire => simp [exec]
  | _ => cases h

theorem execBlock_reachable (b : Block) : (execBlock (reachable b).body : Exec σ Flow) = execBlock b := by
  induction b with
  | nil => rfl
  | cons s rest ih =>
    rw [reachable]
    split
    · rename_i h
      rw [execBlock_cons, execBlock_cons, followedBy_transfer h, followedBy_transfer h]
    · rw [execBlock_cons, execBlock_cons, ih]

/-- To resume a block at a place. -/
def resume : Place → Exec σ Flow
  | .here _ after => execBlock after
  | .inYes _ _ inner _ after => followedBy (resume inner) (execBlock after)
  | .inNo _ _ _ inner after => followedBy (resume inner) (execBlock after)

theorem execBlock_rest (place : Place) : (execBlock place.rest : Exec σ Flow) = resume place := by
  induction place with
  | here before after => rfl
  | inYes before test inner no after ih => rw [Place.rest, resume, execBlock_append, ih]
  | inNo before test yes inner after ih => rw [Place.rest, resume, execBlock_append, ih]

end Machine

/-! ## What synthesis keeps -/

namespace Continuation

theorem reachable_append (a b : Block) : reachable (a ++ b) = (reachable a).andThen b := by
  induction a with
  | nil => rfl
  | cons s rest ih =>
    rw [List.cons_append, reachable, reachable]
    split
    · rfl
    · rw [ih]
      unfold Tail.andThen
      split <;> rfl

mutual

theorem after?_eq_none (marker : Marker) (b : List Stmt) : after? marker b = none ↔ occurrences marker b = 0 := by
  cases b with
  | nil => simp [after?, occurrences]
  | cons s rest =>
    rw [after?, occurrences, Nat.add_eq_zero_iff, ← within?_eq_none marker s, ← after?_eq_none marker rest]
    cases within? marker s <;> simp

theorem within?_eq_none (marker : Marker) (s : Stmt) : within? marker s = none ↔ occurrencesIn marker s = 0 := by
  cases s with
  | marker id =>
    rw [within?, occurrencesIn]
    split <;> simp
  | branch test yes no =>
    rw [within?, occurrencesIn, Nat.add_eq_zero_iff, ← after?_eq_none marker yes, ← after?_eq_none marker no]
    cases after? marker yes <;> simp
  | _ => simp [within?, occurrencesIn]

end

theorem after?_append {marker : Marker} {a : Block} (h : occurrences marker a = 0) (b : Block) :
    after? marker (a ++ b) = after? marker b := by
  induction a with
  | nil => rfl
  | cons s rest ih =>
    rw [occurrences] at h
    rw [List.cons_append, after?, (within?_eq_none marker s).mpr (by omega)]
    exact ih (by omega)

theorem after?_of_isFirst {marker : Marker} {block : Block} {place : Place}
    (h : place.IsFirst marker block) : after? marker block = some (reachable place.rest) := by
  obtain ⟨rfl, ha⟩ := h
  induction place with
  | here before after =>
    rw [Place.fill, after?_append (ha before (by simp [Place.earlier])), List.singleton_append, after?,
      within?, if_pos rfl]
    rfl
  | inYes before test inner no after ih =>
    rw [Place.fill, after?_append (ha before (by simp [Place.earlier])), after?, within?,
      ih fun b hb => ha b (by simp [Place.earlier, hb])]
    simp only [Place.rest, reachable_append]
  | inNo before test yes inner after ih =>
    have hy : after? marker yes = none :=
      (after?_eq_none marker yes).mpr (ha yes (by simp [Place.earlier]))
    rw [Place.fill, after?_append (ha before (by simp [Place.earlier])), after?, within?, hy,
      ih fun b hb => ha b (by simp [Place.earlier, hb])]
    simp only [Place.rest, reachable_append]

end Continuation

/-! ## Continuations resume -/

open Machine in
/-- There is no continuation exactly when the marker does not occur. Otherwise the marker has one
first place, and running the continuation is resuming there: it is all that follows the place, cut
after the first transfer, and the cut shows in no run. -/
theorem synthesize?_resumes {σ : Type} (marker : Marker) (block : Block) :
    (synthesize? marker block = none ↔ occurrences marker block = 0) ∧
    (occurrences marker block ≠ 0 → ∃ (place : Place) (body : Block),
      (place.IsFirst marker block ∧ ∀ other : Place, other.IsFirst marker block → other = place) ∧
      synthesize? marker block = some body ∧
      (∀ m : Machine σ, m.perform (execBlock body) = m.perform (resume place)) ∧
      body = (reachable place.rest).body ∧
      ∀ m : Machine σ, m.perform (execBlock body) = m.perform (execBlock place.rest)) := by
  constructor
  · rw [synthesize?, Option.map_eq_none_iff, after?_eq_none]
  · intro h
    obtain ⟨place, hp⟩ := exists_isFirst marker block h
    refine ⟨place, (reachable place.rest).body, ⟨hp, fun other ho => ho.unique hp⟩, ?_, ?_, rfl, ?_⟩
    · rw [synthesize?, after?_of_isFirst hp, Option.map_some]
    · intro m
      rw [execBlock_reachable, execBlock_rest]
    · intro m
      rw [execBlock_reachable]

open Machine in
theorem synthesize?_resumes_inNo :
    let block : Block :=
      [.branch (.lit .null) [.jump ⟨1⟩] [.marker ⟨7⟩, .marker ⟨8⟩], .marker ⟨7⟩, .retire, .finish]
    let place : Place :=
      .inNo [] (.lit .null) [.jump ⟨1⟩] (.here [] [.marker ⟨8⟩]) [.marker ⟨7⟩, .retire, .finish]
    occurrences ⟨7⟩ block ≠ 0 ∧ ∃ body, synthesize? ⟨7⟩ block = some body ∧
      ∀ m : Machine Unit, m.perform (execBlock body) = m.perform (resume place) := by
  intro block place
  have occurs : occurrences ⟨7⟩ block ≠ 0 := by decide
  have first : place.IsFirst ⟨7⟩ block := ⟨rfl, by decide⟩
  obtain ⟨found, body, ⟨-, unique⟩, hbody, hrun, -⟩ := (synthesize?_resumes (σ := Unit) ⟨7⟩ block).2 occurs
  exact ⟨occurs, body, hbody, unique place first ▸ hrun⟩

end BlockScript
