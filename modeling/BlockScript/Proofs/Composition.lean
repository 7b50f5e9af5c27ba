import BlockScript.Proofs.Parts
import Mathlib

/-!
# Continuations of continuations

A continuation is a block of its own: the branches around its marker are gone and it is cut after its
first transfer. A later marker may be looked for in it, and what is left after that one is the same as
if it had been looked for in the first block (`synthesize?_synthesize?`), if it stands there only once.
So a label whose sources lead through continuations to a fragment stands for what is left of the
fragment after the last marker, whatever markers were passed on the way (`stems_block`).
-/

namespace BlockScript

open Continuation

namespace Continuation

/-! ## Cutting twice -/

theorem reachable_reachable (b : Block) : reachable (reachable b).body = reachable b := by
  induction b with
  | nil => rfl
  | cons s rest ih =>
    by_cases h : s.isTransfer = true
    · simp [reachable, h]
    · simp [reachable, h, ih]

theorem Tail.andThen_reachable (tail : Tail) (b : Block) : tail.andThen (reachable b).body = tail.andThen b := by
  unfold andThen
  simp only [reachable_reachable]

theorem Tail.andThen_append (tail : Tail) (a b : Block) : tail.andThen (a ++ b) = (tail.andThen a).andThen b := by
  by_cases hc : tail.closed = true
  · simp [andThen, hc]
  · simp only [andThen, hc, reachable_append]
    by_cases ha : (reachable a).closed = true
    · simp [ha]
    · simp [ha]

/-! ## Where a marker is found -/

section
variable {marker : Marker} {tail : Tail}

theorem occurrences_of_after? {b : Block} (h : after? marker b = some tail) : 0 < occurrences marker b := by
  apply Nat.pos_of_ne_zero
  intro hz
  rw [(after?_eq_none marker b).mpr hz] at h
  cases h

theorem after?_append_some {a : Block} (h : after? marker a = some tail) (b : Block) :
    after? marker (a ++ b) = some (tail.andThen b) := by
  induction a with
  | nil => cases h
  | cons s rest ih =>
    rw [after?] at h
    rw [List.cons_append, after?]
    cases hs : within? marker s with
    | none =>
      rw [hs] at h
      exact ih h
    | some inner =>
      rw [hs] at h
      cases h
      simp only [Tail.andThen_append]

theorem within?_transfer {s : Stmt} (h : s.isTransfer = true) : within? marker s = none := by
  cases s with
  | marker _ | branch _ _ _ => cases h
  | _ => simp [within?]

/-- A marker that the cut has left is found with the same rest as before the cut. -/
theorem after?_reachable {b : Block} (h : after? marker (reachable b).body = some tail) :
    after? marker b = some tail := by
  induction b with
  | nil => cases h
  | cons s rest ih =>
    by_cases ht : s.isTransfer = true
    · simp [reachable, ht, after?, within?_transfer ht] at h
    · simp only [reachable, ht] at h
      simp only [Bool.false_eq_true, if_false, after?] at h ⊢
      cases hs : within? marker s with
      | none =>
        simp only [hs] at h
        exact ih h
      | some inner =>
        simp only [hs, Tail.andThen_reachable] at h
        exact h

theorem after?_at {before : Block} {s : Stmt} (hb : occurrences marker before = 0)
    (hs : within? marker s = some tail) (after : Block) :
    after? marker (before ++ s :: after) = some (tail.andThen after) := by
  rw [after?_append hb, after?, hs]

theorem after?_past {before : Block} {s : Stmt} (hb : occurrences marker before = 0)
    (hs : occurrencesIn marker s = 0) (after : Block) :
    after? marker (before ++ s :: after) = after? marker after := by
  rw [after?_append hb, after?, (within?_eq_none marker s).mpr hs]

/-- A marker that follows a place, and stands nowhere else in the block, is found in the block with the
same rest as in what follows the place. -/
theorem after?_rest {place : Place} {hole : Block} (once : occurrences marker (place.fill hole) ≤ 1)
    (h : after? marker place.rest = some tail) : after? marker (place.fill hole) = some tail := by
  -- the marker stands at one level of the place; what comes before it on that level does not hold it
  induction place generalizing tail with
  | here before after =>
    simp only [Place.fill, occurrences_append] at once
    rw [Place.rest] at h
    have ha := occurrences_of_after? h
    rw [Place.fill, after?_append (by omega), after?_append (by omega)]
    exact h
  | inYes before test inner no after ih =>
    simp only [Place.fill, occurrences_append, occurrences, occurrencesIn] at once
    rw [Place.rest] at h
    cases hi : after? marker inner.rest with
    | some found =>
      have hfill := ih (by omega) hi
      have hf := occurrences_of_after? hfill
      have hs : within? marker (.branch test (inner.fill hole) no) = some found := by rw [within?, hfill]
      rw [after?_append_some hi] at h
      rw [Place.fill, after?_at (by omega) hs]
      exact h
    | none =>
      rw [after?_append ((after?_eq_none marker _).mp hi)] at h
      have ha := occurrences_of_after? h
      rw [Place.fill, after?_past (by omega) (by rw [occurrencesIn]; omega)]
      exact h
  | inNo before test yes inner after ih =>
    simp only [Place.fill, occurrences_append, occurrences, occurrencesIn] at once
    rw [Place.rest] at h
    cases hi : after? marker inner.rest with
    | some found =>
      have hfill := ih (by omega) hi
      have hf := occurrences_of_after? hfill
      have hy : after? marker yes = none := (after?_eq_none marker yes).mpr (by omega)
      have hs : within? marker (.branch test yes (inner.fill hole)) = some found := by rw [within?, hy, hfill]
      rw [after?_append_some hi] at h
      rw [Place.fill, after?_at (by omega) hs]
      exact h
    | none =>
      rw [after?_append ((after?_eq_none marker _).mp hi)] at h
      have ha := occurrences_of_after? h
      rw [Place.fill, after?_past (by omega) (by rw [occurrencesIn]; omega)]
      exact h

end

theorem synthesize?_synthesize? {first later : Marker} {block between body : Block}
    (once : occurrences later block ≤ 1) (hb : synthesize? first block = some between)
    (h : synthesize? later between = some body) : synthesize? later block = some body := by
  obtain ⟨cut, hcut, rfl⟩ := Option.map_eq_some_iff.mp hb
  obtain ⟨tail, htail, rfl⟩ := Option.map_eq_some_iff.mp h
  have occurs : occurrences first block ≠ 0 := Nat.ne_of_gt (occurrences_of_after? hcut)
  obtain ⟨place, first_place⟩ := exists_isFirst first block occurs
  rw [after?_of_isFirst first_place] at hcut
  cases hcut
  have hrest : after? later place.rest = some tail := after?_reachable htail
  have hblock : after? later block = some tail := by
    rw [← first_place.fill_eq] at once ⊢
    exact after?_rest once hrest
  simp [synthesize?, hblock]

end Continuation

/-! ## Chains of labels -/

namespace Program

/-- The sources of the label lead through continuations after these markers, the last one first, to a
fragment with this body. -/
inductive Stems (p : Program) (body : Block) : List Marker → Label → Prop
  | fragment {label : Label} : p.labels[label.index]? = some (.fragment body) → Stems p body [] label
  | continuation {label source : Label} {marker : Marker} {earlier : List Marker} : Stems p body earlier source →
      p.labels[label.index]? = some (.continuation source marker) → Stems p body (marker :: earlier) label

theorem Stems.denotes {p : Program} {root : Block} {markers : List Marker} {label : Label}
    (chain : p.Stems root markers label) (once : ∀ marker ∈ markers, occurrences marker root = 1) {block : Block}
    (h : p.Denotes label block) :
    match markers with
    | [] => block = root
    | marker :: _ => synthesize? marker root = some block := by
  induction chain generalizing block with
  | fragment he =>
    cases h with
    | fragment he' =>
      rw [he] at he'
      cases he'
      rfl
    | continuation he' _ _ =>
      rw [he] at he'
      cases he'
  | @continuation label source marker earlier _ he ih =>
    cases h with
    | fragment he' =>
      rw [he] at he'
      cases he'
    | @continuation _ _ _ between _ he' hbetween hs =>
      rw [he] at he'
      cases he'
      obtain ⟨here, before⟩ := List.forall_mem_cons.mp once
      have source_block := ih before hbetween
      cases earlier with
      | nil =>
        simp only at source_block
        rw [source_block] at hs
        exact hs
      | cons marker' earlier' => exact synthesize?_synthesize? (Nat.le_of_eq here) source_block hs

end Program

/-- A label leads back through one or more continuations to a fragment in which each of their markers
stands once. If there is a block at the label, then whatever has been built before, it is what is left of
the fragment after the last marker. -/
theorem stems_block {p : Program} {root body : Block} {marker : Marker} {earlier : List Marker} {label : Label}
    {cache cache' : Cache} (chain : p.Stems root (marker :: earlier) label)
    (once : ∀ m ∈ marker :: earlier, occurrences m root = 1) (sound : cache.Sound p)
    (found : (p.block label).run cache = (.ok body, cache')) : synthesize? marker root = some body := by
  have denotes : p.Denotes label body := (Program.resolve_sound sound found).2 body rfl
  exact chain.denotes once denotes

theorem stems_block_inNo :
    let root : Block :=
      [.branch (.lit .null) [.marker ⟨1⟩, .branch (.lit .null) [] [.marker ⟨2⟩, .marker ⟨3⟩]] [.jump ⟨0⟩],
        .retire, .finish]
    let p : Program := ⟨⟨0⟩, #[.fragment root, .continuation ⟨0⟩ ⟨1⟩, .continuation ⟨1⟩ ⟨2⟩], #[]⟩
    p.Stems root [⟨2⟩, ⟨1⟩] ⟨2⟩ ∧ (∀ m ∈ ([⟨2⟩, ⟨1⟩] : List Marker), occurrences m root = 1) ∧
      p.lookup ⟨2⟩ = .ok [.marker ⟨3⟩, .retire] ∧ synthesize? ⟨2⟩ root = some [.marker ⟨3⟩, .retire] := by
  intro root p
  have chain : p.Stems root [⟨2⟩, ⟨1⟩] ⟨2⟩ := .continuation (.continuation (.fragment rfl) rfl) rfl
  have once : ∀ m ∈ ([⟨2⟩, ⟨1⟩] : List Marker), occurrences m root = 1 := by decide
  have found : p.lookup ⟨2⟩ = .ok [.marker ⟨3⟩, .retire] := by cbv
  exact ⟨chain, once, found, stems_block chain once (Cache.emptyCache_sound p) (Prod.ext found rfl)⟩

end BlockScript
