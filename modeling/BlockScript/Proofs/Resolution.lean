import BlockScript.Proofs.Resumption
import BlockScript.Proofs.SourceChain
import Mathlib.Data.List.Chain

/-!
# What becomes of a label

A source chain goes out of the jump table, comes back to a label it has passed, or ends in a fragment.
In the first two cases the label resolves to a fault that names where the chain went wrong. In the third
the links are followed back from the fragment, and the first one whose marker is missing is the fault
(`resolution_classified`). The chain is followed by recursion, with nothing that gets smaller but the part
of the jump table that has not been passed; `Resolves` is that recursion without any fuel.
-/

namespace BlockScript

open Continuation Relation

namespace Program

/-! ## Ways to go wrong -/

/-- Down the chain from `label`, over labels that are all new, `x` is the first that has been met before:
on the way, or among `met`. -/
def ClosesAt (p : Program) (met : List Label) (label x : Label) : Prop :=
  ∃ walk : List Label, (walk ++ [x]).head? = some label ∧ (walk ++ [x]).IsChain p.Source ∧ walk.Nodup ∧
    (∀ l ∈ walk, l ∉ met) ∧ (x ∈ met ∨ x ∈ walk)

/-- The marker of a link on the chain is missing in what the link's source stands for. -/
def BreaksAt (p : Program) (label source : Label) (marker : Marker) : Prop :=
  ∃ link body, p.LeadsTo label link ∧ p.labels[link.index]? = some (.continuation source marker) ∧
    p.Denotes source body ∧ occurrences marker body = 0

section
variable {p : Program} {label source x : Label} {marker : Marker} {met : List Label}

theorem closesAt_here (h : x ∈ met) : p.ClosesAt met x x :=
  ⟨[], rfl, List.isChain_singleton x, List.nodup_nil, by simp, .inl h⟩

theorem ClosesAt.next (h : p.ClosesAt (label :: met) source x) (hs : p.Source label source)
    (fresh : label ∉ met) : p.ClosesAt met label x := by
  obtain ⟨walk, head, chain, nodup, new, old⟩ := h
  refine ⟨label :: walk, rfl, ?_, ?_, ?_, ?_⟩
  · rw [List.cons_append, List.isChain_cons]
    refine ⟨?_, chain⟩
    intro y hy
    rw [head] at hy
    cases hy
    exact hs
  · exact List.nodup_cons.mpr ⟨fun hl => new label hl List.mem_cons_self, nodup⟩
  · grind
  · grind

theorem BreaksAt.next {below : Label} (h : p.BreaksAt source below marker) (hs : p.Source label source) :
    p.BreaksAt label below marker := by
  obtain ⟨link, body, hl, rest⟩ := h
  exact ⟨link, body, .head hs hl, rest⟩

theorem synthesize?_eq_none {body : Block} : synthesize? marker body = none ↔ occurrences marker body = 0 := by
  rw [synthesize?, Option.map_eq_none_iff, after?_eq_none]

theorem exists_synthesize? {body : Block} (h : occurrences marker body ≠ 0) :
    ∃ rest, synthesize? marker body = some rest :=
  Option.ne_none_iff_exists'.mp fun none => h (synthesize?_eq_none.mp none)

end

/-! ## From the answer to its reason -/

def answer (p : Program) (fuel : Nat) (pending : List Label) (label : Label) : Except Fault Block :=
  ((p.resolve fuel pending label).run p.emptyCache).1

section
variable {p : Program} {fuel : Nat} {pending : List Label} {label source x : Label} {marker : Marker}

theorem answer_outside (he : p.labels[label.index]? = none) :
    p.answer fuel pending label = .error (.unknownLabel label) := by
  rw [answer, run_resolve, he]

theorem answer_fragment {body : Block} (he : p.labels[label.index]? = some (.fragment body)) :
    p.answer fuel pending label = .ok body := by
  rw [answer, run_resolve, he, Cache.find?_emptyCache]

theorem answer_pending (he : p.labels[label.index]? = some (.continuation source marker))
    (hp : label ∈ pending) : p.answer fuel pending label = .error (.continuationCycle label) := by
  rw [answer, run_resolve, he, Cache.find?_emptyCache]
  simp only [hp, if_true]

theorem answer_continuation (way : p.OnTheWay fuel pending label)
    (he : p.labels[label.index]? = some (.continuation source marker)) (fresh : label ∉ pending) :
    ∃ less, fuel = less + 1 ∧ p.OnTheWay less (label :: pending) source ∧
      p.answer fuel pending label =
        match p.answer less (label :: pending) source with
        | .error f => .error f
        | .ok body =>
          match synthesize? marker body with
          | none => .error (.missingMarker source marker)
          | some rest => .ok rest := by
  obtain ⟨bound, -⟩ := Array.getElem?_eq_some_iff.mp he
  obtain ⟨less, rfl⟩ := way.fuel_pos fresh bound
  refine ⟨less, rfl, way.next fresh ⟨marker, he⟩, ?_⟩
  rw [answer, run_resolve, he, Cache.find?_emptyCache, answer]
  simp only [fresh, if_false]
  rcases (p.resolve less (label :: pending) source).run p.emptyCache with ⟨f | body, cache⟩
  · rfl
  · simp only
    cases synthesize? marker body <;> rfl

def Explains (p : Program) (met : List Label) (label : Label) : Except Fault Block → Prop
  | .ok block => p.Denotes label block
  | .error (.unknownLabel x) => p.LeadsTo label x ∧ p.labels[x.index]? = none
  | .error (.continuationCycle x) => p.ClosesAt met label x
  | .error (.missingMarker source marker) => p.BreaksAt label source marker
  | .error _ => False

theorem Explains.next {f : Fault} (h : p.Explains (label :: pending) source (.error f))
    (hs : p.Source label source) (fresh : label ∉ pending) : p.Explains pending label (.error f) := by
  cases f with
  | unknownLabel x => exact ⟨.head hs h.1, h.2⟩
  | continuationCycle x => exact ClosesAt.next h hs fresh
  | missingMarker below marker => exact BreaksAt.next h hs
  | _ => exact h.elim

theorem answer_explained (way : p.OnTheWay fuel pending label) :
    p.Explains pending label (p.answer fuel pending label) := by
  induction fuel using Nat.strongRecOn generalizing pending label with
  | ind fuel ih =>
    cases he : p.labels[label.index]? with
    | none =>
      rw [answer_outside he]
      exact ⟨.refl, he⟩
    | some entry =>
      cases entry with
      | fragment body =>
        rw [answer_fragment he]
        exact .fragment he
      | continuation source marker =>
        by_cases hp : label ∈ pending
        · rw [answer_pending he hp]
          exact closesAt_here hp
        · obtain ⟨less, rfl, way', ha⟩ := answer_continuation way he hp
          have below := ih less (Nat.lt_succ_self less) way'
          rw [ha]
          cases hsource : p.answer less (label :: pending) source with
          | error f =>
            rw [hsource] at below
            exact below.next ⟨marker, he⟩ hp
          | ok body =>
            rw [hsource] at below
            simp only
            cases hm : synthesize? marker body with
            | none => exact ⟨label, body, .refl, he, below, synthesize?_eq_none.mp hm⟩
            | some rest => exact Denotes.continuation he below hm

/-! ## From the reason to the answer -/

/-- A fault at a link that no cycle passes comes up through all that leads there. -/
theorem answer_of_leadsTo {link : Label} {f : Fault} (hl : p.LeadsTo label link)
    (acyclic : ¬ TransGen p.Source link link)
    (there : ∀ {fuel pending}, p.OnTheWay fuel pending link → p.answer fuel pending link = .error f)
    (way : p.OnTheWay fuel pending label) : p.answer fuel pending label = .error f := by
  induction hl using ReflTransGen.head_induction_on generalizing fuel pending with
  | refl => exact there way
  | @head label source hs hl ih =>
    obtain ⟨marker, he⟩ := hs
    have fresh : label ∉ pending := by
      intro hp
      exact acyclic (cycle_of_leadsTo (way.leads label hp) (.head ⟨marker, he⟩ hl))
    obtain ⟨less, rfl, way', ha⟩ := answer_continuation way he fresh
    rw [ha, ih way']

theorem answer_unknown (hl : p.LeadsTo label x) (outside : p.labels[x.index]? = none)
    (way : p.OnTheWay fuel pending label) : p.answer fuel pending label = .error (.unknownLabel x) := by
  apply answer_of_leadsTo hl _ _ way
  · intro cycle
    obtain ⟨source, hs, -⟩ := TransGen.head'_iff.mp cycle
    exact not_source_of_none outside hs
  · intro _ _ _
    exact answer_outside outside

theorem answer_missing (h : p.BreaksAt label source marker) (way : p.OnTheWay fuel pending label) :
    p.answer fuel pending label = .error (.missingMarker source marker) := by
  obtain ⟨link, body, hl, he, hd, absent⟩ := h
  have acyclic : ¬ TransGen p.Source link link := by
    intro cycle
    exact hd.acyclic (cycle_of_leadsTo cycle (.single ⟨marker, he⟩))
  apply answer_of_leadsTo hl acyclic _ way
  intro fuel pending way
  have fresh : link ∉ pending := fun hp => acyclic (way.leads link hp)
  obtain ⟨less, rfl, way', ha⟩ := answer_continuation way he fresh
  rw [ha, show p.answer less (link :: pending) source = .ok body from
    resolve_of_denotes hd way' (Cache.emptyCache_sound p)]
  simp only [synthesize?_eq_none.mpr absent]

theorem answer_cycle (h : p.ClosesAt pending label x) (way : p.OnTheWay fuel pending label) :
    p.answer fuel pending label = .error (.continuationCycle x) := by
  obtain ⟨walk, head, chain, nodup, new, old⟩ := h
  induction walk generalizing fuel pending label with
  | nil =>
    -- the label that is met again is pending, so it has a source
    cases head
    have hp : x ∈ pending := by simpa using old
    obtain ⟨source, ⟨marker, he⟩, -⟩ := TransGen.head'_iff.mp (way.leads x hp)
    exact answer_pending he hp
  | cons l rest ih =>
    cases head
    rw [List.cons_append, List.isChain_cons] at chain
    rw [List.nodup_cons] at nodup
    obtain ⟨source, hsource⟩ : ∃ source, (rest ++ [x]).head? = some source := by
      cases rest <;> exact ⟨_, rfl⟩
    obtain ⟨marker, he⟩ := chain.1 source hsource
    have fresh : l ∉ pending := new l List.mem_cons_self
    obtain ⟨less, rfl, way', ha⟩ := answer_continuation way he fresh
    have below := ih way' hsource chain.2 nodup.2 (by grind) (by grind)
    rw [ha, below]

end

/-! ## All labels -/

section
variable {p : Program} {label : Label}

theorem lookup_explained (p : Program) (label : Label) : p.Explains [] label (p.lookup label) :=
  answer_explained (onTheWay_nil p label)

theorem lookup_eq_unknown {x : Label} :
    p.lookup label = .error (.unknownLabel x) ↔ p.LeadsTo label x ∧ p.labels[x.index]? = none := by
  constructor
  · intro h
    have reason := lookup_explained p label
    rwa [h] at reason
  · rintro ⟨hl, outside⟩
    exact answer_unknown hl outside (onTheWay_nil p label)

theorem lookup_eq_cycle {x : Label} :
    p.lookup label = .error (.continuationCycle x) ↔ p.ClosesAt [] label x := by
  constructor
  · intro h
    have reason := lookup_explained p label
    rwa [h] at reason
  · intro h
    exact answer_cycle h (onTheWay_nil p label)

theorem lookup_eq_missing {source : Label} {marker : Marker} :
    p.lookup label = .error (.missingMarker source marker) ↔ p.BreaksAt label source marker := by
  constructor
  · intro h
    have reason := lookup_explained p label
    rwa [h] at reason
  · intro h
    exact answer_missing h (onTheWay_nil p label)

theorem closesAt_nil {x : Label} :
    p.ClosesAt [] label x ↔
      ∃ walk : List Label, walk.head? = some label ∧ (walk ++ [x]).IsChain p.Source ∧ walk.Nodup ∧ x ∈ walk := by
  constructor
  · rintro ⟨walk, head, chain, nodup, -, old⟩
    refine ⟨walk, ?_, chain, nodup, by simpa using old⟩
    cases walk with
    | nil => simp at old
    | cons l rest => exact head
  · rintro ⟨walk, head, chain, nodup, old⟩
    refine ⟨walk, ?_, chain, nodup, by simp, .inr old⟩
    rw [List.head?_append, head]
    rfl

theorem Denotes.exists_root {block : Block} (h : p.Denotes label block) :
    ∃ root body, p.LeadsTo label root ∧ p.labels[root.index]? = some (.fragment body) := by
  induction h with
  | fragment he => exact ⟨_, _, .refl, he⟩
  | continuation he _ _ ih =>
    obtain ⟨root, body, hl, hr⟩ := ih
    exact ⟨root, body, .head ⟨_, he⟩ hl, hr⟩

def Linked (p : Program) (link : Label) : Prop :=
  ∀ source marker, p.labels[link.index]? = some (.continuation source marker) →
    ∃ body, p.lookup source = .ok body ∧ occurrences marker body ≠ 0

theorem Denotes.linked {block : Block} (h : p.Denotes label block) {link : Label} (hl : p.LeadsTo label link) :
    p.Linked link := by
  induction hl using ReflTransGen.head_induction_on generalizing block with
  | refl =>
    intro source marker he
    obtain ⟨body, hd, hm⟩ := h.of_continuation he
    refine ⟨body, lookup_eq_ok.mpr hd, ?_⟩
    intro absent
    rw [synthesize?_eq_none.mpr absent] at hm
    cases hm
  | head hs _ ih =>
    obtain ⟨marker, he⟩ := hs
    obtain ⟨body, hd, -⟩ := h.of_continuation he
    exact ih hd

theorem exists_denotes {root : Label} {body : Block} (hl : p.LeadsTo label root)
    (hr : p.labels[root.index]? = some (.fragment body)) (linked : ∀ link, p.LeadsTo label link → p.Linked link) :
    ∃ block, p.Denotes label block := by
  rcases ReflTransGen.cases_head hl with rfl | ⟨source, ⟨marker, he⟩, -⟩
  · exact ⟨body, .fragment hr⟩
  · obtain ⟨below, hd, occurs⟩ := linked label .refl source marker he
    obtain ⟨rest, hm⟩ := exists_synthesize? occurs
    exact ⟨rest, .continuation he (lookup_eq_ok.mp hd) hm⟩

/-- A chain that neither leaves the table nor comes back ends in a fragment. -/
theorem lookup_cases (p : Program) (label : Label) :
    (∃ x, p.lookup label = .error (.unknownLabel x)) ∨ (∃ x, p.lookup label = .error (.continuationCycle x)) ∨
      ∃ root body, p.LeadsTo label root ∧ p.labels[root.index]? = some (.fragment body) := by
  have reason := lookup_explained p label
  cases ha : p.lookup label with
  | ok block =>
    rw [ha] at reason
    exact .inr (.inr (Denotes.exists_root reason))
  | error f =>
    rw [ha] at reason
    cases f with
    | unknownLabel x => exact .inl ⟨x, rfl⟩
    | continuationCycle x => exact .inr (.inl ⟨x, rfl⟩)
    | missingMarker source marker =>
      obtain ⟨link, body, hl, he, hd, -⟩ := reason
      obtain ⟨root, body, hl', hr⟩ := hd.exists_root
      exact .inr (.inr ⟨root, body, hl.trans (.head ⟨marker, he⟩ hl'), hr⟩)
    | _ => exact reason.elim

end

/-! ## The recursion itself -/

/-- Resolving a label with some labels pending and a cache, without any fuel, and how many calls are open
at the deepest place. -/
inductive Resolves (p : Program) :
    Nat → List Label → Label → Cache → Except Fault Block × Cache → Prop
  | unknown {pending label cache} : p.labels[label.index]? = none →
      Resolves p 1 pending label cache (.error (.unknownLabel label), cache)
  | built {pending label cache entry block} : p.labels[label.index]? = some entry →
      cache.find? label = some block → Resolves p 1 pending label cache (.ok block, cache)
  | fragment {pending label cache body} : p.labels[label.index]? = some (.fragment body) →
      cache.find? label = none → Resolves p 1 pending label cache (.ok body, cache.insert label body)
  | cycle {pending label cache source marker} :
      p.labels[label.index]? = some (.continuation source marker) → cache.find? label = none →
      label ∈ pending → Resolves p 1 pending label cache (.error (.continuationCycle label), cache)
  | fault {pending label cache source marker depth f cache'} :
      p.labels[label.index]? = some (.continuation source marker) → cache.find? label = none →
      label ∉ pending → Resolves p depth (label :: pending) source cache (.error f, cache') →
      Resolves p (depth + 1) pending label cache (.error f, cache')
  | missing {pending label cache source marker depth body cache'} :
      p.labels[label.index]? = some (.continuation source marker) → cache.find? label = none →
      label ∉ pending → Resolves p depth (label :: pending) source cache (.ok body, cache') →
      synthesize? marker body = none →
      Resolves p (depth + 1) pending label cache (.error (.missingMarker source marker), cache')
  | continuation {pending label cache source marker depth body rest cache'} :
      p.labels[label.index]? = some (.continuation source marker) → cache.find? label = none →
      label ∉ pending → Resolves p depth (label :: pending) source cache (.ok body, cache') →
      synthesize? marker body = some rest →
      Resolves p (depth + 1) pending label cache (.ok rest, cache'.insert label rest)

section
variable {p : Program} {pending : List Label} {label : Label}

theorem Resolves.unique {d d' : Nat} {cache : Cache} {r r' : Except Fault Block × Cache}
    (h : p.Resolves d pending label cache r) (h' : p.Resolves d' pending label cache r') : d' = d ∧ r' = r := by
  induction h generalizing d' r' with
  | unknown | built | fragment | cycle => cases h' <;> simp_all
  | fault he hf fresh _ ih | missing he hf fresh _ hm ih | continuation he hf fresh _ hm ih =>
    cases h' with
    | unknown he' => simp [he] at he'
    | built _ hf' => simp [hf] at hf'
    | fragment he' => simp [he] at he'
    | cycle _ _ hp => exact absurd hp fresh
    | fault he' _ _ below | missing he' _ _ below hm' | continuation he' _ _ below hm' =>
      rw [he] at he'
      cases he'
      obtain ⟨rfl, same⟩ := ih below
      simp_all

theorem resolves_run {fuel : Nat} (cache : Cache) (way : p.OnTheWay fuel pending label) :
    ∃ depth ≤ fuel + 1, p.Resolves depth pending label cache ((p.resolve fuel pending label).run cache) := by
  induction fuel using Nat.strongRecOn generalizing pending label with
  | ind fuel ih =>
    rw [run_resolve]
    cases he : p.labels[label.index]? with
    | none => exact ⟨1, by omega, .unknown he⟩
    | some entry =>
      cases hf : cache.find? label with
      | some block => exact ⟨1, by omega, .built he hf⟩
      | none =>
        cases entry with
        | fragment body => exact ⟨1, by omega, .fragment he hf⟩
        | continuation source marker =>
          simp only
          by_cases hp : label ∈ pending
          · simp only [hp, if_true]
            exact ⟨1, by omega, .cycle he hf hp⟩
          · obtain ⟨bound, -⟩ := Array.getElem?_eq_some_iff.mp he
            obtain ⟨less, rfl⟩ := way.fuel_pos hp bound
            obtain ⟨depth, hd, below⟩ := ih less (Nat.lt_succ_self less) (way.next hp ⟨marker, he⟩)
            simp only [hp, if_false]
            rcases hr : (p.resolve less (label :: pending) source).run cache with ⟨f | body, cache'⟩
            · rw [hr] at below
              exact ⟨depth + 1, by omega, .fault he hf hp below⟩
            · rw [hr] at below
              simp only
              cases hm : synthesize? marker body with
              | none => exact ⟨depth + 1, by omega, .missing he hf hp below hm⟩
              | some rest => exact ⟨depth + 1, by omega, .continuation he hf hp below hm⟩

end

end Program

/-- Whatever has been asked for before, a label gets the fault of an unknown label exactly if its source
chain goes out of the table there; of a cycle exactly if the chain comes back, at the first label that is
met twice; and otherwise the chain ends in a fragment. Then the first link, seen from the fragment, whose
marker is not in the block of its source gives the fault of a missing marker, and if there is none the
label has a block. The recursion ends with one result, and at most one call more than there are labels is
open at a time. -/
theorem resolution_classified (p : Program) (earlier : List Label) (label : Label) :
    let cache := ((p.blocks earlier).run p.emptyCache).2
    let answer := ((p.block label).run cache).1
    (∀ x, answer = .error (.unknownLabel x) ↔ p.LeadsTo label x ∧ p.labels[x.index]? = none) ∧
      (∀ x, answer = .error (.continuationCycle x) ↔
        ∃ walk : List Label, walk.head? = some label ∧ (walk ++ [x]).IsChain p.Source ∧ walk.Nodup ∧ x ∈ walk) ∧
      ((∃ x, answer = .error (.unknownLabel x)) ∨ (∃ x, answer = .error (.continuationCycle x)) ∨
        ∃ root body, p.LeadsTo label root ∧ p.labels[root.index]? = some (.fragment body)) ∧
      (∀ source marker, answer = .error (.missingMarker source marker) ↔
        ∃ link body, p.LeadsTo label link ∧ p.labels[link.index]? = some (.continuation source marker) ∧
          p.lookup source = .ok body ∧ occurrences marker body = 0 ∧
          ∀ nearer, p.LeadsTo source nearer → p.Linked nearer) ∧
      ((∃ block, answer = .ok block) ↔
        (∃ root body, p.LeadsTo label root ∧ p.labels[root.index]? = some (.fragment body)) ∧
          ∀ link, p.LeadsTo label link → p.Linked link) ∧
      ∃ depth ≤ p.labels.size + 1, ∀ d outcome,
        p.Resolves d [] label cache outcome ↔ d = depth ∧ outcome = (p.block label).run cache := by
  intro cache answer
  obtain ⟨-, held⟩ := Program.run_blocks earlier (Cache.holds_emptyCache p) (fun _ _ ha _ => ha)
  have ha : answer = p.lookup label := Program.block_answer held.sound label
  rw [ha]
  refine ⟨?_, ?_, ?_, ?_, ?_, ?_⟩
  · intro x
    exact Program.lookup_eq_unknown
  · intro x
    rw [Program.lookup_eq_cycle, Program.closesAt_nil]
  · exact p.lookup_cases label
  · intro source marker
    rw [Program.lookup_eq_missing]
    constructor
    · rintro ⟨link, body, hl, he, hd, absent⟩
      exact ⟨link, body, hl, he, Program.lookup_eq_ok.mpr hd, absent, fun _ => hd.linked⟩
    · rintro ⟨link, body, hl, he, hd, absent, -⟩
      exact ⟨link, body, hl, he, Program.lookup_eq_ok.mp hd, absent⟩
  · simp only [Program.lookup_eq_ok]
    constructor
    · rintro ⟨block, hd⟩
      exact ⟨hd.exists_root, fun _ => hd.linked⟩
    · rintro ⟨⟨root, body, hl, hr⟩, linked⟩
      exact Program.exists_denotes hl hr linked
  · obtain ⟨depth, bound, ran⟩ := Program.resolves_run cache (Program.onTheWay_nil p label)
    refine ⟨depth, bound, ?_⟩
    intro d outcome
    constructor
    · intro other
      exact ran.unique other
    · rintro ⟨rfl, rfl⟩
      exact ran

end BlockScript
