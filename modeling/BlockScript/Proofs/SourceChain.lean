import BlockScript.Proofs.Lookup
import Mathlib.Data.List.Nodup
import Mathlib.Data.List.Perm.Subperm
import Mathlib.Logic.Relation

/-!
# Source chains and what a cache holds

From a continuation one comes to its source, from there to the source of that, and so on: the source
chain of a label. A label that stands for a block has a chain without repetition, so neither the pending
labels nor the fuel can stop it from being resolved (`resolve_of_denotes`). What is answered for a label
therefore does not depend on a sound cache, failures included (`resolve_answer`), and what is in the
cache in the end can be told without it: the blocks of all labels on the chains of those asked for
(`blocks_transparent`).
-/

namespace BlockScript

open Continuation Relation

theorem Label.index_injective : Function.Injective Label.index := by
  rintro ⟨a⟩ ⟨b⟩ h
  exact congrArg Label.mk (UInt32.toNat_inj.mp h)

namespace Program

/-! ## Chains -/

def Source (p : Program) (label source : Label) : Prop :=
  ∃ marker, p.labels[label.index]? = some (.continuation source marker)

def LeadsTo (p : Program) : Label → Label → Prop :=
  ReflTransGen p.Source

section
variable {p : Program} {label source : Label}

theorem Source.unique {other : Label} (h : p.Source label source) (h' : p.Source label other) : other = source := by
  obtain ⟨marker, he⟩ := h
  obtain ⟨marker', he'⟩ := h'
  rw [he] at he'
  cases he'
  rfl

theorem leadsTo_iff {other : Label} :
    p.LeadsTo label other ↔ other = label ∨ ∃ source, p.Source label source ∧ p.LeadsTo source other := by
  unfold LeadsTo
  rw [ReflTransGen.cases_head_iff, eq_comm]

theorem leadsTo_of_source {other : Label} (h : p.Source label source) :
    p.LeadsTo label other ↔ other = label ∨ p.LeadsTo source other := by
  rw [leadsTo_iff]
  constructor
  · rintro (rfl | ⟨source', hs, hl⟩)
    · exact .inl rfl
    · rw [h.unique hs] at hl
      exact .inr hl
  · rintro (rfl | hl)
    · exact .inl rfl
    · exact .inr ⟨source, h, hl⟩

theorem leadsTo_of_not_source {other : Label} (h : ∀ source, ¬ p.Source label source) :
    p.LeadsTo label other ↔ other = label := by
  rw [leadsTo_iff]
  simp [h]

theorem not_source_of_none (he : p.labels[label.index]? = none) : ¬ p.Source label source := by
  rintro ⟨marker, hs⟩
  rw [he] at hs
  cases hs

theorem not_source_of_fragment {body : Block} (he : p.labels[label.index]? = some (.fragment body)) :
    ¬ p.Source label source := by
  rintro ⟨marker, hs⟩
  rw [he] at hs
  cases hs

theorem Denotes.index_lt {block : Block} (h : p.Denotes label block) : label.index < p.labels.size := by
  cases h with
  | fragment he | continuation he _ _ => exact (Array.getElem?_eq_some_iff.mp he).1

theorem Denotes.of_continuation {marker : Marker} {block : Block}
    (he : p.labels[label.index]? = some (.continuation source marker)) (h : p.Denotes label block) :
    ∃ body, p.Denotes source body ∧ synthesize? marker body = some block := by
  cases h with
  | fragment he' =>
    rw [he] at he'
    cases he'
  | continuation he' hd hs =>
    rw [he] at he'
    cases he'
    exact ⟨_, hd, hs⟩

/-! ## Cycles -/

theorem Denotes.acyclic {block : Block} (h : p.Denotes label block) : ¬ TransGen p.Source label label := by
  -- the first step of a cycle goes to the source, which is then on the cycle as well
  induction h with
  | fragment he =>
    intro cycle
    obtain ⟨source, hs, -⟩ := TransGen.head'_iff.mp cycle
    exact not_source_of_fragment he hs
  | @continuation label source marker _ _ he _ _ ih =>
    intro cycle
    have first : p.Source label source := ⟨marker, he⟩
    obtain ⟨source', hs, back⟩ := TransGen.head'_iff.mp cycle
    rw [first.unique hs] at back
    exact ih (TransGen.tail' back first)

theorem cycle_of_leadsTo {other : Label} (cycle : TransGen p.Source label label) (h : p.LeadsTo label other) :
    TransGen p.Source other other := by
  induction h with
  | refl => exact cycle
  | @tail between other _ hs ih =>
    obtain ⟨source, hs', back⟩ := TransGen.head'_iff.mp ih
    rw [hs.unique hs'] at back
    exact TransGen.tail' back hs

end

/-! ## Resolving on the way -/

/-- Where the resolution of a label can stand: the pending labels are in the table, none comes twice, and
each of them leads here. What is left of the fuel is what is left of the table. -/
structure OnTheWay (p : Program) (fuel : Nat) (pending : List Label) (label : Label) : Prop where
  nodup : pending.Nodup
  known : ∀ l ∈ pending, l.index < p.labels.size
  leads : ∀ l ∈ pending, TransGen p.Source l label
  fuel : fuel + pending.length = p.labels.size

section
variable {p : Program} {fuel : Nat} {pending : List Label} {label source : Label}

theorem onTheWay_nil (p : Program) (label : Label) : p.OnTheWay p.labels.size [] label := by
  refine ⟨List.nodup_nil, ?_, ?_, rfl⟩
  · intro l hl
    cases hl
  · intro l hl
    cases hl

theorem OnTheWay.next (h : p.OnTheWay (fuel + 1) pending label) (fresh : label ∉ pending)
    (hs : p.Source label source) : p.OnTheWay fuel (label :: pending) source := by
  obtain ⟨marker, he⟩ := hs
  obtain ⟨bound, -⟩ := Array.getElem?_eq_some_iff.mp he
  refine ⟨List.nodup_cons.mpr ⟨fresh, h.nodup⟩, ?_, ?_, ?_⟩
  · exact List.forall_mem_cons.mpr ⟨bound, h.known⟩
  · intro l hl
    rcases List.mem_cons.mp hl with rfl | hl
    · exact .single ⟨marker, he⟩
    · exact (h.leads l hl).tail ⟨marker, he⟩
  · have := h.fuel
    rw [List.length_cons]
    omega

/-- As many distinct labels as the table has room for are all of them. -/
theorem OnTheWay.fuel_pos (h : p.OnTheWay fuel pending label) (fresh : label ∉ pending)
    (bound : label.index < p.labels.size) : ∃ less, fuel = less + 1 := by
  have nodup : ((label :: pending).map Label.index).Nodup :=
    (List.nodup_cons.mpr ⟨fresh, h.nodup⟩).map Label.index_injective
  have inside : (label :: pending).map Label.index ⊆ List.range p.labels.size := by
    intro i hi
    obtain ⟨l, hl, rfl⟩ := List.mem_map.mp hi
    rw [List.mem_range]
    rcases List.mem_cons.mp hl with rfl | hl
    · exact bound
    · exact h.known l hl
  have room := (List.subperm_of_subset nodup inside).length_le
  have := h.fuel
  simp only [List.length_map, List.length_cons, List.length_range] at room
  exact ⟨fuel - 1, by omega⟩

theorem resolve_of_denotes {block : Block} (h : p.Denotes label block) (way : p.OnTheWay fuel pending label)
    {cache : Cache} (sound : cache.Sound p) : ((p.resolve fuel pending label).run cache).1 = .ok block := by
  induction h generalizing fuel pending with
  | @fragment label body he =>
    rw [run_resolve, he]
    cases hf : cache.find? label with
    | none => rfl
    | some built => rw [(sound label built hf).unique (.fragment he)]
  | @continuation label source marker body rest he hd hs ih =>
    have denotes : p.Denotes label rest := .continuation he hd hs
    rw [run_resolve, he]
    cases hf : cache.find? label with
    | some built => rw [(sound label built hf).unique denotes]
    | none =>
      obtain ⟨bound, -⟩ := Array.getElem?_eq_some_iff.mp he
      have fresh : label ∉ pending := by
        intro hp
        exact denotes.acyclic (way.leads label hp)
      obtain ⟨less, rfl⟩ := way.fuel_pos fresh bound
      have hsource := ih (way.next fresh ⟨marker, he⟩)
      simp only [fresh, if_false]
      rcases hr : (p.resolve less (label :: pending) source).run cache with ⟨answer, cache'⟩
      rw [hr] at hsource
      cases hsource
      simp only [hs]

/-- The answer is the same with any two sound caches. -/
theorem resolve_answer (way : p.OnTheWay fuel pending label) {cache cache' : Cache} (sound : cache.Sound p)
    (sound' : cache'.Sound p) :
    ((p.resolve fuel pending label).run cache').1 = ((p.resolve fuel pending label).run cache).1 := by
  induction fuel using Nat.strongRecOn generalizing pending label with
  | ind fuel ih =>
    by_cases hd : ∃ block, p.Denotes label block
    · obtain ⟨block, hd⟩ := hd
      rw [resolve_of_denotes hd way sound, resolve_of_denotes hd way sound']
    · have unbuilt : ∀ {c : Cache}, c.Sound p → c.find? label = none := by
        intro c hc
        rw [Option.eq_none_iff_forall_ne_some]
        intro block hb
        exact hd ⟨block, hc label block hb⟩
      rw [run_resolve, run_resolve, unbuilt sound, unbuilt sound']
      cases he : p.labels[label.index]? with
      | none => rfl
      | some entry =>
        cases entry with
        | fragment body => rfl
        | continuation source marker =>
          simp only
          by_cases hp : label ∈ pending
          · simp only [hp, if_true]
          · simp only [hp, if_false]
            cases fuel with
            | zero => rfl
            | succ less =>
              have same := ih less (Nat.lt_succ_self less) (way.next hp ⟨marker, he⟩)
              rcases hr : (p.resolve less (label :: pending) source).run cache with ⟨answer, c⟩
              rcases hr' : (p.resolve less (label :: pending) source).run cache' with ⟨answer', c'⟩
              rw [hr, hr'] at same
              cases same
              simp only [hr, hr']
              cases answer with
              | error f => rfl
              | ok body =>
                simp only
                cases synthesize? marker body <;> rfl

end

theorem lookup_eq_ok {p : Program} {label : Label} {block : Block} :
    p.lookup label = .ok block ↔ p.Denotes label block := by
  constructor
  · intro h
    exact (resolve_sound (Cache.emptyCache_sound p) rfl).2 block h
  · intro h
    exact resolve_of_denotes h (onTheWay_nil p label) (Cache.emptyCache_sound p)

theorem block_answer {p : Program} {cache : Cache} (sound : cache.Sound p) (label : Label) :
    ((p.block label).run cache).1 = p.lookup label :=
  resolve_answer (onTheWay_nil p label) (Cache.emptyCache_sound p) sound

end Program

/-! ## What a cache holds -/

namespace Cache

theorem find?_insert_self {cache : Cache} {label : Label} (h : label.index < cache.built.size) (block : Block) :
    (cache.insert label block).find? label = some block := by
  simp [find?, insert, h]

theorem find?_insert_of_ne {cache : Cache} {label other : Label} (h : other ≠ label) (block : Block) :
    (cache.insert label block).find? other = cache.find? other := by
  have hi : label.index ≠ other.index := fun e => h (Label.index_injective e.symm)
  simp [find?, insert, hi]

/-- The blocks of the labels in question, and no others. -/
structure Holds (cache : Cache) (p : Program) (asked : Label → Prop) : Prop where
  size : cache.built.size = p.labels.size
  found : ∀ label block, cache.find? label = some block ↔ asked label ∧ p.Denotes label block

section
variable {cache : Cache} {p : Program} {asked : Label → Prop}

theorem holds_emptyCache (p : Program) : p.emptyCache.Holds p fun _ => False := by
  refine ⟨Array.size_replicate, ?_⟩
  intro label block
  simp [find?_emptyCache]

theorem Holds.sound (h : cache.Holds p asked) : cache.Sound p := by
  intro label block hf
  exact ((h.found label block).mp hf).2

theorem Holds.widen {asked' : Label → Prop} (h : cache.Holds p asked) (more : ∀ l, asked l → asked' l)
    (idle : ∀ l block, p.Denotes l block → asked' l → asked l) : cache.Holds p asked' := by
  refine ⟨h.size, ?_⟩
  intro l block
  rw [h.found]
  constructor
  · rintro ⟨ha, hd⟩
    exact ⟨more l ha, hd⟩
  · rintro ⟨ha, hd⟩
    exact ⟨idle l block hd ha, hd⟩

theorem Holds.congr {asked' : Label → Prop} (h : cache.Holds p asked) (same : ∀ l, asked l ↔ asked' l) :
    cache.Holds p asked' :=
  h.widen (fun l => (same l).mp) (fun l _ _ => (same l).mpr)

theorem Holds.insert (h : cache.Holds p asked) {label : Label} {block : Block} (hd : p.Denotes label block) :
    (cache.insert label block).Holds p fun l => l = label ∨ asked l := by
  have bound : label.index < cache.built.size := by
    rw [h.size]
    exact hd.index_lt
  refine ⟨?_, ?_⟩
  · simp [Cache.insert, h.size]
  · intro other found
    by_cases ho : other = label
    · subst ho
      rw [find?_insert_self bound]
      constructor
      · rintro ⟨⟩
        exact ⟨.inl rfl, hd⟩
      · rintro ⟨-, hd'⟩
        rw [hd.unique hd']
    · rw [find?_insert_of_ne ho, h.found]
      simp [ho]

/-! ## What resolving adds -/

theorem leadsTo_of_asked (closed : ∀ l source, asked l → p.Source l source → asked source)
    {label l : Label} (ha : asked label) (h : p.LeadsTo label l) : asked l := by
  induction h with
  | refl => exact ha
  | tail _ hs ih => exact closed _ _ ih hs

theorem Holds.link {label source : Label} (h : cache.Holds p fun l => asked l ∨ p.LeadsTo source l)
    (hs : p.Source label source) (idle : ∀ block, ¬ p.Denotes label block) :
    cache.Holds p fun l => asked l ∨ p.LeadsTo label l := by
  apply h.widen
  · intro l ha
    rw [Program.leadsTo_of_source hs]
    exact ha.imp_right .inr
  · intro l block hd ha
    rw [Program.leadsTo_of_source hs] at ha
    rcases ha with ha | rfl | hl
    · exact .inl ha
    · exact absurd hd (idle block)
    · exact .inr hl

theorem Holds.link_insert {label source : Label} (h : cache.Holds p fun l => asked l ∨ p.LeadsTo source l)
    (hs : p.Source label source) {block : Block} (hd : p.Denotes label block) :
    (cache.insert label block).Holds p fun l => asked l ∨ p.LeadsTo label l := by
  apply (h.insert hd).congr
  intro l
  rw [Program.leadsTo_of_source hs]
  exact or_left_comm

/-- Whether the label is found or not, the blocks on its chain are in the cache then. -/
theorem Holds.resolve {fuel : Nat} {pending : List Label} {label : Label} (way : p.OnTheWay fuel pending label)
    (h : cache.Holds p asked) (closed : ∀ l source, asked l → p.Source l source → asked source) :
    ((p.resolve fuel pending label).run cache).2.Holds p fun l => asked l ∨ p.LeadsTo label l := by
  induction fuel using Nat.strongRecOn generalizing pending label with
  | ind fuel ih =>
    rw [Program.run_resolve]
    cases he : p.labels[label.index]? with
    | none =>
      apply h.widen (fun l => .inl)
      intro l block hd ha
      rw [Program.leadsTo_of_not_source fun _ => Program.not_source_of_none he] at ha
      rcases ha with ha | rfl
      · exact ha
      · have bound := hd.index_lt
        simp [bound] at he
    | some entry =>
      cases hf : cache.find? label with
      | some built =>
        apply h.widen (fun l => .inl)
        intro l block _ ha
        rcases ha with ha | hl
        · exact ha
        · exact leadsTo_of_asked closed ((h.found label built).mp hf).1 hl
      | none =>
        cases entry with
        | fragment body =>
          apply (h.insert (.fragment he)).congr
          intro l
          rw [Program.leadsTo_of_not_source fun _ => Program.not_source_of_fragment he, or_comm]
        | continuation source marker =>
          have hs : p.Source label source := ⟨marker, he⟩
          simp only
          by_cases hp : label ∈ pending
          · -- a cycle: nothing on it stands for a block
            simp only [hp, if_true]
            apply h.widen (fun l => .inl)
            intro l block hd ha
            rcases ha with ha | hl
            · exact ha
            · exact absurd (Program.cycle_of_leadsTo (way.leads label hp) hl) hd.acyclic
          · obtain ⟨bound, -⟩ := Array.getElem?_eq_some_iff.mp he
            obtain ⟨less, rfl⟩ := way.fuel_pos hp bound
            have way' := way.next hp hs
            have held := ih less (Nat.lt_succ_self less) way'
            simp only [hp, if_false]
            rcases hr : (p.resolve less (label :: pending) source).run cache with ⟨answer, cache'⟩
            rw [hr] at held
            -- a source that stands for a block has been answered with it
            have complete : ∀ body, p.Denotes source body → answer = .ok body := by
              intro body hd
              have ok := Program.resolve_of_denotes hd way' h.sound
              rwa [hr] at ok
            cases answer with
            | error f =>
              apply held.link hs
              intro block hd
              obtain ⟨body, hbody, -⟩ := Program.Denotes.of_continuation he hd
              cases complete body hbody
            | ok body =>
              simp only
              cases hm : synthesize? marker body with
              | none =>
                apply held.link hs
                intro block hd
                obtain ⟨body', hbody, hm'⟩ := Program.Denotes.of_continuation he hd
                cases complete body' hbody
                rw [hm] at hm'
                cases hm'
              | some rest =>
                have hbody : p.Denotes source body := (Program.resolve_sound h.sound hr).2 body rfl
                exact held.link_insert hs (.continuation he hbody hm)

end

end Cache

/-! ## Any number of labels -/

namespace Program

def blocks (p : Program) (labels : List Label) : StateM Cache (List (Except Fault Block)) :=
  labels.mapM fun label => (p.block label).run

theorem run_blocks {p : Program} {asked : Label → Prop} {cache : Cache} (labels : List Label)
    (h : cache.Holds p asked) (closed : ∀ l source, asked l → p.Source l source → asked source) :
    ((p.blocks labels).run cache).1 = labels.map p.lookup ∧
      ((p.blocks labels).run cache).2.Holds p fun l => asked l ∨ ∃ label ∈ labels, p.LeadsTo label l := by
  induction labels generalizing cache asked with
  | nil =>
    refine ⟨rfl, h.congr ?_⟩
    simp
  | cons label rest ih =>
    have hrun : (p.blocks (label :: rest)).run cache =
        (((p.block label).run cache).1 :: ((p.blocks rest).run ((p.block label).run cache).2).1,
          ((p.blocks rest).run ((p.block label).run cache).2).2) := by
      unfold blocks
      rw [List.mapM_cons]
      rfl
    have first := h.resolve (onTheWay_nil p label) closed
    have closed' : ∀ l source, asked l ∨ p.LeadsTo label l → p.Source l source →
        asked source ∨ p.LeadsTo label source := by
      rintro l source (ha | hl) hs
      · exact .inl (closed l source ha hs)
      · exact .inr (hl.tail hs)
    obtain ⟨answers, held⟩ := ih first closed'
    rw [hrun]
    refine ⟨?_, held.congr ?_⟩
    · rw [List.map_cons]
      exact congrArg₂ List.cons (block_answer h.sound label) answers
    · simp [or_assoc]

end Program

/-- Labels of all kinds are asked for, in any order. Each of the answers, blocks and faults alike, is the
one that a new program gives; and a label has a block in the cache in the end exactly if it is on the
source chain of a label asked for and a new program has a block for it, which is then the same. -/
theorem blocks_transparent (p : Program) (labels : List Label) :
    let answers := ((p.blocks labels).run p.emptyCache).1
    let cache := ((p.blocks labels).run p.emptyCache).2
    answers = labels.map p.lookup ∧
      (∀ l, (cache.find? l).isSome ↔
        (∃ label ∈ labels, p.LeadsTo label l) ∧ ∃ block, p.lookup l = .ok block) ∧
      ∀ l block, cache.find? l = some block → p.lookup l = .ok block := by
  intro answers cache
  obtain ⟨same, held⟩ := Program.run_blocks labels (Cache.holds_emptyCache p) (fun _ _ ha _ => ha)
  refine ⟨same, ?_, ?_⟩
  · intro l
    rw [Option.isSome_iff_exists]
    simp only [cache, held.found, false_or, Program.lookup_eq_ok, exists_and_left]
  · intro l block hf
    exact Program.lookup_eq_ok.mpr ((held.found l block).mp hf).2

end BlockScript
