import BlockScript.Program

/-!
# Looking up labels

What a label stands for does not depend on what has been built before: the block of its entry, or what
is left after a marker of the block that its source stands for (`Denotes`). A cache that holds nothing
else is sound. Looking up a label keeps a cache sound, also when it fails, and a label that a new
program has a block for has the same block whatever sound cache the lookup starts with (`run_block_ok`).
-/

namespace BlockScript

open Continuation

namespace Program

/-- The block at a label of a program of which nothing has been built. -/
def lookup (p : Program) (label : Label) : Except Fault Block :=
  ((p.block label).run p.emptyCache).1

inductive Denotes (p : Program) : Label → Block → Prop
  | fragment {label : Label} {body : Block} :
      p.labels[label.index]? = some (.fragment body) → Denotes p label body
  | continuation {label source : Label} {marker : Marker} {body rest : Block} :
      p.labels[label.index]? = some (.continuation source marker) → Denotes p source body →
      synthesize? marker body = some rest → Denotes p label rest

theorem Denotes.unique {p : Program} {label : Label} {b b' : Block} (h : p.Denotes label b)
    (h' : p.Denotes label b') : b = b' := by
  induction h generalizing b' with
  | fragment he =>
    cases h' with
    | fragment he' => rw [he] at he'; cases he'; rfl
    | continuation he' _ _ => rw [he] at he'; cases he'
  | continuation he _ hs ih =>
    cases h' with
    | fragment he' => rw [he] at he'; cases he'
    | continuation he' hd' hs' =>
      rw [he] at he'
      cases he'
      rw [ih hd', hs'] at hs
      cases hs
      rfl

end Program

/-! ## Sound caches -/

namespace Cache

def Sound (cache : Cache) (p : Program) : Prop :=
  ∀ label block, cache.find? label = some block → p.Denotes label block

theorem find?_emptyCache (p : Program) (label : Label) : p.emptyCache.find? label = none := by
  simp only [find?, Program.emptyCache, Array.getElem?_replicate]
  split <;> rfl

theorem emptyCache_sound (p : Program) : p.emptyCache.Sound p := by
  intro label block h
  rw [find?_emptyCache] at h
  cases h

theorem find?_insert {cache : Cache} {label other : Label} {block found : Block}
    (h : (cache.insert label block).find? other = some found) :
    other = label ∧ found = block ∨ cache.find? other = some found := by
  simp only [find?, insert, Array.getElem?_setIfInBounds] at h ⊢
  by_cases hi : label.index = other.index
  · have same : other = label := by
      cases other
      cases label
      exact congrArg Label.mk (UInt32.toNat_inj.mp hi.symm)
    rw [if_pos hi] at h
    split at h
    · cases h
      exact .inl ⟨same, rfl⟩
    · cases h
  · rw [if_neg hi] at h
    exact .inr h

theorem Sound.insert {cache : Cache} {p : Program} (hc : cache.Sound p) {label : Label} {block : Block}
    (h : p.Denotes label block) : (cache.insert label block).Sound p := by
  intro other found hf
  obtain ⟨rfl, rfl⟩ | hf := find?_insert hf
  · exact h
  · exact hc other found hf

end Cache

/-! ## What resolving does -/

namespace Program

theorem run_bind {α β : Type} (x : Build α) (f : α → Build β) (cache : Cache) :
    (x >>= f).run cache =
      match x.run cache with
      | (.ok a, cache') => (f a).run cache'
      | (.error e, cache') => (.error e, cache') := by
  have h : (x >>= f).run cache = (match x.run cache with | (r, cache') => (ExceptT.bindCont f r).run cache') := rfl
  rw [h]
  rcases x.run cache with ⟨_ | _, cache'⟩ <;> rfl

theorem run_resolve (p : Program) (fuel : Nat) (pending : List Label) (label : Label) (cache : Cache) :
    (p.resolve fuel pending label).run cache =
      match p.labels[label.index]?, cache.find? label with
      | none, _ => (.error (.unknownLabel label), cache)
      | some _, some block => (.ok block, cache)
      | some (.fragment body), none => (.ok body, cache.insert label body)
      | some (.continuation source marker), none =>
        if label ∈ pending then (.error (.continuationCycle label), cache)
        else
          match fuel with
          | 0 => (.error (.continuationCycle label), cache)
          | fuel + 1 =>
            match (p.resolve fuel (label :: pending) source).run cache with
            | (.error f, cache') => (.error f, cache')
            | (.ok body, cache') =>
              match synthesize? marker body with
              | none => (.error (.missingMarker source marker), cache')
              | some rest => (.ok rest, cache'.insert label rest) := by
  rw [resolve]
  cases p.labels[label.index]? with
  | none => rfl
  | some entry =>
    simp only
    rw [run_bind, show (get : Build Cache).run cache = (.ok cache, cache) from rfl]
    simp only
    cases cache.find? label with
    | some block => rfl
    | none =>
      cases entry with
      | fragment body => rfl
      | continuation source marker =>
        simp only
        by_cases hp : label ∈ pending
        · rw [if_pos hp, if_pos hp]
          rfl
        · rw [if_neg hp, if_neg hp]
          cases fuel with
          | zero => rfl
          | succ fuel =>
            simp only
            rw [run_bind]
            rcases (p.resolve fuel (label :: pending) source).run cache with ⟨f | body, cache'⟩
            · rfl
            · simp only
              cases synthesize? marker body <;> rfl

theorem resolve_sound {p : Program} {fuel : Nat} {pending : List Label} {label : Label} {cache cache' : Cache}
    {answer : Except Fault Block} (hc : cache.Sound p)
    (h : (p.resolve fuel pending label).run cache = (answer, cache')) :
    cache'.Sound p ∧ ∀ block, answer = .ok block → p.Denotes label block := by
  -- whatever the answer is, the cache has only grown by blocks that their labels stand for
  induction fuel using Nat.strongRecOn generalizing pending label cache' answer with
  | ind fuel ih =>
    rw [run_resolve] at h
    split at h
    · cases h
      exact ⟨hc, fun _ hb => by cases hb⟩
    · rename_i hf
      cases h
      exact ⟨hc, fun _ hb => by cases hb; exact hc _ _ hf⟩
    · rename_i he _
      cases h
      exact ⟨hc.insert (.fragment he), fun _ hb => by cases hb; exact .fragment he⟩
    · rename_i he _
      split at h
      · cases h
        exact ⟨hc, fun _ hb => by cases hb⟩
      · split at h
        · cases h
          exact ⟨hc, fun _ hb => by cases hb⟩
        · split at h
          · rename_i hs
            cases h
            exact ⟨(ih _ (Nat.lt_succ_self _) hs).1, fun _ hb => by cases hb⟩
          · rename_i hs
            obtain ⟨hc', hd⟩ := ih _ (Nat.lt_succ_self _) hs
            split at h
            · cases h
              exact ⟨hc', fun _ hb => by cases hb⟩
            · rename_i hm
              cases h
              have denotes := Denotes.continuation he (hd _ rfl) hm
              exact ⟨hc'.insert denotes, fun _ hb => by cases hb; exact denotes⟩

theorem resolve_ok_of_empty {p : Program} {fuel : Nat} {pending : List Label} {label : Label} {block : Block}
    (h : ((p.resolve fuel pending label).run p.emptyCache).1 = .ok block) {cache : Cache} (hc : cache.Sound p) :
    ((p.resolve fuel pending label).run cache).1 = .ok block := by
  have denotes : p.Denotes label block := (resolve_sound (Cache.emptyCache_sound p) rfl).2 block h
  induction fuel using Nat.strongRecOn generalizing pending label block with
  | ind fuel ih =>
    rw [run_resolve, Cache.find?_emptyCache] at h
    rw [run_resolve]
    cases he : p.labels[label.index]? with
    | none => rw [he] at h; cases h
    | some entry =>
      rw [he] at h
      cases hf : cache.find? label with
      | some built => rw [denotes.unique (hc label built hf)]
      | none =>
        cases entry with
        | fragment body => exact h
        | continuation source marker =>
          simp only at h ⊢
          by_cases hp : label ∈ pending
          · rw [if_pos hp] at h
            cases h
          · rw [if_neg hp] at h ⊢
            cases fuel with
            | zero => cases h
            | succ fuel =>
              -- nothing has been built on the way down, so the source is looked up the same way
              simp only at h ⊢
              rcases hs : (p.resolve fuel (label :: pending) source).run p.emptyCache with ⟨f | body, cache₀⟩ <;>
                rw [hs] at h <;> simp only at h
              · cases h
              · have hbody : ((p.resolve fuel (label :: pending) source).run cache).1 = .ok body := by
                  refine ih fuel (Nat.lt_succ_self _) ?_ ?_
                  · rw [hs]
                  · exact (resolve_sound (Cache.emptyCache_sound p) hs).2 body rfl
                rcases hs' : (p.resolve fuel (label :: pending) source).run cache with ⟨r, cache'⟩
                rw [hs'] at hbody
                cases hbody
                simp only
                cases hm : synthesize? marker body with
                | none => rw [hm] at h; cases h
                | some rest => rw [hm] at h; exact h

/-- A label that a new program has a block for has that block with any sound cache, and leaves the cache
sound. -/
theorem run_block_ok {p : Program} {label : Label} {block : Block} (h : p.lookup label = .ok block)
    {cache : Cache} (hc : cache.Sound p) :
    ∃ cache', (p.block label).run cache = (.ok block, cache') ∧ cache'.Sound p ∧ p.Denotes label block := by
  have ok : ((p.block label).run cache).1 = .ok block := resolve_ok_of_empty h hc
  obtain ⟨sound, denotes⟩ := resolve_sound hc (show (p.block label).run cache = _ from rfl)
  exact ⟨_, Prod.ext ok rfl, sound, denotes block ok⟩

end Program

end BlockScript
