/-!
# Tables

A finite map kept as pairs, in the order in which the keys were first given. No key comes twice.
-/

namespace BlockScript

structure Table (κ : Type) (α : Type) where
  pairs : List (κ × α)
  distinct : (pairs.map (·.1)).Nodup

namespace Table

def empty {κ α : Type} : Table κ α := ⟨[], .nil⟩

instance {κ α : Type} : Inhabited (Table κ α) := ⟨empty⟩

theorem not_mem_of_keys {κ α : Type} {key : κ} {pairs : List (κ × α)} (h : key ∉ pairs.map (·.1))
    (value : α) : (key, value) ∉ pairs :=
  fun mem => h (List.mem_map.mpr ⟨(key, value), mem, rfl⟩)

variable {κ α : Type} [DecidableEq κ]

def find? (t : Table κ α) (key : κ) : Option α :=
  (t.pairs.find? (·.1 = key)).map (·.2)

def contains (t : Table κ α) (key : κ) : Bool :=
  (t.find? key).isSome

/-- Replaces the value of a key in place, or adds the key at the end. -/
def setIn (key : κ) (value : α) : List (κ × α) → List (κ × α)
  | [] => [(key, value)]
  | p :: rest => if p.1 = key then (key, value) :: rest else p :: setIn key value rest

theorem mem_setIn (key : κ) (value : α) (pairs : List (κ × α)) (k : κ) :
    k ∈ (setIn key value pairs).map (·.1) ↔ k = key ∨ k ∈ pairs.map (·.1) := by
  induction pairs with
  | nil => simp [setIn]
  | cons p rest ih =>
    by_cases h : p.1 = key
    · simp only [setIn, h, if_true, List.map_cons, List.mem_cons]
      grind
    · simp only [setIn, h, if_false, List.map_cons, List.mem_cons, ih]
      grind

theorem mem_of_mem_setIn {key : κ} {value : α} {pairs : List (κ × α)} {p : κ × α}
    (h : p ∈ setIn key value pairs) : p = (key, value) ∨ p ∈ pairs := by
  induction pairs with
  | nil => exact .inl (List.mem_singleton.mp h)
  | cons q rest ih =>
    by_cases hq : q.1 = key
    · rw [setIn, if_pos hq, List.mem_cons] at h
      exact h.imp_right (List.mem_cons_of_mem q)
    · rw [setIn, if_neg hq, List.mem_cons] at h
      obtain rfl | h := h
      · exact .inr List.mem_cons_self
      · exact (ih h).imp_right (List.mem_cons_of_mem q)

theorem setIn_distinct (key : κ) (value : α) {pairs : List (κ × α)} (h : (pairs.map (·.1)).Nodup) :
    ((setIn key value pairs).map (·.1)).Nodup := by
  induction pairs with
  | nil => simp [setIn]
  | cons p rest ih =>
    rw [List.map_cons, List.nodup_cons] at h
    by_cases hp : p.1 = key
    · simp only [setIn, hp, if_true, List.map_cons, List.nodup_cons]
      exact ⟨hp ▸ h.1, h.2⟩
    · rw [setIn, if_neg hp, List.map_cons, List.nodup_cons, mem_setIn]
      exact ⟨fun again => again.elim hp h.1, ih h.2⟩

def insert (t : Table κ α) (key : κ) (value : α) : Table κ α :=
  ⟨setIn key value t.pairs, setIn_distinct key value t.distinct⟩

def keys (t : Table κ α) : List κ :=
  t.pairs.map (·.1)

/-- Later pairs override earlier ones. -/
def ofPairs (pairs : List (κ × α)) : Table κ α :=
  pairs.foldl (fun t p => t.insert p.1 p.2) empty

theorem mem_of_mem_ofPairs {pairs : List (κ × α)} {p : κ × α} (h : p ∈ (ofPairs pairs).pairs) :
    p ∈ pairs := by
  suffices all : ∀ t : Table κ α, p ∈ (pairs.foldl (fun t p => t.insert p.1 p.2) t).pairs →
      p ∈ pairs ∨ p ∈ t.pairs by
    simpa [empty] using all empty h
  clear h
  induction pairs with
  | nil => exact fun t h => .inr h
  | cons q rest ih =>
    intro t h
    obtain h | h := ih (t.insert q.1 q.2) h
    · exact .inl (List.mem_cons_of_mem q h)
    · obtain rfl | h := mem_of_mem_setIn h
      · exact .inl List.mem_cons_self
      · exact .inr h

theorem find?_empty (key : κ) : (empty : Table κ α).find? key = none := rfl

theorem find?_insert (t : Table κ α) (key other : κ) (value : α) :
    (t.insert key value).find? other = if key = other then some value else t.find? other := by
  obtain ⟨pairs, distinct⟩ := t
  simp only [find?, insert]
  clear distinct
  induction pairs with
  | nil => by_cases h : key = other <;> simp [setIn, h]
  | cons p rest ih =>
    by_cases hp : p.1 = key
    · by_cases h : key = other
      · simp [setIn, hp, h]
      · simp [setIn, hp, h]
    · by_cases h : p.1 = other
      · have : ¬ key = other := fun e => hp (h.trans e.symm)
        rw [setIn, if_neg hp, if_neg this]
        simp [h]
      · simp only [setIn, if_neg hp, List.find?_cons, h, decide_false]
        simpa using ih

theorem find?_eq_some_iff (t : Table κ α) (key : κ) (value : α) :
    t.find? key = some value ↔ (key, value) ∈ t.pairs := by
  obtain ⟨pairs, distinct⟩ := t
  simp only [find?]
  induction pairs with
  | nil => simp
  | cons p rest ih =>
    rw [List.map_cons, List.nodup_cons] at distinct
    by_cases h : p.1 = key
    · have absent : ∀ v, (key, v) ∉ rest := not_mem_of_keys (h ▸ distinct.1)
      simp [h, absent, Prod.ext_iff, eq_comm]
    · have other : (key, value) ≠ p := fun same => h (congrArg Prod.fst same).symm
      simp only [List.find?_cons, h, decide_false, List.mem_cons, other, false_or]
      exact ih distinct.2

/-- Where no key comes twice, a table holds just the pairs it is made of. -/
theorem find?_ofPairs {pairs : List (κ × α)} (distinct : (pairs.map (·.1)).Nodup) (key : κ)
    (value : α) : (ofPairs pairs).find? key = some value ↔ (key, value) ∈ pairs := by
  suffices all : ∀ t : Table κ α,
      (pairs.foldl (fun t p => t.insert p.1 p.2) t).find? key = some value ↔
        (key, value) ∈ pairs ∨ key ∉ pairs.map (·.1) ∧ t.find? key = some value by
    simpa [ofPairs, find?_empty] using all empty
  induction pairs with
  | nil => simp
  | cons p rest ih =>
    intro t
    rw [List.map_cons, List.nodup_cons] at distinct
    rw [List.foldl_cons, ih distinct.2, find?_insert]
    by_cases h : p.1 = key
    · have absent : ∀ v, (key, v) ∉ rest := not_mem_of_keys (h ▸ distinct.1)
      simp [h, absent, Prod.ext_iff, eq_comm]
    · have other : (key, value) ≠ p := fun same => h (congrArg Prod.fst same).symm
      have differ : ¬ key = p.1 := fun same => h same.symm
      simp [h, other, differ]

end Table

end BlockScript
