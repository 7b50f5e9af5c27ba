import BlockScript.Proofs.Indices

/-!
# Editing a list by index

An index that is not drawn by lot addresses the same slot whenever the length is the same: the last one,
or the one at its position. As long as lengths are doubles, this is all that the operations go by. To put
a value before a slot makes it the slot that the index addresses in the longer list, so that reading finds
the value there and deleting takes it out again (`edits_agree`).
-/

namespace BlockScript

open Number

/-- The indices that are drawn by lot. -/
def lotIndices : List Value :=
  [.str "random", .str "any"]

/-- The index names the slot with the offset `i` in every list of this length. -/
def Value.Addresses (index : Value) (length i : ℕ) : Prop :=
  if index = .str "last" then i + 1 = length
  else ∃ r, rational? index.toNumber = some r ∧ Names ⌊r⌋ length i

section
variable {pick : Pick} {index v : Value} {length i : ℕ}

theorem Value.Addresses.lt (h : index.Addresses length i) : i < length := by
  unfold Value.Addresses at h
  split at h
  · omega
  · obtain ⟨r, -, first, last, offset⟩ := h
    omega

theorem resolveIndex?_iff (short : length ≤ 2 ^ 53) (fixed : index ∉ lotIndices) :
    resolveIndex? pick index length = some i ↔ index.Addresses length i := by
  unfold Value.Addresses
  by_cases last : index = .str "last"
  · rw [if_pos last, last]
    exact resolveIndex?_last
  · have position : index ∉ wordIndices := by
      simp only [lotIndices, wordIndices, List.mem_cons] at fixed ⊢
      exact not_or.mpr ⟨last, fixed⟩
    have word : length ≤ maxCount := short.trans (by decide)
    have none {p : ℤ} : ¬ Overshoots p length i := fun h => absurd h.1 (by rw [nearest_of_le short]; omega)
    rw [if_neg last, resolveIndex?_eq_some word position]
    simp only [none, or_false]

theorem resolveIndex?_none (short : length ≤ 2 ^ 53) (fixed : index ∉ lotIndices)
    (nowhere : ∀ i, ¬ index.Addresses length i) : resolveIndex? pick index length = none := by
  rw [Option.eq_none_iff_forall_ne_some]
  intro i resolved
  exact nowhere i ((resolveIndex?_iff short fixed).mp resolved)

theorem resolveIndex?_lt (short : length ≤ 2 ^ 53) (resolved : resolveIndex? pick index length = some i) :
    i < length := by
  have word : length ≤ maxCount := short.trans (by decide)
  have exact_length : nearest length ≤ length := (nearest_of_le short).le
  exact (offsets_within_iff word).mpr (.inl exact_length) index i resolved

/-- To delete `all` is to empty the list, so it is as well that no slot is called that. -/
theorem not_addresses_all : ¬ (Value.str "all").Addresses length i := by
  intro h
  unfold Value.Addresses at h
  rw [if_neg (by decide)] at h
  obtain ⟨r, value, first, -⟩ := h
  have zero : floor? (Value.str "all").toNumber = some 0 := by decide +kernel
  rw [floor?_eq, value, Option.map_some, Option.some.injEq] at zero
  omega

end

/-! ## One operation -/

theorem insertIdx_length_append {α : Type} (before after : List α) (a : α) :
    (before ++ after).insertIdx before.length a = before ++ a :: after := by
  induction before with
  | nil => rfl
  | cons b before ih => simpa using ih

theorem exists_split {α : Type} {items : List α} {i : ℕ} (h : i < items.length) :
    ∃ before x after, items = before ++ x :: after ∧ before.length = i := by
  refine ⟨items.take i, items[i], items.drop (i + 1), ?_, List.length_take_of_le h.le⟩
  rw [List.getElem_cons_drop, List.take_append_drop]

namespace ItemList

section
variable {pick : Pick} {l : ItemList} {index : Value} {before after : List Value}
  (short : l.length < 2 ^ 53) (fixed : index ∉ lotIndices)
include short fixed

theorem insert_unaddressed (nowhere : ∀ i, ¬ index.Addresses (l.length + 1) i) (v : Value) :
    l.insert pick index v = l := by
  rw [insert, resolveIndex?_none short fixed nowhere]

theorem insert_addressed (split : l.items = before ++ after) (here : index.Addresses (l.length + 1) before.length)
    (v : Value) : l.insert pick index v = ⟨before ++ v :: after, true⟩ := by
  rw [insert, (resolveIndex?_iff short fixed).mpr here, split]
  simp only [insertIdx_length_append]

end

section
variable {pick : Pick} {l : ItemList} {index : Value} {before after : List Value} {x : Value}
  (short : l.length ≤ 2 ^ 53) (fixed : index ∉ lotIndices) (split : l.items = before ++ x :: after)
  (here : index.Addresses l.length before.length)
include short fixed split here

theorem get_addressed : l.get pick index = x := by
  rw [get, (resolveIndex?_iff short fixed).mpr here, split]
  simp

theorem replace_addressed (v : Value) : l.replace pick index v = ⟨before ++ v :: after, true⟩ := by
  rw [replace, (resolveIndex?_iff short fixed).mpr here, split]
  simp

theorem delete_addressed : l.delete pick index = ⟨before ++ after, true⟩ := by
  have all : index ≠ .str "all" := by
    rintro rfl
    exact not_addresses_all here
  rw [delete, if_neg all, (resolveIndex?_iff short fixed).mpr here, split]
  simp [List.eraseIdx_append_of_length_le]

end

end ItemList

/-! ## One after the other -/

/-- To insert at an index changes nothing if it addresses no slot of a list that is one longer. Otherwise
the value comes to stand at the slot, the other items before and after it as they were, reading at the index
finds it, and deleting at the index gives the items back. At an index that addresses a slot of the list,
reading gives the item there, replacing puts the value in its place, where reading finds it, and deleting
takes that item out. The indices that are resolved are those that address a slot, and no offset, not even
one by lot, lies outside of the list. -/
theorem edits_agree (l : ItemList) (short : l.length < 2 ^ 53) (index v : Value) (fixed : index ∉ lotIndices)
    (pick pick' : Pick) :
    ((∀ i, ¬ index.Addresses (l.length + 1) i) ∧ l.insert pick index v = l ∨
      ∃ before after, l.items = before ++ after ∧ index.Addresses (l.length + 1) before.length ∧
        l.insert pick index v = ⟨before ++ v :: after, true⟩ ∧
        (l.insert pick index v).length = l.length + 1 ∧
        (l.insert pick index v).get pick' index = v ∧
        ((l.insert pick index v).delete pick' index).items = l.items) ∧
    (∀ i, index.Addresses l.length i →
      ∃ before x after, l.items = before ++ x :: after ∧ before.length = i ∧ l.get pick index = x ∧
        l.replace pick index v = ⟨before ++ v :: after, true⟩ ∧
        (l.replace pick index v).get pick' index = v ∧
        l.delete pick index = ⟨before ++ after, true⟩) ∧
    (∀ i, resolveIndex? pick index l.length = some i ↔ index.Addresses l.length i) ∧
    ∀ (pick : Pick) (index : Value) (i : ℕ), (resolveIndex? pick index l.length = some i → i < l.length) ∧
      (resolveIndex? pick index (l.length + 1) = some i → i ≤ l.length) := by
  refine ⟨?_, ?_, ?_, ?_⟩
  · by_cases nowhere : ∀ i, ¬ index.Addresses (l.length + 1) i
    · exact .inl ⟨nowhere, l.insert_unaddressed short fixed nowhere v⟩
    · obtain ⟨i, here⟩ := not_forall_not.mp nowhere
      have within : i ≤ l.length := Nat.le_of_lt_succ here.lt
      obtain ⟨before, after, split, rfl⟩ : ∃ before after, l.items = before ++ after ∧ before.length = i :=
        ⟨l.items.take i, l.items.drop i, (List.take_append_drop i l.items).symm, List.length_take_of_le within⟩
      have inserted : l.insert pick index v = ⟨before ++ v :: after, true⟩ :=
        l.insert_addressed short fixed split here v
      have longer : (⟨before ++ v :: after, true⟩ : ItemList).length = l.length + 1 := by
        simp [ItemList.length, split, Nat.add_assoc]
      -- in the longer list the index is resolved against the same length as it was for inserting
      have still : index.Addresses (⟨before ++ v :: after, true⟩ : ItemList).length before.length := by
        rwa [longer]
      refine .inr ⟨before, after, split, here, inserted, ?_, ?_, ?_⟩ <;> rw [inserted]
      · exact longer
      · exact ItemList.get_addressed (longer ▸ short) fixed rfl still
      · rw [ItemList.delete_addressed (longer ▸ short) fixed rfl still, split]
  · rintro i here
    obtain ⟨before, x, after, split, rfl⟩ := exists_split here.lt
    have replaced : l.replace pick index v = ⟨before ++ v :: after, true⟩ :=
      l.replace_addressed short.le fixed split here v
    have same : (⟨before ++ v :: after, true⟩ : ItemList).length = l.length := by
      simp [ItemList.length, split]
    refine ⟨before, x, after, split, rfl, l.get_addressed short.le fixed split here, replaced, ?_,
      l.delete_addressed short.le fixed split here⟩
    rw [replaced]
    exact ItemList.get_addressed (same ▸ short.le) fixed rfl (same ▸ here)
  · intro i
    exact resolveIndex?_iff short.le fixed
  · intro pick index i
    refine ⟨resolveIndex?_lt short.le, ?_⟩
    intro resolved
    exact Nat.le_of_lt_succ (resolveIndex?_lt short resolved)

theorem edits_agree_fraction :
    let l : ItemList := ⟨[.num 1, .null], false⟩
    let index : Value := .str " 3.75 "
    l.length < 2 ^ 53 ∧ index ∉ lotIndices ∧
      l.insert (fun _ => 0) index (.bool true) = ⟨[.num 1, .null, .bool true], true⟩ ∧
      (l.insert (fun _ => 0) index (.bool true)).get (fun _ => 1) index = .bool true ∧
      ((l.insert (fun _ => 0) index (.bool true)).delete (fun _ => 1) index).items = l.items := by
  intro l index
  have short : l.length < 2 ^ 53 := by decide
  have fixed : index ∉ lotIndices := by decide
  have inserted : l.insert (fun _ => 0) index (.bool true) = ⟨[.num 1, .null, .bool true], true⟩ := by
    decide +kernel
  obtain ⟨-, unchanged⟩ | ⟨before, after, -, -, -, -, got, deleted⟩ :=
    (edits_agree l short index (.bool true) fixed (fun _ => 0) (fun _ => 1)).1
  · rw [inserted] at unchanged
    exact absurd unchanged (by decide)
  · exact ⟨short, fixed, inserted, got, deleted⟩

end BlockScript
