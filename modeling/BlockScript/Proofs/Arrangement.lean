import Mathlib
import BlockScript.Document.Reader
import BlockScript.Json.Printer

/-!
# JSON values up to the order of fields

The fields of an object stand for a map. `Alike` compares values that way, and a record or a node is
read from every value that is alike to the one written. What is written of a double that is not
finite is null.
-/

namespace BlockScript.Json

/-! ## Numbers -/

mutual

/-- All numbers in the value are numbers of JSON: 64-bit words and finite doubles. -/
def standard : Json → Bool
  | .int n => -2 ^ 63 ≤ n && n < 2 ^ 64
  | .real x => x.isFinite
  | .arr items => standardItems items
  | .obj fields => standardFields fields
  | _ => true

def standardItems : List Json → Bool
  | [] => true
  | j :: rest => j.standard && standardItems rest

def standardFields : List (String × Json) → Bool
  | [] => true
  | (_, j) :: rest => j.standard && standardFields rest

end

mutual

/-- The value as it is written, with null for every double that is not finite. -/
def written : Json → Json
  | .real x => if x.isFinite then .real x else .null
  | .arr items => .arr (writtenItems items)
  | .obj fields => .obj (writtenFields fields)
  | j => j

def writtenItems : List Json → List Json
  | [] => []
  | j :: rest => j.written :: writtenItems rest

def writtenFields : List (String × Json) → List (String × Json)
  | [] => []
  | (k, j) :: rest => (k, j.written) :: writtenFields rest

end

mutual

theorem prettyAt_written (depth : Nat) (j : Json) : prettyAt depth j.written = prettyAt depth j := by
  cases j with
  | real x =>
    by_cases h : x.isFinite
    · simp [written, h]
    · simp [written, h, prettyAt, floatText]
  | arr items => simp only [written, prettyAt, prettyItems_written]
  | obj fields => simp only [written, prettyAt, prettyFields_written]
  | null | bool | int | str | unreadable => rfl

theorem prettyItems_written (depth : Nat) (items : List Json) :
    prettyItems depth (writtenItems items) = prettyItems depth items := by
  cases items with
  | nil => rfl
  | cons j rest => simp only [writtenItems, prettyItems, prettyAt_written, prettyItems_written]

theorem prettyFields_written (depth : Nat) (fields : List (String × Json)) :
    prettyFields depth (writtenFields fields) = prettyFields depth fields := by
  cases fields with
  | nil => rfl
  | cons p rest =>
    obtain ⟨k, j⟩ := p
    simp only [writtenFields, prettyFields, prettyAt_written, prettyFields_written]

end

/-- The text of a value is the text of what is written of it. -/
theorem pretty_written (j : Json) : pretty j.written = pretty j :=
  prettyAt_written 0 j

mutual

theorem written_eq (j : Json) (h : j.standard) : j.written = j := by
  cases j with
  | real x =>
    simp only [standard] at h
    simp only [written, h, if_true]
  | arr items =>
    simp only [standard] at h
    rw [written, writtenItems_eq items h]
  | obj fields =>
    simp only [standard] at h
    rw [written, writtenFields_eq fields h]
  | null | bool | int | str | unreadable => rfl

theorem writtenItems_eq (items : List Json) (h : standardItems items) : writtenItems items = items := by
  cases items with
  | nil => rfl
  | cons j rest =>
    simp only [standardItems, Bool.and_eq_true] at h
    rw [writtenItems, written_eq j h.1, writtenItems_eq rest h.2]

theorem writtenFields_eq (fields : List (String × Json)) (h : standardFields fields) :
    writtenFields fields = fields := by
  cases fields with
  | nil => rfl
  | cons p rest =>
    obtain ⟨k, j⟩ := p
    simp only [standardFields, Bool.and_eq_true] at h
    rw [writtenFields, written_eq j h.1, writtenFields_eq rest h.2]

end

/-! ## Order of fields -/

mutual

/-- The second value is the first one with the fields of its objects in some order. -/
def Alike : Json → Json → Prop
  | .arr items, j => ∃ items', j = .arr items' ∧ AlikeItems items items'
  | .obj fields, j => ∃ fields' given, j = .obj given ∧ AlikeFields fields fields' ∧ fields'.Perm given
  | leaf, j => j = leaf

def AlikeItems : List Json → List Json → Prop
  | [], items' => items' = []
  | j :: rest, items' => ∃ j' rest', items' = j' :: rest' ∧ Alike j j' ∧ AlikeItems rest rest'

def AlikeFields : List (String × Json) → List (String × Json) → Prop
  | [], fields' => fields' = []
  | (k, j) :: rest, fields' =>
    ∃ j' rest', fields' = (k, j') :: rest' ∧ Alike j j' ∧ AlikeFields rest rest'

end

mutual

theorem Alike.refl (j : Json) : Alike j j := by
  cases j with
  | arr items => exact ⟨items, rfl, AlikeItems.refl items⟩
  | obj fields => exact ⟨fields, fields, rfl, AlikeFields.refl fields, .refl _⟩
  | null | bool | int | real | str | unreadable => rfl

theorem AlikeItems.refl (items : List Json) : AlikeItems items items := by
  cases items with
  | nil => rfl
  | cons j rest => exact ⟨j, rest, rfl, Alike.refl j, AlikeItems.refl rest⟩

theorem AlikeFields.refl (fields : List (String × Json)) : AlikeFields fields fields := by
  cases fields with
  | nil => rfl
  | cons p rest => exact ⟨p.2, rest, rfl, Alike.refl p.2, AlikeFields.refl rest⟩

end

theorem readableFields_perm {fields fields' : List (String × Json)} (h : fields.Perm fields') :
    readableFields fields = readableFields fields' := by
  induction h with
  | nil => rfl
  | cons p _ ih => simp only [readableFields, ih]
  | swap p q rest => simp only [readableFields, Bool.and_left_comm]
  | trans _ _ ih ih' => exact ih.trans ih'

theorem depthFields_perm {fields fields' : List (String × Json)} (h : fields.Perm fields') :
    depthFields fields = depthFields fields' := by
  induction h with
  | nil => rfl
  | cons p _ ih => simp only [depthFields, ih]
  | swap p q rest => simp only [depthFields, Nat.max_left_comm]
  | trans _ _ ih ih' => exact ih.trans ih'

mutual

theorem readable_alike (j : Json) {j' : Json} (h : Alike j j') : j.readable = j'.readable := by
  cases j with
  | arr items =>
    obtain ⟨items', rfl, h⟩ := h
    exact readableItems_alike items h
  | obj fields =>
    obtain ⟨fields', given, rfl, h, perm⟩ := h
    exact (readableFields_alike fields h).trans (readableFields_perm perm)
  | null | bool | int | real | str | unreadable => rw [h]

theorem readableItems_alike (items : List Json) {items' : List Json} (h : AlikeItems items items') :
    readableItems items = readableItems items' := by
  cases items with
  | nil => rw [h]
  | cons j rest =>
    obtain ⟨j', rest', rfl, head, tail⟩ := h
    simp only [readableItems, readable_alike j head, readableItems_alike rest tail]

theorem readableFields_alike (fields : List (String × Json)) {fields' : List (String × Json)}
    (h : AlikeFields fields fields') : readableFields fields = readableFields fields' := by
  cases fields with
  | nil => rw [h]
  | cons p rest =>
    obtain ⟨j', rest', rfl, head, tail⟩ := h
    simp only [readableFields, readable_alike p.2 head, readableFields_alike rest tail]

end

mutual

theorem depth_alike (j : Json) {j' : Json} (h : Alike j j') : j.depth = j'.depth := by
  cases j with
  | arr items =>
    obtain ⟨items', rfl, h⟩ := h
    simp only [depth, depthItems_alike items h]
  | obj fields =>
    obtain ⟨fields', given, rfl, h, perm⟩ := h
    simp only [depth, depthFields_alike fields h, depthFields_perm perm]
  | null | bool | int | real | str | unreadable => rw [h]

theorem depthItems_alike (items : List Json) {items' : List Json} (h : AlikeItems items items') :
    depthItems items = depthItems items' := by
  cases items with
  | nil => rw [h]
  | cons j rest =>
    obtain ⟨j', rest', rfl, head, tail⟩ := h
    simp only [depthItems, depth_alike j head, depthItems_alike rest tail]

theorem depthFields_alike (fields : List (String × Json)) {fields' : List (String × Json)}
    (h : AlikeFields fields fields') : depthFields fields = depthFields fields' := by
  cases fields with
  | nil => rw [h]
  | cons p rest =>
    obtain ⟨j', rest', rfl, head, tail⟩ := h
    simp only [depthFields, depth_alike p.2 head, depthFields_alike rest tail]

end

theorem names_alike (fields : List (String × Json)) {fields' : List (String × Json)}
    (h : AlikeFields fields fields') : fields'.map (·.1) = fields.map (·.1) := by
  induction fields generalizing fields' with
  | nil => rw [h]
  | cons p rest ih =>
    obtain ⟨j', rest', rfl, _, tail⟩ := h
    rw [List.map_cons, List.map_cons, ih tail]

theorem values_alike (fields : List (String × Json)) {fields' : List (String × Json)}
    (h : AlikeFields fields fields') : AlikeItems (fields.map (·.2)) (fields'.map (·.2)) := by
  induction fields generalizing fields' with
  | nil => rw [h]; rfl
  | cons p rest ih =>
    obtain ⟨j', rest', rfl, head, tail⟩ := h
    exact ⟨j', rest'.map (·.2), rfl, head, ih tail⟩

/-! ## Records and nodes -/

theorem mapM_map_some {α β γ : Type} {read : β → Option γ} {write : α → β} {value : α → γ} {l : List α}
    (h : ∀ a ∈ l, read (write a) = some (value a)) : (l.map write).mapM read = some (l.map value) := by
  induction l with
  | nil => rfl
  | cons a rest ih =>
    rw [List.forall_mem_cons] at h
    rw [List.map_cons, List.mapM_cons, h.1, ih h.2]
    rfl

theorem occurrences_of_mem {fields : List (String × Json)} (distinct : (fields.map (·.1)).Nodup)
    {p : String × Json} (mem : p ∈ fields) : occurrences fields p.1 = [p.2] := by
  induction fields with
  | nil => cases mem
  | cons q rest ih =>
    rw [List.map_cons, List.nodup_cons] at distinct
    obtain rfl | mem := List.mem_cons.mp mem
    · have others : rest.filter (·.1 == p.1) = [] := by
        rw [List.filter_eq_nil_iff]
        intro q hq same
        exact distinct.1 (List.mem_map.mpr ⟨q, hq, by simpa using same⟩)
      simp [occurrences, others]
    · have other : ¬ q.1 = p.1 := fun same => distinct.1 (List.mem_map.mpr ⟨p, mem, same.symm⟩)
      simpa [occurrences, other] using ih distinct.2 mem

/-- A record is read from an object that has its fields, each once, in whatever order. -/
theorem record?_of_subset {fields given : List (String × Json)} (distinct : (given.map (·.1)).Nodup)
    (all : ∀ p ∈ fields, p ∈ given) :
    (Json.obj given).record? (fields.map (·.1)) = some (fields.map fun p => some p.2) := by
  apply mapM_map_some
  intro p mem
  simp only [occurrences_of_mem distinct (all p mem)]

theorem record?_alike (names : List String) {fields : List (String × Json)} {j : Json} (h : Alike (.obj fields) j)
    (same : fields.map (·.1) = names) (distinct : names.Nodup) :
    ∃ values : List Json, j.record? names = some (values.map some) ∧ AlikeItems (fields.map (·.2)) values := by
  obtain ⟨fields', given, rfl, h, perm⟩ := h
  obtain rfl := (names_alike fields h).trans same
  refine ⟨fields'.map (·.2), ?_, values_alike fields h⟩
  rw [record?_of_subset ((perm.map _).nodup_iff.mp distinct) fun p mem => perm.mem_iff.mp mem, List.map_map]
  rfl

/-- A node is read from a value alike to the one written: its kind and then its fields. -/
theorem node?_alike (kinds names : List String) (inside : Bool) {kind : String} {fields : List (String × Json)}
    {j : Json} (h : Alike (.node kind fields) j) (same : fields.map (·.1) = names) (known : kind ∈ kinds)
    (distinct : ("t" :: names).Nodup) :
    ∃ (rest : Json) (values : List Json), node? kinds inside j = some (kind, rest) ∧
      rest.record? names = some (values.map some) ∧ AlikeItems (fields.map (·.2)) values := by
  obtain ⟨fields', given, rfl, ⟨tag, fields', rfl, rfl, h⟩, perm⟩ := h
  obtain rfl := (names_alike fields h).trans same
  have distinct' : (given.map (·.1)).Nodup := (perm.map _).nodup_iff.mp distinct
  have tag : occurrences given "t" = [.str kind] :=
    occurrences_of_mem distinct' (perm.mem_iff.mp List.mem_cons_self)
  have found : kinds.find? (· == kind) = some kind := by
    have there : (kinds.find? (· == kind)).isSome := List.find?_isSome.mpr ⟨kind, known, beq_self_eq_true kind⟩
    obtain ⟨name, found⟩ := Option.isSome_iff_exists.mp there
    have same : name = kind := by simpa using List.find?_some found
    rw [found, same]
  refine ⟨.obj (given.filter (·.1 != "t")), fields'.map (·.2), ?_, ?_, values_alike fields h⟩
  · simp only [node?, untag?, tag, kind?, found, Option.map_some]
  · rw [record?_of_subset (distinct'.sublist (List.filter_sublist.map _)), List.map_map]
    · rfl
    · intro p mem
      have other : p.1 ≠ "t" := fun same => (List.nodup_cons.mp distinct).1 (List.mem_map.mpr ⟨p, mem, same⟩)
      exact List.mem_filter.mpr ⟨perm.mem_iff.mp (List.mem_cons_of_mem _ mem), by simpa using other⟩

theorem noFields?_of_record? {j : Json} {values : List (Option Json)} (h : j.record? [] = some values) :
    noFields? j = some () := by
  cases j with
  | obj fields => rfl
  | arr items =>
    cases items with
    | nil => rfl
    | cons j rest => simp [record?] at h
  | null | bool | int | real | str | unreadable => cases h

/-- Any value alike to the one that was written for a field reads back. -/
def Reads {α : Type} (read : Option Json → Option α) (written : Json) (a : α) : Prop :=
  ∀ j, Alike written j → read (some j) = some a

theorem Reads.leaf {α : Type} {read : Json → Option α} {written : Json} {a : α}
    (alike : ∀ j, Alike written j → j = written) (h : read written = some a) : Reads (need? read) written a := by
  intro j same
  rw [alike j same]
  exact h

section
variable {α β γ δ : Type} {kinds : List String} {inside : Bool} {kind n₁ n₂ n₃ : String} {w₁ w₂ w₃ j : Json}
  {branches : String × Json → Option α} {r₁ : Option Json → Option β} {r₂ : Option Json → Option γ}
  {r₃ : Option Json → Option δ} {b : β} {c : γ} {d : δ}

theorem node0_alike (h : Alike (.node kind []) j) (known : kind ∈ kinds) {a : α}
    (branch : ∀ rest, branches (kind, rest) = do
      noFields? rest
      return a) :
    (node? kinds inside j).bind branches = some a := by
  obtain ⟨rest, _, node, record, rfl⟩ := node?_alike kinds [] inside h rfl known (by decide)
  rw [node, Option.bind_some, branch, noFields?_of_record? record]
  rfl

theorem node1_alike {make : β → α} (h : Alike (.node kind [(n₁, w₁)]) j) (known : kind ∈ kinds)
    (distinct : ["t", n₁].Nodup)
    (branch : ∀ rest, branches (kind, rest) = do
      let [v₁] ← rest.record? [n₁] | none
      return make (← r₁ v₁))
    (first : Reads r₁ w₁ b) : (node? kinds inside j).bind branches = some (make b) := by
  obtain ⟨rest, _, node, record, v₁, _, rfl, h₁, rfl⟩ := node?_alike kinds [n₁] inside h rfl known distinct
  rw [node, Option.bind_some, branch, record]
  simp [first v₁ h₁]

theorem node2_alike {make : β → γ → α} (h : Alike (.node kind [(n₁, w₁), (n₂, w₂)]) j) (known : kind ∈ kinds)
    (distinct : ["t", n₁, n₂].Nodup)
    (branch : ∀ rest, branches (kind, rest) = do
      let [v₁, v₂] ← rest.record? [n₁, n₂] | none
      return make (← r₁ v₁) (← r₂ v₂))
    (first : Reads r₁ w₁ b) (second : Reads r₂ w₂ c) :
    (node? kinds inside j).bind branches = some (make b c) := by
  obtain ⟨rest, _, node, record, v₁, _, rfl, h₁, v₂, _, rfl, h₂, rfl⟩ :=
    node?_alike kinds [n₁, n₂] inside h rfl known distinct
  rw [node, Option.bind_some, branch, record]
  simp [first v₁ h₁, second v₂ h₂]

theorem node3_alike {make : β → γ → δ → α} (h : Alike (.node kind [(n₁, w₁), (n₂, w₂), (n₃, w₃)]) j)
    (known : kind ∈ kinds) (distinct : ["t", n₁, n₂, n₃].Nodup)
    (branch : ∀ rest, branches (kind, rest) = do
      let [v₁, v₂, v₃] ← rest.record? [n₁, n₂, n₃] | none
      return make (← r₁ v₁) (← r₂ v₂) (← r₃ v₃))
    (first : Reads r₁ w₁ b) (second : Reads r₂ w₂ c) (third : Reads r₃ w₃ d) :
    (node? kinds inside j).bind branches = some (make b c d) := by
  obtain ⟨rest, _, node, record, v₁, _, rfl, h₁, v₂, _, rfl, h₂, v₃, _, rfl, h₃, rfl⟩ :=
    node?_alike kinds [n₁, n₂, n₃] inside h rfl known distinct
  rw [node, Option.bind_some, branch, record]
  simp [first v₁ h₁, second v₂ h₂, third v₃ h₃]

end

theorem whole?_alike {α : Type} {read : Nat → Json → Option α} {j j' : Json} {a : α} (h : Alike j j')
    (readable : j.readable) (reads : ∀ fuel, j.depth < fuel → read fuel j' = some a) : j'.whole? read = some a := by
  rw [whole?, ← readable_alike j h, if_pos readable]
  apply reads
  rw [depth_alike j h]
  exact Nat.lt_succ_self _

theorem all?_alike {α : Type} {read : Json → Option α} {write : α → Json} {l : List α} {j : Json}
    (h : Alike (.arr (l.map write)) j) (reads : ∀ a ∈ l, ∀ j, Alike (write a) j → read j = some a) :
    Json.all? read j = some l := by
  obtain ⟨items, rfl, h⟩ := h
  show items.mapM read = some l
  induction l generalizing items with
  | nil =>
    obtain rfl := h
    rfl
  | cons a rest ih =>
    obtain ⟨j, items, rfl, head, tail⟩ := h
    rw [List.forall_mem_cons] at reads
    rw [List.mapM_cons, reads.1 j head, ih reads.2 items tail]
    rfl

end BlockScript.Json
