import BlockScript.Proofs.FiniteNumbers

/-!
# Documents read back

What is written of a program, a fragment, a list or a target whose numbers are finite reads back as
the same thing, with the fields of its objects in any order (`Returns`).
-/

namespace BlockScript

open Json

/-! ## Leaves -/

namespace Json

theorem depth_node (kind : String) (fields : List (String × Json)) :
    (Json.node kind fields).depth = depthFields fields + 1 := by
  simp [Json.node, depth, depthFields]

theorem word32?_toNat (n : UInt32) : (Json.int n.toNat).word32? = some n := by
  have := n.toNat_lt
  simp [word32?, nat?, UInt32.size, this]

theorem word64?_toNat (n : UInt64) : (Json.int n.toNat).word64? = some n := by
  have := n.toNat_lt
  simp [word64?, nat?, UInt64.size, this]

end Json

theorem Value.ofJson?_alike (v : Value) {j : Json} (h : Alike v.toJson j) : Value.ofJson? j = some v := by
  cases v <;> (cases h; rfl)

theorem Label.ofJson?_toJson (l : Label) : Label.ofJson? l.toJson = some l := by
  rw [Label.toJson, Label.ofJson?, word32?_toNat]
  rfl

theorem Marker.ofJson?_toJson (m : Marker) : Marker.ofJson? m.toJson = some m := by
  rw [Marker.toJson, Marker.ofJson?, word32?_toNat]
  rfl

theorem ProcedureId.ofJson?_toJson (p : ProcedureId) : ProcedureId.ofJson? p.toJson = some p := by
  rw [ProcedureId.toJson, ProcedureId.ofJson?, word32?_toNat]
  rfl

theorem ArithmeticOp.choice?_key (op : ArithmeticOp) : choice? ArithmeticOp.all key (.str op.key) = some op := by
  cases op <;> rfl

theorem CompareOp.choice?_key (op : CompareOp) : choice? CompareOp.all key (.str op.key) = some op := by
  cases op <;> rfl

theorem CastKind.choice?_key (kind : CastKind) : choice? CastKind.all key (.str kind.key) = some kind := by
  cases kind <;> rfl

theorem Effect.choice?_key (e : Effect) : choice? Effect.all key (.str e.key) = some e := by
  cases e <;> rfl

/-! ## Scripts -/

theorem text_reads (s : String) : Reads (need? Json.str?) (.str s) s :=
  .leaf (fun _ => id) rfl

mutual

theorem Expr.read?_alike (e : Expr) (fuel : Nat) (inside : Bool) {j : Json} (h : Alike e.toJson j)
    (enough : e.toJson.depth < fuel) : Expr.read? fuel inside j = some e := by
  -- reading a node is reading its fields with one unit of fuel less
  obtain ⟨less, rfl⟩ : ∃ less, fuel = less + 1 := ⟨fuel - 1, by omega⟩
  cases e with
  | lit v =>
    exact node1_alike h (by decide) (by decide) (fun _ => rfl) (fun _ => v.ofJson?_alike)
  | var name =>
    exact node1_alike h (by decide) (by decide) (fun _ => rfl) (text_reads name)
  | arg index =>
    exact node1_alike h (by decide) (by decide) (fun _ => rfl) (.leaf (fun _ => id) (word64?_toNat index))
  | item list index =>
    simp only [Expr.toJson, depth_node, depthFields] at enough
    exact node2_alike h (by decide) (by decide) (fun _ => rfl)
      (text_reads list) (fun _ h => index.read?_alike less true h (by omega))
  | length list =>
    exact node1_alike h (by decide) (by decide) (fun _ => rfl) (text_reads list)
  | arithmetic op left right =>
    simp only [Expr.toJson, depth_node, depthFields] at enough
    exact node3_alike h (by decide) (by decide) (fun _ => rfl)
      (.leaf (fun _ => id) op.choice?_key) (fun _ h => left.read?_alike less true h (by omega))
      (fun _ h => right.read?_alike less true h (by omega))
  | compare op left right =>
    simp only [Expr.toJson, depth_node, depthFields] at enough
    exact node3_alike h (by decide) (by decide) (fun _ => rfl)
      (.leaf (fun _ => id) op.choice?_key) (fun _ h => left.read?_alike less true h (by omega))
      (fun _ h => right.read?_alike less true h (by omega))
  | and left right =>
    simp only [Expr.toJson, depth_node, depthFields] at enough
    exact node2_alike h (by decide) (by decide) (fun _ => rfl)
      (fun _ h => left.read?_alike less true h (by omega)) (fun _ h => right.read?_alike less true h (by omega))
  | or left right =>
    simp only [Expr.toJson, depth_node, depthFields] at enough
    exact node2_alike h (by decide) (by decide) (fun _ => rfl)
      (fun _ h => left.read?_alike less true h (by omega)) (fun _ h => right.read?_alike less true h (by omega))
  | not inner =>
    simp only [Expr.toJson, depth_node, depthFields] at enough
    exact node1_alike h (by decide) (by decide) (fun _ => rfl) (fun _ h => inner.read?_alike less true h (by omega))
  | join left right =>
    simp only [Expr.toJson, depth_node, depthFields] at enough
    exact node2_alike h (by decide) (by decide) (fun _ => rfl)
      (fun _ h => left.read?_alike less true h (by omega)) (fun _ h => right.read?_alike less true h (by omega))
  | cast kind inner =>
    simp only [Expr.toJson, depth_node, depthFields] at enough
    exact node2_alike h (by decide) (by decide) (fun _ => rfl)
      (.leaf (fun _ => id) kind.choice?_key) (fun _ h => inner.read?_alike less true h (by omega))
  | query device method args =>
    simp only [Expr.toJson, depth_node, depthFields, depth] at enough
    exact node3_alike h (by decide) (by decide) (fun _ => rfl)
      (text_reads device) (text_reads method) (fun _ h => exprs_alike args less h (by omega))

theorem exprs_alike (es : List Expr) (fuel : Nat) {j : Json} (h : Alike (.arr (exprsToJson es)) j)
    (enough : depthItems (exprsToJson es) < fuel) : Json.all? (Expr.read? fuel true) j = some es := by
  obtain ⟨items, rfl, h⟩ := h
  cases es with
  | nil =>
    obtain rfl := h
    rfl
  | cons e rest =>
    obtain ⟨j, items, rfl, head, tail⟩ := h
    simp only [exprsToJson, depthItems] at enough
    have ih : Json.all? (Expr.read? fuel true) (.arr items) = some rest :=
      exprs_alike rest fuel ⟨items, rfl, tail⟩ (by omega)
    simp only [Json.all?, arr?, Option.bind_some] at ih ⊢
    rw [List.mapM_cons, e.read?_alike fuel true head (by omega), ih]
    rfl

end

mutual

theorem Stmt.read?_alike (s : Stmt) (fuel : Nat) (inside : Bool) {j : Json} (h : Alike s.toJson j)
    (enough : s.toJson.depth < fuel) : Stmt.read? fuel inside j = some s := by
  obtain ⟨less, rfl⟩ : ∃ less, fuel = less + 1 := ⟨fuel - 1, by omega⟩
  cases s with
  | branch test yes no =>
    simp only [Stmt.toJson, depth_node, depthFields, depth] at enough
    exact node3_alike h (by decide) (by decide) (fun _ => rfl)
      (fun _ h => test.read?_alike less true h (by omega)) (fun _ h => block_alike yes less h (by omega))
      (fun _ h => block_alike no less h (by omega))
  | setVariable name value =>
    simp only [Stmt.toJson, depth_node, depthFields] at enough
    exact node2_alike h (by decide) (by decide) (fun _ => rfl)
      (text_reads name) (fun _ h => value.read?_alike less true h (by omega))
  | changeVariable name amount =>
    simp only [Stmt.toJson, depth_node, depthFields] at enough
    exact node2_alike h (by decide) (by decide) (fun _ => rfl)
      (text_reads name) (fun _ h => amount.read?_alike less true h (by omega))
  | addToList list value =>
    simp only [Stmt.toJson, depth_node, depthFields] at enough
    exact node2_alike h (by decide) (by decide) (fun _ => rfl)
      (text_reads list) (fun _ h => value.read?_alike less true h (by omega))
  | replaceItem list index value =>
    simp only [Stmt.toJson, depth_node, depthFields] at enough
    exact node3_alike h (by decide) (by decide) (fun _ => rfl)
      (text_reads list) (fun _ h => index.read?_alike less true h (by omega))
      (fun _ h => value.read?_alike less true h (by omega))
  | insertAt list index value =>
    simp only [Stmt.toJson, depth_node, depthFields] at enough
    exact node3_alike h (by decide) (by decide) (fun _ => rfl)
      (text_reads list) (fun _ h => index.read?_alike less true h (by omega))
      (fun _ h => value.read?_alike less true h (by omega))
  | deleteOf list index =>
    simp only [Stmt.toJson, depth_node, depthFields] at enough
    exact node2_alike h (by decide) (by decide) (fun _ => rfl)
      (text_reads list) (fun _ h => index.read?_alike less true h (by omega))
  | setEffect effect value =>
    simp only [Stmt.toJson, depth_node, depthFields] at enough
    exact node2_alike h (by decide) (by decide) (fun _ => rfl)
      (.leaf (fun _ => id) effect.choice?_key) (fun _ h => value.read?_alike less true h (by omega))
  | changeEffect effect amount =>
    simp only [Stmt.toJson, depth_node, depthFields] at enough
    exact node2_alike h (by decide) (by decide) (fun _ => rfl)
      (.leaf (fun _ => id) effect.choice?_key) (fun _ h => amount.read?_alike less true h (by omega))
  | goTo x y =>
    simp only [Stmt.toJson, depth_node, depthFields] at enough
    exact node2_alike h (by decide) (by decide) (fun _ => rfl)
      (fun _ h => x.read?_alike less true h (by omega)) (fun _ h => y.read?_alike less true h (by omega))
  | deviceCall device method args =>
    simp only [Stmt.toJson, depth_node, depthFields, depth] at enough
    exact node3_alike h (by decide) (by decide) (fun _ => rfl)
      (text_reads device) (text_reads method) (fun _ h => exprs_alike args less h (by omega))
  | jump label =>
    exact node1_alike h (by decide) (by decide) (fun _ => rfl) (.leaf (fun _ => id) label.ofJson?_toJson)
  | jumpLazy label =>
    exact node1_alike h (by decide) (by decide) (fun _ => rfl) (.leaf (fun _ => id) label.ofJson?_toJson)
  | call procedure args resume =>
    simp only [Stmt.toJson, depth_node, depthFields, depth] at enough
    exact node3_alike h (by decide) (by decide) (fun _ => rfl)
      (.leaf (fun _ => id) procedure.ofJson?_toJson) (fun _ h => exprs_alike args less h (by omega))
      (.leaf (fun _ => id) resume.ofJson?_toJson)
  | finish =>
    exact node0_alike h (by decide) fun _ => rfl
  | retire =>
    exact node0_alike h (by decide) fun _ => rfl
  | marker place =>
    exact node1_alike h (by decide) (by decide) (fun _ => rfl) (.leaf (fun _ => id) place.ofJson?_toJson)

theorem block_alike (b : List Stmt) (fuel : Nat) {j : Json} (h : Alike (.arr (blockToJson b)) j)
    (enough : depthItems (blockToJson b) < fuel) : Json.all? (Stmt.read? fuel true) j = some b := by
  obtain ⟨items, rfl, h⟩ := h
  cases b with
  | nil =>
    obtain rfl := h
    rfl
  | cons s rest =>
    obtain ⟨j, items, rfl, head, tail⟩ := h
    simp only [blockToJson, depthItems] at enough
    have ih : Json.all? (Stmt.read? fuel true) (.arr items) = some rest :=
      block_alike rest fuel ⟨items, rfl, tail⟩ (by omega)
    simp only [Json.all?, arr?, Option.bind_some] at ih ⊢
    rw [List.mapM_cons, s.read?_alike fuel true head (by omega), ih]
    rfl

end

/-! ## Programs -/

theorem Entry.ofJson?_alike (e : Entry) {j : Json} (h : Alike e.toJson j) : Entry.ofJson? j = some e := by
  apply whole?_alike h e.faithful.readable
  intro fuel enough
  cases e with
  | fragment body =>
    simp only [Entry.toJson, depth_node, depthFields, depth] at enough
    exact node1_alike h (by decide) (by decide) (fun _ => rfl) fun _ h => block_alike body fuel h (by omega)
  | continuation source marker =>
    exact node2_alike h (by decide) (by decide) (fun _ => rfl) (.leaf (fun _ => id) source.ofJson?_toJson)
      (.leaf (fun _ => id) marker.ofJson?_toJson)

theorem Procedure.ofJson?_alike (p : Procedure) {j : Json} (h : Alike p.toJson j) :
    Procedure.ofJson? j = some p := by
  obtain ⟨_, record, _, _, rfl, rfl, _, _, rfl, rfl, _, _, rfl, rfl, rfl⟩ :=
    record?_alike ["name", "label", "warp"] h rfl (by decide)
  simp [Procedure.ofJson?, record, need?, orElse?, str?, bool?, p.label.ofJson?_toJson]

theorem Program.ofJson?_alike (p : Program) {j : Json} (h : Alike p.toJson j) : Program.ofJson? j = some p := by
  obtain ⟨_, record, _, _, rfl, rfl, _, _, rfl, hl, _, _, rfl, hp, rfl⟩ :=
    record?_alike ["entry", "labels", "procedures"] h rfl (by decide)
  have labels := all?_alike hl fun e _ _ h => e.ofJson?_alike h
  have procedures := all?_alike hp fun q _ _ h => q.ofJson?_alike h
  simp [Program.ofJson?, record, need?, orElse?, p.entry.ofJson?_toJson, labels, procedures]

theorem blockToJson_eq (b : Block) : blockToJson b = b.map Stmt.toJson := by
  induction b with
  | nil => rfl
  | cons s rest ih => rw [blockToJson, List.map_cons, ih]

theorem Stmt.ofJson?_alike (s : Stmt) {j : Json} (h : Alike s.toJson j) : Stmt.ofJson? j = some s :=
  whole?_alike h s.faithful.readable fun fuel enough => s.read?_alike fuel false h enough

theorem fragmentOfJson?_alike (b : Block) {j : Json} (h : Alike (fragmentToJson b) j) :
    fragmentOfJson? j = some b := by
  obtain ⟨_, record, _, _, rfl, hb, rfl⟩ := record?_alike ["body"] h rfl (by decide)
  rw [blockToJson_eq] at hb
  have body : blockOfJson? _ = some b := all?_alike hb fun s _ _ h => s.ofJson?_alike h
  simp [fragmentOfJson?, record, need?, body]

/-! ## Targets -/

theorem ItemList.ofJson?_alike (l : ItemList) {j : Json} (h : Alike l.toJson j) : ItemList.ofJson? j = some l := by
  obtain ⟨_, record, _, _, rfl, hi, _, _, rfl, rfl, rfl⟩ := record?_alike ["items", "dirty"] h rfl (by decide)
  have items := all?_alike hi fun v _ _ h => v.ofJson?_alike h
  simp [ItemList.ofJson?, record, need?, orElse?, bool?, items]

theorem mapM_perm {α β : Type} {f : α → Option β} {l l' : List α} (h : l.Perm l') {r : List β}
    (hr : l.mapM f = some r) : ∃ r', l'.mapM f = some r' ∧ r.Perm r' := by
  induction h generalizing r with
  | nil => exact ⟨r, hr, .refl r⟩
  | cons a _ ih =>
    simp only [List.mapM_cons, Option.bind_eq_bind, Option.bind_eq_some_iff, Option.pure_def,
      Option.some.injEq] at hr
    obtain ⟨b, hb, rest, hrest, rfl⟩ := hr
    obtain ⟨r', hr', perm⟩ := ih hrest
    exact ⟨b :: r', by simp [hb, hr'], perm.cons b⟩
  | swap a b rest =>
    simp only [List.mapM_cons, Option.bind_eq_bind, Option.bind_eq_some_iff, Option.pure_def,
      Option.some.injEq] at hr
    obtain ⟨x, hx, _, ⟨y, hy, rest', hrest, rfl⟩, rfl⟩ := hr
    exact ⟨y :: x :: rest', by simp [hx, hy, hrest], .swap y x rest'⟩
  | trans _ _ ih ih' =>
    obtain ⟨mid, hmid, perm⟩ := ih hr
    obtain ⟨r', hr', perm'⟩ := ih' hmid
    exact ⟨r', hr', perm.trans perm'⟩

theorem mapM_alike {κ α : Type} {pair? : String × Json → Option (κ × α)} {name : κ → String} {write : α → Json}
    (reads : ∀ k a j, Alike (write a) j → pair? (name k, j) = some (k, a)) {pairs : List (κ × α)}
    {fields : List (String × Json)} (h : AlikeFields (pairs.map fun p => (name p.1, write p.2)) fields) :
    fields.mapM pair? = some pairs := by
  induction pairs generalizing fields with
  | nil =>
    obtain rfl := h
    rfl
  | cons p rest ih =>
    obtain ⟨j, fields, rfl, head, tail⟩ := h
    rw [List.mapM_cons, ih tail, reads p.1 p.2 j head]
    rfl

/-- A table is read back from its pairs in any order. -/
theorem table?_alike {κ α : Type} [DecidableEq κ] {key : String → Option κ} {read : Json → Option α}
    (name : κ → String) (write : α → Json) {pairs : List (κ × α)} (distinct : (pairs.map (·.1)).Nodup)
    (named : ∀ k, key (name k) = some k) (reads : ∀ a j, Alike (write a) j → read j = some a) {j : Json}
    (h : Alike (.obj (pairs.map fun p => (name p.1, write p.2))) j) :
    ∃ t, Json.table? key read j = some t ∧ ∀ k a, t.find? k = some a ↔ (k, a) ∈ pairs := by
  obtain ⟨fields, given, rfl, h, perm⟩ := h
  have inOrder : fields.mapM (fun p => do return (← key p.1, ← read p.2)) = some pairs :=
    mapM_alike (fun k a j alike => by simp [named, reads a j alike]) h
  obtain ⟨pairs', found, perm'⟩ := mapM_perm perm inOrder
  refine ⟨.ofPairs pairs', by simp only [table?, found]; rfl, fun k a => ?_⟩
  rw [Table.find?_ofPairs ((perm'.map _).nodup_iff.mp distinct), perm'.mem_iff]

/-- The same target, its tables compared as maps. -/
structure Target.Same (s t : Target) : Prop where
  name : s.name = t.name
  x : s.x = t.x
  y : s.y = t.y
  effects : ∀ e, s.effects.find? e = t.effects.find? e
  vars : ∀ k, s.vars.find? k = t.vars.find? k
  lists : ∀ k, s.lists.find? k = t.lists.find? k

theorem listedEffects_distinct (effects : Table Effect Float) : ((listedEffects effects).map (·.1)).Nodup := by
  rw [listedEffects, List.map_filterMap]
  apply List.Nodup.filterMap _ (by decide)
  intro e e' k he he'
  simp only [Option.map_map, Option.mem_def, Option.map_eq_some_iff, Function.comp_apply,
    exists_and_right] at he he'
  exact he.2.trans he'.2.symm

theorem Effect.keyed?_key (e : Effect) : keyed? Effect.all key e.key = some e := by
  cases e <;> rfl

theorem Target.ofJson?_alike (t : Target) {j : Json} (h : Alike t.toJson j) :
    ∃ s, Target.ofJson? j = some s ∧ s.Same t := by
  obtain ⟨_, record, _, _, rfl, rfl, _, _, rfl, rfl, _, _, rfl, rfl, _, _, rfl, he, _, _, rfl, hv, _, _, rfl, hl,
      rfl⟩ :=
    record?_alike ["name", "x", "y", "effects", "variables", "lists"] h rfl (by decide)
  rw [effectsToJson_eq] at he
  have reads : ∀ x j, Alike (.real x) j → Json.float? j = some x := by
    rintro x _ rfl
    rfl
  obtain ⟨effects, effects?, sameEffects⟩ :=
    table?_alike Effect.key Json.real (listedEffects_distinct t.effects) Effect.keyed?_key reads he
  obtain ⟨vars, vars?, sameVars⟩ := table?_alike id Value.toJson t.vars.distinct (fun _ => rfl)
    (fun v _ h => v.ofJson?_alike h) hv
  obtain ⟨lists, lists?, sameLists⟩ := table?_alike id ItemList.toJson t.lists.distinct (fun _ => rfl)
    (fun l _ h => l.ofJson?_alike h) hl
  refine ⟨⟨t.name, t.x, t.y, effects, vars, lists⟩, ?_, rfl, rfl, rfl, fun e => ?_, fun k => ?_, fun k => ?_⟩
  · simp [Target.ofJson?, record, need?, orElse?, str?, float?, effects?, vars?, lists?]
  · apply Option.ext
    intro x
    rw [sameEffects, mem_listedEffects, t.effects.find?_eq_some_iff]
  · apply Option.ext
    intro v
    rw [sameVars, t.vars.find?_eq_some_iff]
  · apply Option.ext
    intro l
    rw [sameLists, t.lists.find?_eq_some_iff]

/-! ## Return -/

/-- What is written of a thing reads back as the same, with the fields of its objects in any order. -/
def Returns {α : Type} (write : α → Json) (read : Json → Option α) (same : α → α → Prop) (a : α) : Prop :=
  ∀ j, Alike (write a).written j → ∃ b, read j = some b ∧ same b a

theorem returns_of_standard {α : Type} {write : α → Json} {read : Json → Option α} {same : α → α → Prop} {a : α}
    (standard : (write a).standard) (reads : ∀ j, Alike (write a) j → ∃ b, read j = some b ∧ same b a) :
    Returns write read same a := by
  intro j h
  rw [written_eq _ standard] at h
  exact reads j h

theorem Program.returns (p : Program) (h : p.finite) : Returns Program.toJson Program.ofJson? Eq p :=
  returns_of_standard (p.faithful.standard.trans h) fun _ h => ⟨p, p.ofJson?_alike h, rfl⟩

theorem fragment_returns (b : Block) (h : blockFinite b) : Returns fragmentToJson fragmentOfJson? Eq b :=
  returns_of_standard ((fragment_faithful b).standard.trans h) fun _ h => ⟨b, fragmentOfJson?_alike b h, rfl⟩

theorem ItemList.returns (l : ItemList) (h : l.finite) : Returns ItemList.toJson ItemList.ofJson? Eq l :=
  returns_of_standard (l.faithful.standard.trans h) fun _ h => ⟨l, l.ofJson?_alike h, rfl⟩

theorem Target.returns (t : Target) (h : t.finite) : Returns Target.toJson Target.ofJson? Target.Same t :=
  returns_of_standard (t.faithful.standard.trans h) fun _ h => t.ofJson?_alike h

end BlockScript
