import BlockScript.Proofs.Arrangement

/-!
# Finite numbers

A document is finite when all its numbers are. What is written of it is readable, and its numbers
are numbers of JSON just when the document is finite (`Faithful`).
-/

namespace BlockScript

open Json

/-! ## Scripts -/

def Value.finite : Value → Bool
  | .num n => n.isFinite
  | _ => true

mutual

def Expr.finite : Expr → Bool
  | .lit v => v.finite
  | .var _ | .arg _ | .length _ => true
  | .item _ inner | .not inner | .cast _ inner => inner.finite
  | .arithmetic _ left right | .compare _ left right | .and left right | .or left right | .join left right =>
    left.finite && right.finite
  | .query _ _ args => exprsFinite args

def exprsFinite : List Expr → Bool
  | [] => true
  | e :: rest => e.finite && exprsFinite rest

end

mutual

def Stmt.finite : Stmt → Bool
  | .branch test yes no => test.finite && (blockFinite yes && blockFinite no)
  | .setVariable _ e | .changeVariable _ e | .addToList _ e | .deleteOf _ e | .setEffect _ e | .changeEffect _ e =>
    e.finite
  | .replaceItem _ left right | .insertAt _ left right | .goTo left right => left.finite && right.finite
  | .deviceCall _ _ args | .call _ args _ => exprsFinite args
  | .jump _ | .jumpLazy _ | .finish | .retire | .marker _ => true

def blockFinite : List Stmt → Bool
  | [] => true
  | s :: rest => s.finite && blockFinite rest

end

/-! ## Programs and targets -/

def Entry.finite : Entry → Bool
  | .fragment body => blockFinite body
  | .continuation _ _ => true

def Program.finite (p : Program) : Bool :=
  p.labels.toList.all Entry.finite

def ItemList.finite (l : ItemList) : Bool :=
  l.items.all Value.finite

def Target.finite (t : Target) : Bool :=
  t.x.isFinite && (t.y.isFinite && (t.effects.pairs.all (·.2.isFinite) &&
    (t.vars.pairs.all (·.2.finite) && t.lists.pairs.all (·.2.finite))))

/-! ## What is written of them -/

/-- Nothing in the value is unreadable, and its numbers are those of JSON just when `finite` says so. -/
structure Json.Faithful (j : Json) (finite : Bool) : Prop where
  readable : j.readable = true
  standard : j.standard = finite

structure Json.FaithfulFields (fields : List (String × Json)) (finite : Bool) : Prop where
  readable : readableFields fields = true
  standard : standardFields fields = finite

namespace Json

theorem FaithfulFields.nil : FaithfulFields [] true :=
  ⟨rfl, rfl⟩

theorem FaithfulFields.cons {name : String} {j : Json} {fields : List (String × Json)} {a b : Bool}
    (head : j.Faithful a) (tail : FaithfulFields fields b) : FaithfulFields ((name, j) :: fields) (a && b) :=
  ⟨by simp [readableFields, head.readable, tail.readable], by simp [standardFields, head.standard, tail.standard]⟩

theorem FaithfulFields.obj {fields : List (String × Json)} {b : Bool} (h : FaithfulFields fields b) :
    (Json.obj fields).Faithful b :=
  ⟨h.readable, h.standard⟩

theorem faithful_str (s : String) : (Json.str s).Faithful true :=
  ⟨rfl, rfl⟩

theorem faithful_bool (b : Bool) : (Json.bool b).Faithful true :=
  ⟨rfl, rfl⟩

theorem faithful_real (x : Float) : (Json.real x).Faithful x.isFinite :=
  ⟨rfl, rfl⟩

theorem faithful_nat {n : Nat} (h : n < 2 ^ 64) : (Json.int n).Faithful true := by
  refine ⟨rfl, ?_⟩
  simp only [standard, Bool.and_eq_true, decide_eq_true_eq]
  omega

theorem faithful_word32 (n : UInt32) : (Json.int n.toNat).Faithful true :=
  faithful_nat (by have := n.toNat_lt; omega)

theorem faithful_word64 (n : UInt64) : (Json.int n.toNat).Faithful true :=
  faithful_nat n.toNat_lt

theorem FaithfulFields.node {kind : String} {fields : List (String × Json)} {b : Bool}
    (h : FaithfulFields fields b) : (Json.node kind fields).Faithful b := by
  simpa [Json.node] using (FaithfulFields.cons (faithful_str kind) h).obj

theorem FaithfulFields.pairs {κ α : Type} (name : κ → String) {write : α → Json} {finite : α → Bool}
    (h : ∀ a, (write a).Faithful (finite a)) (pairs : List (κ × α)) :
    FaithfulFields (pairs.map fun p => (name p.1, write p.2)) (pairs.all (finite ·.2)) := by
  induction pairs with
  | nil => exact .nil
  | cons p rest ih => exact .cons (h p.2) ih

theorem Faithful.items_nil : (Json.arr []).Faithful true :=
  ⟨rfl, rfl⟩

theorem Faithful.items_cons {j : Json} {items : List Json} {a b : Bool} (head : j.Faithful a)
    (tail : (Json.arr items).Faithful b) : (Json.arr (j :: items)).Faithful (a && b) := by
  have readable : readableItems items = true := tail.readable
  have standard : standardItems items = b := tail.standard
  exact ⟨by simp [Json.readable, readableItems, head.readable, readable],
    by simp [Json.standard, standardItems, head.standard, standard]⟩

theorem Faithful.items {α : Type} {write : α → Json} {finite : α → Bool} (h : ∀ a, (write a).Faithful (finite a))
    (l : List α) : (Json.arr (l.map write)).Faithful (l.all finite) := by
  induction l with
  | nil => exact .items_nil
  | cons a rest ih => exact .items_cons (h a) ih

end Json

theorem Value.faithful (v : Value) : v.toJson.Faithful v.finite := by
  cases v <;> exact ⟨rfl, rfl⟩

theorem Label.faithful (l : Label) : l.toJson.Faithful true :=
  faithful_word32 l.id

theorem Marker.faithful (m : Marker) : m.toJson.Faithful true :=
  faithful_word32 m.id

theorem ProcedureId.faithful (p : ProcedureId) : p.toJson.Faithful true :=
  faithful_word32 p.id

mutual

theorem Expr.faithful (e : Expr) : e.toJson.Faithful e.finite := by
  cases e with
  | lit v => simpa [Expr.toJson, Expr.finite] using (FaithfulFields.cons v.faithful .nil).node
  | var name => exact (FaithfulFields.cons (faithful_str name) .nil).node
  | arg index => exact (FaithfulFields.cons (faithful_word64 index) .nil).node
  | item list index =>
    simpa [Expr.toJson, Expr.finite] using
      (FaithfulFields.cons (faithful_str list) (.cons index.faithful .nil)).node
  | length list => exact (FaithfulFields.cons (faithful_str list) .nil).node
  | arithmetic op left right =>
    simpa [Expr.toJson, Expr.finite] using
      (FaithfulFields.cons (faithful_str op.key) (.cons left.faithful (.cons right.faithful .nil))).node
  | compare op left right =>
    simpa [Expr.toJson, Expr.finite] using
      (FaithfulFields.cons (faithful_str op.key) (.cons left.faithful (.cons right.faithful .nil))).node
  | and left right | or left right | join left right =>
    simpa [Expr.toJson, Expr.finite] using (FaithfulFields.cons left.faithful (.cons right.faithful .nil)).node
  | not inner => simpa [Expr.toJson, Expr.finite] using (FaithfulFields.cons inner.faithful .nil).node
  | cast kind inner =>
    simpa [Expr.toJson, Expr.finite] using
      (FaithfulFields.cons (faithful_str kind.key) (.cons inner.faithful .nil)).node
  | query device method args =>
    simpa [Expr.toJson, Expr.finite] using
      (FaithfulFields.cons (faithful_str device)
        (.cons (faithful_str method) (.cons (exprs_faithful args) .nil))).node

theorem exprs_faithful (es : List Expr) : (Json.arr (exprsToJson es)).Faithful (exprsFinite es) := by
  cases es with
  | nil => exact .items_nil
  | cons e rest => exact .items_cons e.faithful (exprs_faithful rest)

end

mutual

theorem Stmt.faithful (s : Stmt) : s.toJson.Faithful s.finite := by
  cases s with
  | branch test yes no =>
    simpa [Stmt.toJson, Stmt.finite] using
      (FaithfulFields.cons test.faithful (.cons (block_faithful yes) (.cons (block_faithful no) .nil))).node
  | setVariable name e | changeVariable name e | addToList name e | deleteOf name e =>
    simpa [Stmt.toJson, Stmt.finite] using (FaithfulFields.cons (faithful_str name) (.cons e.faithful .nil)).node
  | setEffect effect e | changeEffect effect e =>
    simpa [Stmt.toJson, Stmt.finite] using
      (FaithfulFields.cons (faithful_str effect.key) (.cons e.faithful .nil)).node
  | replaceItem list index value | insertAt list index value =>
    simpa [Stmt.toJson, Stmt.finite] using
      (FaithfulFields.cons (faithful_str list) (.cons index.faithful (.cons value.faithful .nil))).node
  | goTo x y => simpa [Stmt.toJson, Stmt.finite] using (FaithfulFields.cons x.faithful (.cons y.faithful .nil)).node
  | deviceCall device method args =>
    simpa [Stmt.toJson, Stmt.finite] using
      (FaithfulFields.cons (faithful_str device)
        (.cons (faithful_str method) (.cons (exprs_faithful args) .nil))).node
  | call procedure args resume =>
    simpa [Stmt.toJson, Stmt.finite] using
      (FaithfulFields.cons procedure.faithful (.cons (exprs_faithful args) (.cons resume.faithful .nil))).node
  | jump label | jumpLazy label => exact (FaithfulFields.cons label.faithful .nil).node
  | finish | retire => exact FaithfulFields.nil.node
  | marker id => exact (FaithfulFields.cons id.faithful .nil).node

theorem block_faithful (b : List Stmt) : (Json.arr (blockToJson b)).Faithful (blockFinite b) := by
  cases b with
  | nil => exact .items_nil
  | cons s rest => exact .items_cons s.faithful (block_faithful rest)

end

theorem fragment_faithful (b : Block) : (fragmentToJson b).Faithful (blockFinite b) := by
  simpa [fragmentToJson] using (FaithfulFields.cons (block_faithful b) .nil).obj

theorem Entry.faithful (e : Entry) : e.toJson.Faithful e.finite := by
  cases e with
  | fragment body => simpa [Entry.toJson, Entry.finite] using (FaithfulFields.cons (block_faithful body) .nil).node
  | continuation source marker =>
    exact (FaithfulFields.cons source.faithful (.cons marker.faithful .nil)).node

theorem Procedure.faithful (p : Procedure) : p.toJson.Faithful true :=
  (FaithfulFields.cons (faithful_str p.name)
    (.cons p.label.faithful (.cons (faithful_bool p.warp) .nil))).obj

theorem Program.faithful (p : Program) : p.toJson.Faithful p.finite := by
  have procedures : (Json.arr (p.procedures.toList.map Procedure.toJson)).Faithful
      (p.procedures.toList.all fun _ => true) := .items Procedure.faithful _
  rw [List.all_eq_true.mpr fun _ _ => rfl] at procedures
  simpa [Program.toJson, Program.finite] using
    (FaithfulFields.cons p.entry.faithful
      (.cons (.items Entry.faithful p.labels.toList) (.cons procedures .nil))).obj

theorem ItemList.faithful (l : ItemList) : l.toJson.Faithful l.finite := by
  simpa [ItemList.toJson, ItemList.finite] using
    (FaithfulFields.cons (.items Value.faithful l.items) (.cons (faithful_bool l.dirty) .nil)).obj

/-- The effects in the order in which they are written. -/
def listedEffects (effects : Table Effect Float) : List (Effect × Float) :=
  Effect.all.filterMap fun e => (effects.find? e).map (e, ·)

theorem effectsToJson_eq (effects : Table Effect Float) :
    effectsToJson effects = .obj ((listedEffects effects).map fun p => (p.1.key, .real p.2)) := by
  simp [effectsToJson, listedEffects, List.map_filterMap, Function.comp_def]

theorem mem_listedEffects (effects : Table Effect Float) (e : Effect) (x : Float) :
    (e, x) ∈ listedEffects effects ↔ (e, x) ∈ effects.pairs := by
  have listed : e ∈ Effect.all := by cases e <;> decide
  rw [← effects.find?_eq_some_iff]
  simp [listedEffects, listed]

theorem effects_faithful (effects : Table Effect Float) :
    (effectsToJson effects).Faithful (effects.pairs.all (·.2.isFinite)) := by
  have same : (listedEffects effects).all (·.2.isFinite) = effects.pairs.all (·.2.isFinite) := by
    rw [Bool.eq_iff_iff, List.all_eq_true, List.all_eq_true]
    exact forall_congr' fun p => imp_congr_left (mem_listedEffects effects p.1 p.2)
  rw [effectsToJson_eq, ← same]
  exact (FaithfulFields.pairs Effect.key faithful_real _).obj

theorem Target.faithful (t : Target) : t.toJson.Faithful t.finite := by
  have vars : (Json.obj (t.vars.pairs.map fun p => (p.1, p.2.toJson))).Faithful (t.vars.pairs.all (·.2.finite)) :=
    (FaithfulFields.pairs id Value.faithful t.vars.pairs).obj
  have lists : (Json.obj (t.lists.pairs.map fun p => (p.1, p.2.toJson))).Faithful
      (t.lists.pairs.all (·.2.finite)) :=
    (FaithfulFields.pairs id ItemList.faithful t.lists.pairs).obj
  simpa [Target.toJson, Target.finite] using
    (FaithfulFields.cons (faithful_str t.name)
      (.cons (faithful_real t.x) (.cons (faithful_real t.y)
        (.cons (effects_faithful t.effects) (.cons vars (.cons lists .nil)))))).obj

end BlockScript
