import BlockScript.Proofs.Lookup
import BlockScript.Proofs.Resumption

/-!
# What a block consists of, and what can stop it

The parts of a block are its statements, those inside branches included. A continuation has no parts
that its block does not have, so all that a label stands for is made of the fragments of the program
(`Denotes.parts`). Up to its transfer a block can fail in one way: a device refuses a query that one of
its parts asks, and the block stops there (`approachBlock_safe`).
-/

namespace BlockScript

open Continuation

/-! ## Parts -/

mutual

def parts : List Stmt → List Stmt
  | [] => []
  | s :: rest => partsOf s ++ parts rest

def partsOf : Stmt → List Stmt
  | .branch test yes no => .branch test yes no :: (parts yes ++ parts no)
  | s => [s]

end

theorem parts_append (a b : Block) : parts (a ++ b) = parts a ++ parts b := by
  induction a with
  | nil => rfl
  | cons s rest ih => rw [List.cons_append, parts, parts, ih, List.append_assoc]

theorem parts_reachable (b : Block) : ∀ s ∈ parts (reachable b).body, s ∈ parts b := by
  induction b with
  | nil => exact fun s hs => hs
  | cons t rest ih =>
    intro s hs
    rw [parts]
    rw [reachable] at hs
    split at hs
    · rw [parts, parts, List.append_nil] at hs
      exact List.mem_append_left _ hs
    · rw [parts] at hs
      rcases List.mem_append.mp hs with hs | hs
      · exact List.mem_append_left _ hs
      · exact List.mem_append_right _ (ih s hs)

theorem Place.parts_rest (hole : Block) (place : Place) :
    ∀ s ∈ parts place.rest, s ∈ parts (place.fill hole) := by
  induction place with
  | here before after =>
    intro s hs
    rw [fill, parts_append, parts_append]
    exact List.mem_append_right _ (List.mem_append_right _ hs)
  | inYes before test inner no after ih =>
    intro s hs
    rw [rest, parts_append] at hs
    rw [fill, parts_append, parts, partsOf]
    rcases List.mem_append.mp hs with hs | hs
    · simp [ih s hs]
    · simp [hs]
  | inNo before test yes inner after ih =>
    intro s hs
    rw [rest, parts_append] at hs
    rw [fill, parts_append, parts, partsOf]
    rcases List.mem_append.mp hs with hs | hs
    · simp [ih s hs]
    · simp [hs]

theorem parts_synthesize {marker : Marker} {block body : Block} (h : synthesize? marker block = some body) :
    ∀ s ∈ parts body, s ∈ parts block := by
  have occurs : occurrences marker block ≠ 0 := by
    intro hz
    rw [synthesize?, (after?_eq_none marker block).mpr hz] at h
    cases h
  obtain ⟨place, hp⟩ := exists_isFirst marker block occurs
  rw [synthesize?, after?_of_isFirst hp] at h
  cases h
  intro s hs
  rw [← hp.fill_eq]
  exact place.parts_rest _ s (parts_reachable _ s hs)

theorem Program.Denotes.parts {p : Program} {label : Label} {block : Block} (h : p.Denotes label block) :
    ∀ s ∈ parts block, ∃ body, .fragment body ∈ p.labels ∧ s ∈ BlockScript.parts body := by
  induction h with
  | fragment he => exact fun s hs => ⟨_, Array.mem_of_getElem? he, hs⟩
  | continuation _ _ hm ih => exact fun s hs => ih s (parts_synthesize hm s hs)

/-! ## Queries -/

mutual

/-- The queries in an expression, by device and method. -/
def Expr.queries : Expr → List (String × String)
  | .lit _ | .var _ | .arg _ | .length _ => []
  | .item _ index => index.queries
  | .arithmetic _ left right | .compare _ left right | .and left right | .or left right | .join left right =>
    left.queries ++ right.queries
  | .not inner | .cast _ inner => inner.queries
  | .query device method args => (device, method) :: queriesOf args

def queriesOf : List Expr → List (String × String)
  | [] => []
  | e :: rest => e.queries ++ queriesOf rest

end

/-- The queries that a statement asks itself; those in the arms of a branch are asked by other parts. -/
def Stmt.queries : Stmt → List (String × String)
  | .branch test _ _ => test.queries
  | .setVariable _ value | .addToList _ value | .setEffect _ value => value.queries
  | .changeVariable _ amount | .changeEffect _ amount => amount.queries
  | .replaceItem _ index value | .insertAt _ index value => index.queries ++ value.queries
  | .deleteOf _ index => index.queries
  | .goTo x y => x.queries ++ y.queries
  | .deviceCall device method args => (device, method) :: queriesOf args
  | .call _ args _ => queriesOf args
  | .jump _ | .jumpLazy _ | .finish | .retire | .marker _ => []

namespace Machine

variable {σ α β : Type}

/-- A device has just refused a query with the fault `f`. -/
def Refused (asks : String × String → Prop) (f : Fault) (m : Machine σ) : Prop :=
  ∃ (d : Devices σ) (device method : String) (args : List Value),
    asks (device, method) ∧ d.query device method args = (.error f, m.devices)

/-- The action gives such a value, or stops where a device refuses one of the queries. -/
def Safe (asks : String × String → Prop) (x : Exec σ α) (gives : α → Prop) : Prop :=
  ∀ m : Machine σ,
    match m.perform x with
    | (.ok a, _) => gives a
    | (.error f, m') => Refused asks f m'

section
variable {asks : String × String → Prop}

theorem Safe.of_ok {x : Exec σ α} {gives : α → Prop} {m m' : Machine σ} {a : α} (hx : Safe asks x gives)
    (h : m.perform x = (.ok a, m')) : gives a := by
  have hm := hx m
  rwa [h] at hm

theorem Safe.of_error {x : Exec σ α} {gives : α → Prop} {m m' : Machine σ} {f : Fault} (hx : Safe asks x gives)
    (h : m.perform x = (.error f, m')) : Refused asks f m' := by
  have hm := hx m
  rwa [h] at hm

theorem pure_safe {gives : α → Prop} {a : α} (ha : gives a) : Safe asks (pure a : Exec σ α) gives :=
  fun _ => ha

theorem Safe.bind {x : Exec σ α} {f : α → Exec σ β} {between : α → Prop} {gives : β → Prop}
    (hx : Safe asks x between) (hf : ∀ a, between a → Safe asks (f a) gives) : Safe asks (x >>= f) gives := by
  intro m
  rcases h : m.perform x with ⟨e | a, m'⟩
  · rw [perform_bind_error h]
    exact hx.of_error h
  · rw [perform_bind_ok h]
    exact hf a (hx.of_ok h) m'

theorem Safe.mono {x : Exec σ α} {gives gives' : α → Prop} (hx : Safe asks x gives)
    (imp : ∀ a, gives a → gives' a) : Safe asks x gives' := by
  intro m
  rcases h : m.perform x with ⟨f | a, m'⟩
  · exact hx.of_error h
  · exact imp a (hx.of_ok h)

theorem get_safe : Safe asks (get : Exec σ (Machine σ)) fun _ => True :=
  fun _ => trivial

theorem modifyTarget_safe (change : Target → Target) :
    Safe asks (modifyTarget change : Exec σ Unit) fun _ => True :=
  fun _ => trivial

theorem draw_safe : Safe asks (draw : Exec σ Pick) fun _ => True :=
  fun _ => trivial

theorem changeList_safe (name : String) (change : Pick → ItemList → ItemList) :
    Safe asks (changeList name change : Exec σ Unit) fun _ => True := by
  unfold changeList
  exact draw_safe.bind fun _ _ => modifyTarget_safe _

theorem query_safe {device method : String} (h : asks (device, method)) (args : List Value) :
    Safe asks (query device method args : Exec σ Value) fun _ => True := by
  intro m
  rw [perform_query]
  rcases hq : m.devices.query device method args with ⟨f | v, devices⟩
  · exact ⟨m.devices, device, method, args, h, hq⟩
  · trivial

/-! ## Expressions -/

mutual

theorem eval_safe : (e : Expr) → (∀ q ∈ e.queries, asks q) → Safe asks (eval e : Exec σ Value) fun _ => True
  | .lit v, _ => by rw [eval]; exact pure_safe trivial
  | .var name, _ => by
    rw [eval]
    exact get_safe.bind fun _ _ => pure_safe trivial
  | .arg index, _ => by
    rw [eval]
    exact get_safe.bind fun _ _ => pure_safe trivial
  | .item list index, h => by
    rw [eval]
    refine (eval_safe index h).bind fun _ _ => get_safe.bind fun m _ => ?_
    split
    · exact draw_safe.bind fun _ _ => pure_safe trivial
    · exact pure_safe trivial
  | .length list, _ => by
    rw [eval]
    refine get_safe.bind fun m _ => ?_
    split <;> exact pure_safe trivial
  | .arithmetic op left right, h => by
    rw [Expr.queries, List.forall_mem_append] at h
    rw [eval]
    exact (eval_safe left h.1).bind fun _ _ => (eval_safe right h.2).bind fun _ _ => pure_safe trivial
  | .compare op left right, h => by
    rw [Expr.queries, List.forall_mem_append] at h
    rw [eval]
    exact (eval_safe left h.1).bind fun _ _ => (eval_safe right h.2).bind fun _ _ => pure_safe trivial
  | .and left right, h => by
    rw [Expr.queries, List.forall_mem_append] at h
    rw [eval]
    refine (eval_safe left h.1).bind fun _ _ => ?_
    split
    · exact (eval_safe right h.2).bind fun _ _ => pure_safe trivial
    · exact pure_safe trivial
  | .or left right, h => by
    rw [Expr.queries, List.forall_mem_append] at h
    rw [eval]
    refine (eval_safe left h.1).bind fun _ _ => ?_
    split
    · exact pure_safe trivial
    · exact (eval_safe right h.2).bind fun _ _ => pure_safe trivial
  | .not inner, h => by
    rw [eval]
    exact (eval_safe inner h).bind fun _ _ => pure_safe trivial
  | .join left right, h => by
    rw [Expr.queries, List.forall_mem_append] at h
    rw [eval]
    exact (eval_safe left h.1).bind fun _ _ => (eval_safe right h.2).bind fun _ _ => pure_safe trivial
  | .cast kind inner, h => by
    rw [eval]
    exact (eval_safe inner h).bind fun _ _ => pure_safe trivial
  | .query device method args, h => by
    rw [Expr.queries, List.forall_mem_cons] at h
    rw [eval]
    exact (evalAll_safe args h.2).bind fun vs _ => query_safe h.1 vs

theorem evalAll_safe : (es : List Expr) → (∀ q ∈ queriesOf es, asks q) →
    Safe asks (evalAll es : Exec σ (List Value)) fun _ => True
  | [], _ => by rw [evalAll]; exact pure_safe trivial
  | e :: rest, h => by
    rw [queriesOf, List.forall_mem_append] at h
    rw [evalAll]
    exact (eval_safe e h.1).bind fun _ _ => (evalAll_safe rest h.2).bind fun _ _ => pure_safe trivial

end

/-! ## Blocks -/

theorem exec_safe {s : Stmt} (plain : plain s = true) (h : ∀ q ∈ s.queries, asks q) :
    Safe asks (exec s : Exec σ Flow) fun _ => True := by
  cases s with
  | setVariable name value =>
    rw [exec]
    exact (eval_safe value h).bind fun _ _ => (modifyTarget_safe _).bind fun _ _ => pure_safe trivial
  | changeVariable name amount =>
    rw [exec]
    exact (eval_safe amount h).bind fun _ _ => (modifyTarget_safe _).bind fun _ _ => pure_safe trivial
  | addToList list value =>
    rw [exec]
    exact (eval_safe value h).bind fun _ _ => (modifyTarget_safe _).bind fun _ _ => pure_safe trivial
  | replaceItem list index value =>
    rw [Stmt.queries, List.forall_mem_append] at h
    rw [exec]
    exact (eval_safe index h.1).bind fun _ _ => (eval_safe value h.2).bind fun _ _ =>
      (changeList_safe _ _).bind fun _ _ => pure_safe trivial
  | insertAt list index value =>
    rw [Stmt.queries, List.forall_mem_append] at h
    rw [exec]
    exact (eval_safe index h.1).bind fun _ _ => (eval_safe value h.2).bind fun _ _ =>
      (changeList_safe _ _).bind fun _ _ => pure_safe trivial
  | deleteOf list index =>
    rw [exec]
    exact (eval_safe index h).bind fun _ _ => (changeList_safe _ _).bind fun _ _ => pure_safe trivial
  | setEffect effect value =>
    rw [exec]
    exact (eval_safe value h).bind fun _ _ => (modifyTarget_safe _).bind fun _ _ => pure_safe trivial
  | changeEffect effect amount =>
    rw [exec]
    exact (eval_safe amount h).bind fun _ _ => (modifyTarget_safe _).bind fun _ _ => pure_safe trivial
  | goTo x y =>
    rw [Stmt.queries, List.forall_mem_append] at h
    rw [exec]
    exact (eval_safe x h.1).bind fun _ _ => (eval_safe y h.2).bind fun _ _ =>
      (modifyTarget_safe _).bind fun _ _ => pure_safe trivial
  | deviceCall device method args =>
    rw [Stmt.queries, List.forall_mem_cons] at h
    rw [exec]
    exact (evalAll_safe args h.2).bind fun vs _ => (query_safe h.1 vs).bind fun _ _ => pure_safe trivial
  | marker id => rw [exec]; exact pure_safe trivial
  | _ => cases plain

end

/-- The statement makes the transfer, with whatever arguments it gives to a call. -/
inductive Makes : Stmt → Transfer → Prop
  | jump (label : Label) : Makes (.jump label) (.jump label)
  | jumpLazy (label : Label) : Makes (.jumpLazy label) (.jumpLazy label)
  | call (procedure : ProcedureId) (args : List Expr) (values : List Value) (resume : Label) :
      Makes (.call procedure args resume) (.call procedure values resume)
  | finish : Makes .finish .finish
  | retire : Makes .retire .retire

/-- An approach ends in nothing, or in a transfer that one of the parts makes. -/
def MadeBy (stmts : List Stmt) (ending : Option Transfer) : Prop :=
  ∀ transfer, ending = some transfer → ∃ s ∈ stmts, Makes s transfer

theorem MadeBy.mono {stmts stmts' : List Stmt} {ending : Option Transfer} (h : MadeBy stmts ending)
    (sub : ∀ s ∈ stmts, s ∈ stmts') : MadeBy stmts' ending := by
  intro transfer ht
  obtain ⟨s, hs, hm⟩ := h transfer ht
  exact ⟨s, sub s hs, hm⟩

theorem madeBy_none (stmts : List Stmt) : MadeBy stmts none := by
  rintro transfer ⟨⟩

theorem madeBy_self {s : Stmt} {transfer : Transfer} (h : Makes s transfer) : MadeBy [s] (some transfer) := by
  rintro _ ⟨⟩
  exact ⟨s, List.mem_cons_self, h⟩

section
variable {asks : String × String → Prop}

mutual

theorem approach_safe (s : Stmt) (h : ∀ t ∈ partsOf s, ∀ q ∈ t.queries, asks q) :
    Safe asks (approach s : Exec σ (Option Transfer)) (MadeBy (partsOf s)) := by
  cases s with
  | branch test yes no =>
    rw [partsOf, List.forall_mem_cons, List.forall_mem_append] at h
    rw [approach, partsOf]
    refine (eval_safe test h.1).bind fun _ _ => ?_
    split
    · exact (approachBlock_safe yes h.2.1).mono fun _ hm =>
        hm.mono fun s hs => List.mem_cons_of_mem _ (List.mem_append_left _ hs)
    · exact (approachBlock_safe no h.2.2).mono fun _ hm =>
        hm.mono fun s hs => List.mem_cons_of_mem _ (List.mem_append_right _ hs)
  | call procedure args resume =>
    have hq := h _ List.mem_cons_self
    rw [approach]
    exact (evalAll_safe args hq).bind fun vs _ => pure_safe (madeBy_self (.call procedure args vs resume))
  | jump label => rw [approach]; exact pure_safe (madeBy_self (.jump label))
  | jumpLazy label => rw [approach]; exact pure_safe (madeBy_self (.jumpLazy label))
  | finish => rw [approach]; exact pure_safe (madeBy_self .finish)
  | retire => rw [approach]; exact pure_safe (madeBy_self .retire)
  | _ =>
    have hq := h _ List.mem_cons_self
    rw [approach_plain rfl]
    exact (exec_safe rfl hq).bind fun _ _ => pure_safe (madeBy_none _)

theorem approachBlock_safe : (b : List Stmt) → (∀ t ∈ parts b, ∀ q ∈ t.queries, asks q) →
    Safe asks (approachBlock b : Exec σ (Option Transfer)) (MadeBy (parts b))
  | [], _ => by rw [approachBlock]; exact pure_safe (madeBy_none _)
  | s :: rest, h => by
    rw [parts, List.forall_mem_append] at h
    rw [approachBlock, parts]
    refine (approach_safe s h.1).bind fun ending hm => ?_
    cases ending with
    | none => exact (approachBlock_safe rest h.2).mono fun _ hm => hm.mono fun s => List.mem_append_right _
    | some transfer => exact pure_safe (hm.mono fun s => List.mem_append_left _)

end

end

end Machine

end BlockScript
