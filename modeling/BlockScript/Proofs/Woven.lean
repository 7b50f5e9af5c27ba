import BlockScript.Proofs.Parts

/-!
# What actions are woven from

Expressions and statements do few things: they read the target and the arguments of the innermost call,
draw by lot, query devices and change the target, and they do one after the other. An action is woven
when it is put together in this way, and expressions, plain statements and approaches of blocks all are
(`approachBlock_woven`). What holds of the few things then holds of all of them: no action changes what
the dice would show (`Woven.rolls`), and an action without queries goes the same way wherever it sees the
same target and arguments, as long as each draw depends on the number of slots alone (`Woven.sameSight`).
-/

namespace BlockScript

namespace Machine

variable {σ α : Type}

/-- Put together from reading, drawing, such queries as are asked, and changes of the target if it writes. -/
inductive Woven (asks : String × String → Prop) (writes : Prop) : {α : Type} → Exec σ α → Prop
  | pure {α : Type} (a : α) : Woven asks writes (pure a : Exec σ α)
  | bind {α β : Type} {x : Exec σ α} {f : α → Exec σ β} :
      Woven asks writes x → (∀ a, Woven asks writes (f a)) → Woven asks writes (x >>= f)
  | look {β : Type} {f : Machine σ → Exec σ β} : (∀ m, Woven asks writes (f m)) →
      (∀ m m', m.target = m'.target → m.thread.args = m'.thread.args → f m = f m') →
      Woven asks writes (get >>= f)
  | draw : Woven asks writes (draw : Exec σ Pick)
  | query {device method : String} (args : List Value) :
      asks (device, method) → Woven asks writes (query device method args : Exec σ Value)
  | change (change : Target → Target) : writes → Woven asks writes (modifyTarget change : Exec σ Unit)

section
variable {asks : String × String → Prop} {writes : Prop}

/-! ## Expressions -/

mutual

theorem eval_woven : (e : Expr) → (∀ q ∈ e.queries, asks q) → Woven asks writes (eval e : Exec σ Value)
  | .lit v, _ => by
    rw [eval]
    exact .pure v
  | .var name, _ => by
    rw [eval]
    exact .look (fun m => .pure _) (fun m m' ht _ => by rw [ht])
  | .arg index, _ => by
    rw [eval]
    exact .look (fun m => .pure _) (fun m m' _ ha => by rw [ha])
  | .item list index, h => by
    rw [eval]
    refine (eval_woven index h).bind fun i => .look (fun m => ?_) (fun m m' ht _ => by rw [ht])
    split
    · exact Woven.draw.bind fun pick => .pure _
    · exact .pure _
  | .length list, _ => by
    rw [eval]
    refine .look (fun m => ?_) (fun m m' ht _ => by rw [ht])
    split
    · exact .pure _
    · exact .pure _
  | .arithmetic op left right, h => by
    rw [Expr.queries, List.forall_mem_append] at h
    rw [eval]
    exact (eval_woven left h.1).bind fun _ => (eval_woven right h.2).bind fun _ => .pure _
  | .compare op left right, h => by
    rw [Expr.queries, List.forall_mem_append] at h
    rw [eval]
    exact (eval_woven left h.1).bind fun _ => (eval_woven right h.2).bind fun _ => .pure _
  | .and left right, h => by
    rw [Expr.queries, List.forall_mem_append] at h
    rw [eval]
    refine (eval_woven left h.1).bind fun a => ?_
    split
    · exact (eval_woven right h.2).bind fun _ => .pure _
    · exact .pure _
  | .or left right, h => by
    rw [Expr.queries, List.forall_mem_append] at h
    rw [eval]
    refine (eval_woven left h.1).bind fun a => ?_
    split
    · exact .pure _
    · exact (eval_woven right h.2).bind fun _ => .pure _
  | .not inner, h => by
    rw [eval]
    exact (eval_woven inner h).bind fun _ => .pure _
  | .join left right, h => by
    rw [Expr.queries, List.forall_mem_append] at h
    rw [eval]
    exact (eval_woven left h.1).bind fun _ => (eval_woven right h.2).bind fun _ => .pure _
  | .cast kind inner, h => by
    rw [eval]
    exact (eval_woven inner h).bind fun _ => .pure _
  | .query device method args, h => by
    rw [Expr.queries, List.forall_mem_cons] at h
    rw [eval]
    exact (evalAll_woven args h.2).bind fun vs => .query vs h.1

theorem evalAll_woven : (es : List Expr) → (∀ q ∈ queriesOf es, asks q) →
    Woven asks writes (evalAll es : Exec σ (List Value))
  | [], _ => by
    rw [evalAll]
    exact .pure _
  | e :: rest, h => by
    rw [queriesOf, List.forall_mem_append] at h
    rw [evalAll]
    exact (eval_woven e h.1).bind fun _ => (evalAll_woven rest h.2).bind fun _ => .pure _

end

/-! ## Statements -/

theorem changeTarget_woven (may : writes) (change : Target → Target) :
    Woven asks writes (do modifyTarget change; return Flow.next : Exec σ Flow) :=
  (Woven.change change may).bind fun _ => .pure _

theorem changeList_woven (may : writes) (name : String) (change : Pick → ItemList → ItemList) :
    Woven asks writes (do changeList name change; return Flow.next : Exec σ Flow) := by
  unfold changeList
  exact (Woven.draw.bind fun pick => .change _ may).bind fun _ => .pure _

theorem exec_woven {s : Stmt} (may : writes) (plain : plain s = true) (h : ∀ q ∈ s.queries, asks q) :
    Woven asks writes (exec s : Exec σ Flow) := by
  cases s with
  | setVariable name value =>
    rw [exec]
    exact (eval_woven value h).bind fun v => changeTarget_woven may _
  | changeVariable name amount =>
    rw [exec]
    exact (eval_woven amount h).bind fun v => changeTarget_woven may _
  | addToList list value =>
    rw [exec]
    exact (eval_woven value h).bind fun v => changeTarget_woven may _
  | replaceItem list index value =>
    rw [Stmt.queries, List.forall_mem_append] at h
    rw [exec]
    exact (eval_woven index h.1).bind fun i => (eval_woven value h.2).bind fun v => changeList_woven may _ _
  | insertAt list index value =>
    rw [Stmt.queries, List.forall_mem_append] at h
    rw [exec]
    exact (eval_woven index h.1).bind fun i => (eval_woven value h.2).bind fun v => changeList_woven may _ _
  | deleteOf list index =>
    rw [exec]
    exact (eval_woven index h).bind fun i => changeList_woven may _ _
  | setEffect effect value =>
    rw [exec]
    exact (eval_woven value h).bind fun v => changeTarget_woven may _
  | changeEffect effect amount =>
    rw [exec]
    exact (eval_woven amount h).bind fun v => changeTarget_woven may _
  | goTo x y =>
    rw [Stmt.queries, List.forall_mem_append] at h
    rw [exec]
    exact (eval_woven x h.1).bind fun vx => (eval_woven y h.2).bind fun vy => changeTarget_woven may _
  | deviceCall device method args =>
    rw [Stmt.queries, List.forall_mem_cons] at h
    rw [exec]
    exact (evalAll_woven args h.2).bind fun vs => (Woven.query vs h.1).bind fun _ => .pure _
  | marker id =>
    rw [exec]
    exact .pure _
  | _ => cases plain

mutual

theorem approach_woven (may : writes) (s : Stmt) (h : ∀ t ∈ partsOf s, ∀ q ∈ t.queries, asks q) :
    Woven asks writes (approach s : Exec σ (Option Transfer)) := by
  cases s with
  | branch test yes no =>
    rw [partsOf, List.forall_mem_cons, List.forall_mem_append] at h
    rw [approach]
    refine (eval_woven test h.1).bind fun taken => ?_
    split
    · exact approachBlock_woven may yes h.2.1
    · exact approachBlock_woven may no h.2.2
  | call procedure args resume =>
    rw [approach]
    exact (evalAll_woven args (h _ List.mem_cons_self)).bind fun _ => .pure _
  | jump _ | jumpLazy _ | finish | retire =>
    rw [approach]
    exact .pure _
  | _ =>
    rw [approach_plain rfl]
    exact (exec_woven may rfl (h _ List.mem_cons_self)).bind fun _ => .pure _

theorem approachBlock_woven (may : writes) : (b : List Stmt) → (∀ t ∈ parts b, ∀ q ∈ t.queries, asks q) →
    Woven asks writes (approachBlock b : Exec σ (Option Transfer))
  | [], _ => by
    rw [approachBlock]
    exact .pure _
  | s :: rest, h => by
    rw [parts, List.forall_mem_append] at h
    rw [approachBlock]
    refine (approach_woven may s h.1).bind fun ending => ?_
    cases ending with
    | none => exact approachBlock_woven may rest h.2
    | some transfer => exact .pure _

end

/-! ## What no action changes -/

/-- What each draw, each answer of a device and each change of the target keeps, a whole action keeps. -/
theorem Woven.keeps {x : Exec σ α} (h : Woven asks writes x) (holds : Machine σ → Prop)
    (drawn : ∀ m, holds m → holds { m with dice := m.dice.next })
    (answered : ∀ m device method args, asks (device, method) → holds m →
      holds { m with devices := (m.devices.query device method args).2 })
    (changed : ∀ m (change : Target → Target), writes → holds m → holds { m with target := change m.target })
    (m : Machine σ) (hm : holds m) : holds (m.perform x).2 := by
  induction h generalizing m with
  | pure _ => exact hm
  | draw => exact drawn m hm
  | change change may => exact changed m change may hm
  | query args asked =>
    rw [perform_query]
    exact answered m _ _ args asked hm
  | @bind _ _ x f _ _ ihx ihf =>
    have between := ihx m hm
    rw [perform_bind]
    rcases hx : m.perform x with ⟨e | a, m'⟩
    · rw [hx] at between
      exact between
    · rw [hx] at between
      exact ihf a m' between
  | @look _ f _ _ ih =>
    rw [perform_bind_ok (perform_get m)]
    exact ih m m hm

theorem Woven.rolls {x : Exec σ α} (h : Woven asks writes x) (m : Machine σ) :
    (m.perform x).2.dice.roll = m.dice.roll := by
  apply h.keeps fun m' => m'.dice.roll = m.dice.roll
  · exact fun _ same => same
  · exact fun _ _ _ _ _ same => same
  · exact fun _ _ _ same => same
  · rfl

theorem Woven.target_eq {x : Exec σ α} (h : Woven asks False x) (m : Machine σ) :
    (m.perform x).2.target = m.target := by
  apply h.keeps fun m' => m'.target = m.target
  · exact fun _ same => same
  · exact fun _ _ _ _ _ same => same
  · exact fun _ _ may _ => may.elim
  · rfl

end

end Machine

/-- A draw depends on the number of slots alone. -/
def Dice.Steady (d : Dice) : Prop := ∀ i, d.roll i = d.roll 0

theorem Dice.Steady.pick {d : Dice} (h : d.Steady) : d.pick = d.roll 0 := h d.drawn

theorem Dice.Steady.congr {d d' : Dice} (h : d.Steady) (rolls : d'.roll = d.roll) : d'.Steady := by
  unfold Dice.Steady
  rw [rolls]
  exact h

namespace Machine

variable {σ α : Type}

/-! ## What an action without queries sees -/

/-- The same target, the same arguments and the same steady dice; all else may differ. -/
structure SameSight (m m' : Machine σ) : Prop where
  target : m'.target = m.target
  args : m'.thread.args = m.thread.args
  rolls : m'.dice.roll = m.dice.roll
  steady : m.dice.Steady

theorem SameSight.pick {m m' : Machine σ} (h : SameSight m m') : m'.dice.pick = m.dice.pick := by
  have steady' := h.steady.congr h.rolls
  rw [h.steady.pick, steady'.pick, h.rolls]

theorem Woven.sameSight {writes : Prop} {x : Exec σ α} (h : Woven (fun _ => False) writes x) {m m' : Machine σ}
    (same : SameSight m m') : (m'.perform x).1 = (m.perform x).1 ∧ SameSight (m.perform x).2 (m'.perform x).2 := by
  induction h generalizing m m' with
  | pure a => exact ⟨rfl, same⟩
  | draw =>
    simp only [perform_draw, same.pick]
    exact ⟨trivial, same.target, same.args, same.rolls, same.steady⟩
  | change change _ =>
    simp only [perform_modifyTarget, same.target]
    exact ⟨trivial, rfl, same.args, same.rolls, same.steady⟩
  | query args asked => cases asked
  | @bind _ _ x f _ _ ihx ihf =>
    obtain ⟨answer, after⟩ := ihx same
    rw [perform_bind, perform_bind]
    rcases hx : m.perform x with ⟨r, m₁⟩
    rcases hx' : m'.perform x with ⟨r', m₁'⟩
    rw [hx, hx'] at answer after
    cases answer
    cases r with
    | error e => exact ⟨rfl, after⟩
    | ok a => exact ihf a after
  | @look _ f _ hf ih =>
    rw [perform_bind_ok (perform_get m), perform_bind_ok (perform_get m'), hf m' m same.target same.args]
    exact ih m same

end Machine

end BlockScript
