import BlockScript.Proofs.Control
import BlockScript.Proofs.Woven
import Mathlib.Logic.Relation

/-!
# Expressions ask devices and do nothing else

An expression changes no control state and no target. Devices are all that it can change, by the queries
that stand in it, and a device that refuses one of these is all that can stop it. An expression without
queries is a value of what it sees: the target, the arguments of the innermost call and what each draw
shows (`Expr.value`, `eval_reads`).
-/

namespace BlockScript

open Machine Relation

/-! ## Devices after queries -/

/-- One after the other, any of these queries with any arguments may have been made. -/
def Devices.Asked {σ : Type} (queries : List (String × String)) : Devices σ → Devices σ → Prop :=
  ReflTransGen fun d d' => ∃ device method args, (device, method) ∈ queries ∧ d' = (d.query device method args).2

theorem Devices.Asked.eq_of_nil {σ : Type} {d d' : Devices σ} (h : d.Asked [] d') : d' = d := by
  induction h with
  | refl => rfl
  | tail _ asked _ =>
    obtain ⟨device, method, args, mem, -⟩ := asked
    cases mem

/-! ## The value of an expression -/

/-- What an expression without queries can see. -/
structure Sight where
  target : Target
  args : List Value
  pick : Pick

def Sight.item (s : Sight) (list : String) (index : Value) : Value :=
  match s.target.list? list with
  | some l => l.get s.pick index
  | none => .str ""

def Sight.length (s : Sight) (list : String) : Value :=
  match s.target.list? list with
  | some l => .num (Float.ofNat l.length)
  | none => .num 0.0

def Expr.value (s : Sight) : Expr → Value
  | .lit v => v
  | .var name => s.target.getVariable name
  | .arg index => s.args.getD index.toNat (.num 0.0)
  | .item list index => s.item list (index.value s)
  | .length list => s.length list
  | .arithmetic op left right => .num (op.apply (left.value s).toNumber (right.value s).toNumber)
  | .compare op left right => .bool (op.holds ((left.value s).compare (right.value s)))
  | .and left right => if (left.value s).toBool then .bool (right.value s).toBool else .bool false
  | .or left right => if (left.value s).toBool then .bool true else .bool (right.value s).toBool
  | .not inner => .bool (!(inner.value s).toBool)
  | .join left right => .str ((left.value s).toText ++ (right.value s).toText)
  | .cast kind inner => kind.apply (inner.value s)
  -- no value without a device
  | .query _ _ _ => .null

namespace Machine

variable {σ α β : Type}

def sight (m : Machine σ) : Sight := ⟨m.target, m.thread.args, m.dice.roll 0⟩

/-- With steady dice the action gives what it reads off the sight, and nothing happens but draws. -/
def Reads (x : Exec σ α) (read : Sight → α) : Prop :=
  ∀ m : Machine σ, m.dice.Steady → ∃ drawn, m.perform x = (.ok (read m.sight), { m with dice.drawn := drawn })

theorem pure_reads (a : α) : Reads (pure a : Exec σ α) fun _ => a :=
  fun m _ => ⟨m.dice.drawn, rfl⟩

theorem Reads.bind {x : Exec σ α} {f : α → Exec σ β} {read : Sight → α} {next : α → Sight → β}
    (hx : Reads x read) (hf : ∀ a, Reads (f a) (next a)) : Reads (x >>= f) fun s => next (read s) s := by
  intro m steady
  obtain ⟨n, hm⟩ := hx m steady
  -- the draws made by the first are not seen by the second, since the dice are steady
  obtain ⟨n', hm'⟩ := hf (read m.sight) { m with dice.drawn := n } steady
  exact ⟨n', by rw [perform_bind_ok hm, hm']; rfl⟩

theorem Reads.ite {c : Prop} [Decidable c] {x y : Exec σ α} {read read' : Sight → α} (hx : Reads x read)
    (hy : Reads y read') : Reads (if c then x else y) fun s => if c then read s else read' s := by
  by_cases hc : c
  · simpa only [if_pos hc] using hx
  · simpa only [if_neg hc] using hy

theorem get_reads {f : Machine σ → Exec σ α} {read : Sight → α}
    (hf : ∀ m : Machine σ, m.dice.Steady →
      ∃ drawn, m.perform (f m) = (.ok (read m.sight), { m with dice.drawn := drawn })) :
    Reads (get >>= f) read := by
  intro m steady
  rw [perform_bind_ok (perform_get m)]
  exact hf m steady

theorem item_reads (list : String) (index : Value) :
    Reads (do
      match (← get).target.list? list with
      | some l => return l.get (← draw) index
      | none => return .str "" : Exec σ Value) fun s => s.item list index := by
  refine get_reads fun m steady => ?_
  cases hl : m.target.list? list with
  | some l =>
    refine ⟨m.dice.drawn + 1, ?_⟩
    simp only [perform_bind_ok (perform_draw m), steady.pick, Sight.item, sight, hl]
    rfl
  | none =>
    refine ⟨m.dice.drawn, ?_⟩
    simp only [perform_pure, Sight.item, sight, hl]

theorem eval_reads : (e : Expr) → e.queries = [] → Reads (eval e : Exec σ Value) e.value
  | .lit v, _ => by
    rw [eval]
    exact pure_reads v
  | .var name, _ => by
    rw [eval]
    exact get_reads fun m _ => ⟨m.dice.drawn, rfl⟩
  | .arg index, _ => by
    rw [eval]
    exact get_reads fun m _ => ⟨m.dice.drawn, rfl⟩
  | .item list index, h => by
    rw [eval]
    exact (eval_reads index h).bind fun i => item_reads list i
  | .length list, _ => by
    rw [eval]
    refine get_reads fun m _ => ⟨m.dice.drawn, ?_⟩
    cases hl : m.target.list? list with
    | some l => simp [Expr.value, Sight.length, sight, hl]
    | none => simp [Expr.value, Sight.length, sight, hl]
  | .arithmetic op left right, h => by
    rw [Expr.queries, List.append_eq_nil_iff] at h
    rw [eval]
    exact (eval_reads left h.1).bind fun a => (eval_reads right h.2).bind fun b => pure_reads _
  | .compare op left right, h => by
    rw [Expr.queries, List.append_eq_nil_iff] at h
    rw [eval]
    exact (eval_reads left h.1).bind fun a => (eval_reads right h.2).bind fun b => pure_reads _
  | .and left right, h => by
    rw [Expr.queries, List.append_eq_nil_iff] at h
    rw [eval]
    exact (eval_reads left h.1).bind fun a =>
      .ite ((eval_reads right h.2).bind fun b => pure_reads _) (pure_reads _)
  | .or left right, h => by
    rw [Expr.queries, List.append_eq_nil_iff] at h
    rw [eval]
    exact (eval_reads left h.1).bind fun a =>
      .ite (pure_reads _) ((eval_reads right h.2).bind fun b => pure_reads _)
  | .not inner, h => by
    rw [eval]
    exact (eval_reads inner h).bind fun a => pure_reads _
  | .join left right, h => by
    rw [Expr.queries, List.append_eq_nil_iff] at h
    rw [eval]
    exact (eval_reads left h.1).bind fun a => (eval_reads right h.2).bind fun b => pure_reads _
  | .cast kind inner, h => by
    rw [eval]
    exact (eval_reads inner h).bind fun a => pure_reads _

theorem Woven.asked {queries : List (String × String)} {writes : Prop} {x : Exec σ α}
    (h : Woven (· ∈ queries) writes x) (m : Machine σ) : m.devices.Asked queries (m.perform x).2.devices := by
  apply h.keeps fun m' => m.devices.Asked queries m'.devices
  · exact fun _ asked => asked
  · intro m' device method args mem asked
    exact asked.tail ⟨device, method, args, mem, rfl⟩
  · exact fun _ _ _ asked => asked
  · exact .refl

theorem eval_ok {e : Expr} (quiet : e.queries = []) (m : Machine σ) : ∃ v, (m.perform (eval e)).1 = .ok v := by
  cases hr : (m.perform (eval e)).1 with
  | ok v => exact ⟨v, rfl⟩
  | error f =>
    obtain ⟨d, device, method, args, asked, -⟩ :=
      (eval_safe e fun q hq => hq).of_error (Prod.ext hr rfl : m.perform (eval e) = (.error f, _))
    rw [quiet] at asked
    cases asked

end Machine

/-- To evaluate an expression changes neither the control state nor the target, whether it gives a value
or fails. The devices have gone through queries of the expression, and a fault is what a device answered
to one of them. Without queries there is a value, the devices are as they were, and any two machines with
the same target and the same arguments of the innermost call give the same value, as long as a draw
depends on the number of slots alone. -/
theorem expressions_only_ask (e : Expr) :
    (∀ (σ : Type) (m : Machine σ),
      let run := m.perform (eval e)
      run.2.control = m.control ∧ run.2.target = m.target ∧ m.devices.Asked e.queries run.2.devices ∧
        ∀ f, run.1 = .error f → Refused (· ∈ e.queries) f run.2) ∧
    (e.queries = [] →
      (∀ (σ : Type) (m : Machine σ),
        (∃ v, (m.perform (eval e)).1 = .ok v) ∧ (m.perform (eval e)).2.devices = m.devices) ∧
      ∀ (σ τ : Type) (m : Machine σ) (m' : Machine τ), m'.target = m.target → m'.thread.args = m.thread.args →
        m.dice.Steady → m'.dice.roll = m.dice.roll → (m'.perform (eval e)).1 = (m.perform (eval e)).1) := by
  have woven (σ : Type) : Woven (· ∈ e.queries) False (eval e : Exec σ Value) := eval_woven e fun q hq => hq
  refine ⟨?_, fun quiet => ⟨?_, ?_⟩⟩
  · intro σ m run
    refine ⟨(eval_local e).control_eq m, (woven σ).target_eq m, (woven σ).asked m, ?_⟩
    intro f hf
    exact (eval_safe e fun q hq => hq).of_error (Prod.ext hf rfl)
  · intro σ m
    refine ⟨eval_ok quiet m, ?_⟩
    have asked := (woven σ).asked m
    rw [quiet] at asked
    exact asked.eq_of_nil
  · intro σ τ m m' target args steady rolls
    obtain ⟨_, hm⟩ := eval_reads e quiet m steady
    obtain ⟨_, hm'⟩ := eval_reads e quiet m' (steady.congr rolls)
    have same : m'.sight = m.sight := by rw [sight, sight, target, args, rolls]
    rw [hm, hm', same]

/-- A thread in a call with one argument, on a target with a list; what else there is of the thread is free. -/
def inCall (outer : List Frame) (warp : UInt32) (status : Status) (resume : Label) : Machine Unit :=
  let m := start ⟨⟨0⟩, #[], #[]⟩ ⟨#[]⟩ ⟨1⟩ 0 .bare []
  { m with
    thread := { m.thread with stack := ⟨[.str "a"], resume, true⟩ :: outer, warp, status }
    target := m.target.modifyList "words" (·.push (.str "b")) }

theorem expressions_only_ask_random :
    let e : Expr := .join (.arg 0) (.item "words" (.lit (.str "random")))
    let deep := inCall [⟨[.null], ⟨9⟩, false⟩] 3 .retired ⟨4⟩
    e.queries = [] ∧ (inCall [] 0 .running ⟨0⟩).dice.Steady ∧
      (deep.perform (eval e)).1 = ((inCall [] 0 .running ⟨0⟩).perform (eval e)).1 ∧
      (deep.perform (eval e)).1.toOption = some (.str "ab") := by
  intro e deep
  have quiet : e.queries = [] := rfl
  have steady : (inCall [] 0 .running ⟨0⟩).dice.Steady := fun _ => rfl
  obtain ⟨-, same⟩ := (expressions_only_ask e).2 quiet
  exact ⟨quiet, steady, same Unit Unit _ deep rfl rfl steady rfl, by decide +kernel⟩

end BlockScript
