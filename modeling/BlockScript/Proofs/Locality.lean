import BlockScript.Machine.Exec

/-!
# What expressions and plain statements can touch

An action is a function from a machine to an answer and a machine. Most actions are local: they act
on the target, the devices and the dice, and all that they see of the thread is the arguments of
its innermost call. The status of the thread, its stack, its stored label, the pending label, the
program and the notices neither change nor matter. Expressions are local, and so is every statement
that is neither a transfer nor a branch.
-/

namespace BlockScript

namespace Machine

variable {σ α β : Type}

/-! ## Performing an action -/

/-- The answer of an action, and the machine that it leaves. -/
def perform (m : Machine σ) (action : Exec σ α) : Except Fault α × Machine σ :=
  action.run.run m

@[simp] theorem perform_pure (m : Machine σ) (a : α) : m.perform (pure a) = (.ok a, m) := rfl

@[simp] theorem perform_get (m : Machine σ) : m.perform get = (.ok m, m) := rfl

@[simp] theorem perform_modifyThread (m : Machine σ) (change : Thread → Thread) :
    m.perform (modifyThread change) = (.ok (), { m with thread := change m.thread }) := rfl

@[simp] theorem perform_modifyTarget (m : Machine σ) (change : Target → Target) :
    m.perform (modifyTarget change) = (.ok (), { m with target := change m.target }) := rfl

@[simp] theorem perform_setPending (m : Machine σ) (label : Option Label) :
    m.perform (setPending label) = (.ok (), { m with pending := label }) := rfl

theorem perform_bind (m : Machine σ) (x : Exec σ α) (f : α → Exec σ β) :
    m.perform (x >>= f) =
      match m.perform x with
      | (.ok a, m') => m'.perform (f a)
      | (.error e, m') => (.error e, m') := by
  have h : m.perform (x >>= f) =
      (match m.perform x with | (r, m') => (ExceptT.bindCont f r).run m') := rfl
  rw [h]
  rcases m.perform x with ⟨_ | _, m'⟩ <;> rfl

theorem perform_bind_ok {m m' : Machine σ} {x : Exec σ α} {a : α} (h : m.perform x = (.ok a, m'))
    (f : α → Exec σ β) : m.perform (x >>= f) = m'.perform (f a) := by
  rw [perform_bind, h]

theorem perform_bind_error {m m' : Machine σ} {x : Exec σ α} {e : Fault}
    (h : m.perform x = (.error e, m')) (f : α → Exec σ β) :
    m.perform (x >>= f) = (.error e, m') := by
  rw [perform_bind, h]

/-- The machine with nothing pending, as a step finds it. -/
def fresh (m : Machine σ) : Machine σ := { m with pending := none }

@[simp] theorem fresh_thread (m : Machine σ) : m.fresh.thread = m.thread := rfl

end Machine

/-! ## Local actions -/

/-- What plain statements act on. -/
structure World (σ : Type) where
  target : Target
  devices : Devices σ
  dice : Dice

def World.bare : World Unit := ⟨.new "", ⟨.empty, ()⟩, .first⟩

namespace Machine

variable {σ α β : Type}

def start (program : Program) (cache : Cache) (id : ThreadId) (number : Nat) (w : World σ)
    (notices : List ThreadId) : Machine σ where
  thread := .new id number program.entry
  target := w.target
  devices := w.devices
  dice := w.dice
  program
  cache
  pending := none
  notices

def world (m : Machine σ) : World σ := ⟨m.target, m.devices, m.dice⟩

def withWorld (m : Machine σ) (w : World σ) : Machine σ :=
  { m with target := w.target, devices := w.devices, dice := w.dice }

@[simp] theorem withWorld_withWorld (m : Machine σ) (w w' : World σ) :
    (m.withWorld w).withWorld w' = m.withWorld w' := rfl

@[simp] theorem withWorld_world (m : Machine σ) : m.withWorld m.world = m := rfl

@[simp] theorem withWorld_thread (m : Machine σ) (w : World σ) : (m.withWorld w).thread = m.thread := rfl

structure SameView (m m' : Machine σ) : Prop where
  world : m.world = m'.world
  args : m.thread.args = m'.thread.args

/-- Machines with the same view give the action the same answer and the same new world, and
nothing but the world changes. -/
def Local (x : Exec σ α) : Prop :=
  ∀ m m' : Machine σ, SameView m m' →
    m'.perform x = ((m.perform x).1, m'.withWorld (m.perform x).2.world)

namespace SameView

variable {m m' : Machine σ}

theorem refl (m : Machine σ) : SameView m m := ⟨rfl, rfl⟩

theorem target (h : SameView m m') : m.target = m'.target := congrArg World.target h.world

theorem devices (h : SameView m m') : m.devices = m'.devices := congrArg World.devices h.world

theorem dice (h : SameView m m') : m.dice = m'.dice := congrArg World.dice h.world

theorem withWorld (h : SameView m m') (w : World σ) : SameView (m.withWorld w) (m'.withWorld w) :=
  ⟨rfl, h.args⟩

end SameView

theorem Local.frame {x : Exec σ α} (hx : Local x) (m : Machine σ) :
    (m.perform x).2 = m.withWorld (m.perform x).2.world :=
  congrArg Prod.snd (hx m m (.refl m))

theorem Local.thread_eq {x : Exec σ α} (hx : Local x) (m : Machine σ) : (m.perform x).2.thread = m.thread := by
  rw [hx.frame m, withWorld_thread]

theorem pure_local (a : α) : Local (pure a : Exec σ α) := by
  intro m m' h
  rw [perform_pure, perform_pure, h.world, withWorld_world]

theorem Local.bind {x : Exec σ α} {f : α → Exec σ β} (hx : Local x) (hf : ∀ a, Local (f a)) :
    Local (x >>= f) := by
  intro m m' h
  have hm := hx.frame m
  have hm' := hx m m' h
  cases hr : m.perform x with
  | mk r m₁ =>
    simp only [hr] at hm hm'
    cases r with
    | error e => rw [perform_bind_error hr, perform_bind_error hm']
    | ok a =>
      rw [perform_bind_ok hr, perform_bind_ok hm']
      have h₁ : SameView m₁ (m'.withWorld m₁.world) := by
        refine ⟨rfl, ?_⟩
        rw [hm, withWorld_thread, withWorld_thread, h.args]
      rw [hf a _ _ h₁, withWorld_withWorld]

theorem Local.get_bind {f : Machine σ → Exec σ β} (hf : ∀ m, Local (f m))
    (hv : ∀ m m', SameView m m' → f m = f m') : Local (get >>= f) := by
  intro m m' h
  rw [perform_bind_ok (perform_get m), perform_bind_ok (perform_get m'), ← hv m m' h]
  exact hf m m m' h

theorem Local.ite {c : Prop} [Decidable c] {x y : Exec σ α} (hx : Local x) (hy : Local y) :
    Local (if c then x else y) := by
  split
  · exact hx
  · exact hy

theorem modifyTarget_local (change : Target → Target) : Local (modifyTarget change : Exec σ Unit) := by
  intro m m' h
  simp only [perform_modifyTarget, world, withWorld, h.target, h.devices, h.dice]

theorem perform_draw (m : Machine σ) :
    m.perform draw = (.ok m.dice.pick, { m with dice := m.dice.next }) := rfl

theorem draw_local : Local (draw : Exec σ Pick) := by
  intro m m' h
  simp only [perform_draw, world, withWorld, h.target, h.devices, h.dice]

theorem perform_query (m : Machine σ) (device method : String) (args : List Value) :
    m.perform (query device method args) =
      ((m.devices.query device method args).1,
        { m with devices := (m.devices.query device method args).2 }) := by
  unfold query
  rw [perform_bind_ok (perform_get m)]
  rcases m.devices.query device method args with ⟨_ | _, devices⟩ <;> rfl

theorem query_local (device method : String) (args : List Value) :
    Local (query device method args : Exec σ Value) := by
  intro m m' h
  simp only [perform_query, world, withWorld, h.target, h.devices, h.dice]

/-! ## Expressions -/

mutual

theorem eval_local : (e : Expr) → Local (eval e : Exec σ Value)
  | .lit v => by rw [eval]; exact pure_local v
  | .var name => by
    rw [eval]
    exact .get_bind (fun _ => pure_local _) fun m m' h => by rw [h.target]
  | .arg index => by
    rw [eval]
    exact .get_bind (fun _ => pure_local _) fun m m' h => by rw [h.args]
  | .item list index => by
    rw [eval]
    refine (eval_local index).bind fun i => .get_bind (fun m => ?_) fun m m' h => by rw [h.target]
    split
    · exact draw_local.bind fun _ => pure_local _
    · exact pure_local _
  | .length list => by
    rw [eval]
    refine .get_bind (fun m => ?_) fun m m' h => by rw [h.target]
    split <;> exact pure_local _
  | .arithmetic op left right => by
    rw [eval]
    exact (eval_local left).bind fun _ => (eval_local right).bind fun _ => pure_local _
  | .compare op left right => by
    rw [eval]
    exact (eval_local left).bind fun _ => (eval_local right).bind fun _ => pure_local _
  | .and left right => by
    rw [eval]
    exact (eval_local left).bind fun _ => .ite ((eval_local right).bind fun _ => pure_local _) (pure_local _)
  | .or left right => by
    rw [eval]
    exact (eval_local left).bind fun _ => .ite (pure_local _) ((eval_local right).bind fun _ => pure_local _)
  | .not inner => by
    rw [eval]
    exact (eval_local inner).bind fun _ => pure_local _
  | .join left right => by
    rw [eval]
    exact (eval_local left).bind fun _ => (eval_local right).bind fun _ => pure_local _
  | .cast kind inner => by
    rw [eval]
    exact (eval_local inner).bind fun _ => pure_local _
  | .query device method args => by
    rw [eval]
    exact (evalAll_local args).bind fun vs => query_local device method vs

theorem evalAll_local : (es : List Expr) → Local (evalAll es : Exec σ (List Value))
  | [] => by rw [evalAll]; exact pure_local _
  | e :: rest => by
    rw [evalAll]
    exact (eval_local e).bind fun _ => (evalAll_local rest).bind fun _ => pure_local _

end

end Machine

end BlockScript
