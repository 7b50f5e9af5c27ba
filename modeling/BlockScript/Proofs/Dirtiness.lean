import BlockScript.Proofs.Ledger

/-!
# Whoever shows a list sees every change

The dirty flag of a list is set by each operation that changes the list, and cleared by none. A list that
is not dirty therefore is what it was before, or was not there and is empty (`Target.Flagged`). To add one
run after another keeps this, so it is enough to look at one list operation at a time: all other things
that blocks, steps and ticks do leave the lists alone (`dirty_never_missed`).
-/

namespace BlockScript

open Machine Relation

/-! ## Lists of a target -/

namespace ItemList

/-- The list is as it was, or it is dirty. -/
def Marked (l l' : ItemList) : Prop :=
  l' = l ∨ l'.dirty = true

section
variable (pick : Pick) (l : ItemList) (index value : Value)

theorem push_marked : l.Marked (l.push value) :=
  .inr rfl

theorem replace_marked : l.Marked (l.replace pick index value) := by
  unfold replace
  split
  · exact .inr rfl
  · exact .inl rfl

theorem insert_marked : l.Marked (l.insert pick index value) := by
  unfold insert
  split
  · exact .inr rfl
  · exact .inl rfl

theorem delete_marked : l.Marked (l.delete pick index) := by
  unfold delete
  split
  · exact .inr rfl
  · split
    · exact .inr rfl
    · exact .inl rfl

end

end ItemList

namespace Target

/-- Between the first state of a target and the second no list has gone, no flag has been cleared, and a
list that is not dirty has not changed: it was there with the same items and not dirty, or it was not there
and is empty. -/
structure Flagged (t t' : Target) : Prop where
  kept : ∀ name l, t.list? name = some l → ∃ l', t'.list? name = some l' ∧ (l.dirty = true → l'.dirty = true)
  clean : ∀ name l', t'.list? name = some l' → l'.dirty = false →
    (∃ l, t.list? name = some l ∧ l.dirty = false ∧ l'.items = l.items) ∨ t.list? name = none ∧ l'.items = []

section
variable {t t' t'' : Target}

theorem Flagged.of_lists (same : t'.lists = t.lists) : t.Flagged t' := by
  have list? (name : String) : t'.list? name = t.list? name := by simp [Target.list?, same]
  refine ⟨?_, ?_⟩
  · intro name l there
    exact ⟨l, (list? name).trans there, id⟩
  · intro name l' there clean
    exact .inl ⟨l', (list? name).symm.trans there, clean, rfl⟩

theorem Flagged.refl (t : Target) : t.Flagged t :=
  .of_lists rfl

theorem Flagged.trans (h : t.Flagged t') (h' : t'.Flagged t'') : t.Flagged t'' := by
  refine ⟨?_, ?_⟩
  · intro name l there
    obtain ⟨l', there', dirty⟩ := h.kept name l there
    obtain ⟨l'', there'', dirty'⟩ := h'.kept name l' there'
    exact ⟨l'', there'', dirty' ∘ dirty⟩
  · intro name l'' there'' clean
    obtain ⟨l', there', clean', items⟩ | ⟨absent, empty⟩ := h'.clean name l'' there'' clean
    · rw [items]
      exact h.clean name l' there' clean'
    · -- a list that is not there now was not there before, since none goes
      refine .inr ⟨?_, empty⟩
      cases there : t.list? name with
      | none => rfl
      | some l =>
        obtain ⟨l', there', -⟩ := h.kept name l there
        simp [absent] at there'

theorem list?_modifyList (t : Target) (name other : String) (change : ItemList → ItemList) :
    (t.modifyList name change).list? other =
      if name = other then some (change ((t.list? name).getD .empty)) else t.list? other :=
  Table.find?_insert _ _ _ _

theorem modifyList_flagged (t : Target) (name : String) {change : ItemList → ItemList}
    (marked : ∀ l : ItemList, l.Marked (change l)) : t.Flagged (t.modifyList name change) := by
  refine ⟨?_, ?_⟩
  · intro other l there
    rw [list?_modifyList]
    by_cases here : name = other
    · subst here
      rw [if_pos rfl, there]
      refine ⟨change l, rfl, ?_⟩
      intro dirty
      obtain same | marked := marked l
      · rwa [same]
      · exact marked
    · rw [if_neg here]
      exact ⟨l, there, id⟩
  · intro other l' there' clean
    rw [list?_modifyList] at there'
    by_cases here : name = other
    · subst here
      rw [if_pos rfl, Option.some.injEq] at there'
      subst there'
      obtain same | dirty := marked ((t.list? name).getD .empty)
      · rw [same] at clean ⊢
        cases there : t.list? name with
        | none => exact .inr ⟨rfl, rfl⟩
        | some l =>
          rw [there] at clean
          exact .inl ⟨l, rfl, clean, rfl⟩
      · simp [dirty] at clean
    · rw [if_neg here] at there'
      exact .inl ⟨l', there', clean, rfl⟩

end

end Target

/-! ## Blocks and steps -/

namespace Machine

variable {σ α β : Type}

def Flags (x : Exec σ α) : Prop :=
  ∀ m : Machine σ, m.target.Flagged (m.perform x).2.target

theorem pure_flags (a : α) : Flags (pure a : Exec σ α) :=
  fun m => .refl m.target

theorem Flags.bind {x : Exec σ α} {f : α → Exec σ β} (hx : Flags x) (hf : ∀ a, Flags (f a)) : Flags (x >>= f) := by
  intro m
  have first := hx m
  rw [perform_bind]
  rcases hm : m.perform x with ⟨e | a, m'⟩ <;> rw [hm] at first
  · exact first
  · exact first.trans (hf a m')

theorem changeTarget_flags {change : Target → Target} (h : ∀ t : Target, t.Flagged (change t)) :
    Flags (do modifyTarget change; return Flow.next : Exec σ Flow) :=
  fun m => h m.target

theorem Woven.flags {asks : String × String → Prop} {x : Exec σ α} (h : Woven asks False x) : Flags x := by
  intro m
  rw [h.target_eq m]
  exact .refl m.target

theorem eval_only_asks (e : Expr) : Woven (fun _ => True) False (eval e : Exec σ Value) :=
  eval_woven e fun _ _ => trivial

theorem eval_flags (e : Expr) : Flags (eval e : Exec σ Value) := (eval_only_asks e).flags

theorem evalAll_flags (es : List Expr) : Flags (evalAll es : Exec σ (List Value)) := by
  have woven : Woven (fun _ => True) False (evalAll es : Exec σ (List Value)) := evalAll_woven es fun _ _ => trivial
  exact woven.flags

theorem query_flags (device method : String) (args : List Value) :
    Flags (query device method args : Exec σ Value) := by
  have woven : Woven (fun _ => True) False (query device method args : Exec σ Value) := .query args trivial
  exact woven.flags

theorem changeList_flags (name : String) {change : Pick → ItemList → ItemList}
    (marked : ∀ pick l, ItemList.Marked l (change pick l)) :
    Flags (do changeList name change; return Flow.next : Exec σ Flow) :=
  fun m => m.target.modifyList_flagged name (marked m.dice.pick)

theorem exec_flags {s : Stmt} (plain : plain s = true) : Flags (exec s : Exec σ Flow) := by
  cases s with
  | setVariable _ value | setEffect _ value =>
    rw [exec]
    exact (eval_flags value).bind fun v => changeTarget_flags fun t => .of_lists rfl
  | changeVariable _ amount | changeEffect _ amount =>
    rw [exec]
    exact (eval_flags amount).bind fun v => changeTarget_flags fun t => .of_lists rfl
  | goTo x y =>
    rw [exec]
    exact (eval_flags x).bind fun vx => (eval_flags y).bind fun vy => changeTarget_flags fun t => .of_lists rfl
  | addToList list value =>
    rw [exec]
    refine (eval_flags value).bind fun v => changeTarget_flags fun t => ?_
    exact t.modifyList_flagged list fun l => l.push_marked v
  | replaceItem list index value =>
    rw [exec]
    refine (eval_flags index).bind fun i => (eval_flags value).bind fun v => ?_
    exact changeList_flags list fun pick l => l.replace_marked pick i v
  | insertAt list index value =>
    rw [exec]
    refine (eval_flags index).bind fun i => (eval_flags value).bind fun v => ?_
    exact changeList_flags list fun pick l => l.insert_marked pick i v
  | deleteOf list index =>
    rw [exec]
    refine (eval_flags index).bind fun i => ?_
    exact changeList_flags list fun pick l => l.delete_marked pick i
  | deviceCall device method args =>
    rw [exec]
    exact (evalAll_flags args).bind fun vs => (query_flags device method vs).bind fun _ => pure_flags _
  | marker id =>
    rw [exec]
    exact pure_flags _
  | _ => cases plain

mutual

theorem approach_flags (s : Stmt) : Flags (approach s : Exec σ (Option Transfer)) := by
  cases s with
  | branch test yes no =>
    rw [approach]
    refine (eval_flags test).bind fun taken => ?_
    split
    · exact approachBlock_flags yes
    · exact approachBlock_flags no
  | call procedure args resume =>
    rw [approach]
    exact (evalAll_flags args).bind fun _ => pure_flags _
  | jump _ | jumpLazy _ | finish | retire =>
    rw [approach]
    exact pure_flags _
  | _ =>
    rw [approach_plain rfl]
    exact (exec_flags rfl).bind fun _ => pure_flags _

theorem approachBlock_flags : (b : List Stmt) → Flags (approachBlock b : Exec σ (Option Transfer))
  | [] => by
    rw [approachBlock]
    exact pure_flags _
  | s :: rest => by
    rw [approachBlock]
    refine (approach_flags s).bind fun ending => ?_
    cases ending with
    | none => exact approachBlock_flags rest
    | some transfer => exact pure_flags _

end

theorem Made.target_eq {m m' : Machine σ} {transfer : Transfer} (h : Made m transfer m') :
    m'.target = m.target := by
  cases h <;> rfl

theorem Passes.flagged {m m' : Machine σ} (h : Passes m m') : m.target.Flagged m'.target := by
  cases h with
  | acts body => exact approachBlock_flags body m
  | transfers _ hmade => exact .of_lists (congrArg Target.lists hmade.target_eq)
  | begins _ | takes | looksUp label | stores label | suspends _ => exact .refl _

theorem flagged_of_passes {m m' : Machine σ} (h : ReflTransGen Passes m m') : m.target.Flagged m'.target := by
  induction h with
  | refl => exact .refl _
  | tail _ passes ih => exact ih.trans passes.flagged

theorem execBlock_flags (body : Block) : Flags (execBlock body : Exec σ Flow) :=
  fun m => flagged_of_passes (passes_execBlock m body)

theorem step_flags (limit : Option Nat) (fuel : Nat) : Flags (step limit fuel : Exec σ Outcome) :=
  fun m => flagged_of_passes (passes_step m limit fuel)

end Machine

/-! ## Ticks -/

namespace Scheduler

variable {σ : Type}

def Flags (s s' : Scheduler σ) : Prop :=
  ∀ (i : Nat) (t : Target), s.targets[i]? = some t → ∃ t', s'.targets[i]? = some t' ∧ t.Flagged t'

theorem Flags.trans {s s' s'' : Scheduler σ} (h : Flags s s') (h' : Flags s' s'') : Flags s s'' := by
  intro i t there
  obtain ⟨t', there', first⟩ := h i t there
  obtain ⟨t'', there'', second⟩ := h' i t' there'
  exact ⟨t'', there'', first.trans second⟩

theorem absorb_flags {sweep : Sweep σ} {task : Task} {target : Target} {m : Machine σ}
    (there : sweep.state.targets[task.thread.target]? = some target) (h : target.Flagged m.target) :
    Flags sweep.state (absorb sweep task m).state := by
  intro i t ht
  have size := (Array.getElem?_eq_some_iff.mp there).1
  simp only [absorb, Array.getElem?_setIfInBounds]
  by_cases own : task.thread.target = i
  · subst own
    rw [there, Option.some.injEq] at ht
    subst ht
    rw [if_pos rfl, if_pos size]
    exact ⟨m.target, rfl, h⟩
  · rw [if_neg own]
    exact ⟨t, ht, .refl t⟩

theorem stepTask_flags {fuel : Nat} {sweep sweep' : Sweep σ} {task : Task}
    (h : stepTask fuel sweep task = some sweep') : Flags sweep.state sweep'.state := by
  cases there : sweep.state.targets[task.thread.target]? with
  | none =>
    rw [stepTask_lost there] at h
    cases h
    intro i t ht
    exact ⟨t, ht, .refl t⟩
  | some target =>
    obtain ⟨r, m, ran, -, -, rfl⟩ := exists_ran there h
    have flagged := step_flags sweep.state.limit fuel (machine sweep task target)
    rw [ran] at flagged
    exact absorb_flags there flagged

theorem Sweeping.flags {fuel : Nat} {s : Scheduler σ} {left : List Task} {sweep : Sweep σ}
    (h : Sweeping fuel s left sweep) : Flags s sweep.state := by
  induction h with
  | begins =>
    intro i t ht
    exact ⟨t, ht, .refl t⟩
  | steps _ hstep ih => exact ih.trans (stepTask_flags hstep)

theorem tick_flags {fuel : Nat} {s s' : Scheduler σ} {report : Report} (h : s.tick fuel = some (report, s')) :
    Flags s s' := by
  obtain ⟨sweep, swept, -, rfl⟩ := tick_sweeping h
  exact swept.flags

end Scheduler

/-! ## Whole runs -/

/-- What can be run on a target: a statement, a block or a step on any machine, or a tick of a scheduler
that the target is in. -/
inductive Target.Worked : Target → Target → Prop
  | stmt {σ : Type} (m : Machine σ) (s : Stmt) : Worked m.target (m.perform (exec s)).2.target
  | block {σ : Type} (m : Machine σ) (body : Block) : Worked m.target (m.perform (execBlock body)).2.target
  | step {σ : Type} (m : Machine σ) (limit : Option Nat) (fuel : Nat) :
      Worked m.target (m.perform (step limit fuel)).2.target
  | tick {σ : Type} {s s' : Scheduler σ} {fuel : Nat} {report : Report} {i : Nat} {t t' : Target} :
      s.tick fuel = some (report, s') → s.targets[i]? = some t → s'.targets[i]? = some t' → Worked t t'

theorem Target.Worked.flagged {t t' : Target} (h : t.Worked t') : t.Flagged t' := by
  cases h with
  | stmt m s =>
    rw [← execBlock_singleton]
    exact execBlock_flags [s] m
  | block m body => exact execBlock_flags body m
  | step m limit fuel => exact step_flags limit fuel m
  | @tick _ _ _ _ _ i t t' ticked there there' =>
    obtain ⟨_, there'', flagged⟩ := Scheduler.tick_flags ticked i t there
    rw [there', Option.some.injEq] at there''
    rwa [there'']

namespace Machine

variable {σ : Type}

theorem eval_target {m m' : Machine σ} {e : Expr} {r : Except Fault Value} (h : m.perform (eval e) = (r, m')) :
    m'.target = m.target := by
  have same := (eval_only_asks e).target_eq m
  rwa [h] at same

theorem list?_changeList {m₀ m : Machine σ} (same : m.target = m₀.target) (name : String)
    (change : Pick → ItemList → ItemList) :
    (m.perform (do changeList name change; return Flow.next)).2.target.list? name =
      some (change m.dice.pick ((m₀.target.list? name).getD .empty)) := by
  rw [← same]
  exact (Target.list?_modifyList m.target name name (change m.dice.pick)).trans (if_pos rfl)

end Machine

/-- Whatever statements, blocks, steps and ticks have been run on a target, in any order and whether they
failed or not, no list has gone and no flag has been cleared, and a list that is not dirty is as it was: it
was there, not dirty and with the same items, or it was not there and is empty. A tick takes no target away.
A statement whose index is resolved to no slot leaves the items and the flag of its list as they were. -/
theorem dirty_never_missed :
    (∀ t t' : Target, ReflTransGen Target.Worked t t' → t.Flagged t') ∧
    (∀ (σ : Type) (s s' : Scheduler σ) (fuel : Nat) (report : Report), s.tick fuel = some (report, s') →
      ∀ i : Nat, s.targets[i]? ≠ none → s'.targets[i]? ≠ none) ∧
    ∀ (σ : Type) (m m₁ m₂ : Machine σ) (name : String) (index value : Expr) (i v : Value),
      m.perform (eval index) = (.ok i, m₁) → m₁.perform (eval value) = (.ok v, m₂) →
      let l := (m.target.list? name).getD .empty
      (resolveIndex? m₂.dice.pick i l.length = none →
        (m.perform (exec (.replaceItem name index value))).2.target.list? name = some l) ∧
      (resolveIndex? m₂.dice.pick i (l.length + 1) = none →
        (m.perform (exec (.insertAt name index value))).2.target.list? name = some l) ∧
      (i ≠ .str "all" → resolveIndex? m₁.dice.pick i l.length = none →
        (m.perform (exec (.deleteOf name index))).2.target.list? name = some l) := by
  refine ⟨?_, ?_, ?_⟩
  · intro t t' worked
    induction worked with
    | refl => exact .refl t
    | tail _ last ih => exact ih.trans last.flagged
  · intro σ s s' fuel report ticked i there
    obtain ⟨t, ht⟩ := Option.ne_none_iff_exists'.mp there
    obtain ⟨t', ht', -⟩ := Scheduler.tick_flags ticked i t ht
    simp [ht']
  · intro σ m m₁ m₂ name index value i v first second l
    have same₁ := eval_target first
    have same₂ := (eval_target second).trans same₁
    refine ⟨?_, ?_, ?_⟩
    · intro nowhere
      rw [exec, perform_bind_ok first, perform_bind_ok second, list?_changeList same₂, ItemList.replace, nowhere]
    · intro nowhere
      rw [exec, perform_bind_ok first, perform_bind_ok second, list?_changeList same₂, ItemList.insert, nowhere]
    · intro one nowhere
      rw [exec, perform_bind_ok first, list?_changeList same₁, ItemList.delete, if_neg one, nowhere]

def shown : Machine Unit :=
  let target := { Target.new "" with lists := .ofPairs [("words", ⟨[.str "b"], false⟩)] }
  start ⟨⟨0⟩, #[], #[]⟩ ⟨#[]⟩ ⟨1⟩ 0 { World.bare with target } []

/-- The block replaces an item that is not there, fills one list, makes another and then fails. -/
theorem dirty_never_missed_shown :
    let body : Block := [.replaceItem "words" (.lit (.num 2)) (.lit .null), .addToList "more" (.lit .null),
      .deleteOf "none" (.lit (.str "last")), .deviceCall "clock" "now" []]
    let t := (shown.perform (execBlock body)).2.target
    (shown.perform (execBlock body)).1 = .error (.unknownDevice "clock") ∧
      ReflTransGen Target.Worked shown.target t ∧ shown.target.Flagged t ∧
      t.list? "words" = some ⟨[.str "b"], false⟩ ∧ t.list? "more" = some ⟨[.null], true⟩ ∧
      t.list? "none" = some .empty ∧
      (shown.perform (exec (.replaceItem "words" (.lit (.num 2)) (.lit .null)))).2.target.list? "words" =
        some ⟨[.str "b"], false⟩ := by
  intro body t
  have worked : ReflTransGen Target.Worked shown.target t := .single (.block shown body)
  have nowhere : resolveIndex? shown.dice.pick (.num 2) 1 = none := by decide +kernel
  have evaluated : (shown.perform (execBlock body)).1 = .error (.unknownDevice "clock") ∧
      t.list? "words" = some ⟨[.str "b"], false⟩ ∧ t.list? "more" = some ⟨[.null], true⟩ ∧
      t.list? "none" = some .empty := by
    refine ⟨rfl, ?_, ?_, ?_⟩ <;> decide +kernel
  obtain ⟨failed, words, more, made⟩ := evaluated
  have replaced := (dirty_never_missed.2.2 Unit shown shown shown "words" (.lit (.num 2)) (.lit .null)
      (.num 2) .null
    rfl rfl).1 nowhere
  exact ⟨failed, worked, dirty_never_missed.1 _ _ worked, words, more, made, replaced⟩

end BlockScript
