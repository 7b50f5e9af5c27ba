import BlockScript.Benchmark
import BlockScript.Proofs.Comparison
import BlockScript.Proofs.Indices
import BlockScript.Proofs.MarkedIntegers
import BlockScript.Proofs.Passage
import BlockScript.Proofs.Resolution

/-!
# One thread that counts

The counting program calls a procedure over and over, which counts from zero up to a number. A thread of
it is between two calls (`Outside`) or in the loop of the procedure (`Inside`), and each label of the
program takes one of these to the next. An atomic call goes through the loop in a single step
(`settles_atomic`). Otherwise a step is one round of the loop, and the one that finds the count complete
counts nothing, so that a call takes one step more than it counts (`Waits.step`).
-/

namespace BlockScript

open Machine

/-! ## Whole numbers as doubles -/

namespace Number

variable {a : ℕ}

theorem rational?_whole (small : a ≤ 2 ^ 53) : rational? (Float.ofNat a) = some (a : ℚ) := by
  have word : a ≤ maxCount := by
    unfold maxCount UInt64.size
    omega
  rw [rational?_ofNat word, nearest_of_le small]

theorem ofNat_add_one (small : a < 2 ^ 53) : Float.ofNat a + 1.0 = Float.ofNat (a + 1) := by
  have sum := @ofRat_add_ofNat a 0 small 1 (by norm_num)
  rw [pow_zero, mul_one] at sum
  rw [ofNat_eq, ofNat_eq, Nat.cast_add]
  exact sum

end Number

namespace Value

open Number

variable {a b : ℕ}

theorem toNumber_ofNat (small : a ≤ 2 ^ 53) : (num (Float.ofNat a)).toNumber = Float.ofNat a := by
  by_cases zero : a = 0
  · rw [zero]
    decide +kernel
  · exact toNumber_num (rational?_whole small) (Nat.cast_ne_zero.mpr zero)

theorem numeric_ofNat (small : a ≤ 2 ^ 53) : (num (Float.ofNat a)).Numeric := by
  refine ⟨?_, rfl⟩
  rw [Bool.eq_false_iff, Ne, isNaN_iff, number, point?_of_rational? (rational?_whole small)]
  simp

theorem compare_ofNat (left : a ≤ 2 ^ 53) (right : b ≤ 2 ^ 53) :
    (num (Float.ofNat a)).compare (num (Float.ofNat b)) = Ord.compare a b := by
  have leftPoint := point?_of_rational? (rational?_whole left)
  have rightPoint := point?_of_rational? (rational?_whole right)
  rw [compare_numeric (numeric_ofNat left) (numeric_ofNat right) leftPoint rightPoint, compare_coe]
  have mono : cmp (a : ℚ) (b : ℚ) = cmp a b := Nat.strictMono_cast.cmp_map_eq a b
  simpa only [cmp_eq_compare] using mono

end Value

theorem Target.getVariable_setVariable (t : Target) (name other : String) (v : Value) :
    (t.setVariable name v).getVariable other = if name = other then v else t.getVariable other := by
  unfold getVariable setVariable
  rw [Table.find?_insert]
  split_ifs <;> rfl

namespace Machine

variable {σ : Type} {m : Machine σ}

theorem Made.made_eq {transfer : Transfer} {m' : Machine σ} (h : Made m transfer m') :
    made m transfer = (.ok (), m') := by
  cases h with
  | jump _ | retire => rfl
  | call _ _ h | back h | unwound h => rw [made, h]
  | atomic _ h | yield _ h =>
    rw [made, h]
    rfl

theorem perform_approach_branch {m' m'' : Machine σ} {test : Expr} {yes no : Block} {v : Value}
    {transfer : Transfer} (tested : m.perform (eval test) = (.ok v, m'))
    (ended : m'.perform (approachBlock (if v.toBool then yes else no)) = (.ok (some transfer), m'')) :
    m.perform (approachBlock [.branch test yes no]) = (.ok (some transfer), m'') := by
  rw [approachBlock, approach, perform_bind, perform_bind_ok tested]
  by_cases taken : v.toBool = true
  · rw [if_pos taken] at ended ⊢
    rw [ended]
    rfl
  · rw [if_neg taken] at ended ⊢
    rw [ended]
    rfl

end Machine

namespace Benchmark

variable {σ : Type}

/-! ## Where a thread is -/

def callFrame (iterations : UInt32) (warp : Bool) : Frame :=
  ⟨[.num (Float.ofNat iterations.toNat)], ⟨2⟩, warp⟩

structure Outside (total : ℕ) (t : Thread) (x : Target) : Prop where
  stack : t.stack = []
  depth : t.warp = 0
  total : x.getVariable "total" = .num (Float.ofNat total)

structure Called (iterations : UInt32) (warp : Bool) (total : ℕ) (t : Thread) (x : Target) : Prop where
  stack : t.stack = [callFrame iterations warp]
  depth : t.warp = if warp then 1 else 0
  total : x.getVariable "total" = .num (Float.ofNat total)

structure Inside (iterations : UInt32) (warp : Bool) (n total : ℕ) (t : Thread) (x : Target) : Prop
    extends Called iterations warp total t x where
  count : x.getVariable "n" = .num (Float.ofNat n)

structure Carries (iterations : UInt32) (warp : Bool) (m : Machine σ) : Prop where
  program : m.program = countingProgram iterations warp
  cache : m.cache.Sound m.program
  live : m.thread.isRetired = false

structure Leads (iterations : UInt32) (warp : Bool) (label next : Label) (reached : Thread → Target → Prop)
    (m : Machine σ) : Prop where
  next : (m.fresh.visit label).next? = some next
  carries : Carries iterations warp (m.fresh.visit label).after
  reached : reached (m.fresh.visit label).after.thread (m.fresh.visit label).after.target

structure Rests (stored : Label) (reached : Thread → Target → Prop) (v : Visit σ) : Prop where
  result : v.result = .ok .transferred
  pending : v.after.pending = none
  stored : v.after.thread.fragment = some stored
  live : v.after.thread.isRetired = false
  reached : reached v.after.thread v.after.target

/-- A step that begins at the label, and may run `n` pending labels or more, comes to rest. -/
def Settles (n : ℕ) (label stored : Label) (reached : Thread → Target → Prop) (m : Machine σ) : Prop :=
  ∀ fuel, n ≤ fuel → Rests stored reached (final fuel label m)

section
variable {iterations : UInt32} {warp : Bool} {m : Machine σ} {label next stored : Label}
  {reached : Thread → Target → Prop} {n total : ℕ}

theorem Rests.settles (h : Rests stored reached (m.fresh.visit label)) : Settles n label stored reached m := by
  intro fuel _
  have idle : (m.fresh.visit label).next? = none := by rw [Visit.next?, h.result, h.pending]
  rw [final_none idle]
  exact h

theorem Leads.settles {between : Thread → Target → Prop} (h : Leads iterations warp label next between m)
    (rest : Settles n next stored reached (m.fresh.visit label).after) :
    Settles (n + 1) label stored reached m := by
  intro fuel enough
  obtain ⟨fuel, rfl⟩ := Nat.exists_eq_add_of_le' (Nat.le_of_add_left_le enough)
  rw [final_some h.next]
  exact rest fuel (Nat.le_of_succ_le_succ enough)

/-! ## The labels -/

theorem Carries.visit (c : Carries iterations warp m) (label : Label) {body : Block} {transfer : Transfer}
    (act : Target → Target)
    (stands : (countingProgram iterations warp).labels[label.index]? = some (.fragment body))
    (approach : ∀ m' : Machine σ, m'.thread = m.thread → m'.target = m.target →
      m'.perform (approachBlock body) = (.ok (some transfer), { m' with target := act m'.target })) :
    ∃ m₀ : Machine σ, m₀.thread = m.thread ∧ m₀.target = act m.target ∧ m₀.pending = none ∧
      Carries iterations warp m₀ ∧
      ∀ m₁, Made m₀ transfer m₁ →
        (m.fresh.visit label).result = .ok .transferred ∧ (m.fresh.visit label).after = m₁ := by
  have body_eq : m.program.lookup label = .ok body := by
    rw [c.program]
    exact Program.answer_fragment stands
  obtain ⟨cache, run, sound, -⟩ := Program.run_block_ok body_eq c.cache
  let found : Machine σ := { m.fresh with cache }
  have block : m.fresh.perform (block label) = (.ok body, found) := by
    rw [perform_block]
    show (((m.program.block label).run m.cache).1,
        { m.fresh with cache := ((m.program.block label).run m.cache).2 }) = _
    rw [run]
  have visited : m.fresh.visit label =
      ⟨label, found, body, (found.perform (execBlock body)).1, (found.perform (execBlock body)).2⟩ := by
    rw [Machine.visit, block]
  have ran := perform_execBlock_some (approach found rfl rfl)
  rw [perform_make (m := { found with target := act found.target }) c.live] at ran
  refine ⟨{ found with target := act found.target }, rfl, rfl, rfl, ⟨c.program, sound, c.live⟩, ?_⟩
  intro m₁ done
  rw [visited, ran, done.made_eq]
  exact ⟨rfl, rfl⟩

section
variable {m₁ : Machine σ}

theorem Leads.of_after
    (ran : (m.fresh.visit label).result = .ok .transferred ∧ (m.fresh.visit label).after = m₁)
    (pending : m₁.pending = some next) (carries : Carries iterations warp m₁)
    (there : reached m₁.thread m₁.target) : Leads iterations warp label next reached m := by
  obtain ⟨result, rfl⟩ := ran
  exact ⟨by rw [Visit.next?, result, pending], carries, there⟩

theorem Rests.of_after
    (ran : (m.fresh.visit label).result = .ok .transferred ∧ (m.fresh.visit label).after = m₁)
    (pending : m₁.pending = none) (fragment : m₁.thread.fragment = some stored) (live : m₁.thread.isRetired = false)
    (there : reached m₁.thread m₁.target) : Rests stored reached (m.fresh.visit label) := by
  obtain ⟨result, rfl⟩ := ran
  exact ⟨result, pending, fragment, live, there⟩

end

theorem Outside.calm {t : Thread} {x : Target} (h : Outside total t x) : t.isWarp = false := by
  rw [Thread.isWarp, h.depth]
  rfl

theorem Called.isWarp {t : Thread} {x : Target} (h : Called iterations warp total t x) : t.isWarp = warp := by
  rw [Thread.isWarp, h.depth]
  cases warp <;> rfl

theorem leads_entry (c : Carries iterations warp m) (h : Outside total m.thread m.target) :
    Leads iterations warp ⟨0⟩ ⟨1⟩ (Outside total) m := by
  obtain ⟨m₀, thread, target, -, c₀, does⟩ := c.visit ⟨0⟩ id rfl (fun _ _ _ => rfl)
  refine .of_after (does _ (.jump _)) rfl ⟨c₀.program, c₀.cache, c₀.live⟩ ?_
  simp only [thread, target]
  exact h

/-- The call is atomic just when the procedure is, since nothing outside it is. -/
theorem leads_loop (c : Carries iterations warp m) (h : Outside total m.thread m.target) :
    Leads iterations warp ⟨1⟩ ⟨3⟩ (Called iterations warp total) m := by
  obtain ⟨m₀, thread, target, -, c₀, does⟩ := c.visit ⟨1⟩ id rfl (fun _ _ _ => rfl)
  have procedure : m₀.program.procedure ⟨0⟩ = .ok ⟨"count %n", ⟨3⟩, warp⟩ := by
    rw [c₀.program]
    rfl
  refine .of_after (does _ (.call _ _ procedure)) rfl ⟨c₀.program, c₀.cache, c₀.live⟩ ?_
  simp only [thread, target, entered, h.calm, Bool.or_false, h.stack, h.depth]
  exact ⟨rfl, rfl, h.total⟩

theorem leads_procedure (c : Carries iterations warp m) (h : Called iterations warp total m.thread m.target) :
    Leads iterations warp ⟨3⟩ ⟨4⟩ (Inside iterations warp 0 total) m := by
  obtain ⟨m₀, thread, target, -, c₀, does⟩ := c.visit ⟨3⟩
    (·.setVariable "n" (.num (Float.ofNat 0))) rfl (fun _ _ _ => rfl)
  refine .of_after (does _ (.jump _)) rfl ⟨c₀.program, c₀.cache, c₀.live⟩ ?_
  simp only [thread, target]
  refine ⟨⟨h.stack, h.depth, ?_⟩, ?_⟩
  · rw [Target.getVariable_setVariable, if_neg (by decide)]
    exact h.total
  · rw [Target.getVariable_setVariable, if_pos rfl]

theorem rests_again (c : Carries iterations warp m) (h : Outside total m.thread m.target) :
    Rests ⟨1⟩ (Outside total) (m.fresh.visit ⟨2⟩) := by
  obtain ⟨m₀, thread, target, idle, c₀, does⟩ := c.visit ⟨2⟩ id rfl (fun _ _ _ => rfl)
  have calm : m₀.thread.isWarp = false := by
    rw [thread]
    exact h.calm
  refine .of_after (does _ (.yield _ calm)) idle rfl c₀.live ?_
  simp only [thread, target]
  exact ⟨h.stack, h.depth, h.total⟩

/-! ### The loop of the procedure -/

def bump (x : Target) : Target :=
  let x := x.setVariable "n" (.num ((x.getVariable "n").toNumber + (Value.num 1.0).toNumber))
  x.setVariable "total" (.num ((x.getVariable "total").toNumber + (Value.num 1.0).toNumber))

theorem perform_test (h : Inside iterations warp n total m.thread m.target) (le : n ≤ iterations.toNat) :
    m.perform (eval (.compare .lt (.var "n") (.arg 0))) = (.ok (.bool (n < iterations.toNat)), m) := by
  have args : m.thread.args = [.num (Float.ofNat iterations.toNat)] := by
    rw [Thread.args, h.stack]
    rfl
  have small : iterations.toNat ≤ 2 ^ 53 := iterations.toNat_lt.le.trans (by norm_num)
  show (Except.ok (Value.bool (CompareOp.lt.holds
    ((m.target.getVariable "n").compare (m.thread.args.getD 0 (.num 0.0))))), m) = _
  rw [args, h.count, List.getD_cons_zero, Value.compare_ofNat (le.trans small) small, CompareOp.holds]
  by_cases more : n < iterations.toNat
  · simp [more, Nat.compare_eq_lt.mpr more]
  · simp [more, mt Nat.compare_eq_lt.mp more]

theorem perform_count_more (h : Inside iterations warp n total m.thread m.target) (more : n < iterations.toNat) :
    m.perform (approachBlock countBlock) = (.ok (some (.jumpLazy ⟨4⟩)), { m with target := bump m.target }) := by
  apply perform_approach_branch (perform_test h more.le)
  rw [decide_eq_true more]
  rfl

theorem perform_count_done (h : Inside iterations warp iterations.toNat total m.thread m.target) :
    m.perform (approachBlock countBlock) = (.ok (some .finish), m) := by
  apply perform_approach_branch (perform_test h le_rfl)
  rw [decide_eq_false (lt_irrefl _)]
  rfl

theorem Inside.bump {t : Thread} {x : Target} (h : Inside iterations warp n total t x) (count : n < 2 ^ 53)
    (small : total < 2 ^ 53) : Inside iterations warp (n + 1) (total + 1) t (bump x) := by
  have one : (Value.num 1.0).toNumber = 1.0 := Value.toNumber_ofNat (a := 1) (by norm_num)
  refine ⟨⟨h.stack, h.depth, ?_⟩, ?_⟩
  · rw [Benchmark.bump, Target.getVariable_setVariable, if_pos rfl, Target.getVariable_setVariable,
      if_neg (by decide), h.total, one, Value.toNumber_ofNat small.le, Number.ofNat_add_one small]
  · rw [Benchmark.bump, Target.getVariable_setVariable, if_neg (by decide), Target.getVariable_setVariable,
      if_pos rfl, h.count, one, Value.toNumber_ofNat count.le, Number.ofNat_add_one count]

theorem leads_return (c : Carries iterations warp m)
    (h : Inside iterations warp iterations.toNat total m.thread m.target) :
    Leads iterations warp ⟨4⟩ ⟨2⟩ (Outside total) m := by
  have approach : ∀ m' : Machine σ, m'.thread = m.thread → m'.target = m.target →
      m'.perform (approachBlock countBlock) = (.ok (some .finish), { m' with target := id m'.target }) := by
    intro m' thread target
    rw [← thread, ← target] at h
    exact perform_count_done h
  obtain ⟨m₀, thread, target, -, c₀, does⟩ := c.visit ⟨4⟩ id rfl approach
  rw [← thread, ← (show m₀.target = m.target from target)] at h
  refine .of_after (does _ (.back h.stack)) rfl ⟨c₀.program, c₀.cache, c₀.live⟩ ⟨rfl, ?_, h.total⟩
  simp only [returned, callFrame, h.depth]
  cases warp <;> rfl

theorem exists_count (c : Carries iterations warp m) (h : Inside iterations warp n total m.thread m.target)
    (more : n < iterations.toNat) (small : total < 2 ^ 53) :
    ∃ m₀ : Machine σ, Inside iterations warp (n + 1) (total + 1) m₀.thread m₀.target ∧ m₀.pending = none ∧
      Carries iterations warp m₀ ∧
      ∀ m₁, Made m₀ (.jumpLazy ⟨4⟩) m₁ →
        (m.fresh.visit ⟨4⟩).result = .ok .transferred ∧ (m.fresh.visit ⟨4⟩).after = m₁ := by
  have approach : ∀ m' : Machine σ, m'.thread = m.thread → m'.target = m.target →
      m'.perform (approachBlock countBlock) =
        (.ok (some (.jumpLazy ⟨4⟩)), { m' with target := bump m'.target }) := by
    intro m' thread target
    rw [← thread, ← target] at h
    exact perform_count_more h more
  obtain ⟨m₀, thread, target, idle, c₀, does⟩ := c.visit ⟨4⟩ bump rfl approach
  refine ⟨m₀, ?_, idle, c₀, does⟩
  rw [thread, target]
  have count : iterations.toNat < 2 ^ 53 := iterations.toNat_lt.trans_le (by norm_num)
  exact h.bump (more.trans count) small

theorem leads_count (c : Carries iterations true m) (h : Inside iterations true n total m.thread m.target)
    (more : n < iterations.toNat) (small : total < 2 ^ 53) :
    Leads iterations true ⟨4⟩ ⟨4⟩ (Inside iterations true (n + 1) (total + 1)) m := by
  obtain ⟨m₀, inside, -, c₀, does⟩ := exists_count c h more small
  exact .of_after (does _ (.atomic _ inside.isWarp)) rfl ⟨c₀.program, c₀.cache, c₀.live⟩ inside

theorem rests_count (c : Carries iterations false m) (h : Inside iterations false n total m.thread m.target)
    (more : n < iterations.toNat) (small : total < 2 ^ 53) :
    Rests ⟨4⟩ (Inside iterations false (n + 1) (total + 1)) (m.fresh.visit ⟨4⟩) := by
  obtain ⟨m₀, inside, idle, c₀, does⟩ := exists_count c h more small
  exact .of_after (does _ (.yield _ inside.isWarp)) idle rfl c₀.live
    ⟨⟨inside.stack, inside.depth, inside.total⟩, inside.count⟩

/-! ## From one rest to the next -/

theorem settles_return (c : Carries iterations warp m)
    (h : Inside iterations warp iterations.toNat total m.thread m.target) :
    Settles 1 ⟨4⟩ ⟨1⟩ (Outside total) m := by
  have back := leads_return c h
  exact back.settles (rests_again back.carries back.reached).settles

theorem settles_call (c : Carries iterations warp m) (h : Outside total m.thread m.target)
    (inside : ∀ m' : Machine σ, Carries iterations warp m' → Inside iterations warp 0 total m'.thread m'.target →
      Settles n ⟨4⟩ stored reached m') :
    Settles (n + 2) ⟨1⟩ stored reached m := by
  have loop := leads_loop c h
  have procedure := leads_procedure loop.carries loop.reached
  exact loop.settles (procedure.settles (inside _ procedure.carries procedure.reached))

theorem settles_entry (c : Carries iterations warp m) (h : Outside total m.thread m.target)
    (outside : ∀ m' : Machine σ, Carries iterations warp m' → Outside total m'.thread m'.target →
      Settles n ⟨1⟩ stored reached m') :
    Settles (n + 1) ⟨0⟩ stored reached m := by
  have entry := leads_entry c h
  exact entry.settles (outside _ entry.carries entry.reached)

/-- The rest of an atomic call, when `k` rounds are left. -/
theorem settles_atomic (k : ℕ) (c : Carries iterations true m)
    (h : Inside iterations true n total m.thread m.target)
    (left : n + k = iterations.toNat) (small : total + k ≤ 2 ^ 53) :
    Settles (k + 1) ⟨4⟩ ⟨1⟩ (Outside (total + k)) m := by
  induction k generalizing n total m with
  | zero =>
    obtain rfl : n = iterations.toNat := left
    exact settles_return c h
  | succ k ih =>
    have round := leads_count c h (by omega) (by omega)
    -- a round takes from what is left just what it adds to the total
    have rest := ih round.carries round.reached (by omega) (by omega)
    rw [Nat.add_right_comm total 1 k] at rest
    exact round.settles rest

/-! ## Between two steps -/

/-- Where a thread rests that has gone through `n` rounds of the loop; there is no call after none. -/
def resting (n : ℕ) : Label := if n = 0 then ⟨1⟩ else ⟨4⟩

structure Stands (iterations : UInt32) (warp : Bool) (n total : ℕ) (t : Thread) (x : Target) : Prop where
  outside : n = 0 → Outside total t x
  inside : n ≠ 0 → Inside iterations warp n total t x

/-- The rounds of the call and the total at the next rest. -/
def onward (iterations : UInt32) (warp : Bool) (n total : ℕ) : ℕ × ℕ :=
  if warp then (0, total + (iterations.toNat - n))
  else if n = iterations.toNat then (0, total)
  else (n + 1, total + 1)

theorem Settles.mono {k : ℕ} (h : Settles n label stored reached m) (le : n ≤ k) :
    Settles k label stored reached m :=
  fun fuel enough => h fuel (le.trans enough)

theorem Settles.weaken {between : Thread → Target → Prop} (h : Settles n label stored between m)
    (weaker : ∀ t x, between t x → reached t x) : Settles n label stored reached m := by
  intro fuel enough
  obtain ⟨result, pending, fragment, live, there⟩ := h fuel enough
  exact ⟨result, pending, fragment, live, weaker _ _ there⟩

theorem Stands.congr {t t' : Thread} {x : Target} (h : Stands iterations warp n total t x)
    (stack : t'.stack = t.stack) (depth : t'.warp = t.warp) : Stands iterations warp n total t' x := by
  constructor
  · intro zero
    obtain ⟨hs, hd, ht⟩ := h.outside zero
    exact ⟨stack.trans hs, depth.trans hd, ht⟩
  · intro ne
    obtain ⟨⟨hs, hd, ht⟩, hc⟩ := h.inside ne
    exact ⟨⟨stack.trans hs, depth.trans hd, ht⟩, hc⟩

theorem stands_outside {t : Thread} {x : Target} (h : Outside total t x) : Stands iterations warp 0 total t x :=
  ⟨fun _ => h, fun ne => absurd rfl ne⟩

theorem stands_inside {t : Thread} {x : Target} (h : Inside iterations warp (n + 1) total t x) :
    Stands iterations warp (n + 1) total t x :=
  ⟨fun zero => absurd zero n.succ_ne_zero, fun _ => h⟩

theorem settles_inside (c : Carries iterations warp m) (h : Inside iterations warp n total m.thread m.target)
    (le : n ≤ iterations.toNat) (small : (onward iterations warp n total).2 ≤ 2 ^ 53) :
    Settles (iterations.toNat + 1) ⟨4⟩ (resting (onward iterations warp n total).1)
      (Stands iterations warp (onward iterations warp n total).1 (onward iterations warp n total).2) m := by
  cases warp with
  | true =>
    have atomic := settles_atomic (iterations.toNat - n) c h (by omega) small
    exact (atomic.mono (by omega)).weaken fun t x there => stands_outside there
  | false =>
    by_cases done : n = iterations.toNat
    · subst done
      simp only [onward, Bool.false_eq_true, if_false, if_true]
      exact ((settles_return c h).mono (by omega)).weaken fun t x there => stands_outside there
    · simp only [onward, Bool.false_eq_true, if_false, done] at small ⊢
      have round : Settles (iterations.toNat + 1) ⟨4⟩ ⟨4⟩ _ m :=
        (rests_count c h (lt_of_le_of_ne le done) (by omega)).settles
      exact round.weaken fun t x there => stands_inside there

theorem settles_onward (c : Carries iterations warp m) (h : Stands iterations warp n total m.thread m.target)
    (le : n ≤ iterations.toNat) (small : (onward iterations warp n total).2 ≤ 2 ^ 53)
    (begins : label = resting n ∨ label = ⟨0⟩ ∧ n = 0) :
    Settles (iterations.toNat + 4) label (resting (onward iterations warp n total).1)
      (Stands iterations warp (onward iterations warp n total).1 (onward iterations warp n total).2) m := by
  by_cases zero : n = 0
  · subst zero
    have call := fun (m' : Machine σ) (c' : Carries iterations warp m') (h' : Outside total m'.thread m'.target) =>
      settles_call c' h' fun m' c' h' => settles_inside c' h' le small
    obtain rfl | ⟨rfl, -⟩ := begins
    · exact (call m c (h.outside rfl)).mono (by omega)
    · exact settles_entry c (h.outside rfl) call
  · obtain rfl | ⟨-, first⟩ := begins
    · rw [resting, if_neg zero]
      exact (settles_inside c (h.inside zero) le small).mono (by omega)
    · exact absurd first zero

theorem Settles.step (live : m.thread.isRetired = false) (fragment : m.thread.fragment = some label)
    (h : Settles n label stored reached m.running) {fuel : ℕ} (enough : n ≤ fuel) :
    ∃ m' : Machine σ, m.perform (Machine.step none fuel) = (.ok .suspended, m'.suspended) ∧
      m'.thread.fragment = some stored ∧ reached m'.thread m'.target := by
  have rests : Rests stored reached (final fuel label m.running) := h fuel enough
  refine ⟨(final fuel label m.running).after, ?_, rests.stored, rests.reached⟩
  rw [perform_step live fragment none fuel, Option.getD_none, conclude, rests.result]
  simp only [leave, rests.pending]
  rw [perform_settle, rests.live]
  rfl

end

/-! ## After a number of steps -/

/-- What a thread counts in a number of ticks. A call that is not atomic takes a tick for each round, and
one more to return. -/
def counted (iterations : UInt32) (warp : Bool) (ticks : ℕ) : ℕ :=
  if warp then iterations.toNat * ticks else ticks - ticks / (iterations.toNat + 1)

def phase (iterations : UInt32) (warp : Bool) (ticks : ℕ) : ℕ :=
  if warp then 0 else ticks % (iterations.toNat + 1)

structure Waits (iterations : UInt32) (warp : Bool) (ticks : ℕ) (t : Thread) (x : Target) : Prop where
  status : t.status = .suspended
  fragment : t.fragment = some (if ticks = 0 then ⟨0⟩ else resting (phase iterations warp ticks))
  stands : Stands iterations warp (phase iterations warp ticks) (counted iterations warp ticks) t x

section
variable {iterations : UInt32} {warp : Bool} {m : Machine σ} {ticks : ℕ}

theorem phase_le (iterations : UInt32) (warp : Bool) (ticks : ℕ) :
    phase iterations warp ticks ≤ iterations.toNat := by
  unfold phase
  split_ifs
  · exact Nat.zero_le _
  · exact Nat.le_of_lt_succ (Nat.mod_lt _ (Nat.succ_pos _))

theorem onward_phase (iterations : UInt32) (warp : Bool) (ticks : ℕ) :
    onward iterations warp (phase iterations warp ticks) (counted iterations warp ticks) =
      (phase iterations warp (ticks + 1), counted iterations warp (ticks + 1)) := by
  cases warp with
  | true => rfl
  | false =>
    have positive : 0 < iterations.toNat + 1 := Nat.succ_pos _
    have split := Nat.mod_add_div ticks (iterations.toNat + 1)
    have below := Nat.mod_lt ticks positive
    have quotient := Nat.div_le_self ticks (iterations.toNat + 1)
    simp only [onward, phase, counted, Bool.false_eq_true, if_false]
    -- in both cases the next quotient and remainder are given and then found to be the only ones
    by_cases done : ticks % (iterations.toNat + 1) = iterations.toNat
    · have next : 0 + (iterations.toNat + 1) * (ticks / (iterations.toNat + 1) + 1) = ticks + 1 := by
        rw [Nat.mul_succ]
        omega
      obtain ⟨div, mod⟩ := (Nat.div_mod_unique positive).mpr ⟨next, positive⟩
      rw [if_pos done, div, mod]
      exact Prod.ext rfl (by omega)
    · have next : (ticks % (iterations.toNat + 1) + 1) + (iterations.toNat + 1) * (ticks / (iterations.toNat + 1)) =
          ticks + 1 := by omega
      obtain ⟨div, mod⟩ := (Nat.div_mod_unique positive).mpr ⟨next, by omega⟩
      rw [if_neg done, div, mod]
      exact Prod.ext rfl (by omega)

theorem Waits.step (program : m.program = countingProgram iterations warp) (cache : m.cache.Sound m.program)
    (h : Waits iterations warp ticks m.thread m.target) (small : counted iterations warp (ticks + 1) ≤ 2 ^ 53)
    {fuel : ℕ} (enough : iterations.toNat + 4 ≤ fuel) :
    ∃ m', m.perform (Machine.step none fuel) = (.ok .suspended, m') ∧
      Waits iterations warp (ticks + 1) m'.thread m'.target := by
  have live : m.thread.isRetired = false := by simp [Thread.isRetired, h.status]
  have begins : (if ticks = 0 then ⟨0⟩ else resting (phase iterations warp ticks)) =
      resting (phase iterations warp ticks) ∨
      (if ticks = 0 then ⟨0⟩ else resting (phase iterations warp ticks)) = ⟨0⟩ ∧
        phase iterations warp ticks = 0 := by
    by_cases first : ticks = 0
    · right
      simp [first, phase]
    · left
      rw [if_neg first]
  have running : Carries iterations warp m.running := ⟨program, cache, rfl⟩
  have next := onward_phase iterations warp ticks
  have settles := settles_onward running (h.stands.congr rfl rfl) (phase_le iterations warp ticks)
    (by rw [next]; exact small) begins
  rw [next] at settles
  obtain ⟨m', ran, fragment, stands⟩ := settles.step live h.fragment enough
  exact ⟨m'.suspended, ran, rfl, fragment, stands.congr rfl rfl⟩

end

end Benchmark

end BlockScript
