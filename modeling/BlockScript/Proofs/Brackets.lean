import BlockScript.Proofs.Ending
import Mathlib.Data.List.Induction
import Mathlib.Data.List.Infix

/-!
# Calls and returns are brackets

A sequence of transfers is balanced when no part that it begins with has more returns than calls, and as
a whole it has as many of the one as of the other. A call is open as long as what follows it is balanced.
On any live thread, whatever calls it is in and however deep it runs atomically, a balanced sequence
succeeds: each return goes to where its call said, the arguments are always those of the innermost open
call, and in the end all calls are as they were (`calls_bracket`).
-/

namespace BlockScript

open Machine

/-! ## Balanced sequences -/

def Transfer.isCall : Transfer → Bool
  | .call .. => true
  | _ => false

/-- How many more calls than returns there are. -/
def nesting (transfers : List Transfer) : Int :=
  transfers.countP Transfer.isCall - transfers.count .finish

/-- Every return has a call before it. -/
def Covered (transfers : List Transfer) : Prop :=
  ∀ before, before <+: transfers → 0 ≤ nesting before

structure Balanced (transfers : List Transfer) : Prop where
  covered : Covered transfers
  closed : nesting transfers = 0

/-- After these transfers the innermost open call is one with these arguments and this way back. -/
def Inside (before : List Transfer) (args : List Value) (resume : Label) : Prop :=
  ∃ earlier procedure inner, before = earlier ++ .call procedure args resume :: inner ∧ Balanced inner

instance (transfers : List Transfer) : Decidable (Covered transfers) :=
  decidable_of_iff (∀ before ∈ transfers.inits, 0 ≤ nesting before) (by simp [Covered])

instance (transfers : List Transfer) : Decidable (Balanced transfers) :=
  decidable_of_iff (Covered transfers ∧ nesting transfers = 0) ⟨fun h => ⟨h.1, h.2⟩, fun h => ⟨h.1, h.2⟩⟩

@[simp] theorem nesting_nil : nesting [] = 0 := rfl

@[simp] theorem nesting_append (a b : List Transfer) : nesting (a ++ b) = nesting a + nesting b := by
  simp only [nesting, List.countP_append, List.count_append]
  omega

@[simp] theorem nesting_call (procedure : ProcedureId) (args : List Value) (resume : Label) (rest : List Transfer) :
    nesting (.call procedure args resume :: rest) = nesting rest + 1 := by
  simp [nesting, Transfer.isCall, List.countP_cons]
  omega

@[simp] theorem nesting_finish (rest : List Transfer) : nesting (.finish :: rest) = nesting rest - 1 := by
  simp [nesting, Transfer.isCall]
  omega

theorem Covered.of_prefix {part whole : List Transfer} (h : Covered whole) (hp : part <+: whole) : Covered part :=
  fun before hb => h before (hb.trans hp)

theorem covered_singleton {t : Transfer} (h : 0 ≤ nesting [t]) : Covered [t] := by
  intro before hb
  rcases List.prefix_cons_iff.mp hb with rfl | ⟨rest, rfl, hr⟩
  · simp
  · rwa [List.prefix_nil.mp hr]

theorem Covered.append {a b : List Transfer} (ha : Covered a)
    (hb : ∀ before, before <+: b → 0 ≤ nesting a + nesting before) : Covered (a ++ b) := by
  rintro before ⟨rest, h⟩
  obtain ⟨left, rfl, -⟩ | ⟨more, rfl, hm⟩ := List.append_eq_append_iff.mp h
  · exact ha before (List.prefix_append before left)
  · rw [nesting_append]
    exact hb more ⟨rest, hm.symm⟩

theorem balanced_nil : Balanced [] := by
  refine ⟨fun before h => ?_, rfl⟩
  rw [List.prefix_nil.mp h]
  simp

theorem balanced_singleton {t : Transfer} (h : nesting [t] = 0) : Balanced [t] :=
  ⟨covered_singleton (by omega), h⟩

theorem Balanced.append {a b : List Transfer} (ha : Balanced a) (hb : Balanced b) : Balanced (a ++ b) := by
  constructor
  · apply ha.covered.append
    intro before h
    have := hb.covered before h
    rw [ha.closed]
    omega
  · simp [ha.closed, hb.closed]

theorem Balanced.bracket {inner : List Transfer} (h : Balanced inner) (procedure : ProcedureId) (args : List Value)
    (resume : Label) : Balanced ([.call procedure args resume] ++ inner ++ [.finish]) := by
  constructor
  · have opened : Covered ([.call procedure args resume] ++ inner) := by
      apply (covered_singleton (by simp)).append
      intro before hb
      have := h.covered before hb
      simp only [nesting_call, nesting_nil]
      omega
    apply opened.append
    intro before hb
    rcases List.prefix_cons_iff.mp hb with rfl | ⟨rest, rfl, hr⟩
    · simp [h.closed]
    · simp [List.prefix_nil.mp hr, h.closed]
  · simp [h.closed]

/-- As long as there are more calls than returns, a call is open. -/
theorem exists_inside {before : List Transfer} (covered : Covered before) (deep : 0 < nesting before) :
    ∃ args resume, Inside before args resume := by
  induction hn : before.length using Nat.strongRecOn generalizing before with
  | _ n ih =>
    rcases List.eq_nil_or_concat before with rfl | ⟨init, last, rfl⟩
    · simp at deep
    · rw [List.concat_eq_append] at *
      simp only [List.length_append, List.length_singleton, nesting_append] at hn deep
      have covered' : Covered init := covered.of_prefix (List.prefix_append init [last])
      by_cases flat : nesting [last] = 0
      · obtain ⟨args, resume, earlier, procedure, inner, rfl, balanced⟩ :=
          ih init.length (by omega) covered' (by omega) rfl
        refine ⟨args, resume, earlier, procedure, inner ++ [last], by simp, ?_⟩
        exact balanced.append (balanced_singleton flat)
      · cases last with
        | jump _ | jumpLazy _ | retire => exact absurd rfl flat
        | call procedure args resume => exact ⟨args, resume, init, procedure, [], rfl, balanced_nil⟩
        | finish =>
          -- what is returned from here was opened inside the call that is looked for
          rw [nesting_finish, nesting_nil] at deep
          obtain ⟨args', resume', init', procedure', inner', rfl, balanced'⟩ :=
            ih init.length (by omega) covered' (by omega) rfl
          have deep' : 0 < nesting init' := by
            have := balanced'.closed
            rw [nesting_append, nesting_call] at deep
            omega
          obtain ⟨args, resume, earlier, procedure, inner, rfl, balanced⟩ :=
            ih init'.length (by simp at hn; omega) (covered'.of_prefix (List.prefix_append _ _)) deep' rfl
          refine ⟨args, resume, earlier, procedure, _, ?_,
            balanced.append (balanced'.bracket procedure' args' resume')⟩
          simp

/-! ## Transfers one after the other -/

namespace Machine

variable {σ : Type}

/-- The transfers can be made on the machine: none retires it, the procedures are known, every return has
a call, and the depth has room for all calls. -/
structure Admits (m : Machine σ) (transfers : List Transfer) : Prop where
  lasting : .retire ∉ transfers
  known : ∀ procedure args resume, .call procedure args resume ∈ transfers →
    ∃ callee, m.program.procedure procedure = .ok callee
  covered : Covered transfers
  room : ∀ before, before <+: transfers → m.thread.warp.toNat + nesting before < UInt32.size

/-- From the first machine to the second so many calls have been opened, and nothing has happened to
those that were open before. -/
structure Opened (m : Machine σ) (depth : Int) (m' : Machine σ) : Prop where
  live : m'.thread.isRetired = false
  program : m'.program = m.program
  frames : ∃ opened, m'.thread.stack = opened ++ m.thread.stack ∧ (opened.length : Int) = depth ∧
    m'.thread.warp.toNat = m.thread.warp.toNat + opened.countP (·.warped)

section
variable {m m₁ : Machine σ} {depth : Int}

theorem Admits.of_prefix {part whole : List Transfer} (h : m.Admits whole) (hp : part <+: whole) :
    m.Admits part where
  lasting mem := h.lasting (hp.subset mem)
  known procedure args resume mem := h.known procedure args resume (hp.subset mem)
  covered := h.covered.of_prefix hp
  room before hb := h.room before (hb.trans hp)

theorem Opened.refl (live : m.thread.isRetired = false) : Opened m 0 m :=
  ⟨live, rfl, [], by simp⟩

theorem Opened.depth_le (h : Opened m depth m₁) : m₁.thread.warp.toNat ≤ m.thread.warp.toNat + depth := by
  obtain ⟨opened, -, length, warp⟩ := h.frames
  have : opened.countP (·.warped) ≤ opened.length := List.countP_le_length
  omega

theorem Opened.closed (h : Opened m 0 m₁) : m₁.thread.stack = m.thread.stack ∧ m₁.thread.warp = m.thread.warp := by
  obtain ⟨opened, stack, length, warp⟩ := h.frames
  have none_open : opened = [] := List.length_eq_zero_iff.mp (by omega)
  rw [none_open] at stack warp
  exact ⟨stack, UInt32.toNat_inj.mp warp⟩

theorem Opened.entered (h : Opened m depth m₁) (callee : Procedure) (args : List Value) (resume : Label)
    (room : m.thread.warp.toNat + (depth + 1) < UInt32.size) :
    Opened m (depth + 1)
      { m₁ with thread := entered m₁.thread callee args resume, pending := some callee.label } := by
  have le := h.depth_le
  -- no more calls are atomic than are open, so there is room for one more
  have next : (m₁.thread.warp + 1).toNat = m₁.thread.warp.toNat + 1 := toNat_add_one (by omega)
  obtain ⟨opened, stack, length, warp⟩ := h.frames
  refine ⟨h.live, h.program, ⟨args, resume, callee.warp || m₁.thread.isWarp⟩ :: opened, ?_, ?_, ?_⟩
  · simp [Machine.entered, stack]
  · simp [length]
  · cases hw : callee.warp || m₁.thread.isWarp with
    | true => simp [Machine.entered, hw, next, warp]; omega
    | false => simp [Machine.entered, hw, warp]

theorem Opened.returned (h : Opened m depth m₁) (deep : 0 < depth) :
    ∃ frame rest, m₁.thread.stack = frame :: rest ∧
      Opened m (depth - 1) { m₁ with thread := returned m₁.thread frame rest, pending := some frame.resume } := by
  obtain ⟨opened, stack, length, warp⟩ := h.frames
  cases opened with
  | nil =>
    simp at length
    omega
  | cons frame opened =>
    refine ⟨frame, opened ++ m.thread.stack, stack, h.live, h.program, opened, rfl, ?_, ?_⟩
    · simp at length
      omega
    · cases hw : frame.warped with
      | true =>
        simp [hw] at warp
        have less := toNat_lessOne (show 0 < m₁.thread.warp.toNat by omega)
        simp [Machine.returned, hw]
        omega
      | false =>
        simp [hw] at warp
        simp [Machine.returned, hw, warp]

theorem Opened.make (h : Opened m depth m₁) {transfer : Transfer} (lasting : transfer ≠ .retire)
    (known : ∀ procedure args resume, transfer = .call procedure args resume →
      ∃ callee, m.program.procedure procedure = .ok callee)
    (covered : 0 ≤ depth + nesting [transfer])
    (room : m.thread.warp.toNat + (depth + nesting [transfer]) < UInt32.size) :
    ∃ m', m₁.perform (make transfer) = (.ok (), m') ∧ Opened m (depth + nesting [transfer]) m' := by
  rw [perform_make h.live]
  cases transfer with
  | jump label =>
    rw [show depth + nesting [.jump label] = depth from Int.add_zero depth]
    exact ⟨_, rfl, h.live, h.program, h.frames⟩
  | jumpLazy label =>
    rw [show depth + nesting [.jumpLazy label] = depth from Int.add_zero depth, made]
    cases m₁.thread.isWarp with
    | true => exact ⟨_, rfl, h.live, h.program, h.frames⟩
    | false => exact ⟨_, rfl, h.live, h.program, h.frames⟩
  | call procedure args resume =>
    obtain ⟨callee, hc⟩ := known procedure args resume rfl
    rw [← h.program] at hc
    rw [made, hc]
    exact ⟨_, rfl, h.entered callee args resume room⟩
  | finish =>
    simp only [nesting_finish, nesting_nil] at covered
    obtain ⟨frame, rest, stack, opened⟩ := h.returned (by omega)
    rw [made, stack]
    exact ⟨_, rfl, opened⟩
  | retire => exact absurd rfl lasting

theorem perform_forM_append {a b : List Transfer} (h : m.perform (a.forM make) = (.ok (), m₁)) :
    m.perform ((a ++ b).forM make) = m₁.perform (b.forM make) := by
  simp only [List.forM_eq_forM, List.forM_append] at h ⊢
  exact perform_bind_ok h _

theorem perform_forM_concat {a : List Transfer} (h : m.perform (a.forM make) = (.ok (), m₁)) (transfer : Transfer) :
    m.perform ((a ++ [transfer]).forM make) = m₁.perform (make transfer) := by
  rw [perform_forM_append h]
  simp

theorem Admits.exists_opened (live : m.thread.isRetired = false) {part : List Transfer} (h : m.Admits part) :
    ∃ m', m.perform (part.forM make) = (.ok (), m') ∧ Opened m (nesting part) m' := by
  induction part using List.reverseRecOn with
  | nil => exact ⟨m, rfl, .refl live⟩
  | append_singleton part transfer ih =>
    obtain ⟨m₁, run, opened⟩ := ih (h.of_prefix (List.prefix_append part [transfer]))
    have covered := h.covered _ List.prefix_rfl
    have room := h.room _ List.prefix_rfl
    rw [nesting_append] at covered room ⊢
    rw [perform_forM_concat run]
    apply opened.make ?_ ?_ covered room
    · rintro rfl
      exact h.lasting (by simp)
    · rintro procedure args resume rfl
      exact h.known procedure args resume (by simp)

theorem Admits.rest {a b : List Transfer} (h : m.Admits (a ++ b)) (opened : Opened m (nesting a) m₁)
    (balanced : Balanced b) : m₁.Admits b where
  lasting mem := h.lasting (List.mem_append_right a mem)
  known procedure args resume mem := by
    rw [opened.program]
    exact h.known procedure args resume (List.mem_append_right a mem)
  covered := balanced.covered
  room before hb := by
    have le := opened.depth_le
    have room := h.room (a ++ before) ((List.prefix_append_right_inj a).mpr hb)
    rw [nesting_append] at room
    omega

theorem Admits.inside (live : m.thread.isRetired = false) {before : List Transfer} (h : m.Admits before)
    {args : List Value} {resume : Label} (inside : Inside before args resume) :
    ∃ m' warped rest, m.perform (before.forM make) = (.ok (), m') ∧ m'.thread.isRetired = false ∧
      m'.thread.stack = ⟨args, resume, warped⟩ :: rest := by
  obtain ⟨earlier, procedure, inner, rfl, balanced⟩ := inside
  obtain ⟨callee, hc⟩ := h.known procedure args resume (by simp)
  rw [List.append_cons] at h ⊢
  have first := h.of_prefix (List.prefix_append _ inner)
  obtain ⟨m₀, run₀, opened₀⟩ := (first.of_prefix (List.prefix_append _ _)).exists_opened live
  have room := first.room _ List.prefix_rfl
  simp only [nesting_append, nesting_call, nesting_nil] at room
  have opened₁ := opened₀.entered callee args resume room
  have run₁ : m.perform ((earlier ++ [Transfer.call procedure args resume]).forM make) = (.ok (),
      { m₀ with thread := Machine.entered m₀.thread callee args resume, pending := some callee.label }) := by
    rw [← opened₀.program] at hc
    rw [perform_forM_concat run₀, perform_make opened₀.live, made, hc]
  -- the rest opens and closes calls above the frame of this one
  have admits := h.rest (by simpa using opened₁) balanced
  obtain ⟨m₂, run₂, opened₂⟩ := admits.exists_opened opened₁.live
  rw [balanced.closed] at opened₂
  exact ⟨m₂, _, _, by rw [perform_forM_append run₁, run₂], opened₂.live, opened₂.closed.1⟩

end

end Machine

/-- A live thread in any calls and at any depth, and a balanced sequence of jumps, lazy jumps, calls of known
procedures and returns for which the depth has room. Every transfer succeeds. Every return has its call,
whose way back is pending after it; inside a call its arguments are read; and in the end the stack and the
depth are what they were. -/
theorem calls_bracket {σ : Type} {m : Machine σ} {transfers : List Transfer} (live : m.thread.isRetired = false)
    (lasting : .retire ∉ transfers)
    (known : ∀ procedure args resume, .call procedure args resume ∈ transfers →
      ∃ callee, m.program.procedure procedure = .ok callee)
    (balanced : Balanced transfers)
    (room : ∀ before, before <+: transfers → m.thread.warp.toNat + nesting before < UInt32.size) :
    let after := fun part : List Transfer => (m.perform (part.forM make)).2
    (∀ part, part <+: transfers → (m.perform (part.forM make)).1 = .ok ()) ∧
      (∀ before, before ++ [.finish] <+: transfers →
        (∃ args resume, Inside before args resume) ∧
        ∀ args resume, Inside before args resume → (after (before ++ [.finish])).pending = some resume) ∧
      (∀ before args resume, before <+: transfers → Inside before args resume →
        (after before).thread.args = args) ∧
      (after transfers).thread.stack = m.thread.stack ∧ (after transfers).thread.warp = m.thread.warp := by
  intro after
  have admits : m.Admits transfers := ⟨lasting, known, balanced.covered, room⟩
  refine ⟨?_, ?_, ?_, ?_⟩
  · intro part hp
    obtain ⟨m', run, -⟩ := (admits.of_prefix hp).exists_opened live
    rw [run]
  · intro before hb
    have shorter : before <+: transfers := (List.prefix_append before [.finish]).trans hb
    refine ⟨?_, ?_⟩
    · have covered := balanced.covered _ hb
      simp only [nesting_append, nesting_finish, nesting_nil] at covered
      exact exists_inside (balanced.covered.of_prefix shorter) (by omega)
    · intro args resume inside
      obtain ⟨m', warped, rest, run, live', stack⟩ := (admits.of_prefix shorter).inside live inside
      show (m.perform ((before ++ [Transfer.finish]).forM make)).2.pending = some resume
      rw [perform_forM_concat run, perform_make live', made, stack]
  · intro before args resume hb inside
    obtain ⟨m', warped, rest, run, -, stack⟩ := (admits.of_prefix hb).inside live inside
    show (m.perform (before.forM make)).2.thread.args = args
    rw [run, Thread.args, stack]
  · obtain ⟨m', run, opened⟩ := admits.exists_opened live
    rw [balanced.closed] at opened
    show (m.perform (transfers.forM make)).2.thread.stack = _ ∧ (m.perform (transfers.forM make)).2.thread.warp = _
    rw [run]
    exact opened.closed

/-- A thread at depth seven inside one call, in a program with one procedure, which is atomic. -/
def deepInside : Machine Unit :=
  let m := start ⟨⟨0⟩, #[], #[⟨"inner", ⟨1⟩, true⟩]⟩ ⟨#[]⟩ ⟨1⟩ 0 .bare []
  { m with thread := { m.thread with stack := [⟨[.bool false], ⟨9⟩, false⟩], warp := 7 } }

theorem calls_bracket_nested :
    let transfers : List Transfer := [.jumpLazy ⟨2⟩, .call ⟨0⟩ [.bool true] ⟨5⟩, .call ⟨0⟩ [] ⟨3⟩, .jumpLazy ⟨1⟩,
      .finish, .jump ⟨4⟩, .finish]
    let after := fun part : List Transfer => (deepInside.perform (part.forM make)).2
    Balanced transfers ∧ (after (transfers.take 5)).pending = some ⟨3⟩ ∧
      (after (transfers.take 6)).thread.args = [.bool true] ∧
      (after transfers).thread.stack = deepInside.thread.stack ∧ (after transfers).thread.warp = 7 := by
  intro transfers after
  have balanced : Balanced transfers := by decide +kernel
  have known : ∀ procedure args resume, .call procedure args resume ∈ transfers →
      ∃ callee, deepInside.program.procedure procedure = .ok callee := by
    intro procedure args resume mem
    simp only [transfers, List.mem_cons, reduceCtorEq, Transfer.call.injEq, List.not_mem_nil, false_or,
      or_false] at mem
    obtain ⟨rfl, -⟩ | ⟨rfl, -⟩ := mem <;> exact ⟨_, rfl⟩
  have room : ∀ before ∈ transfers.inits, (7 : UInt32).toNat + nesting before < UInt32.size := by decide +kernel
  obtain ⟨-, returns, args, stack, warp⟩ := calls_bracket (m := deepInside) rfl (by decide) known balanced
    fun before hb => room before ((List.mem_inits _ _).mpr hb)
  refine ⟨balanced, ?_, ?_, stack, warp⟩
  · exact (returns (transfers.take 4) ⟨_, rfl⟩).2 [] ⟨3⟩ ⟨transfers.take 2, ⟨0⟩, [.jumpLazy ⟨1⟩], rfl, by decide⟩
  · exact args (transfers.take 6) [.bool true] ⟨5⟩ ⟨_, rfl⟩
      ⟨transfers.take 1, ⟨0⟩, [.call ⟨0⟩ [] ⟨3⟩, .jumpLazy ⟨1⟩, .finish, .jump ⟨4⟩], rfl, by decide +kernel⟩

end BlockScript
