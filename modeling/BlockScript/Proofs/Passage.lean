import BlockScript.Proofs.Trail
import BlockScript.Proofs.Woven
import Mathlib.Logic.Relation

/-!
# What happens inside a step

A step takes up labels, looks up their blocks, lets each block act and make its transfer, and in the end
stores a label or suspends the thread. `Passes` lists these things one by one, and a step is a sequence of
them (`passes_step`). So what each of them keeps is kept by every step, whether it fails or not: the
program and the place of the thread, what the dice show, a sound cache, and one notice for a thread that
retires and none for any other (`step_kept`).
-/

namespace BlockScript

open Relation

namespace Machine

variable {σ : Type}

/-! ## One thing at a time -/

inductive Passes : Machine σ → Machine σ → Prop
  /-- A block acts, up to its transfer, its end or its fault. -/
  | acts (m : Machine σ) (body : Block) : Passes m (m.perform (approachBlock body)).2
  | transfers {m m' : Machine σ} {transfer : Transfer} :
      m.thread.isRetired = false → Made m transfer m' → Passes m m'
  | begins {m : Machine σ} : m.thread.isRetired = false → Passes m m.running
  /-- The pending label is taken up. -/
  | takes (m : Machine σ) : Passes m m.fresh
  | looksUp (m : Machine σ) (label : Label) :
      Passes m { m with cache := ((m.program.block label).run m.cache).2 }
  | stores (m : Machine σ) (label : Label) : Passes m (m.withFragment (some label))
  | suspends {m : Machine σ} : m.thread.isRetired = false → Passes m m.suspended

theorem passes_make (m : Machine σ) (transfer : Transfer) :
    ReflTransGen Passes m (m.perform (make transfer)).2 := by
  obtain ⟨f, hm⟩ | ⟨live, m', hm, hmade⟩ := make_cases m transfer
  · rw [hm]
  · rw [hm]
    exact .single (.transfers live hmade)

theorem passes_execBlock (m : Machine σ) (body : Block) :
    ReflTransGen Passes m (m.perform (execBlock body)).2 := by
  have acted : ReflTransGen Passes m (m.perform (approachBlock body)).2 := .single (.acts m body)
  rcases ha : m.perform (approachBlock body) with ⟨f | _ | transfer, m₁⟩
  · rw [perform_execBlock_error ha]
    rwa [ha] at acted
  · rw [perform_execBlock_none ha]
    rwa [ha] at acted
  · rw [perform_execBlock_some ha]
    rw [ha] at acted
    exact acted.trans (passes_make m₁ transfer)

/-! ## Labels and steps -/

theorem passes_visit (m : Machine σ) (label : Label) : ReflTransGen Passes m (m.visit label).after := by
  have found : ReflTransGen Passes m (m.perform (block label)).2 := by
    rw [perform_block]
    exact .single (.looksUp m label)
  unfold visit
  rcases hb : m.perform (block label) with ⟨f | body, m₁⟩
  · rwa [hb] at found
  · rw [hb] at found
    exact found.trans (passes_execBlock m₁ body)

theorem passes_final (n : Nat) (label : Label) (m : Machine σ) :
    ReflTransGen Passes m (final n label m).after := by
  have first : ReflTransGen Passes m (m.fresh.visit label).after := .head (.takes m) (passes_visit m.fresh label)
  induction n generalizing label m with
  | zero => exact first
  | succ n ih =>
    cases hn : (m.fresh.visit label).next? with
    | none =>
      rw [final_none hn]
      exact first
    | some next =>
      rw [final_some hn]
      exact first.trans (ih next _ (.head (.takes _) (passes_visit _ next)))

theorem passes_settle (m : Machine σ) : ReflTransGen Passes m (m.perform settle).2 := by
  rw [perform_settle]
  cases hr : m.thread.isRetired with
  | true => exact .refl
  | false => exact .single (.suspends hr)

theorem passes_conclude (limit : Option Nat) (v : Visit σ) :
    ReflTransGen Passes v.after (conclude limit v).2 := by
  unfold conclude
  split
  · exact .refl
  · unfold leave
    split
    · exact passes_settle v.after
    · exact .head (.takes _) (.head (.stores _ _) (passes_settle _))
    · exact .refl

theorem passes_step (m : Machine σ) (limit : Option Nat) (fuel : Nat) :
    ReflTransGen Passes m (m.perform (step limit fuel)).2 := by
  obtain ⟨-, hs⟩ | ⟨live, hs⟩ | ⟨entry, live, -, hs⟩ := perform_step_cases m limit fuel
  · rw [hs]
  · rw [hs]
    exact .single (.transfers live .retire)
  · rw [hs]
    exact .head (.begins live) ((passes_final _ entry m.running).trans (passes_conclude limit _))

end Machine

/-! ## What is kept -/

/-- The notice that is due when a thread has become another. -/
def Thread.notice (t t' : Thread) : List ThreadId :=
  if t.isRetired = false ∧ t'.isRetired = true then [t.id] else []

theorem Thread.notice_eq_nil {t t' : Thread} (same : t'.isRetired = t.isRetired) : t.notice t' = [] := by
  rw [notice, same]
  cases t.isRetired with
  | true => simp
  | false => simp

theorem Thread.mem_notice {t t' : Thread} {id : ThreadId} (h : id ∈ t.notice t') : id = t.id := by
  unfold notice at h
  split at h
  · exact List.mem_singleton.mp h
  · cases h

namespace Machine

variable {σ : Type}

structure Kept (m m' : Machine σ) : Prop where
  program : m'.program = m.program
  id : m'.thread.id = m.thread.id
  place : m'.thread.target = m.thread.target
  rolls : m'.dice.roll = m.dice.roll
  cache : m.cache.Sound m.program → m'.cache.Sound m.program
  retired : m.thread.isRetired = true → m'.thread.isRetired = true
  notices : m'.notices = m.notices ++ m.thread.notice m'.thread

theorem Kept.refl (m : Machine σ) : Kept m m := by
  refine ⟨rfl, rfl, rfl, rfl, fun sound => sound, fun hr => hr, ?_⟩
  rw [Thread.notice_eq_nil rfl, List.append_nil]

theorem Kept.trans {m m₁ m₂ : Machine σ} (h : Kept m m₁) (h' : Kept m₁ m₂) : Kept m m₂ := by
  refine ⟨h'.program.trans h.program, h'.id.trans h.id, h'.place.trans h.place, h'.rolls.trans h.rolls, ?_, ?_, ?_⟩
  · intro sound
    have sound₁ := h.cache sound
    rw [← h.program] at sound₁ ⊢
    exact h'.cache sound₁
  · intro hr
    exact h'.retired (h.retired hr)
  · -- whoever has retired stays retired, so of the two notices one at most is given
    rw [h'.notices, h.notices, List.append_assoc]
    congr 1
    simp only [Thread.notice, h.id]
    cases hr : m.thread.isRetired with
    | true =>
      have hr₁ := h.retired hr
      simp [hr₁]
    | false =>
      cases hr₁ : m₁.thread.isRetired with
      | true =>
        have hr₂ := h'.retired hr₁
        simp [hr₂]
      | false => simp

/-- A change of the thread that neither ends nor revives it needs no notice. -/
theorem Kept.of_status {m m' : Machine σ} (program : m'.program = m.program) (id : m'.thread.id = m.thread.id)
    (place : m'.thread.target = m.thread.target) (rolls : m'.dice.roll = m.dice.roll)
    (cache : m.cache.Sound m.program → m'.cache.Sound m.program)
    (status : m'.thread.isRetired = m.thread.isRetired) (notices : m'.notices = m.notices) : Kept m m' := by
  refine ⟨program, id, place, rolls, cache, fun hr => status.trans hr, ?_⟩
  rw [notices, Thread.notice_eq_nil status, List.append_nil]

theorem Made.kept {m m' : Machine σ} {transfer : Transfer} (h : Made m transfer m')
    (live : m.thread.isRetired = false) : Kept m m' := by
  cases h with
  | jump _ | atomic _ _ | yield _ _ | call _ _ _ | back _ => exact .of_status rfl rfl rfl rfl id rfl rfl
  | unwound _ | retire =>
    have ended : m.ended.thread.isRetired = true := rfl
    refine ⟨rfl, rfl, rfl, rfl, id, fun _ => ended, ?_⟩
    rw [Thread.notice, if_pos ⟨live, ended⟩]
    rfl

theorem Passes.kept {m m' : Machine σ} (h : Passes m m') : Kept m m' := by
  cases h with
  | acts body =>
    have frame := (approachBlock_local body).frame m
    have woven : Woven (fun _ => True) True (approachBlock body : Exec σ (Option Transfer)) :=
      approachBlock_woven trivial body fun _ _ _ _ => trivial
    have rolls := woven.rolls m
    rw [frame] at rolls ⊢
    exact .of_status rfl rfl rfl rolls id rfl rfl
  | transfers live hmade => exact hmade.kept live
  | begins live | suspends live => exact .of_status rfl rfl rfl rfl id live.symm rfl
  | takes | stores label => exact .of_status rfl rfl rfl rfl id rfl rfl
  | looksUp label =>
    refine .of_status rfl rfl rfl rfl ?_ rfl rfl
    intro sound
    exact (Program.resolve_sound sound rfl).1

theorem Kept.of_passes {m m' : Machine σ} (h : ReflTransGen Passes m m') : Kept m m' := by
  induction h with
  | refl => exact .refl m
  | tail _ passes ih => exact ih.trans passes.kept

theorem step_kept (m : Machine σ) (limit : Option Nat) (fuel : Nat) : Kept m (m.perform (step limit fuel)).2 :=
  .of_passes (passes_step m limit fuel)

end Machine

end BlockScript
