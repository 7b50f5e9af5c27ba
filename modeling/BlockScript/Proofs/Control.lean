import BlockScript.Proofs.Ending

/-!
# A block moves control at most once

The thread with its program, the pending label and the notices are the control state of a machine. A
block acts on the world up to its transfer, and nothing runs after that. So a block that fails or falls
off its end leaves the control state alone, whatever else it has done, and one that ends in a transfer
moves it in one of five ways (`block_moves_control_once`).
-/

namespace BlockScript

open Machine

structure Control where
  thread : Thread
  program : Program
  pending : Option Label
  notices : List ThreadId

inductive Shift where
  | jump
  | yield
  | call
  | back
  | retire
deriving DecidableEq

/-- From the first control state to the second there is this shift and nothing else. -/
def Shift.Moves : Shift → Control → Control → Prop
  | .jump, c, c' => ∃ label, c' = { c with pending := some label }
  | .yield, c, c' => c.thread.warp = 0 ∧ ∃ label, c' = { c with thread.fragment := some label }
  | .call, c, c' =>
    ∃ procedure callee args resume, c.program.procedure procedure = .ok callee ∧
      c' = { c with thread := entered c.thread callee args resume, pending := some callee.label }
  | .back, c, c' =>
    ∃ frame rest, c.thread.stack = frame :: rest ∧
      c' = { c with thread := returned c.thread frame rest, pending := some frame.resume }
  | .retire, c, c' =>
    c' = { c with thread := c.thread.markRetired, pending := none, notices := c.notices ++ [c.thread.id] }

def Transfer.shift (t : Thread) : Transfer → Shift
  | .jump _ => .jump
  | .jumpLazy _ => if t.isWarp then .jump else .yield
  | .call .. => .call
  | .finish => if t.stack.isEmpty then .retire else .back
  | .retire => .retire

/-! ## Shifts are told apart by what they leave -/

section
variable {shift other : Shift} {c c' : Control}

theorem Shift.Moves.length_notices (h : shift.Moves c c') :
    c'.notices.length = c.notices.length + if shift = .retire then 1 else 0 := by
  cases shift with
  | jump => obtain ⟨label, rfl⟩ := h; simp
  | yield => obtain ⟨-, label, rfl⟩ := h; simp
  | call => obtain ⟨procedure, callee, args, resume, -, rfl⟩ := h; simp
  | back => obtain ⟨frame, rest, -, rfl⟩ := h; simp
  | retire => cases h; simp

theorem Shift.Moves.length_stack (h : shift.Moves c c') (stays : shift ≠ .retire) :
    c'.thread.stack.length + (if shift = .back then 1 else 0) =
      c.thread.stack.length + if shift = .call then 1 else 0 := by
  cases shift with
  | jump => obtain ⟨label, rfl⟩ := h; simp
  | yield => obtain ⟨-, label, rfl⟩ := h; simp
  | call => obtain ⟨procedure, callee, args, resume, -, rfl⟩ := h; simp [entered]
  | back => obtain ⟨frame, rest, hs, rfl⟩ := h; simp [returned, hs]
  | retire => exact absurd rfl stays

/-- A label that was pending already can be made pending again, and one that was stored can be stored
again. Both look like nothing. -/
theorem unmoved_of_jump_yield (jumps : Shift.jump.Moves c c') (yields : Shift.yield.Moves c c') :
    c' = c ∧ c.pending ≠ none := by
  obtain ⟨label, hj⟩ := jumps
  obtain ⟨-, stored, hy⟩ := yields
  have thread : c'.thread = c.thread := by rw [hj]
  have pending : c'.pending = c.pending := by rw [hy]
  have was : c.pending = some label := by rw [← pending, hj]
  refine ⟨?_, by simp [was]⟩
  rw [hj, ← was]

theorem Shift.Moves.unique (h : shift.Moves c c') (h' : other.Moves c c') :
    other = shift ∨ c' = c ∧ c.pending ≠ none := by
  have notices := h.length_notices.symm.trans h'.length_notices
  have stack := h.length_stack
  have stack' := h'.length_stack
  -- the lengths tell any two shifts apart but a jump and a yield, which keep both of them
  cases shift with
  | jump =>
    cases other with
    | jump => exact .inl rfl
    | yield => exact .inr (unmoved_of_jump_yield h h')
    | _ => grind
  | yield =>
    cases other with
    | jump => exact .inr (unmoved_of_jump_yield h' h)
    | yield => exact .inl rfl
    | _ => grind
  | _ => grind

end

/-! ## Blocks -/

namespace Machine

variable {σ : Type}

def control (m : Machine σ) : Control := ⟨m.thread, m.program, m.pending, m.notices⟩

@[simp] theorem control_withWorld (m : Machine σ) (w : World σ) : (m.withWorld w).control = m.control := rfl

theorem Local.control_eq {α : Type} {x : Exec σ α} (hx : Local x) (m : Machine σ) :
    (m.perform x).2.control = m.control := by
  rw [hx.frame m, control_withWorld]

theorem Made.moves {m m' : Machine σ} {transfer : Transfer} (h : Made m transfer m') :
    (transfer.shift m.thread).Moves m.control m'.control := by
  cases h with
  | jump label => exact ⟨label, rfl⟩
  | atomic label inside =>
    rw [Transfer.shift, if_pos inside]
    exact ⟨label, rfl⟩
  | yield label outside =>
    have depth : m.thread.warp = 0 := by
      simpa [Thread.isWarp, UInt32.pos_iff_ne_zero] using outside
    rw [Transfer.shift, if_neg (by simp [outside])]
    exact ⟨depth, label, rfl⟩
  | call args resume known => exact ⟨_, _, args, resume, known, rfl⟩
  | back hs =>
    rw [Transfer.shift, if_neg (by simp [hs])]
    exact ⟨_, _, hs, rfl⟩
  | unwound hs =>
    rw [Transfer.shift, if_pos (by simp [hs])]
    rfl
  | retire => rfl

end Machine

/-- A block that falls off its end or fails leaves the control state as it was. A block that ends in a
transfer has changed nothing but the world up to there, and then one transfer is made on a live thread:
its shift is the whole change of the control state. No other shift is, unless nothing has changed to be
seen. -/
theorem block_moves_control_once {σ : Type} (m : Machine σ) (body : Block) :
    match m.perform (execBlock body) with
    | (.ok .next, m') => m'.control = m.control
    | (.ok .transferred, m') =>
      m.thread.isRetired = false ∧ ∃ transfer w,
        m.perform (approachBlock body) = (.ok (some transfer), m.withWorld w) ∧
        (m.withWorld w).perform (make transfer) = (.ok (), m') ∧
        (transfer.shift m.thread).Moves m.control m'.control ∧
        ∀ other : Shift, other.Moves m.control m'.control →
          other = transfer.shift m.thread ∨ m'.control = m.control ∧ m.pending ≠ none
    | (.error _, m') => m'.control = m.control := by
  have frame := (approachBlock_local body).frame m
  have kept := (approachBlock_local body).control_eq m
  rcases ha : m.perform (approachBlock body) with ⟨f | _ | transfer, m₁⟩ <;> rw [ha] at frame kept <;>
    simp only at frame kept
  · rw [perform_execBlock_error ha]
    exact kept
  · rw [perform_execBlock_none ha]
    exact kept
  · rw [perform_execBlock_some ha]
    obtain ⟨f, hm⟩ | ⟨live, m', hm, hmade⟩ := make_cases m₁ transfer <;> rw [hm]
    · exact kept
    · have moves := hmade.moves
      rw [frame, withWorld_thread] at live moves
      refine ⟨live, transfer, m₁.world, ?_, ?_, moves, ?_⟩
      · rw [← frame]
      · rw [← frame, hm]
      · intro other hother
        exact moves.unique hother

end BlockScript
