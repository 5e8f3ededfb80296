import BRoutine.Solo.Steps

/-!
# Control returns to the loop

A routine that executes is `occupyRoutine` and has the loop at its back; so each `SwapContext` it
makes goes on in `ProcessBegin` right behind the `SwapContext` there, and what `Del` frees is the
routine that has just finished and has set `IsPendingNeedDelete`.
-/

namespace BRoutine.Solo

variable {s t : State} {place : Nat → Option Key} {r : Nat}

/-- The steps in which a routine calls `SwapContext`. -/
def Label.suspends : Label → Bool
  | .call (.resume _) => true
  | .call .yield => true
  | .call (.wait _) => true
  | .call .poll => true
  | .leave => true
  | _ => false

/-- The step calls `Del` for the routine `r`, which has finished and has set the flag. -/
structure Deletes (s t : State) (r : Nat) : Prop where
  freed : t.freed = s.freed ++ [r]
  flagBy : s.flagBy = some r
  isDone : (s.routine r).isDone = true
  notMain : r ≠ main
  notLoop : r ≠ loopRoutine

/-- What holds of `occupyRoutine` and `pendingRoutine`, and of the next step. -/
structure Paired (s : State) : Prop where
  executes : ∀ r, s.control = .user r ∨ s.control = .leave r →
    s.occupyRoutine = r ∧ s.pendingRoutine = loopRoutine
  loops : s.control = .loop ∨ (∃ task, s.control = .back task) → s.occupyRoutine = loopRoutine
  continues : ∀ label t, step s label = some t → label.suspends = true →
    ∃ task, s.regs loopRoutine = some (.loop task) ∧ t.control = .back task ∧
      t.occupyRoutine = loopRoutine ∧ t.pendingRoutine = s.occupyRoutine
  deletes : ∀ label t, step s label = some t →
    if label = .back ∧ s.isPendingNeedDelete = true then Deletes s t s.pendingRoutine
    else t.freed = s.freed

theorem Sound.executing (sound : Sound s place)
    (executing : s.control = .user r ∨ s.control = .leave r) : Executes s r := by
  have control := sound.control
  rcases executing with user | leave
  · simp only [AtControl, user] at control
    exact control.1
  · simp only [AtControl, leave] at control
    exact control.1

/-- Only what a routine does when it calls `SwapContext` leads behind that of `ProcessBegin`. -/
theorem Sound.continues (sound : Sound s place) {label : Label} (effect : Effect s label t)
    (suspends : label.suspends = true) :
    ∃ task, s.regs loopRoutine = some (.loop task) ∧ t.control = .back task ∧
      t.occupyRoutine = loopRoutine ∧ t.pendingRoutine = s.occupyRoutine := by
  cases effect with
  | resume user loop _ => exact ⟨_, loop, rfl, rfl, (sound.executing (.inl user)).occupy.symm⟩
  | yield user loop => exact ⟨_, loop, rfl, rfl, (sound.executing (.inl user)).occupy.symm⟩
  | wait user loop => exact ⟨_, loop, rfl, rfl, (sound.executing (.inl user)).occupy.symm⟩
  | poll user loop => exact ⟨_, loop, rfl, rfl, (sound.executing (.inl user)).occupy.symm⟩
  | leave leave loop => exact ⟨_, loop, rfl, rfl, (sound.executing (.inr leave)).occupy.symm⟩
  | recycle _ op _ => rcases op with rfl | rfl <;> cases suspends
  | _ => cases suspends

theorem Effect.deletes {label : Label} (effect : Effect s label t) :
    if label = .back ∧ s.isPendingNeedDelete = true then Deletes s t s.pendingRoutine
    else t.freed = s.freed := by
  cases effect with
  | delete _ flag doomed _ =>
    rw [if_pos ⟨rfl, flag⟩]
    exact ⟨rfl, doomed.flagBy, doomed.isDone, doomed.notMain, doomed.notLoop⟩
  | back _ flag => simp [flag]
  | recycle _ op recycled =>
    rw [if_neg (by simp)]
    cases recycled <;> rfl
  | _ => exact (if_neg (by simp)).mpr rfl

/-- In every run of one scheduler, whatever the routines call. -/
theorem returns_to_loop (reached : machine.Reachable s) : Paired s := by
  obtain ⟨place, sound⟩ := sound_of_reachable reached
  constructor
  · intro r executing
    have executes := sound.executing executing
    exact ⟨executes.occupy, executes.pending⟩
  · have control := sound.control
    -- the loop executes before its switch and right behind it
    rintro (loop | ⟨task, back⟩)
    · simp only [AtControl, loop] at control
      exact control.1.occupy
    · simp only [AtControl, back] at control
      exact control.1.occupy
  · intro label t stepped suspends
    exact sound.continues (sound.effect stepped) suspends
  · intro label t stepped
    exact (sound.effect stepped).deletes

/-- Main makes and resumes a routine, which deletes itself. -/
theorem returns_to_loop_deleteSelf : ∃ s, machine.exec initial
    [.create, .turn, .call (.new 1), .call (.resume 2), .back, .turn, .call .deleteSelf] = some s ∧
    s.control = .leave 2 ∧ Paired s := by
  have ran : machine.exec initial [.create, .turn, .call (.new 1), .call (.resume 2), .back, .turn,
    .call .deleteSelf] = some _ := rfl
  exact ⟨_, ran, rfl, returns_to_loop (Transition.Machine.exec_reachable (.start rfl) ran)⟩

end BRoutine.Solo
