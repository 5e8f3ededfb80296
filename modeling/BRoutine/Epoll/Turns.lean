import BRoutine.Epoll.Registration
import BRoutine.Transition

/-!
# Turns of the wheel

When the position reaches a bucket next, whatever merges the way there is cut into. No bucket
is reached before the tasks in it are due: a registration sees to that, and every merge with a
clock that does not go back keeps it, so `keeps_time` holds after any number of turns.
-/

namespace BRoutine.BEpTimer.Turns

/-- A registration of the task `id` with a timeout, its removal, or a merge with the number of
tests of its loop condition after which it is given up. -/
inductive Label where
  | register (id msWant : Nat)
  | remove (id : Nat)
  | merge (now : Reading) (fuel : Nat)

/-- A task is registered while it is in no list, and removed while it is in one. -/
def step (timer : BEpTimer) : Label → Option BEpTimer
  | .register id msWant => if timer.owner id = none then some (timer.register id msWant) else none
  | .remove id => timer.removeSelfSave id
  | .merge now fuel => (newMergeUpdate2Now fuel timer now).map fun (merged, _) => merged

/-- The runs of the wheel `first`. -/
def machine (first : BEpTimer) : Transition.Machine BEpTimer Label where
  start timer := timer = first
  step := step

/-- A clock that does not go back. -/
def Forward (timer : BEpTimer) : Label → Prop
  | .merge now _ => timer.lastCheckTime ≤ now
  | _ => True

/-- What a step does to the wheel. -/
theorem step_cases {timer next : BEpTimer} {label : Label}
    (stepped : step timer label = some next) :
    (∃ id msWant, timer.owner id = none ∧ next = timer.register id msWant) ∨
    (∃ id, timer.removeSelfSave id = some next) ∨
    ∃ now fuel result, label = .merge now fuel ∧ timer.Merges now next result := by
  cases label with
  | register id msWant =>
    simp only [step] at stepped
    split at stepped
    next free => cases stepped; exact .inl ⟨id, msWant, free, rfl⟩
    · cases stepped
  | remove id => exact .inr (.inl ⟨id, stepped⟩)
  | merge now fuel =>
    obtain ⟨⟨merged, result⟩, ran, rfl⟩ := Option.map_eq_some_iff.mp stepped
    exact .inr (.inr ⟨now, fuel, result, rfl, fuel, ran⟩)

/-! ### Any clock -/

/-- What every run keeps, whatever its clock reads. -/
structure Sized (timer : BEpTimer) : Prop where
  size : timer.taskItemBucketSize = 1000 * timeWaitSeconds
  inside : timer.bucketPosNow < timer.taskItemBucketSize
  clock : timer.lastCheckTime < 2 ^ 63

theorem new_sized (made : Reading) : Sized (new made) where
  size := rfl
  inside := by simp [new, timeWaitSeconds]
  clock := made.isLt

variable {timer : BEpTimer}

theorem Sized.small (sized : Sized timer) : timer.taskItemBucketSize < 2 ^ 62 := by
  rw [sized.size]; decide

theorem Sized.merge (sized : Sized timer) {merged : BEpTimer} {result : TaskItemsList TimerTask}
    {now : Reading} (merges : timer.Merges now merged result) : Sized merged := by
  have drained := merges.merged sized.inside
  constructor
  · rw [drained.size]; exact sized.size
  · rw [drained.size, drained.pos]; exact Nat.mod_lt _ (by have := sized.inside; omega)
  · rw [drained.clock]; exact now.isLt

theorem step_sized {next : BEpTimer} {label : Label} (sized : Sized timer)
    (stepped : step timer label = some next) : Sized next := by
  rcases step_cases stepped with ⟨id, msWant, -, rfl⟩ | ⟨id, removed⟩ |
    ⟨now, fuel, result, -, merges⟩
  · exact ⟨sized.size, sized.inside, sized.clock⟩
  · obtain ⟨pos, size⟩ := removeSelfSave_pos removed
    have clock := removeSelfSave_clock removed
    exact ⟨by rw [size]; exact sized.size, by rw [pos, size]; exact sized.inside,
      by rw [clock]; exact sized.clock⟩
  · -- only a merge moves the position, and it reduces it modulo the size
    exact sized.merge merges

/-! ### A clock that does not go back -/

/-- The ticks from the registration of a task until its bucket is reached. -/
def ticks (size : Nat) (task : TimerTask) : Nat :=
  if task.want = 0 then size else min task.want size

/-- The reading at which the position reaches the bucket `index` next. -/
def reachedAt (timer : BEpTimer) (index : Nat) : Nat :=
  timer.lastCheckTime + Ring.ticksTo timer.taskItemBucketSize timer.bucketPosNow index

/-- No bucket is reached before the deadlines of its tasks. No merge drains the first bucket and
no merge that returns drains the last one, and no clock reads 2^63. -/
def InTime (deadline : TimerTask → Nat) (timer : BEpTimer) : Prop :=
  ∀ index, 0 < index → index + 1 < timer.taskItemBucketSize → reachedAt timer index < 2 ^ 63 →
    ∀ task ∈ timer.tasks index, deadline task ≤ reachedAt timer index

theorem new_inTime (deadline : TimerTask → Nat) (made : Reading) :
    InTime deadline (new made) := by
  intro index _ _ _ task member
  simp [tasks, new] at member

/-- A task is registered in the bucket that is reached after its ticks. -/
theorem reachedAt_getBucket (sized : Sized timer) (id msWant : Nat) :
    reachedAt timer (timer.getBucket msWant) = timer.lastCheckTime +
      ticks timer.taskItemBucketSize ⟨id, timer.lastCheckTime, msWant⟩ := by
  have inside := sized.inside
  have bucket : timer.getBucket msWant = timer.getBucket (min msWant timer.taskItemBucketSize) := by
    by_cases far : timer.taskItemBucketSize < msWant
    · simp [getBucket, far, Nat.min_eq_right far.le]
    · rw [Nat.min_eq_left (not_lt.mp far)]
  have slot : timer.getBucket msWant = Ring.ahead timer.taskItemBucketSize timer.bucketPosNow
      (ticks timer.taskItemBucketSize ⟨id, timer.lastCheckTime, msWant⟩) := by
    rw [bucket, getBucket_ahead inside sized.small (Nat.min_le_right _ _), ticks]
    split
    next zero =>
      -- a whole turn leads to the position itself
      have none : msWant = 0 := zero
      simp [none, Ring.ahead]
    · rfl
  rw [reachedAt, slot, Ring.ticksTo_ahead inside]
  · unfold ticks; split <;> omega
  · unfold ticks; split <;> omega

variable {deadline : TimerTask → Nat}

/-- Less time is left after a merge, and no bucket is reached sooner. -/
theorem reachedAt_le (sized : Sized timer) {merged : BEpTimer} {result : TaskItemsList TimerTask}
    {now : Reading} (forward : timer.lastCheckTime ≤ now)
    (merges : timer.Merges now merged result) {index : Nat}
    (short : index < timer.taskItemBucketSize) :
    reachedAt timer index ≤ reachedAt merged index := by
  have drained := merges.merged sized.inside
  have later := Ring.ticksTo_le_add sized.inside short (now - timer.lastCheckTime)
  rw [reachedAt, reachedAt, drained.size, drained.pos, drained.clock,
    targetPos_ahead sized.inside sized.small forward now.isLt]
  omega

theorem InTime.merge (inTime : InTime deadline timer) (sized : Sized timer) {merged : BEpTimer}
    {result : TaskItemsList TimerTask} {now : Reading} (forward : timer.lastCheckTime ≤ now)
    (merges : timer.Merges now merged result) : InTime deadline merged := by
  have drained := merges.merged sized.inside
  intro index positive short reading task member
  rw [drained.size] at short
  have later := reachedAt_le sized forward merges (show index < _ by omega)
  rw [drained.tasks] at member
  split at member
  · cases member
  · -- what is not drained has its bucket reached no sooner than before
    have due := inTime index positive short (by omega) task member
    omega

/-- What a merge returns is due. -/
theorem InTime.returned (inTime : InTime deadline timer) (sized : Sized timer)
    {merged : BEpTimer} {result : TaskItemsList TimerTask} {now : Reading}
    (forward : timer.lastCheckTime ≤ now) (merges : timer.Merges now merged result) :
    ∀ task ∈ result.items, deadline task ≤ now := by
  intro task member
  have drained := merges.merged sized.inside
  obtain ⟨index, later, passed, waits⟩ := (drained.mem_result task).mp member
  have ends := (merges_iff sized.inside).mp ⟨merged, result, merges⟩
  -- the elapsed time has led past the bucket
  have target := targetPos_ahead sized.inside sized.small forward now.isLt
  have reached : reachedAt timer index ≤ now := by
    have ticks := Ring.ticksTo_le_of_passed later (target ▸ passed)
    rw [reachedAt]
    omega
  have due := inTime index (by omega) (by omega) (by have := now.isLt; omega) task waits
  omega

theorem InTime.remove (inTime : InTime deadline timer) {removed : BEpTimer} {id : Nat}
    (returned : timer.removeSelfSave id = some removed) : InTime deadline removed := by
  obtain ⟨pos, size⟩ := removeSelfSave_pos returned
  have clock := removeSelfSave_clock returned
  intro index positive short reading task member
  have same : reachedAt removed index = reachedAt timer index := by
    rw [reachedAt, reachedAt, pos, size, clock]
  rw [size] at short
  rw [same] at reading ⊢
  exact inTime index positive short reading task (removeSelfSave_subset returned member)

/-! ### Runs -/

section deadlines

variable (bounded : ∀ task, deadline task ≤ task.since + ticks (1000 * timeWaitSeconds) task)

include bounded

theorem InTime.register (inTime : InTime deadline timer) (sized : Sized timer) (id msWant : Nat) :
    InTime deadline (timer.register id msWant) := by
  intro index positive short reading task member
  have same : reachedAt (timer.register id msWant) index = reachedAt timer index := rfl
  rw [same] at reading ⊢
  rw [register_tasks, List.mem_append] at member
  rcases member with old | added
  · exact inTime index positive short reading task old
  · split at added
    next here =>
      rw [List.mem_singleton.mp added, here, reachedAt_getBucket sized, sized.size]
      exact bounded _
    · cases added

theorem InTime.step (inTime : InTime deadline timer) (sized : Sized timer) {next : BEpTimer}
    {label : Label} (forward : Forward timer label) (stepped : step timer label = some next) :
    InTime deadline next := by
  rcases step_cases stepped with ⟨id, msWant, -, rfl⟩ | ⟨id, removed⟩ |
    ⟨now, fuel, result, rfl, merges⟩
  · exact inTime.register bounded sized id msWant
  · exact inTime.remove removed
  · exact inTime.merge sized forward merges

/-- The tasks stay in time in every run with a clock that does not go back. -/
theorem InTime.runs {first : BEpTimer} (inTime : InTime deadline first) (sized : Sized first)
    (reached : (machine first).ReachableBy Forward timer) :
    Sized timer ∧ InTime deadline timer :=
  reached.invariant (fun timer => Sized timer ∧ InTime deadline timer)
    (fun _ starts => by cases starts; exact ⟨sized, inTime⟩)
    (fun _ _ _ kept forward stepped =>
      ⟨step_sized kept.1 stepped, kept.2.step bounded kept.1 forward stepped⟩)

end deadlines

/-- The position is as many slots from where it started as milliseconds have passed. -/
structure OnClock (made : Reading) (timer : BEpTimer) : Prop where
  sized : Sized timer
  since : made ≤ timer.lastCheckTime
  pos : timer.bucketPosNow = (timer.lastCheckTime - made) % timer.taskItemBucketSize

theorem OnClock.step {made : Reading} {next : BEpTimer} {label : Label}
    (onClock : OnClock made timer) (forward : Forward timer label)
    (stepped : step timer label = some next) : OnClock made next := by
  have sized := step_sized onClock.sized stepped
  rcases step_cases stepped with ⟨id, msWant, -, rfl⟩ | ⟨id, removed⟩ |
    ⟨now, fuel, result, rfl, merges⟩
  · exact ⟨sized, onClock.since, onClock.pos⟩
  · obtain ⟨pos, size⟩ := removeSelfSave_pos removed
    have clock := removeSelfSave_clock removed
    exact ⟨sized, by rw [clock]; exact onClock.since, by rw [pos, size, clock]; exact onClock.pos⟩
  · have inside := onClock.sized.inside
    have since := onClock.since
    have drained := merges.merged inside
    have forward : timer.lastCheckTime ≤ now := forward
    refine ⟨sized, ?_, ?_⟩
    · rw [drained.clock]; omega
    · -- the ticks since the last merge come on top of those before it
      rw [drained.pos, drained.clock, drained.size,
        targetPos_ahead inside onClock.sized.small forward now.isLt, onClock.pos, Ring.ahead,
        Nat.mod_add_mod]
      congr 1
      omega

/-- With a clock that does not go back, the position is the number of milliseconds since the wheel
was made modulo its size, and a task is returned only by a merge whose reading is at least its
timeout, or a turn of the wheel for a longer timeout and for timeout 0, past the `LastCheckTime`
of its registration. -/
theorem keeps_time (made : Reading) {timer : BEpTimer}
    (reached : (machine (new made)).ReachableBy Forward timer) :
    timer.bucketPosNow < timer.taskItemBucketSize ∧
    (made ≤ timer.lastCheckTime ∧ timer.bucketPosNow ≡ timer.lastCheckTime - made
      [MOD timer.taskItemBucketSize]) ∧
    ∀ (now : Reading) (merged : BEpTimer) (result : TaskItemsList TimerTask),
      timer.lastCheckTime ≤ now → timer.Merges now merged result → ∀ task ∈ result.items,
        task.since + min task.want timer.taskItemBucketSize ≤ now ∧
        (task.want = 0 → task.since + timer.taskItemBucketSize ≤ now) := by
  have onClock : OnClock made timer := reached.invariant (OnClock made)
    (fun _ starts => by cases starts; exact ⟨new_sized made, Nat.le_refl _, by simp [new]⟩)
    (fun _ _ _ onClock forward stepped => onClock.step forward stepped)
  -- the deadline of timeout 0 is a whole turn after the registration
  let deadline (task : TimerTask) : Nat := task.since + ticks (1000 * timeWaitSeconds) task
  have inTime : InTime deadline timer :=
    ((new_inTime deadline made).runs (fun _ => Nat.le_refl _) (new_sized made) reached).2
  refine ⟨onClock.sized.inside, ⟨onClock.since, ?_⟩, ?_⟩
  · rw [onClock.pos]
    exact Nat.mod_modEq _ _
  · intro now merged result forward merges task member
    have due : task.since + ticks (1000 * timeWaitSeconds) task ≤ now :=
      inTime.returned onClock.sized forward merges task member
    rw [ticks] at due
    rw [onClock.sized.size]
    split at due
    next zero => exact ⟨by omega, fun _ => due⟩
    next wants => exact ⟨due, fun zero => absurd zero wants⟩

/-- A task registered for 5 ms at the reading 0 is returned at the reading 6. -/
theorem keeps_time_early : ∃ merged result,
    ((new 0).register 7 5).Merges (6 : Reading) merged result ∧
    (⟨7, 0, 5⟩ : TimerTask) ∈ result.items ∧
    ∀ task ∈ result.items, task.since + min task.want 30000 ≤ 6 := by
  let timer := (new 0).register 7 5
  have reached : (machine (new 0)).ReachableBy Forward timer :=
    .step (a := .register 7 5) (.start rfl) trivial rfl
  obtain ⟨inside, -, returned⟩ := keeps_time 0 reached
  have reading : ((6 : Reading) : Nat) = 6 := rfl
  have target : timer.targetPos (6 : Reading) = 6 := by
    rw [reading]
    simp [timer, targetPos, register, new, timeWaitSeconds]
  have size : timer.taskItemBucketSize = 30000 := rfl
  have pos : timer.bucketPosNow = 0 := rfl
  have ends : timer.targetPos (6 : Reading) + 1 < timer.taskItemBucketSize := by omega
  obtain ⟨merged, result, merges⟩ := (merges_iff inside).mpr (.inl ends)
  have waits : (⟨7, 0, 5⟩ : TimerTask) ∈ timer.tasks 5 := by
    rw [register_tasks]
    simp [getBucket, new, timeWaitSeconds]
  have drained := merges.merged inside
  refine ⟨merged, result, merges, ?_, ?_⟩
  · exact (drained.mem_result _).mpr ⟨5, by omega, by omega, waits⟩
  · intro task member
    exact (returned 6 merged result (Nat.zero_le _) merges task member).1

end BRoutine.BEpTimer.Turns
