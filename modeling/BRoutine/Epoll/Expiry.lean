import BRoutine.Epoll.Timer
import BRoutine.Transition

/-!
# Which merges return the expired tasks

A merge drains the indices after `BucketPosNow` up to the target index. That is the part of the
ring the elapsed time has passed as long as the position stays inside the array. It leaves out
the slots passed by wrapping, the slot of a task registered with timeout 0, and it never returns
when it has to drain the last index. `drains_due_iff` shows that these are the only failures.
-/

namespace BRoutine.BEpTimer

/-- A registration of the task `id` with a timeout, or a merge at a reading of the clock. -/
inductive Label where
  | register (id msWant : Nat)
  | merge (now : Reading)

/-- A task is registered while it is in no list, fresh or returned by an earlier merge. -/
def step (timer : BEpTimer) : Label → Option BEpTimer
  | .register id msWant => if timer.owner id = none then some (timer.register id msWant) else none
  | .merge now =>
    (newMergeUpdate2Now timer.taskItemBucketSize timer now).map fun (merged, _) => merged

def machine : Transition.Machine BEpTimer Label where
  start timer := ∃ now, timer = new now
  step := step

/-- The merge at `nowMs` returns every registered task that is due, and leaves none of them. -/
def DrainsDue (timer : BEpTimer) (nowMs : Nat) : Prop :=
  ∃ merged result, timer.Merges nowMs merged result ∧
    (∀ index < timer.taskItemBucketSize, ∀ task ∈ timer.tasks index,
      task.due ≤ nowMs → task ∈ result.items) ∧
    ∀ index < timer.taskItemBucketSize, ∀ task ∈ merged.tasks index, nowMs < task.due

/-- The range of indices that the merge at `nowMs` drains fits the ring: it does not include the
last index, no task with timeout 0 waits at `BucketPosNow`, and every slot the elapsed time has
passed on the ring is empty or in the range. -/
structure RangeFits (timer : BEpTimer) (nowMs : Nat) : Prop where
  ends : timer.targetPos nowMs + 1 = timer.taskItemBucketSize →
    timer.bucketPosNow = timer.targetPos nowMs
  noZero : ∀ task ∈ timer.tasks timer.bucketPosNow, task.want ≠ 0
  reached : ∀ ticks, 0 < ticks → ticks ≤ nowMs - timer.lastCheckTime →
    ticks ≤ timer.taskItemBucketSize →
    timer.tasks (Ring.ahead timer.taskItemBucketSize timer.bucketPosNow ticks) ≠ [] →
    timer.bucketPosNow < Ring.ahead timer.taskItemBucketSize timer.bucketPosNow ticks ∧
      Ring.ahead timer.taskItemBucketSize timer.bucketPosNow ticks ≤ timer.targetPos nowMs

/-- Timeouts up to the size of the wheel, a clock that does not go back, and merges whose range
fits. -/
def Fitting (timer : BEpTimer) : Label → Prop
  | .register _ msWant => msWant ≤ timer.taskItemBucketSize
  | .merge now => timer.lastCheckTime ≤ now ∧ timer.RangeFits now

/-- Every task waits on the slot of its due time, at most one turn ahead. -/
structure Placed (timer : BEpTimer) : Prop where
  positive : 0 < timer.taskItemBucketSize
  small : timer.taskItemBucketSize < 2 ^ 62
  inside : timer.bucketPosNow < timer.taskItemBucketSize
  clock : timer.lastCheckTime < 2 ^ 63
  registered : ∀ index, ∀ task ∈ timer.tasks index, task.since ≤ timer.lastCheckTime
  ahead : ∀ index, ∀ task ∈ timer.tasks index, timer.lastCheckTime ≤ task.due ∧
    task.due ≤ timer.lastCheckTime + timer.taskItemBucketSize
  zero : ∀ index, ∀ task ∈ timer.tasks index, task.due = timer.lastCheckTime → task.want = 0
  slot : ∀ index, ∀ task ∈ timer.tasks index, index = Ring.ahead timer.taskItemBucketSize
    timer.bucketPosNow (task.due - timer.lastCheckTime)

theorem new_placed (now : Reading) : Placed (new now) where
  positive := by simp [new, timeWaitSeconds]
  small := by simp [new, timeWaitSeconds]
  inside := by simp [new, timeWaitSeconds]
  clock := now.isLt
  registered := fun _ _ member => by simp [tasks, new] at member
  ahead := fun _ _ member => by simp [tasks, new] at member
  zero := fun _ _ member => by simp [tasks, new] at member
  slot := fun _ _ member => by simp [tasks, new] at member

/-- With a clock that does not go back, the target is the slot of the elapsed time. -/
theorem Placed.targetPos_eq {timer : BEpTimer} (placed : Placed timer) {nowMs : Nat}
    (forward : timer.lastCheckTime ≤ nowMs) (bound : nowMs < 2 ^ 63) :
    timer.targetPos nowMs = Ring.ahead timer.taskItemBucketSize timer.bucketPosNow
      (nowMs - timer.lastCheckTime) :=
  targetPos_ahead placed.inside placed.small forward bound

theorem Placed.getBucket_eq {timer : BEpTimer} (placed : Placed timer) {msWant : Nat}
    (fits : msWant ≤ timer.taskItemBucketSize) :
    timer.getBucket msWant =
      Ring.ahead timer.taskItemBucketSize timer.bucketPosNow msWant :=
  getBucket_ahead placed.inside placed.small fits

theorem Placed.register {timer : BEpTimer} (placed : Placed timer) (id : Nat) {msWant : Nat}
    (fits : msWant ≤ timer.taskItemBucketSize) : Placed (timer.register id msWant) := by
  -- every task of the new wheel is an old one or the registered one
  have cases_on : ∀ index, ∀ task ∈ (timer.register id msWant).tasks index,
      task ∈ timer.tasks index ∨
        task = ⟨id, timer.lastCheckTime, msWant⟩ ∧ index = timer.getBucket msWant := by
    intro index task member
    rw [register_tasks, List.mem_append] at member
    refine member.imp_right fun added => ?_
    split at added
    next same => exact ⟨List.mem_singleton.mp added, same⟩
    · simp at added
  constructor
  · exact placed.positive
  · exact placed.small
  · exact placed.inside
  · exact placed.clock
  · intro index task member
    rcases cases_on index task member with old | ⟨rfl, -⟩
    · exact placed.registered index task old
    · exact Nat.le_refl _
  · intro index task member
    rcases cases_on index task member with old | ⟨rfl, -⟩
    · exact placed.ahead index task old
    · simp only [TimerTask.due]
      exact ⟨by simp [BEpTimer.register], by simpa [BEpTimer.register] using fits⟩
  · intro index task member due
    rcases cases_on index task member with old | ⟨rfl, -⟩
    · exact placed.zero index task old due
    · simpa [TimerTask.due, BEpTimer.register] using due
  · intro index task member
    rcases cases_on index task member with old | ⟨rfl, rfl⟩
    · exact placed.slot index task old
    · rw [placed.getBucket_eq fits]
      simp [TimerTask.due, BEpTimer.register]

/-- A due task waits on a slot that the elapsed time has passed, or with timeout 0 at the
position itself. -/
theorem Placed.passed {timer : BEpTimer} (placed : Placed timer) {nowMs index : Nat}
    {task : TimerTask} (member : task ∈ timer.tasks index) (due : task.due ≤ nowMs) :
    (task.want = 0 ∧ index = timer.bucketPosNow) ∨
      ∃ ticks, 0 < ticks ∧ ticks ≤ nowMs - timer.lastCheckTime ∧
        ticks ≤ timer.taskItemBucketSize ∧
        index = Ring.ahead timer.taskItemBucketSize timer.bucketPosNow ticks := by
  have ahead := placed.ahead index task member
  have slot := placed.slot index task member
  by_cases now : task.due = timer.lastCheckTime
  · left
    refine ⟨placed.zero index task member now, ?_⟩
    rw [slot, now, Nat.sub_self, Ring.ahead_zero placed.inside]
  · right
    exact ⟨task.due - timer.lastCheckTime, by omega, by omega, by omega, slot⟩

theorem RangeFits.drainsDue {timer : BEpTimer} {nowMs : Nat} (placed : Placed timer)
    (fits : timer.RangeFits nowMs) : DrainsDue timer nowMs := by
  have below : timer.targetPos nowMs < timer.taskItemBucketSize :=
    Nat.mod_lt _ placed.positive
  have ends : timer.targetPos nowMs + 1 < timer.taskItemBucketSize ∨
      timer.targetPos nowMs ≤ timer.bucketPosNow := by
    by_cases last : timer.targetPos nowMs + 1 = timer.taskItemBucketSize
    · exact .inr (Nat.le_of_eq (fits.ends last).symm)
    · exact .inl (by omega)
  obtain ⟨merged, result, ran, drained⟩ := merge_runs placed.inside ends
  -- every due task is in the range of drained indices
  have inRange : ∀ index, ∀ task ∈ timer.tasks index, task.due ≤ nowMs →
      timer.bucketPosNow < index ∧ index ≤ timer.targetPos nowMs := by
    intro index task member due
    rcases placed.passed member due with ⟨zero, rfl⟩ | ⟨ticks, positive, elapsed, turn, rfl⟩
    · exact absurd zero (fits.noZero task member)
    · exact fits.reached ticks positive elapsed turn (List.ne_nil_of_mem member)
  refine ⟨merged, result, ⟨_, ran⟩, ?_, ?_⟩
  · intro index _ task member due
    have range := inRange index task member due
    exact (drained.mem_result task).mpr ⟨index, range.1, range.2, member⟩
  · intro index _ task member
    rw [drained.tasks] at member
    split at member
    · simp at member
    next outside =>
      by_contra late
      exact outside (inRange index task member (by omega))

theorem DrainsDue.rangeFits {timer : BEpTimer} {nowMs : Nat} (placed : Placed timer)
    (forward : timer.lastCheckTime ≤ nowMs) (drains : DrainsDue timer nowMs) :
    timer.RangeFits nowMs := by
  obtain ⟨merged, result, merges, -, left⟩ := drains
  have ends := (merges_iff placed.inside).mp ⟨merged, result, merges⟩
  have drained := merges.merged placed.inside
  -- a bucket with a due task must have been drained
  have inRange : ∀ index < timer.taskItemBucketSize, ∀ task ∈ timer.tasks index,
      task.due ≤ nowMs → timer.bucketPosNow < index ∧ index ≤ timer.targetPos nowMs := by
    intro index bound task member due
    by_contra outside
    have stays : task ∈ merged.tasks index := by rw [drained.tasks, if_neg outside]; exact member
    have late := left index bound task stays
    omega
  constructor
  · intro last; have := placed.inside; omega
  · intro task member zero
    have since := placed.registered _ task member
    have range := inRange _ placed.inside task member (by simp only [TimerTask.due]; omega)
    omega
  · intro ticks positive elapsed turn occupied
    obtain ⟨task, member⟩ := List.exists_mem_of_ne_nil _ occupied
    refine inRange _ (Ring.ahead_lt placed.positive _ _) task member ?_
    have ahead := placed.ahead _ task member
    have slot := placed.slot _ task member
    -- the task is as many ticks ahead as its slot, or on the slot with timeout 0
    by_cases now : task.due = timer.lastCheckTime
    · omega
    · have same := Ring.ahead_injective placed.inside positive turn (by omega) (by omega) slot
      omega

theorem Placed.merge {timer merged : BEpTimer} {result : TaskItemsList TimerTask} {now : Reading}
    (placed : Placed timer) (forward : timer.lastCheckTime ≤ now)
    (merges : timer.Merges now merged result) (fits : timer.RangeFits now) : Placed merged := by
  have drained := merges.merged placed.inside
  obtain ⟨merged', result', merges', -, left⟩ := fits.drainsDue placed
  obtain ⟨rfl, rfl⟩ := merges.unique merges'
  have old : ∀ index, ∀ task ∈ merged.tasks index, task ∈ timer.tasks index := by
    intro index task member
    rw [drained.tasks] at member
    split at member
    · simp at member
    · exact member
  -- what is left is not due yet, so it is ahead of the new position
  have late : ∀ index, ∀ task ∈ merged.tasks index, now < task.due := by
    intro index task member
    have slot := placed.slot index task (old index task member)
    refine left index ?_ task member
    rw [slot]; exact Ring.ahead_lt placed.positive _ _
  constructor
  · rw [drained.size]; exact placed.positive
  · rw [drained.size]; exact placed.small
  · rw [drained.size, drained.pos]; exact Nat.mod_lt _ placed.positive
  · rw [drained.clock]; exact now.isLt
  · intro index task member
    have since := placed.registered index task (old index task member)
    rw [drained.clock]; omega
  · intro index task member
    have ahead := placed.ahead index task (old index task member)
    have due := late index task member
    rw [drained.clock, drained.size]; omega
  · intro index task member due
    have := late index task member
    rw [drained.clock] at due
    omega
  · intro index task member
    have slot := placed.slot index task (old index task member)
    have due := late index task member
    rw [drained.clock, drained.size, drained.pos, placed.targetPos_eq forward now.isLt,
      Ring.ahead_ahead, slot]
    congr 1
    omega

theorem step_placed {timer next : BEpTimer} {label : Label} (placed : Placed timer)
    (fitting : timer.Fitting label) (stepped : step timer label = some next) : Placed next := by
  cases label with
  | register id msWant =>
    simp only [step] at stepped
    split at stepped
    · cases stepped; exact placed.register id fitting
    · cases stepped
  | merge now =>
    obtain ⟨⟨merged, result⟩, ran, rfl⟩ := Option.map_eq_some_iff.mp stepped
    exact placed.merge fitting.1 ⟨_, ran⟩ fitting.2

/-- After any registrations and any merges whose range fitted, and for any further merge, the
merge returns every due task and leaves none exactly when its range fits as well. -/
theorem drains_due_iff {timer : BEpTimer} (reached : machine.ReachableBy Fitting timer)
    (now : Reading) (forward : timer.lastCheckTime ≤ now) :
    DrainsDue timer now ↔ timer.RangeFits now := by
  have placed : Placed timer := reached.invariant Placed
    (fun _ starts => by obtain ⟨now, rfl⟩ := starts; exact new_placed now)
    (fun _ _ _ placed fitting stepped => step_placed placed fitting stepped)
  exact ⟨fun drains => drains.rangeFits placed forward, fun fits => fits.drainsDue placed⟩

/-- A task registered for 5 ms at the reading 0. -/
theorem drains_due_iff_early :
    machine.Reachable ((new 0).register 7 5) ∧
      (DrainsDue ((new 0).register 7 5) 6 ↔ ((new 0).register 7 5).RangeFits 6) := by
  have reached : machine.ReachableBy Fitting ((new 0).register 7 5) :=
    .step (a := .register 7 5) (.start ⟨0, rfl⟩) (by simp [Fitting, new, timeWaitSeconds]) rfl
  exact ⟨reached.reachable, drains_due_iff reached 6 (Nat.zero_le _)⟩

/-- A whole turn after a registration the merge drains nothing: `target_pos` is the position it
starts from. -/
theorem drains_due_fails :
    ¬ ∀ timer, machine.Reachable timer → ∀ now : Reading, timer.lastCheckTime ≤ now →
      DrainsDue timer now := by
  intro always
  have reached : machine.Reachable ((new 0).register 7 5) :=
    .step (a := .register 7 5) (.start ⟨0, rfl⟩) trivial rfl
  obtain ⟨merged, result, merges, -, left⟩ := always _ reached 30000 (Nat.zero_le _)
  have reading : ((30000 : Reading) : Nat) = 30000 := rfl
  rw [reading] at merges left
  have inside : ((new 0).register 7 5).bucketPosNow < ((new 0).register 7 5).taskItemBucketSize :=
    show 0 < 1000 * timeWaitSeconds by decide
  have drained := merges.merged inside
  have target : ((new 0).register 7 5).targetPos 30000 = 0 := by
    simp [targetPos, register, new, timeWaitSeconds]
  -- the range is empty, so the task stays in its bucket
  have stays : (⟨7, 0, 5⟩ : TimerTask) ∈ merged.tasks 5 := by
    rw [drained.tasks, if_neg (by omega), register_tasks]
    simp [getBucket, new, timeWaitSeconds]
  have late := left 5 (by simp [register, new, timeWaitSeconds]) _ stays
  simp [TimerTask.due] at late

end BRoutine.BEpTimer
