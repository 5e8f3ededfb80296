import BRoutine.Epoll.Turns

/-!
# A clock that steps back

A reading before `LastCheckTime` makes the elapsed time of a merge underflow. 2^64 is no multiple
of the size of the wheel, so the position lands where the reading would have it only when it need
not wrap. `stays_quiet_iff` says which buckets have to be empty, and which tasks due, for no timer
to be fired early, in this merge or a later one.
-/

namespace BRoutine.BEpTimer

open Turns

/-- The slot on which a reading before `LastCheckTime` leaves the position. -/
def landing (timer : BEpTimer) (nowMs : Nat) : Nat :=
  if timer.lastCheckTime - nowMs ≤ timer.bucketPosNow then
    timer.bucketPosNow - (timer.lastCheckTime - nowMs)
  else (2 ^ 64 + timer.bucketPosNow - (timer.lastCheckTime - nowMs)) % timer.taskItemBucketSize

theorem targetPos_back {timer : BEpTimer} (sized : Sized timer) {nowMs : Nat}
    (back : nowMs < timer.lastCheckTime) : timer.targetPos nowMs = landing timer nowMs := by
  have inside := sized.inside
  have small := sized.small
  have clock := sized.clock
  unfold landing
  split
  next near =>
    -- the position need not wrap, and the sum passes 2^64 again
    have plain : (nowMs + 2 ^ 64 - timer.lastCheckTime + timer.bucketPosNow) % 2 ^ 64 =
        timer.bucketPosNow - (timer.lastCheckTime - nowMs) := by omega
    rw [targetPos, plain, Nat.mod_eq_of_lt (by omega)]
  next far =>
    have plain : (nowMs + 2 ^ 64 - timer.lastCheckTime + timer.bucketPosNow) % 2 ^ 64 =
        2 ^ 64 + timer.bucketPosNow - (timer.lastCheckTime - nowMs) := by omega
    rw [targetPos, plain]

/-- Every merge of a run with a clock that does not go back returns only tasks whose timeout, or
a turn of the wheel for a longer one, has elapsed on its readings. -/
def ReturnsDue (deadline : TimerTask → Nat) (first : BEpTimer) : Prop :=
  ∀ later, (Turns.machine first).ReachableBy Forward later →
    ∀ (now : Reading) (merged : BEpTimer) (result : TaskItemsList TimerTask),
      later.lastCheckTime ≤ now → later.Merges now merged result →
      ∀ task ∈ result.items, deadline task ≤ now

/-- A merge just before the bucket is reached and one when it is reached. -/
theorem ReturnsDue.inTime {deadline : TimerTask → Nat} {timer : BEpTimer} (sized : Sized timer)
    (returns : ReturnsDue deadline timer) : InTime deadline timer := by
  intro index positive short reading task member
  have inside := sized.inside
  have ticks_pos := Ring.ticksTo_pos inside index
  obtain ⟨ticks, count⟩ : ∃ ticks,
      Ring.ticksTo timer.taskItemBucketSize timer.bucketPosNow index = ticks + 1 :=
    ⟨_, (Nat.succ_pred_eq_of_pos ticks_pos).symm⟩
  rw [reachedAt, count] at reading ⊢
  have reaches := Ring.ahead_ticksTo inside (show index < timer.taskItemBucketSize by omega)
  rw [count] at reaches
  -- the first merge stops one slot below the bucket
  let before : Reading := ⟨timer.lastCheckTime + ticks, by omega⟩
  have stops : timer.targetPos before + 1 = index := by
    rw [targetPos_ahead inside sized.small (Nat.le_add_right _ _) before.isLt]
    simpa [before] using Ring.ahead_pred positive reaches
  have ends : timer.targetPos before + 1 < timer.taskItemBucketSize := by omega
  obtain ⟨later, result, merges⟩ := (merges_iff inside).mpr (.inl ends)
  have drained := merges.merged inside
  have later_sized := sized.merge merges
  have waits : task ∈ later.tasks index := by
    rw [drained.tasks, if_neg (by omega)]
    exact member
  obtain ⟨fuel, ran⟩ := id merges
  have stepped : Turns.step timer (.merge before fuel) = some later := by
    rw [Turns.step, ran, Option.map_some]
  have allowed : Forward timer (.merge before fuel) :=
    show timer.lastCheckTime ≤ before from Nat.le_add_right _ _
  have reached : (Turns.machine timer).ReachableBy Forward later :=
    .step (.start rfl) allowed stepped
  -- the second merge drains it
  let now : Reading := ⟨timer.lastCheckTime + (ticks + 1), reading⟩
  have forward : later.lastCheckTime ≤ now := by
    rw [drained.clock]; simp only [before, now]; omega
  have target : later.targetPos now = index := by
    have elapsed : (now : Nat) - later.lastCheckTime = 1 := by
      rw [drained.clock]; simp only [before, now]; omega
    rw [targetPos_ahead later_sized.inside later_sized.small forward now.isLt, elapsed,
      drained.pos, drained.size, Ring.ahead, stops, Nat.mod_eq_of_lt (by omega)]
  obtain ⟨merged, result', merges'⟩ := (merges_iff later_sized.inside).mpr
    (.inl (show later.targetPos now + 1 < _ by rw [target, drained.size]; exact short))
  have drained' := merges'.merged later_sized.inside
  apply returns later reached now merged result' forward merges' task
  exact (drained'.mem_result task).mpr ⟨index, by rw [drained.pos]; omega, by omega, waits⟩

/-- In time is what a wheel has to be for no later merge to fire a timer early. -/
theorem returnsDue_iff {deadline : TimerTask → Nat}
    (bounded : ∀ task, deadline task ≤ task.since + ticks (1000 * timeWaitSeconds) task)
    {timer : BEpTimer} (sized : Sized timer) :
    ReturnsDue deadline timer ↔ InTime deadline timer := by
  constructor
  · exact fun returns => returns.inTime sized
  · intro inTime later reached now merged result forward merges
    obtain ⟨later_sized, later_inTime⟩ := inTime.runs bounded sized reached
    exact later_inTime.returned later_sized forward merges

/-- The timeout of a task as the wheel keeps it: at most one turn. -/
def due (size : Nat) (task : TimerTask) : Nat := task.since + min task.want size

theorem due_le (size : Nat) (task : TimerTask) :
    due size task ≤ task.since + ticks size task := by
  unfold due ticks
  split <;> omega

/-- A merge at a reading before `LastCheckTime` returns nothing, and no later merge with a clock
that does not go back returns a task before it is due. -/
def StaysQuiet (timer : BEpTimer) (now : Reading) : Prop :=
  ∃ merged result, timer.Merges now merged result ∧ result.items = [] ∧
    ReturnsDue (due timer.taskItemBucketSize) merged

/-- What a reading before `LastCheckTime` must find: the buckets up to the slot on which it leaves
the position are empty and do not include the last one, and from that slot no bucket that merges
drain is reached before its tasks are due. -/
structure LandsClear (timer : BEpTimer) (now : Reading) : Prop where
  clear : landing timer now ≤ timer.bucketPosNow ∨
    landing timer now + 1 < timer.taskItemBucketSize ∧
      ∀ index, timer.bucketPosNow < index → index ≤ landing timer now → timer.tasks index = []
  inTime : ∀ index, 0 < index → index + 1 < timer.taskItemBucketSize →
    now + Ring.ticksTo timer.taskItemBucketSize (landing timer now) index < 2 ^ 63 →
    ∀ task ∈ timer.tasks index, task.since + min task.want timer.taskItemBucketSize ≤
      now + Ring.ticksTo timer.taskItemBucketSize (landing timer now) index

section merged

variable {timer merged : BEpTimer} {result : TaskItemsList TimerTask} {now : Reading}
  (sized : Sized timer) (back : now < timer.lastCheckTime)
  (merges : timer.Merges now merged result)

include sized back merges

/-- The merge returns nothing exactly when the buckets on its way are empty. -/
theorem result_nil_iff : result.items = [] ↔ ∀ index, timer.bucketPosNow < index →
    index ≤ landing timer now → timer.tasks index = [] := by
  have drained := merges.merged sized.inside
  rw [← targetPos_back sized back]
  constructor
  · intro nothing index low high
    apply List.eq_nil_iff_forall_not_mem.mpr
    intro task waits
    have returned := (drained.mem_result task).mpr ⟨index, low, high, waits⟩
    rw [nothing] at returned
    cases returned
  · intro empty
    apply List.eq_nil_iff_forall_not_mem.mpr
    intro task returned
    obtain ⟨index, low, high, waits⟩ := (drained.mem_result task).mp returned
    rw [empty index low high] at waits
    cases waits

/-- A merge that returns nothing leaves every bucket as it was. -/
theorem tasks_of_nil (nothing : result.items = []) (index : Nat) :
    merged.tasks index = timer.tasks index := by
  have empty := (result_nil_iff sized back merges).mp nothing
  rw [(merges.merged sized.inside).tasks, targetPos_back sized back]
  split
  next inRange => rw [empty index inRange.1 inRange.2]
  next => rfl

theorem reachedAt_back (index : Nat) : reachedAt merged index =
    now + Ring.ticksTo timer.taskItemBucketSize (landing timer now) index := by
  have drained := merges.merged sized.inside
  rw [reachedAt, drained.clock, drained.size, drained.pos, targetPos_back sized back]

end merged

/-- From every state that any readings lead to, a clock that steps back fires no timer exactly
when it lands clear. -/
theorem stays_quiet_iff {made : Reading} {timer : BEpTimer}
    (reached : (Turns.machine (new made)).Reachable timer) (now : Reading)
    (back : now < timer.lastCheckTime) : StaysQuiet timer now ↔ LandsClear timer now := by
  have sized : Sized timer := reached.invariant Sized
    (fun _ starts => by cases starts; exact new_sized made)
    (fun _ _ _ sized _ stepped => step_sized sized stepped)
  have bounded : ∀ task, due timer.taskItemBucketSize task ≤
      task.since + ticks (1000 * timeWaitSeconds) task := by
    rw [sized.size]
    exact due_le _
  -- whatever the history, only the position and the clock decide where the merge stops
  have target := targetPos_back sized back
  constructor
  · -- quiet: the way was clear, and what is left is in time for all later merges
    rintro ⟨merged, result, merges, nothing, returns⟩
    have ends := (merges_iff sized.inside).mp ⟨merged, result, merges⟩
    have empty := (result_nil_iff sized back merges).mp nothing
    have inTime := (returnsDue_iff bounded (sized.merge merges)).mp returns
    rw [target] at ends
    constructor
    · exact ends.symm.imp_right fun short => ⟨short, empty⟩
    · intro index positive short reading task member
      rw [← reachedAt_back sized back merges] at reading ⊢
      rw [← tasks_of_nil sized back merges nothing] at member
      rw [← (merges.merged sized.inside).size] at short
      exact inTime index positive short reading task member
  · -- clear: the merge returns, takes nothing, and leaves the wheel in time
    intro clear
    have ends : timer.targetPos now + 1 < timer.taskItemBucketSize ∨
        timer.targetPos now ≤ timer.bucketPosNow := by
      rw [target]
      exact clear.clear.symm.imp_left And.left
    obtain ⟨merged, result, merges⟩ := (merges_iff sized.inside).mpr ends
    have nothing : result.items = [] := by
      rw [result_nil_iff sized back merges]
      intro index low high
      rcases clear.clear with near | ⟨-, empty⟩
      · omega
      · exact empty index low high
    refine ⟨merged, result, merges, nothing, ?_⟩
    rw [returnsDue_iff bounded (sized.merge merges)]
    intro index positive short reading task member
    rw [reachedAt_back sized back merges] at reading ⊢
    rw [tasks_of_nil sized back merges nothing] at member
    rw [(merges.merged sized.inside).size] at short
    exact clear.inTime index positive short reading task member

/-- Ten milliseconds after the wheel was made the clock steps back by six: the position goes back
with it, to before a task registered for 100 ms. -/
theorem stays_quiet_iff_near : ∃ timer, (Turns.machine (new 0)).Reachable timer ∧
    timer.tasks 110 = [⟨7, 10, 100⟩] ∧ (4 : Reading) < timer.lastCheckTime ∧
    StaysQuiet timer 4 := by
  have sized := new_sized 0
  have reading : ((10 : Reading) : Nat) = 10 ∧ ((4 : Reading) : Nat) = 4 := ⟨rfl, rfl⟩
  have target : (new 0).targetPos (10 : Reading) = 10 := by
    rw [reading.1]
    simp [targetPos, new, timeWaitSeconds]
  have ends : (new 0).targetPos (10 : Reading) + 1 < (new 0).taskItemBucketSize := by
    rw [target]; decide
  obtain ⟨merged, result, merges⟩ := (merges_iff sized.inside).mpr (.inl ends)
  have drained := merges.merged sized.inside
  have empty : ∀ index, merged.tasks index = [] := by
    intro index
    rw [drained.tasks]
    split <;> rfl
  have size : merged.taskItemBucketSize = 30000 := drained.size
  have pos : merged.bucketPosNow = 10 := drained.pos.trans target
  have clock : merged.lastCheckTime = 10 := drained.clock
  have bucket : merged.getBucket 100 = 110 := by simp [getBucket, size, pos]
  -- the task is the only one
  have waits : ∀ index, (merged.register 7 100).tasks index =
      if index = 110 then [⟨7, 10, 100⟩] else [] := by
    intro index
    rw [register_tasks, empty, bucket, clock, List.nil_append]
  obtain ⟨fuel, ran⟩ := id merges
  have stepped : Turns.step (new 0) (.merge 10 fuel) = some merged := by
    rw [Turns.step, ran, Option.map_some]
  have reached_merged : (Turns.machine (new 0)).Reachable merged :=
    .step (a := .merge 10 fuel) (.start rfl) trivial stepped
  have free : merged.owner 7 = none := by
    rw [((new_linked 0).merge merges).1.owner]
    split <;> rfl
  have reached : (Turns.machine (new 0)).Reachable (merged.register 7 100) :=
    .step (a := .register 7 100) reached_merged trivial (if_pos free)
  have back : ((4 : Reading) : Nat) < (merged.register 7 100).lastCheckTime := by
    rw [reading.2]; change 4 < merged.lastCheckTime; omega
  refine ⟨_, reached, by rw [waits]; rfl, back, (stays_quiet_iff reached 4 back).mpr ?_⟩
  have lands : landing (merged.register 7 100) (4 : Reading) = 4 := by
    rw [reading.2]
    simp [landing, register, pos, clock]
  constructor
  · exact .inl (by rw [lands]; change 4 ≤ merged.bucketPosNow; omega)
  · intro index positive short later task member
    rw [waits] at member
    split at member
    next here =>
      rw [List.mem_singleton.mp member, here, lands]
      change 10 + min 100 merged.taskItemBucketSize ≤
        4 + Ring.ticksTo merged.taskItemBucketSize 4 110
      rw [size]
      decide
    · cases member

/-- One millisecond back, the position of a wheel that has not been merged lands on 21615: it
returns a task with a second to wait. -/
theorem stays_quiet_fails : ¬ ∀ (made : Reading) (timer : BEpTimer),
    (Turns.machine (new made)).Reachable timer → ∀ now : Reading, now < timer.lastCheckTime →
    StaysQuiet timer now := by
  intro always
  have reached : (Turns.machine (new 1)).Reachable ((new 1).register 7 1000) :=
    .step (a := .register 7 1000) (.start rfl) trivial rfl
  have back : ((0 : Reading) : Nat) < ((new 1).register 7 1000).lastCheckTime :=
    show (0 : Nat) < 1 by decide
  have sized : Sized ((new 1).register 7 1000) := ⟨rfl, by decide, by decide⟩
  obtain ⟨merged, result, merges, nothing, -⟩ := always 1 _ reached 0 back
  have lands : landing ((new 1).register 7 1000) (0 : Reading) = 21615 := by
    simp [landing, register, new, timeWaitSeconds]
  have empty := (result_nil_iff sized back merges).mp nothing 1000
    (show 0 < 1000 by decide) (by omega)
  rw [register_tasks] at empty
  simp [getBucket, new, timeWaitSeconds] at empty

end BRoutine.BEpTimer
