import Mathlib.Logic.Function.Basic
import BRoutine.Ring
import BRoutine.Task.List

/-!
# bEpTimer

The timer wheel of `b_epoll.cc`. A bucket holds the tasks whose timeout falls on its slot, and
`NewMergeUpdate2Now` moves the buckets between the old position and the new one to its result.
Its loop need not end, so the merge runs on fuel and gives nothing when the fuel runs out.

Times are `unsigned long long` milliseconds: a reading of the clock is a non-negative
`long long`, and the elapsed time is computed modulo 2^64. Every task carries the
`LastCheckTime` at its registration and the timeout it was registered with, which the source
does not store: they say when it is due.
-/

namespace BRoutine

/-- A reading of `getMilliseconds`, a non-negative `long long`. -/
abbrev Reading := Fin (2 ^ 63)

/-- A task registered in the wheel, with the `LastCheckTime` and the timeout at registration. -/
structure TimerTask where
  id : Nat
  since : Nat
  want : Nat
  deriving DecidableEq, Repr

def TimerTask.due (task : TimerTask) : Nat := task.since + task.want

/-- `TIMEWAITSECONDS_S` of `b_common.h`. -/
def timeWaitSeconds : Nat := 30

/-- The wheel. `owner` is the field of the task items: the bucket a task is linked in. -/
structure BEpTimer where
  taskItemBucket : Nat → TaskItemsList TimerTask
  taskItemBucketSize : Nat
  lastCheckTime : Nat
  bucketPosNow : Nat
  owner : Nat → Option Nat

namespace BEpTimer

/-- `bEpTimer::New` when the clock reads `now`. -/
def new (now : Reading) : BEpTimer where
  taskItemBucket := fun _ => TaskItemsList.new
  taskItemBucketSize := 1000 * timeWaitSeconds
  lastCheckTime := now
  bucketPosNow := 0
  owner := fun _ => none

/-- The index of the bucket that `getBucket(ms_want)` returns. -/
def getBucket (timer : BEpTimer) (msWant : Nat) : Nat :=
  let msWant := if msWant > timer.taskItemBucketSize then timer.taskItemBucketSize else msWant
  (timer.bucketPosNow + msWant) % 2 ^ 64 % timer.taskItemBucketSize

/-- `getBucket(ms_want)->pushBack(task)` for the task `id`. -/
def register (timer : BEpTimer) (id msWant : Nat) : BEpTimer :=
  let index := timer.getBucket msWant
  let bucket := (timer.taskItemBucket index).pushBackUnsafe ⟨id, timer.lastCheckTime, msWant⟩
  { timer with
    taskItemBucket := Function.update timer.taskItemBucket index bucket
    owner := Function.update timer.owner id (some index) }

/-- `RemoveSelfFromOwnerlink_Save` of the task `id`, which reads the mutexes of `owner`. -/
def removeSelfSave (timer : BEpTimer) (id : Nat) : Option BEpTimer :=
  match timer.owner id with
  | none => none
  | some index =>
    let bucket := (timer.taskItemBucket index).removeSelf (·.id == id)
    some { timer with
      taskItemBucket := Function.update timer.taskItemBucket index bucket
      owner := Function.update timer.owner id none }

/-- `target_pos` of a merge at the reading `nowMs`. -/
def targetPos (timer : BEpTimer) (nowMs : Nat) : Nat :=
  (nowMs + 2 ^ 64 - timer.lastCheckTime + timer.bucketPosNow) % 2 ^ 64 % timer.taskItemBucketSize

/-- `TaskItemBucket[i]->pushAll2(result)`. -/
def drain (timer : BEpTimer) (i : Nat) (result : TaskItemsList TimerTask) :
    BEpTimer × TaskItemsList TimerTask :=
  let moved := (timer.taskItemBucket i).items
  let (bucket, result) := (timer.taskItemBucket i).pushAll2 result
  ({ timer with
    taskItemBucket := Function.update timer.taskItemBucket i bucket
    owner := fun id => if moved.any (·.id == id) then none else timer.owner id }, result)

/-- The loop of `NewMergeUpdate2Now` from index `i`, with `fuel` tests of its condition. -/
def mergeLoop : Nat → Nat → Nat → BEpTimer → TaskItemsList TimerTask →
    Option (BEpTimer × TaskItemsList TimerTask)
  | 0, _, _, _, _ => none
  | fuel + 1, targetPos, i, timer, result =>
    if i ≤ targetPos then
      let (timer, result) := timer.drain i result
      mergeLoop fuel targetPos ((i + 1) % timer.taskItemBucketSize) timer result
    else some (timer, result)

/-- `NewMergeUpdate2Now` at the reading `nowMs`: the wheel after it and the list it returns. -/
def newMergeUpdate2Now (fuel : Nat) (timer : BEpTimer) (nowMs : Nat) :
    Option (BEpTimer × TaskItemsList TimerTask) :=
  (mergeLoop fuel (timer.targetPos nowMs) (timer.bucketPosNow + 1) timer TaskItemsList.new).map
    fun (merged, result) =>
      ({ merged with bucketPosNow := timer.targetPos nowMs, lastCheckTime := nowMs }, result)

/-- The merge at `nowMs` returns, with the wheel `merged` and the list `result`. -/
def Merges (timer : BEpTimer) (nowMs : Nat) (merged : BEpTimer)
    (result : TaskItemsList TimerTask) : Prop :=
  ∃ fuel, newMergeUpdate2Now fuel timer nowMs = some (merged, result)

/-! ### Slots -/

/-- The tasks of the bucket `index`, from head to tail. -/
def tasks (timer : BEpTimer) (index : Nat) : List TimerTask := (timer.taskItemBucket index).items

theorem register_tasks (timer : BEpTimer) (id msWant index : Nat) :
    (timer.register id msWant).tasks index = timer.tasks index ++
      if index = timer.getBucket msWant then [⟨id, timer.lastCheckTime, msWant⟩] else [] := by
  by_cases same : index = timer.getBucket msWant
  · subst same; simp [register, tasks]
  · simp [register, tasks, same]

/-- The bucket of a timeout of at most one turn is on its slot ahead of the position. -/
theorem getBucket_ahead {timer : BEpTimer}
    (inside : timer.bucketPosNow < timer.taskItemBucketSize)
    (small : timer.taskItemBucketSize < 2 ^ 62) {msWant : Nat}
    (fits : msWant ≤ timer.taskItemBucketSize) : timer.getBucket msWant =
      Ring.ahead timer.taskItemBucketSize timer.bucketPosNow msWant := by
  have plain : (timer.bucketPosNow + msWant) % 2 ^ 64 = timer.bucketPosNow + msWant := by omega
  simp only [getBucket, if_neg (Nat.not_lt.mpr fits), plain, Ring.ahead]

/-- With a clock that does not go back, the target is on the slot of the elapsed time. -/
theorem targetPos_ahead {timer : BEpTimer}
    (inside : timer.bucketPosNow < timer.taskItemBucketSize)
    (small : timer.taskItemBucketSize < 2 ^ 62) {nowMs : Nat}
    (forward : timer.lastCheckTime ≤ nowMs) (bound : nowMs < 2 ^ 63) : timer.targetPos nowMs =
      Ring.ahead timer.taskItemBucketSize timer.bucketPosNow (nowMs - timer.lastCheckTime) := by
  have plain : (nowMs + 2 ^ 64 - timer.lastCheckTime + timer.bucketPosNow) % 2 ^ 64 =
      timer.bucketPosNow + (nowMs - timer.lastCheckTime) := by omega
  rw [targetPos, plain, Ring.ahead]

/-! ### What the loop drains -/

@[simp] theorem drain_size (timer : BEpTimer) (i : Nat) (result : TaskItemsList TimerTask) :
    (timer.drain i result).1.taskItemBucketSize = timer.taskItemBucketSize := rfl

theorem drain_tasks (timer : BEpTimer) (i : Nat) (result : TaskItemsList TimerTask)
    (index : Nat) :
    (timer.drain i result).1.tasks index = if index = i then [] else timer.tasks index := by
  by_cases same : index = i
  · subst same; simp [drain, tasks]
  · simp [drain, tasks, same]

theorem drain_result (timer : BEpTimer) (i : Nat) (result : TaskItemsList TimerTask) :
    (timer.drain i result).2.items = result.items ++ timer.tasks i := by
  simp [drain, tasks]

/-- Below the last slot the loop ends, with every bucket from `i` to `targetPos` emptied into
the result in order. -/
theorem mergeLoop_drains (fuel : Nat) {targetPos i : Nat} (timer : BEpTimer)
    (result : TaskItemsList TimerTask) (short : targetPos + 1 < timer.taskItemBucketSize)
    (start : i ≤ targetPos + 1) (enough : targetPos + 2 ≤ fuel + i) :
    ∃ merged filled, mergeLoop fuel targetPos i timer result = some (merged, filled) ∧
      (∀ index, merged.tasks index =
        if i ≤ index ∧ index ≤ targetPos then [] else timer.tasks index) ∧
      filled.items = result.items ++
        (List.range' i (targetPos + 1 - i)).flatMap timer.tasks ∧
      merged.taskItemBucketSize = timer.taskItemBucketSize := by
  induction fuel generalizing i timer result with
  | zero => omega
  | succ fuel ih =>
    by_cases more : i ≤ targetPos
    · simp only [mergeLoop, more, if_true]
      -- below the last slot the index does not wrap
      have next : (i + 1) % (timer.drain i result).1.taskItemBucketSize = i + 1 := by
        rw [drain_size]; exact Nat.mod_eq_of_lt (by omega)
      obtain ⟨merged, filled, ran, emptied, collected, size⟩ :=
        ih (i := i + 1) (timer.drain i result).1 (timer.drain i result).2
          (by simpa using short) (by omega) (by omega)
      rw [next]
      refine ⟨merged, filled, ran, ?_, ?_, by rw [size, drain_size]⟩
      · intro index
        rw [emptied, drain_tasks]
        by_cases same : index = i
        · subst same; simp [more]
        · by_cases inside : i + 1 ≤ index ∧ index ≤ targetPos
          · rw [if_pos inside, if_pos ⟨by omega, inside.2⟩]
          · rw [if_neg inside, if_neg same, if_neg (by omega)]
      · have split : targetPos + 1 - i = (targetPos + 1 - (i + 1)) + 1 := by omega
        -- the buckets after this one are as they were
        have untouched : (List.range' (i + 1) (targetPos + 1 - (i + 1))).flatMap
            (timer.drain i result).1.tasks =
            (List.range' (i + 1) (targetPos + 1 - (i + 1))).flatMap timer.tasks := by
          apply List.flatMap_congr
          intro index member
          rw [drain_tasks, if_neg]
          have := (List.mem_range'_1.mp member).1
          omega
        rw [collected, untouched, drain_result, split, List.range'_succ, List.flatMap_cons,
          List.append_assoc]
    · simp only [mergeLoop, more, if_false]
      refine ⟨timer, result, rfl, ?_, ?_, rfl⟩
      · intro index; rw [if_neg (by omega)]
      · have none : targetPos + 1 - i = 0 := by omega
        simp [none]

/-- Up to the last slot the loop wraps before its condition can fail. -/
theorem mergeLoop_spins (fuel : Nat) {targetPos i : Nat} {timer : BEpTimer}
    (result : TaskItemsList TimerTask) (last : targetPos + 1 = timer.taskItemBucketSize)
    (inside : i ≤ targetPos) : mergeLoop fuel targetPos i timer result = none := by
  induction fuel generalizing i timer result with
  | zero => rfl
  | succ fuel ih =>
    simp only [mergeLoop, inside, if_true, drain_size]
    -- the next index wraps below `targetPos` again
    apply ih
    · rw [drain_size]; exact last
    · have := Nat.mod_lt (i + 1) (show 0 < timer.taskItemBucketSize by omega)
      omega

theorem mergeLoop_mono {fuel targetPos i : Nat} {timer : BEpTimer}
    {result : TaskItemsList TimerTask} {ended : BEpTimer × TaskItemsList TimerTask}
    (returned : mergeLoop fuel targetPos i timer result = some ended) (extra : Nat) :
    mergeLoop (fuel + extra) targetPos i timer result = some ended := by
  induction fuel generalizing i timer result with
  | zero => simp [mergeLoop] at returned
  | succ fuel ih =>
    rw [Nat.succ_add]
    simp only [mergeLoop] at returned ⊢
    split at returned
    next more => rw [if_pos more]; exact ih returned
    next ends => rw [if_neg ends]; exact returned

/-- A merge that returns has one result, whatever the fuel. -/
theorem Merges.unique {timer merged merged' : BEpTimer} {nowMs : Nat}
    {result result' : TaskItemsList TimerTask} (first : timer.Merges nowMs merged result)
    (second : timer.Merges nowMs merged' result') : merged = merged' ∧ result = result' := by
  obtain ⟨fuel, ran⟩ := first
  obtain ⟨fuel', ran'⟩ := second
  obtain ⟨ended, loop, out⟩ := Option.map_eq_some_iff.mp ran
  obtain ⟨ended', loop', out'⟩ := Option.map_eq_some_iff.mp ran'
  have far := mergeLoop_mono loop fuel'
  have far' := mergeLoop_mono loop' fuel
  rw [Nat.add_comm] at far'
  have same : ended = ended' := Option.some.inj (far.symm.trans far')
  subst same
  exact Prod.mk.inj (out.symm.trans out')

/-- What a merge does to the wheel and puts in its result. -/
structure Merged (timer : BEpTimer) (nowMs : Nat) (merged : BEpTimer)
    (result : TaskItemsList TimerTask) : Prop where
  tasks : ∀ index, merged.tasks index =
    if timer.bucketPosNow < index ∧ index ≤ timer.targetPos nowMs then [] else timer.tasks index
  result : result.items = (List.range' (timer.bucketPosNow + 1)
    (timer.targetPos nowMs - timer.bucketPosNow)).flatMap timer.tasks
  size : merged.taskItemBucketSize = timer.taskItemBucketSize
  pos : merged.bucketPosNow = timer.targetPos nowMs
  clock : merged.lastCheckTime = nowMs

theorem merge_of_loop {fuel : Nat} {timer merged : BEpTimer} {nowMs : Nat}
    {result : TaskItemsList TimerTask}
    (ran : mergeLoop fuel (timer.targetPos nowMs) (timer.bucketPosNow + 1) timer
      TaskItemsList.new = some (merged, result)) :
    newMergeUpdate2Now fuel timer nowMs = some
      ({ merged with bucketPosNow := timer.targetPos nowMs, lastCheckTime := nowMs }, result) := by
  rw [newMergeUpdate2Now, ran, Option.map_some]

/-- The fuel of one test for each bucket is enough for a merge that returns. -/
theorem merge_runs {timer : BEpTimer} {nowMs : Nat} (inside : timer.bucketPosNow <
    timer.taskItemBucketSize) (ends : timer.targetPos nowMs + 1 < timer.taskItemBucketSize ∨
      timer.targetPos nowMs ≤ timer.bucketPosNow) :
    ∃ merged result,
      newMergeUpdate2Now timer.taskItemBucketSize timer nowMs = some (merged, result) ∧
      Merged timer nowMs merged result := by
  by_cases forward : timer.bucketPosNow < timer.targetPos nowMs
  · obtain ⟨merged, filled, ran, emptied, collected, size⟩ :=
      mergeLoop_drains timer.taskItemBucketSize timer TaskItemsList.new
        (ends.resolve_right (by omega)) (show timer.bucketPosNow + 1 ≤ _ by omega) (by omega)
    refine ⟨_, _, merge_of_loop ran, ?_, ?_, size, rfl, rfl⟩
    · intro index
      exact (emptied index).trans (if_congr (by rw [Nat.succ_le_iff]) rfl rfl)
    · rw [collected, TaskItemsList.new_items, List.nil_append]
      congr 2
      omega
  · obtain ⟨fuel, enough⟩ : ∃ fuel, timer.taskItemBucketSize = fuel + 1 :=
      ⟨timer.taskItemBucketSize - 1, by omega⟩
    -- with nothing to drain the first test ends the loop
    have ran : mergeLoop timer.taskItemBucketSize (timer.targetPos nowMs)
        (timer.bucketPosNow + 1) timer TaskItemsList.new = some (timer, TaskItemsList.new) := by
      rw [enough, mergeLoop, if_neg (by omega)]
    refine ⟨_, _, merge_of_loop ran, ?_, ?_, rfl, rfl, rfl⟩
    · intro index; rw [if_neg (by omega)]; rfl
    · have none : timer.targetPos nowMs - timer.bucketPosNow = 0 := by omega
      simp [none]

/-- A merge returns exactly when it does not have to drain the last slot of the array. -/
theorem merges_iff {timer : BEpTimer} {nowMs : Nat}
    (inside : timer.bucketPosNow < timer.taskItemBucketSize) :
    (∃ merged result, timer.Merges nowMs merged result) ↔
      timer.targetPos nowMs + 1 < timer.taskItemBucketSize ∨
        timer.targetPos nowMs ≤ timer.bucketPosNow := by
  constructor
  · rintro ⟨merged, result, fuel, ran⟩
    by_contra spins
    have below : timer.targetPos nowMs < timer.taskItemBucketSize := Nat.mod_lt _ (by omega)
    rw [newMergeUpdate2Now, mergeLoop_spins fuel _ (by omega) (by omega)] at ran
    cases ran
  · intro ends
    obtain ⟨merged, result, ran, -⟩ := merge_runs inside ends
    exact ⟨merged, result, _, ran⟩

/-- The loop of the merge ends after at most `n` turns. -/
def EndsWithin (timer : BEpTimer) (nowMs n : Nat) : Prop :=
  (newMergeUpdate2Now (n + 1) timer nowMs).isSome = true

theorem EndsWithin.merges {timer : BEpTimer} {nowMs n : Nat} (ends : timer.EndsWithin nowMs n) :
    ∃ merged result, timer.Merges nowMs merged result := by
  obtain ⟨⟨merged, result⟩, ran⟩ := Option.isSome_iff_exists.mp ends
  exact ⟨merged, result, n + 1, ran⟩

theorem newMergeUpdate2Now_mono {fuel nowMs : Nat} {timer : BEpTimer}
    {returned : BEpTimer × TaskItemsList TimerTask}
    (ran : newMergeUpdate2Now fuel timer nowMs = some returned) (extra : Nat) :
    newMergeUpdate2Now (fuel + extra) timer nowMs = some returned := by
  obtain ⟨ended, loop, out⟩ := Option.map_eq_some_iff.mp ran
  exact Option.map_eq_some_iff.mpr ⟨ended, mergeLoop_mono loop extra, out⟩

/-- With the position inside the array the loop ends, and then after at most one turn for each
bucket, unless the elapsed time leads from before the last slot of the array to it: there the
index wraps to 0 before it can pass `target_pos`. -/
theorem merge_ends_iff (timer : BEpTimer) (nowMs : Nat)
    (inside : timer.bucketPosNow < timer.taskItemBucketSize) :
    (timer.EndsWithin nowMs timer.taskItemBucketSize ↔
      ¬ (timer.bucketPosNow + 1 < timer.taskItemBucketSize ∧
        (nowMs + 2 ^ 64 - timer.lastCheckTime + timer.bucketPosNow) % 2 ^ 64 %
          timer.taskItemBucketSize = timer.taskItemBucketSize - 1)) ∧
    ((∃ n, timer.EndsWithin nowMs n) → timer.EndsWithin nowMs timer.taskItemBucketSize) := by
  have below : timer.targetPos nowMs < timer.taskItemBucketSize := Nat.mod_lt _ (by omega)
  -- an end after any number of turns is one within a round of the wheel
  have bounded : (∃ merged result, timer.Merges nowMs merged result) →
      timer.EndsWithin nowMs timer.taskItemBucketSize := by
    intro returns
    obtain ⟨merged, result, ran, -⟩ := merge_runs inside ((merges_iff inside).mp returns)
    exact Option.isSome_iff_exists.mpr ⟨_, newMergeUpdate2Now_mono ran 1⟩
  have target : (nowMs + 2 ^ 64 - timer.lastCheckTime + timer.bucketPosNow) % 2 ^ 64 %
      timer.taskItemBucketSize = timer.targetPos nowMs := rfl
  refine ⟨?_, fun ⟨n, ends⟩ => bounded ends.merges⟩
  rw [target]
  constructor
  · intro ends last
    have short := (merges_iff inside).mp ends.merges
    omega
  · intro short
    exact bounded ((merges_iff inside).mpr (by omega))

/-- A wheel that has just been made, one millisecond later. -/
theorem merge_ends_iff_new : (new 0).EndsWithin 1 (new 0).taskItemBucketSize := by
  refine ((merge_ends_iff (new 0) 1 (by decide)).1).mpr fun last => ?_
  have target := last.2
  simp [new, timeWaitSeconds] at target

/-- The same wheel when nobody has merged it for 29999 milliseconds. -/
theorem merge_spins :
    ¬ ∀ (timer : BEpTimer) (nowMs : Nat), timer.bucketPosNow < timer.taskItemBucketSize →
      timer.EndsWithin nowMs timer.taskItemBucketSize := by
  intro ends
  have inside : (new 0).bucketPosNow < (new 0).taskItemBucketSize := by decide
  have target : (new 0).targetPos 29999 = 29999 := by
    simp [targetPos, new, timeWaitSeconds]
  have short := (merges_iff inside).mp (ends (new 0) 29999 inside).merges
  rw [target] at short
  simp [new, timeWaitSeconds] at short

theorem Merges.merged {timer merged : BEpTimer} {nowMs : Nat}
    {result : TaskItemsList TimerTask} (inside : timer.bucketPosNow < timer.taskItemBucketSize)
    (merges : timer.Merges nowMs merged result) : Merged timer nowMs merged result := by
  have ends := (merges_iff inside).mp ⟨merged, result, merges⟩
  obtain ⟨merged', result', ran, drained⟩ := merge_runs inside ends
  obtain ⟨rfl, rfl⟩ := merges.unique ⟨_, ran⟩
  exact drained

theorem Merged.mem_result {timer merged : BEpTimer} {nowMs : Nat}
    {result : TaskItemsList TimerTask} (drained : Merged timer nowMs merged result)
    (task : TimerTask) : task ∈ result.items ↔
      ∃ index, timer.bucketPosNow < index ∧ index ≤ timer.targetPos nowMs ∧
        task ∈ timer.tasks index := by
  rw [drained.result, List.mem_flatMap]
  constructor
  · rintro ⟨index, range, member⟩
    have bounds := List.mem_range'_1.mp range
    exact ⟨index, by omega, by omega, member⟩
  · rintro ⟨index, low, high, member⟩
    exact ⟨index, List.mem_range'_1.mpr ⟨by omega, by omega⟩, member⟩

end BEpTimer

end BRoutine
