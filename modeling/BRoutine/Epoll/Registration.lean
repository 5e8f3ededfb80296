import BRoutine.Epoll.Timer

/-!
# Registered tasks

Which bucket a task is linked in, and what each operation of the wheel does to the tasks that are
registered: a registration adds one, `RemoveSelfFromOwnerlink_Save` takes one out, and a merge
hands over in its result exactly the tasks it takes out, each of them once.
-/

namespace BRoutine.BEpTimer

/-- The `owner` fields and the buckets agree, and no bucket links a task twice. -/
structure Linked (timer : BEpTimer) : Prop where
  owner : ∀ id index, timer.owner id = some index ↔ id ∈ (timer.tasks index).map (·.id)
  once : ∀ index, ((timer.tasks index).map (·.id)).Nodup

/-- The ids of the tasks of a list, from head to tail. -/
def ids (list : TaskItemsList TimerTask) : List Nat := list.items.map (·.id)

theorem new_linked (now : Reading) : Linked (new now) where
  owner := by simp [new, tasks]
  once := by simp [new, tasks]

theorem register_owner (timer : BEpTimer) (id msWant : Nat) :
    (timer.register id msWant).owner =
      Function.update timer.owner id (some (timer.getBucket msWant)) := rfl

theorem removeSelfSave_isSome {timer : BEpTimer} {id : Nat} :
    (timer.removeSelfSave id).isSome ↔ (timer.owner id).isSome := by
  unfold removeSelfSave
  cases timer.owner id <;> simp

theorem removeSelfSave_owner {timer removed : BEpTimer} {id : Nat}
    (returned : timer.removeSelfSave id = some removed) :
    removed.owner = Function.update timer.owner id none := by
  unfold removeSelfSave at returned
  split at returned
  · cases returned
  · cases returned; rfl

theorem removeSelfSave_pos {timer removed : BEpTimer} {id : Nat}
    (returned : timer.removeSelfSave id = some removed) :
    removed.bucketPosNow = timer.bucketPosNow ∧
      removed.taskItemBucketSize = timer.taskItemBucketSize := by
  unfold removeSelfSave at returned
  split at returned
  · cases returned
  · cases returned; exact ⟨rfl, rfl⟩

theorem removeSelfSave_clock {timer removed : BEpTimer} {id : Nat}
    (returned : timer.removeSelfSave id = some removed) :
    removed.lastCheckTime = timer.lastCheckTime := by
  unfold removeSelfSave at returned
  split at returned
  · cases returned
  · cases returned; rfl

theorem removeSelfSave_mem {timer removed : BEpTimer} {id index : Nat} {task : TimerTask}
    (returned : timer.removeSelfSave id = some removed) (other : task.id ≠ id) :
    task ∈ removed.tasks index ↔ task ∈ timer.tasks index := by
  unfold removeSelfSave at returned
  split at returned
  · cases returned
  next bucket _ =>
    cases returned
    by_cases same : index = bucket
    · subst same
      simp only [tasks, Function.update_self, TaskItemsList.removeSelf_items]
      exact List.mem_eraseP_of_neg (by simpa using other)
    · simp [tasks, same]

/-- A removal puts no task into a bucket. -/
theorem removeSelfSave_subset {timer removed : BEpTimer} {id index : Nat} {task : TimerTask}
    (returned : timer.removeSelfSave id = some removed) (member : task ∈ removed.tasks index) :
    task ∈ timer.tasks index := by
  unfold removeSelfSave at returned
  split at returned
  · cases returned
  next bucket _ =>
    cases returned
    by_cases same : index = bucket
    · subst same
      simp only [tasks, Function.update_self, TaskItemsList.removeSelf_items] at member
      exact List.mem_of_mem_eraseP member
    · simpa [tasks, same] using member

variable {timer : BEpTimer}

theorem Linked.not_mem (linked : Linked timer) {id : Nat} (free : timer.owner id = none)
    (index : Nat) : id ∉ (timer.tasks index).map (·.id) := by
  intro member
  rw [(linked.owner id index).mpr member] at free
  cases free

theorem Linked.register (linked : Linked timer) {id : Nat} (free : timer.owner id = none)
    (msWant : Nat) : Linked (timer.register id msWant) := by
  -- only the bucket of the new task gets another name
  have bucket : ∀ index, ((timer.register id msWant).tasks index).map (·.id) =
      (timer.tasks index).map (·.id) ++ if index = timer.getBucket msWant then [id] else [] := by
    intro index
    by_cases same : index = timer.getBucket msWant
    · subst same; simp [BEpTimer.register, tasks]
    · simp [BEpTimer.register, tasks, same]
  constructor
  · intro id' index
    rw [bucket, register_owner, List.mem_append]
    by_cases self : id' = id
    · subst self
      have := linked.not_mem free index
      by_cases same : index = timer.getBucket msWant
      · simp [same]
      · have other : timer.getBucket msWant ≠ index := fun eq => same eq.symm
        simp [same, other, this]
    · rw [Function.update_of_ne self, linked.owner]
      split <;> simp [self]
  · intro index
    rw [bucket, List.nodup_append]
    refine ⟨linked.once index, by split <;> simp, ?_⟩
    intro id' member id'' added
    split at added
    · rw [List.mem_singleton.mp added]
      rintro rfl
      exact linked.not_mem free index member
    · simp at added

theorem map_eraseP_id (items : List TimerTask) (id : Nat) :
    (items.eraseP (·.id == id)).map (·.id) = (items.map (·.id)).erase id := by
  induction items with
  | nil => rfl
  | cons task rest ih =>
    by_cases same : task.id = id
    · simp [same]
    · simp [same, ih]

theorem Linked.removeSelfSave (linked : Linked timer) {id : Nat} {removed : BEpTimer}
    (returned : timer.removeSelfSave id = some removed) : Linked removed := by
  have owners := removeSelfSave_owner returned
  unfold BEpTimer.removeSelfSave at returned
  split at returned
  · cases returned
  next index owned =>
    have bucket : ∀ index', (removed.tasks index').map (·.id) =
        ((timer.tasks index').map (·.id)).erase id := by
      intro index'
      cases returned
      by_cases same : index' = index
      · subst same; simp [tasks, map_eraseP_id]
      · -- the task is in its own bucket alone
        have other : id ∉ (timer.tasks index').map (·.id) := by
          intro member
          rw [← linked.owner, owned] at member
          exact same (Option.some.inj member).symm
        rw [List.erase_of_not_mem other]
        simp [tasks, same]
    constructor
    · intro id' index'
      rw [bucket, owners, (linked.once index').mem_erase_iff, ← linked.owner]
      by_cases self : id' = id
      · simp [self]
      · simp [self, Function.update_of_ne]
    · intro index'
      rw [bucket]
      exact (linked.once index').erase id

/-! ### Merges -/

/-- `merged` is `timer` without the tasks that `moved` names, each of them named once. -/
structure TakenOut (timer : BEpTimer) (moved : List Nat) (merged : BEpTimer) : Prop where
  linked : Linked merged
  owner : ∀ id, merged.owner id = if id ∈ moved then none else timer.owner id
  registered : ∀ id ∈ moved, timer.owner id ≠ none
  once : moved.Nodup

theorem Linked.drain (linked : Linked timer) (i : Nat) (result : TaskItemsList TimerTask) :
    TakenOut timer ((timer.tasks i).map (·.id)) (timer.drain i result).1 := by
  have owners : ∀ id, (timer.drain i result).1.owner id =
      if id ∈ (timer.tasks i).map (·.id) then none else timer.owner id := by
    intro id
    simp [BEpTimer.drain, tasks]
  constructor
  · constructor
    · intro id index
      rw [owners, drain_tasks]
      by_cases gone : id ∈ (timer.tasks i).map (·.id)
      · have here := (linked.owner id i).mpr gone
        rw [if_pos gone]
        split
        · simp
        next other =>
          rw [← linked.owner, here]
          -- a drained task has its name in no other bucket
          have ne : i ≠ index := fun same => other same.symm
          simp [ne]
      · rw [if_neg gone, linked.owner]
        split
        next same => subst same; simpa using gone
        · rfl
    · intro index
      rw [drain_tasks]
      split
      · simp
      · exact linked.once index
  · exact owners
  · intro id member
    rw [(linked.owner id i).mpr member]
    simp
  · exact linked.once i

theorem TakenOut.append {merged drained : BEpTimer} {first second : List Nat}
    (front : TakenOut timer first drained) (back : TakenOut drained second merged) :
    TakenOut timer (first ++ second) merged where
  linked := back.linked
  owner id := by
    rw [back.owner, front.owner]
    by_cases later : id ∈ second <;> by_cases earlier : id ∈ first <;> simp [later, earlier]
  registered id member := by
    rcases List.mem_append.mp member with earlier | later
    · exact front.registered id earlier
    · have := back.registered id later
      rw [front.owner] at this
      split at this
      · exact absurd rfl this
      · exact this
  once := by
    rw [List.nodup_append]
    refine ⟨front.once, back.once, ?_⟩
    rintro id earlier _ later rfl
    have := back.registered id later
    rw [front.owner, if_pos earlier] at this
    exact this rfl

/-- A merge returns the tasks that wait in the buckets it drains. -/
theorem Merged.mem_ids {merged : BEpTimer} {nowMs : Nat} {result : TaskItemsList TimerTask}
    (drained : Merged timer nowMs merged result) (id : Nat) :
    id ∈ ids result ↔ ∃ index, timer.bucketPosNow < index ∧ index ≤ timer.targetPos nowMs ∧
      ∃ task ∈ timer.tasks index, task.id = id := by
  simp only [ids, List.mem_map, drained.mem_result]
  constructor
  · rintro ⟨task, ⟨index, low, high, member⟩, rfl⟩
    exact ⟨index, low, high, task, member, rfl⟩
  · rintro ⟨index, low, high, task, member, rfl⟩
    exact ⟨task, ⟨index, low, high, member⟩, rfl⟩

/-- However far it runs, the loop hands over what it takes out of the wheel. -/
theorem mergeLoop_takes {fuel targetPos i : Nat} {merged : BEpTimer}
    {result filled : TaskItemsList TimerTask} (linked : Linked timer)
    (counted : result.itemCount = result.items.length)
    (returned : mergeLoop fuel targetPos i timer result = some (merged, filled)) :
    filled.itemCount = filled.items.length ∧
      ∃ moved, ids filled = ids result ++ moved ∧ TakenOut timer moved merged := by
  induction fuel generalizing i timer result with
  | zero => cases returned
  | succ fuel ih =>
    simp only [mergeLoop] at returned
    split at returned
    · have front := linked.drain i result
      obtain ⟨exact, moved, collected, back⟩ :=
        ih front.linked (TaskItemsList.pushAll2_counts counted) returned
      refine ⟨exact, _, ?_, front.append back⟩
      rw [collected]
      simp [ids, tasks]
    · cases returned
      refine ⟨counted, [], (List.append_nil _).symm, linked, ?_, ?_, List.nodup_nil⟩
      · simp
      · simp

/-- A merge that returns hands over, each once and with an exact `ItemCount`, the tasks it has
taken out of the wheel. -/
theorem Linked.merge {merged : BEpTimer} {result : TaskItemsList TimerTask} {nowMs : Nat}
    (linked : Linked timer) (merges : timer.Merges nowMs merged result) :
    TakenOut timer (ids result) merged ∧ result.itemCount = result.items.length := by
  obtain ⟨fuel, ran⟩ := merges
  obtain ⟨⟨ended, filled⟩, loop, out⟩ := Option.map_eq_some_iff.mp ran
  obtain ⟨counted, moved, collected, taken⟩ := mergeLoop_takes linked rfl loop
  obtain ⟨rfl, rfl⟩ := Prod.mk.inj out
  rw [collected]
  exact ⟨⟨⟨taken.linked.owner, taken.linked.once⟩, taken.owner, taken.registered, taken.once⟩,
    counted⟩

end BRoutine.BEpTimer
