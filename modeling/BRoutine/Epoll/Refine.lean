import BRoutine.Epoll.Turns
import BRoutine.Epoll.Wheel
import BRoutine.Simulation

/-!
# The wheel in memory is the wheel of lists

`Wheel` works on the links of its buckets, `BEpTimer` on lists of tasks that say when they were
registered. Every run of the first is one of the second with the same positions, the same clock
and the same tasks in every bucket, in the same order; taking a task out of the list that a merge
has returned is no step of the second. So what holds of the time at which the wheel of lists
returns a task holds of the links in memory.
-/

namespace BRoutine.Wheel

open Steal Steal.Heap

/-- The links of the buckets are the lists of `timer`. -/
structure Refines (s : State Nat) (content : Place → List Nat) (timer : BEpTimer) : Prop where
  placed : Placed s content
  linked : timer.Linked
  size : timer.taskItemBucketSize = s.taskItemBucketSize
  clock : timer.lastCheckTime = s.lastCheckTime
  pos : timer.bucketPosNow = s.bucketPosNow
  tasks : ∀ b, (timer.tasks b).map (·.id) = content (.bucket b)

/-- Links and lists for some contents. -/
def Related (s : State Nat) (timer : BEpTimer) : Prop := ∃ content, Refines s content timer

theorem shaped_unique {I Q : Type} {heap : Heap I Q} {content content' : Q → List I}
    (shaped : heap.Shaped content) (shaped' : heap.Shaped content') : content = content' := by
  funext q
  exact (shaped.linked q).unique (shaped'.linked q)

theorem new_refines (made : Reading) : Refines (new made) (fun _ => []) (BEpTimer.new made) where
  placed := new_placed made
  linked := BEpTimer.new_linked made
  size := rfl
  clock := rfl
  pos := rfl
  tasks := by simp [BEpTimer.new, BEpTimer.tasks]

variable {s : State Nat} {content : Place → List Nat} {timer : BEpTimer}

theorem Refines.getBucket (refines : Refines s content timer) (msWant : Nat) :
    timer.getBucket msWant = s.getBucket msWant := by
  simp only [BEpTimer.getBucket, State.getBucket, refines.size, refines.pos]

theorem Refines.targetPos (refines : Refines s content timer) (nowMs : Nat) :
    timer.targetPos nowMs = s.targetPos nowMs := by
  simp only [BEpTimer.targetPos, State.targetPos, refines.size, refines.pos, refines.clock]

/-- A task that is linked in no bucket is registered nowhere in the lists. -/
theorem Refines.owner_none (refines : Refines s content timer) {i : Nat}
    (absent : ∀ b, i ∉ content (.bucket b)) : timer.owner i = none := by
  rw [Option.eq_none_iff_forall_ne_some]
  intro b owned
  apply absent b
  rw [← refines.tasks]
  exact (refines.linked.owner i b).mp owned

theorem Refines.register (refines : Refines s content timer) {i : Nat} (fresh : i ∉ s.registered)
    (msWant : Nat) :
    timer.owner i = none ∧ ∃ s' content', s.register i msWant = some s' ∧
      Refines s' content' (timer.register i msWant) := by
  have free := refines.owner_none fun b member => fresh (refines.placed.known _ i member)
  obtain ⟨s', registered, placed⟩ := refines.placed.register fresh msWant
  obtain ⟨heap, -, same⟩ := Option.map_eq_some_iff.mp registered
  refine ⟨free, s', _, registered, placed, refines.linked.register free msWant, ?_, ?_, ?_, ?_⟩
  · rw [← same]; exact refines.size
  · rw [← same]; exact refines.clock
  · rw [← same]; exact refines.pos
  · intro b
    rw [BEpTimer.register_tasks, List.map_append, refines.tasks, refines.getBucket]
    by_cases here : b = s.getBucket msWant
    · simp [here]
    · simp [here]

/-- Taking a task out of a bucket is a step of both, out of a result one of the links alone. -/
theorem Refines.remove (refines : Refines s content timer) {i : Nat}
    (linked : s.heap.owner i ≠ none) :
    ∃ s' content' timer', s.remove i = some s' ∧ Refines s' content' timer' ∧
      (timer' = timer ∨ timer.removeSelfSave i = some timer') := by
  obtain ⟨s', content', removed, placed', others⟩ := refines.placed.remove linked
  obtain ⟨p, owns⟩ := Option.ne_none_iff_exists'.mp linked
  have member := (refines.placed.shaped.filed i p).mp owns
  obtain ⟨front, back, items⟩ := List.append_of_mem member
  obtain ⟨heap, unlinked, shaped, -⟩ := refines.placed.shaped.remove items
  have same : s' = { s with heap := heap, removed := Function.update s.removed i true } := by
    rw [State.remove, unlinked] at removed
    exact (Option.some.inj removed).symm
  -- the links that are left say which lists they are
  obtain rfl : content' = Function.update content p (front ++ back) :=
    shaped_unique placed'.shaped (by rw [same]; exact shaped)
  have size : s'.taskItemBucketSize = s.taskItemBucketSize := by rw [same]
  have clock : s'.lastCheckTime = s.lastCheckTime := by rw [same]
  have pos : s'.bucketPosNow = s.bucketPosNow := by rw [same]
  cases p with
  | result k =>
    refine ⟨s', _, timer, removed, ⟨placed', refines.linked, ?_, ?_, ?_, fun b => ?_⟩, .inl rfl⟩
    · rw [size, refines.size]
    · rw [clock, refines.clock]
    · rw [pos, refines.pos]
    · rw [refines.tasks]
      simp
  | bucket b =>
    have named : i ∈ (timer.tasks b).map (·.id) := by rw [refines.tasks]; exact member
    have owned : timer.owner i = some b := (refines.linked.owner i b).mpr named
    obtain ⟨timer', taken⟩ : ∃ timer', timer.removeSelfSave i = some timer' := by
      rw [← Option.isSome_iff_exists, BEpTimer.removeSelfSave_isSome, owned]
      rfl
    obtain ⟨pos', size'⟩ := BEpTimer.removeSelfSave_pos taken
    refine ⟨s', _, timer', removed,
      ⟨placed', refines.linked.removeSelfSave taken, ?_, ?_, ?_, fun b' => ?_⟩, .inr taken⟩
    · rw [size', size, refines.size]
    · rw [BEpTimer.removeSelfSave_clock taken, clock, refines.clock]
    · rw [pos', pos, refines.pos]
    · -- no task in front of it has its name
      have once := refines.linked.once b
      rw [refines.tasks, items] at once
      have later : i ∉ front := fun inside =>
        (List.nodup_append.mp once).2.2 i inside i List.mem_cons_self rfl
      have left : (timer'.tasks b').map (·.id) =
          if b' = b then (content (.bucket b)).erase i else content (.bucket b') := by
        simp only [BEpTimer.removeSelfSave, owned, Option.some.injEq] at taken
        subst taken
        by_cases here : b' = b
        · subst here
          rw [if_pos rfl, ← refines.tasks, ← BEpTimer.map_eraseP_id]
          simp [BEpTimer.tasks]
        · rw [if_neg here, ← refines.tasks]
          simp [BEpTimer.tasks, here]
      rw [left]
      by_cases here : b' = b
      · subst here
        rw [if_pos rfl, Function.update_self, items, List.erase_append_right _ later,
          List.erase_cons_head]
      · simp [here]

/-- What the lists of a merge that returns hold afterwards. -/
theorem Placed.merged {s' : State Nat} {content' : Place → List Nat} {nowMs fuel : Nat}
    (placed : Placed s content) (placed' : Placed s' content')
    (returned : s.merge nowMs fuel = some s') :
    (∀ b, content' (.bucket b) =
      if s.bucketPosNow < b ∧ b ≤ s.targetPos nowMs then [] else content (.bucket b)) ∧
    s'.taskItemBucketSize = s.taskItemBucketSize ∧ s'.bucketPosNow = s.targetPos nowMs ∧
      s'.lastCheckTime = nowMs := by
  obtain ⟨heap, looped, rfl⟩ := Option.map_eq_some_iff.mp returned
  refine ⟨fun b => ?_, rfl, rfl, rfl⟩
  by_cases forward : s.bucketPosNow + 1 ≤ s.targetPos nowMs
  · -- a loop that returns does not have to drain the last bucket
    have short : s.targetPos nowMs + 1 < s.taskItemBucketSize := by
      have inside := targetPos_lt placed.inside nowMs
      by_contra last
      rw [mergeLoop_spins (by omega) forward] at looped
      cases looped
    obtain ⟨shaped, -⟩ := mergeLoop_drains short (by omega) placed.newList
      (fun b => (placed.order b).length_le) looped
    obtain rfl := shaped_unique placed'.shaped shaped
    exact if_congr (by omega) rfl rfl
  · have ended : heap = State.newList s.heap (.result s.merges) := by
      cases fuel with
      | zero => cases looped
      | succ fuel =>
        rw [State.mergeLoop, if_neg forward] at looped
        exact (Option.some.inj looped).symm
    have shaped := placed'.shaped
    simp only [ended] at shaped
    obtain rfl := shaped_unique shaped placed.newList
    rw [if_neg (by omega)]

/-- A merge that returns is a merge of the lists with the same result. -/
theorem Refines.merge (refines : Refines s content timer) {s' : State Nat} {now : Reading}
    {fuel : Nat} (returned : s.merge now fuel = some s') :
    ∃ timer' result content', timer.Merges now timer' result ∧ Refines s' content' timer' ∧
      content' (.result s.merges) = BEpTimer.ids result := by
  obtain ⟨content', placed', returns⟩ := refines.placed.merge returned
  obtain ⟨buckets, size, pos, clock⟩ := refines.placed.merged placed' returned
  have inside : timer.bucketPosNow < timer.taskItemBucketSize := by
    rw [refines.pos, refines.size]
    exact refines.placed.inside
  -- it would not have returned if it had to drain the last bucket
  have ends : timer.targetPos now + 1 < timer.taskItemBucketSize ∨
      timer.targetPos now ≤ timer.bucketPosNow := by
    rw [refines.targetPos, refines.size, refines.pos]
    by_contra last
    have below := targetPos_lt refines.placed.inside now
    obtain ⟨heap, looped, -⟩ := Option.map_eq_some_iff.mp returned
    rw [mergeLoop_spins (by omega) (by omega)] at looped
    cases looped
  obtain ⟨timer', result, merges⟩ := (BEpTimer.merges_iff inside).mpr ends
  have drained := merges.merged inside
  refine ⟨timer', result, content', merges,
    ⟨placed', (refines.linked.merge merges).1.linked, ?_, ?_, ?_, fun b => ?_⟩, ?_⟩
  · rw [drained.size, refines.size, size]
  · rw [drained.clock, clock]
  · rw [drained.pos, refines.targetPos, pos]
  · rw [drained.tasks, buckets, refines.pos, refines.targetPos]
    split
    · rfl
    · exact refines.tasks b
  · rw [returns, Wheel.returns, BEpTimer.ids, drained.result, List.map_flatMap, refines.pos,
      refines.targetPos]
    exact List.flatMap_congr fun b _ => (refines.tasks b).symm

/-! ### Runs -/

/-- A merge at a reading that `fine` allows after the last one. -/
def Reads (fine : Nat → Reading → Prop) (s : State Nat) (label : Label Nat) : Prop :=
  ∀ now fuel, label = .merge now fuel → fine s.lastCheckTime now

/-- The steps of the lists with such readings. -/
def ReadsTimer (fine : Nat → Reading → Prop) (timer : BEpTimer) (label : BEpTimer.Turns.Label) :
    Prop :=
  ∀ now fuel, label = .merge now fuel → fine timer.lastCheckTime now

/-- One step of the links, and the step of the lists beside it. -/
theorem Refines.step {fine : Nat → Reading → Prop} (refines : Refines s content timer)
    {label : Label Nat} {s' : State Nat} (reads : Reads fine s label)
    (stepped : step s label = some s') :
    ∃ content' timer', Refines s' content' timer' ∧ (timer' = timer ∨
      ∃ label', ReadsTimer fine timer label' ∧ BEpTimer.Turns.step timer label' = some timer' ∧
        ∀ i msWant, label' = .register i msWant → i ∉ s.registered) := by
  cases label with
  | register i msWant =>
    simp only [Wheel.step] at stepped
    split at stepped
    next fresh =>
      obtain ⟨free, s₁, content', registered, refines'⟩ := refines.register fresh msWant
      rw [registered] at stepped
      cases stepped
      refine ⟨content', _, refines', .inr ⟨.register i msWant, by simp [ReadsTimer], ?_, ?_⟩⟩
      · rw [BEpTimer.Turns.step, if_pos free]
      · rintro _ _ ⟨⟩
        exact fresh
    · cases stepped
  | remove i =>
    simp only [Wheel.step] at stepped
    split at stepped
    next linked =>
      obtain ⟨s₁, content', timer', removed, refines', same | taken⟩ := refines.remove linked
      · rw [removed] at stepped
        cases stepped
        exact ⟨content', timer', refines', .inl same⟩
      · rw [removed] at stepped
        cases stepped
        exact ⟨content', timer', refines',
          .inr ⟨.remove i, by simp [ReadsTimer], taken, by simp⟩⟩
    · cases stepped
  | merge now fuel =>
    obtain ⟨timer', result, content', ⟨fuel', merges⟩, refines', -⟩ := refines.merge stepped
    refine ⟨content', timer', refines', .inr ⟨.merge now fuel', ?_, ?_, by simp⟩⟩
    · rintro _ _ ⟨⟩
      rw [refines.clock]
      exact reads now fuel rfl
    · rw [BEpTimer.Turns.step, merges, Option.map_some]

theorem simulates (made : Reading) (fine : Nat → Reading → Prop) :
    (machine Nat).Simulates (BEpTimer.Turns.machine (BEpTimer.new made)) (Reads fine)
      (ReadsTimer fine) Related := by
  rintro s timer label s' ⟨content, refines⟩ reads stepped
  obtain ⟨content', timer', refines', same | ⟨label', reads', stepped', -⟩⟩ :=
    refines.step reads stepped
  · exact ⟨timer', ⟨content', refines'⟩, .inl same⟩
  · exact ⟨timer', ⟨content', refines'⟩, .inr ⟨label', reads', stepped'⟩⟩

/-- The links after any run are the lists that some run of the wheel of lists reaches, with the
same readings of the clock. -/
theorem reached_related {made : Reading} {fine : Nat → Reading → Prop}
    (reached : ((machine Nat).startingAt (new made)).ReachableBy (Reads fine) s) :
    ∃ timer, (BEpTimer.Turns.machine (BEpTimer.new made)).ReachableBy (ReadsTimer fine) timer ∧
      Related s timer :=
  (simulates made fine).reachableBy_from (.start rfl) ⟨_, new_refines made⟩ reached

/-- Whatever the clock reads, the links of the buckets after any run are the lists of a wheel of
lists after a run of its own: same size, position and clock, the same tasks in every bucket in the
same order. A merge returns for both or for neither, and then with the same result. -/
theorem refines_lists (made : Reading) (s : State Nat)
    (reached : ((machine Nat).startingAt (new made)).Reachable s) :
    ∃ timer, (BEpTimer.Turns.machine (BEpTimer.new made)).Reachable timer ∧
      ∃ content, Refines s content timer ∧ ∀ now : Reading,
        ((∃ fuel s', step s (.merge now fuel) = some s') ↔
          ∃ timer' result, timer.Merges now timer' result) ∧
        ∀ fuel s', step s (.merge now fuel) = some s' →
          ∃ timer' result content', timer.Merges now timer' result ∧
            Refines s' content' timer' ∧ content' (.result s.merges) = BEpTimer.ids result := by
  obtain ⟨timer, reached', content, refines⟩ :=
    @reached_related s made (fun _ _ => True) (reached.mono fun _ _ _ _ _ _ => trivial)
  refine ⟨timer, reached'.reachable, content, refines, fun now => ⟨⟨?_, ?_⟩, fun fuel s' => ?_⟩⟩
  · rintro ⟨fuel, s', merged⟩
    obtain ⟨timer', result, -, merges, -⟩ := refines.merge merged
    exact ⟨timer', result, merges⟩
  · intro merges
    have inside : timer.bucketPosNow < timer.taskItemBucketSize := by
      rw [refines.pos, refines.size]
      exact refines.placed.inside
    have ends := (BEpTimer.merges_iff inside).mp merges
    rw [refines.targetPos, refines.size, refines.pos] at ends
    have run := Transition.Machine.startingAt_reachableBy (m := machine Nat)
      (.start ⟨made, rfl⟩) reached
    obtain ⟨fuel, returned⟩ := (merge_returns_iff run now).mpr ends
    exact ⟨fuel, Option.isSome_iff_exists.mp returned⟩
  · exact refines.merge

/-- Two tasks in one bucket, of which one is removed and one is returned. -/
theorem refines_lists_oneLeft :
    ∃ s timer, ((machine Nat).startingAt (new 0)).exec (new 0) oneLeft = some s ∧
      (BEpTimer.Turns.machine (BEpTimer.new 0)).Reachable timer ∧ Related s timer := by
  obtain ⟨s, ran⟩ : ∃ s, ((machine Nat).startingAt (new 0)).exec (new 0) oneLeft = some s :=
    ⟨_, rfl⟩
  obtain ⟨timer, reached, content, refines, -⟩ :=
    refines_lists 0 s (Transition.Machine.exec_reachable (.start rfl) ran)
  exact ⟨s, timer, ran, reached, content, refines⟩

/-! ### The time of a task in memory -/

/-- The task `i` is in the lists with the time and the timeout of its registration. -/
def Tagged (i since want : Nat) (timer : BEpTimer) : Prop :=
  ∀ b, ∀ task ∈ timer.tasks b, task.id = i → task.since = since ∧ task.want = want

theorem Tagged.step {i since want : Nat} {timer' : BEpTimer} {label : BEpTimer.Turns.Label}
    (tagged : Tagged i since want timer)
    (inside : timer.bucketPosNow < timer.taskItemBucketSize)
    (other : ∀ j msWant, label = .register j msWant → j ≠ i)
    (stepped : BEpTimer.Turns.step timer label = some timer') : Tagged i since want timer' := by
  intro b task member mine
  apply tagged b task _ mine
  cases label with
  | register j msWant =>
    simp only [BEpTimer.Turns.step] at stepped
    split at stepped
    · cases stepped
      rw [BEpTimer.register_tasks, List.mem_append] at member
      rcases member with old | added
      · exact old
      · split at added
        · rw [List.mem_singleton.mp added] at mine
          exact absurd mine (other j msWant rfl)
        · cases added
    · cases stepped
  | remove j => exact BEpTimer.removeSelfSave_subset stepped member
  | merge now fuel =>
    obtain ⟨⟨merged, result⟩, ran, rfl⟩ := Option.map_eq_some_iff.mp stepped
    have merges : timer.Merges now merged result := ⟨fuel, ran⟩
    rw [(merges.merged inside).tasks] at member
    split at member
    · cases member
    · exact member

theorem registered_step {label : Label Nat} {s' : State Nat} (stepped : step s label = some s')
    {i : Nat} (known : i ∈ s.registered) : i ∈ s'.registered := by
  cases label with
  | register j msWant =>
    simp only [Wheel.step] at stepped
    split at stepped
    · obtain ⟨heap, -, rfl⟩ := Option.map_eq_some_iff.mp stepped
      exact List.mem_append_left _ known
    · cases stepped
  | remove j =>
    simp only [Wheel.step] at stepped
    split at stepped
    · obtain ⟨⟨-, heap⟩, -, rfl⟩ := Option.map_eq_some_iff.mp stepped
      exact known
    · cases stepped
  | merge now fuel =>
    obtain ⟨heap, -, rfl⟩ := Option.map_eq_some_iff.mp stepped
    exact known

/-- The relation with the time of one task that has been registered. -/
structure Timed (i since want : Nat) (s : State Nat) (timer : BEpTimer) : Prop where
  related : Related s timer
  known : i ∈ s.registered
  tagged : Tagged i since want timer

theorem simulates_timed (made : Reading) (fine : Nat → Reading → Prop) (i since want : Nat) :
    (machine Nat).Simulates (BEpTimer.Turns.machine (BEpTimer.new made)) (Reads fine)
      (ReadsTimer fine) (Timed i since want) := by
  rintro s timer label s' ⟨⟨content, refines⟩, known, tagged⟩ reads stepped
  have known' := registered_step stepped known
  obtain ⟨content', timer', refines', same | ⟨label', reads', stepped', fresh⟩⟩ :=
    refines.step reads stepped
  · exact ⟨timer', ⟨⟨content', refines'⟩, known', same ▸ tagged⟩, .inl same⟩
  · have inside : timer.bucketPosNow < timer.taskItemBucketSize := by
      rw [refines.pos, refines.size]
      exact refines.placed.inside
    -- a task that has been registered is not registered again
    have other : ∀ j msWant, label' = .register j msWant → j ≠ i := by
      rintro j msWant same rfl
      exact fresh j msWant same known
    exact ⟨timer', ⟨⟨content', refines'⟩, known', tagged.step inside other stepped'⟩,
      .inr ⟨label', reads', stepped'⟩⟩

/-- A registration in memory is one of the lists too, which from then on have its time. -/
theorem Refines.register_timed (refines : Refines s content timer) {i msWant : Nat}
    {s' : State Nat} (registered : Wheel.step s (.register i msWant) = some s') :
    BEpTimer.Turns.step timer (.register i msWant) = some (timer.register i msWant) ∧
      Timed i s.lastCheckTime msWant s' (timer.register i msWant) := by
  have fresh : i ∉ s.registered := by
    intro known
    simp [Wheel.step, known] at registered
  obtain ⟨free, s₁, content', same, refines'⟩ := refines.register fresh msWant
  obtain rfl : s₁ = s' := by simpa [Wheel.step, fresh, same] using registered
  refine ⟨by rw [BEpTimer.Turns.step, if_pos free], ⟨content', refines'⟩, ?_, ?_⟩
  · obtain ⟨heap, -, rfl⟩ := Option.map_eq_some_iff.mp same
    exact List.mem_append_right _ (List.mem_singleton_self i)
  · intro b task member mine
    rw [BEpTimer.register_tasks, List.mem_append] at member
    rcases member with old | added
    · -- it was in no bucket before
      have named := List.mem_map_of_mem (f := (·.id)) old
      simp only [mine] at named
      exact absurd named (refines.linked.not_mem free b)
    · split at added
      · rw [List.mem_singleton.mp added]
        exact ⟨refines.clock, rfl⟩
      · cases added

/-- A clock that does not go back. -/
def Forward : State Nat → Label Nat → Prop := Reads fun last now => last ≤ now

theorem forward_lists {made : Reading}
    (reached : (BEpTimer.Turns.machine (BEpTimer.new made)).ReachableBy
      (ReadsTimer fun last now => last ≤ now) timer) :
    (BEpTimer.Turns.machine (BEpTimer.new made)).ReachableBy BEpTimer.Turns.Forward timer := by
  refine reached.mono fun timer label reads => ?_
  cases label with
  | merge now fuel => exact reads now fuel rfl
  | register i msWant => trivial
  | remove i => trivial

/-- What a merge in memory returns has waited its ticks. -/
theorem Timed.due {made now : Reading} {i since want fuel : Nat} {s' : State Nat}
    (timed : Timed i since want s timer)
    (reached :
      (BEpTimer.Turns.machine (BEpTimer.new made)).ReachableBy BEpTimer.Turns.Forward timer)
    (forward : s.lastCheckTime ≤ now) (merged : step s (.merge now fuel) = some s')
    (returned : s'.heap.owner i = some (.result s.merges)) :
    since + BEpTimer.Turns.ticks (1000 * timeWaitSeconds) ⟨i, since, want⟩ ≤ now := by
  obtain ⟨content, refines⟩ := timed.related
  obtain ⟨timer', result, content', merges, refines', results⟩ := refines.merge merged
  have inside := (refines'.placed.shaped.filed i _).mp returned
  rw [results] at inside
  obtain ⟨task, member, mine⟩ := List.mem_map.mp inside
  -- the deadline of timeout 0 is a whole turn after the registration
  let deadline (task : TimerTask) : Nat :=
    task.since + BEpTimer.Turns.ticks (1000 * timeWaitSeconds) task
  obtain ⟨sized, inTime⟩ := (BEpTimer.Turns.new_inTime deadline made).runs
    (fun _ => Nat.le_refl _) (BEpTimer.Turns.new_sized made) reached
  have due : deadline task ≤ now :=
    inTime.returned sized (by rw [refines.clock]; exact forward) merges task member
  obtain ⟨b, -, -, there⟩ := ((merges.merged sized.inside).mem_result task).mp member
  obtain ⟨since_eq, want_eq⟩ := timed.tagged b task there mine
  simpa only [deadline, BEpTimer.Turns.ticks, since_eq, want_eq] using due

/-- In memory: take any run of the wheel with a clock that does not go back, a registration in it,
and any such run from there on. A merge that then puts the task into its result reads at least
the timeout, or a whole turn for a longer timeout and for 0, past the last reading before the
registration. -/
theorem returns_in_time (made now : Reading) (before after s s' : State Nat) (i msWant fuel : Nat)
    (reached : ((machine Nat).startingAt (new made)).ReachableBy Forward before)
    (registered : step before (.register i msWant) = some after)
    (later : ((machine Nat).startingAt after).ReachableBy Forward s)
    (forward : s.lastCheckTime ≤ now) (merged : step s (.merge now fuel) = some s')
    (returned : s'.heap.owner i = some (.result s.merges)) :
    before.lastCheckTime + min msWant before.taskItemBucketSize ≤ now ∧
      (msWant = 0 → before.lastCheckTime + before.taskItemBucketSize ≤ now) := by
  obtain ⟨timer, reached', content, refines⟩ := reached_related reached
  obtain ⟨stepped, timed⟩ := refines.register_timed registered
  obtain ⟨timer', reached₁, timed'⟩ := (simulates_timed made _ i _ msWant).reachableBy_from
    (.step (a := .register i msWant) reached' (by intro now fuel same; cases same) stepped)
    timed later
  have due := timed'.due (forward_lists reached₁) forward merged returned
  have sized := (forward_lists reached').invariant BEpTimer.Turns.Sized
    (fun _ starts => by cases starts; exact BEpTimer.Turns.new_sized made)
    fun _ _ _ sized _ stepped => BEpTimer.Turns.step_sized sized stepped
  rw [← refines.size, sized.size]
  rw [BEpTimer.Turns.ticks] at due
  split at due
  next zero => exact ⟨by omega, fun _ => due⟩
  next wants => exact ⟨due, fun zero => absurd zero wants⟩

/-- The task 7 is registered for 3 ms at the reading 0 and returned by the merge at 4. -/
theorem returns_in_time_early :
    ∃ s s' : State Nat, step (new 0) (.register 7 3) = some s ∧
      step s (.merge ⟨4, by decide⟩ 6) = some s' ∧ s'.heap.owner 7 = some (.result 0) ∧
      (0 + min 3 30000 ≤ 4 ∧ (3 = 0 → 0 + 30000 ≤ 4)) := by
  obtain ⟨s, registered⟩ : ∃ s, step (new 0) (.register 7 3) = some s := ⟨_, rfl⟩
  obtain ⟨s', merged⟩ : ∃ s', step s (.merge ⟨4, by decide⟩ 6) = some s' := by
    cases registered
    exact ⟨_, rfl⟩
  have returned : s'.heap.owner 7 = some (.result s.merges) := by
    cases registered
    cases merged
    rfl
  have first : s.merges = 0 := by
    cases registered
    rfl
  exact ⟨s, s', registered, merged, first ▸ returned,
    returns_in_time 0 ⟨4, by decide⟩ (new 0) s s s' 7 3 6 (.start rfl) registered (.start rfl)
      (by cases registered; exact Nat.zero_le _) merged returned⟩

end BRoutine.Wheel
