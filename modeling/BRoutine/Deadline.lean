import BRoutine.Cond.TimeWait
import BRoutine.Hook.Poll

/-!
# When a timeout fires

`poll` and `timeWait` put their task into `getBucket` of the timeout, which counts the slots from
`BucketPosNow`. That is the position of the last merge, while the caller counts from now, so the
task waits too short by the time since that merge. `punctual_iff` says for which calls this is
ever noticed: those whose slot the position can reach, going forward in the array, at a reading
before the time of the call is up.
-/

namespace BRoutine.Deadline

/-- The two functions that put a task into the wheel. -/
inductive Kind where
  | poll
  | timeWait
  deriving DecidableEq, Repr

/-- The argument of `getBucket` in the two functions. -/
def Kind.msWant : Kind → BitVec 32 → Nat
  | .poll, timeout => if timeout.slt 0 then Hook.intmaxMax else timeout.toNat
  | .timeWait, timeout => BCond.TimeWait.toUnsigned timeout

/-- A timeout of at least one millisecond and at most one turn of the wheel. -/
def Bounded (timer : BEpTimer) (timeout : BitVec 32) : Prop :=
  0 < timeout.toInt ∧ timeout.toInt ≤ timer.taskItemBucketSize

instance (timer : BEpTimer) (timeout : BitVec 32) : Decidable (Bounded timer timeout) :=
  inferInstanceAs (Decidable (_ ∧ _))

/-- The wheel and the last reading of the clock. `deadline` and `fired` are not stored in the
source: the reading at a call with a bounded timeout plus that timeout, and the tasks whose
timeout callback a `Deal` has run, with the reading of its merge. -/
structure State where
  timer : BEpTimer
  clock : Nat
  next : Nat
  deadline : Nat → Option Nat
  fired : List (Nat × Nat)

inductive Label where
  | call (kind : Kind) (timeout : BitVec 32) (now : Reading)
  | remove (c : Nat)
  | deal (now : Reading)

def initial (now : Reading) : State := ⟨BEpTimer.new now, now, 0, fun _ => none, []⟩

/-- A call up to its `SwapContext`. -/
def State.call (s : State) (kind : Kind) (timeout : BitVec 32) (now : Reading) : State :=
  { s with
    timer := s.timer.register s.next (kind.msWant timeout)
    clock := now
    next := s.next + 1
    deadline := if Bounded s.timer timeout then
      Function.update s.deadline s.next (some (now + timeout.toNat)) else s.deadline }

/-- The clock does not go back. A `poll` with timeout 0 is left to the system. A task leaves the
wheel by `RemoveSelfFromOwnerlink_Save`, or by the merge of a `Deal`, which runs its callback. -/
def step (s : State) : Label → Option State
  | .call kind timeout now =>
    if s.clock ≤ now then
      if kind = .poll ∧ timeout = 0 then some { s with clock := now }
      else some (s.call kind timeout now)
    else none
  | .remove c => (s.timer.removeSelfSave c).map fun timer => { s with timer := timer }
  | .deal now =>
    if s.clock ≤ now then
      (s.timer.newMergeUpdate2Now s.timer.taskItemBucketSize now).map fun (timer, result) =>
        { s with
          timer := timer
          clock := now
          fired := s.fired ++ result.popAll.map fun task => (task.id, now.val) }
    else none

def machine : Transition.Machine State Label where
  start s := ∃ now, s = initial now
  step := step

/-- A `Deal` has run the timeout callback of the call `c` at a reading before its deadline. -/
def FiresEarly (s : State) (c : Nat) : Prop :=
  ∃ now due, (c, now) ∈ s.fired ∧ s.deadline c = some due ∧ now < due

/-- The position of the wheel at a reading, counted from the last merge. -/
def position (timer : BEpTimer) (reading : Nat) : Nat :=
  Ring.ahead timer.taskItemBucketSize timer.bucketPosNow (reading - timer.lastCheckTime)

/-- At a reading before the time is up the position is on the slot of the call or past it, short
of the last slot, and it was below the slot at the last merge or at an earlier reading. -/
def Overtakes (timer : BEpTimer) (now : Reading) (timeout : Nat) : Prop :=
  let slot := Ring.ahead timer.taskItemBucketSize timer.bucketPosNow timeout
  ∃ early : Reading, now ≤ early ∧ early.val < now + timeout ∧ slot ≤ position timer early ∧
    position timer early + 1 < timer.taskItemBucketSize ∧
    (timer.bucketPosNow < slot ∨
      ∃ before : Reading, now ≤ before ∧ before ≤ early ∧ position timer before < slot)

/-! ### The wheel between two merges -/

structure Sound (s : State) : Prop where
  linked : s.timer.Linked
  inside : s.timer.bucketPosNow < s.timer.taskItemBucketSize
  small : s.timer.taskItemBucketSize < 2 ^ 62
  clock : s.timer.lastCheckTime ≤ s.clock
  fresh : ∀ c, s.timer.owner c ≠ none → c < s.next
  old : ∀ entry ∈ s.fired, entry.1 < s.next

theorem initial_sound (now : Reading) : Sound (initial now) where
  linked := BEpTimer.new_linked now
  inside := by simp [initial, BEpTimer.new, timeWaitSeconds]
  small := by simp [initial, BEpTimer.new, timeWaitSeconds]
  clock := Nat.le_refl _
  fresh := by simp [initial, BEpTimer.new]
  old := by simp [initial]

variable {s t u : State}

theorem Sound.targetPos (sound : Sound s) {now : Reading} (forward : s.timer.lastCheckTime ≤ now) :
    s.timer.targetPos now = position s.timer now :=
  BEpTimer.targetPos_ahead sound.inside sound.small forward now.isLt

/-- Counted from a later merge the positions are the same. -/
theorem position_merged {timer merged : BEpTimer} {result : TaskItemsList TimerTask}
    {now reading : Nat} (drained : BEpTimer.Merged timer now merged result)
    (target : timer.targetPos now = position timer now) (forward : timer.lastCheckTime ≤ now)
    (later : now ≤ reading) : position merged reading = position timer reading := by
  rw [position, drained.size, drained.pos, drained.clock, target, position, Ring.ahead_ahead,
    position]
  congr 1
  omega

theorem Bounded.toNat {timer : BEpTimer} {timeout : BitVec 32} (bounded : Bounded timer timeout) :
    0 < timeout.toNat ∧ timeout.toNat ≤ timer.taskItemBucketSize ∧
      ∀ kind : Kind, kind.msWant timeout = timeout.toNat := by
  obtain ⟨positive, turn⟩ := bounded
  have nonneg : timeout.toInt = timeout.toNat := by
    rw [BitVec.toInt_eq_toNat_cond] at positive ⊢
    split
    · rfl
    next negative =>
      have := timeout.isLt
      rw [if_neg negative] at positive
      omega
  refine ⟨by omega, by omega, fun kind => ?_⟩
  cases kind with
  | poll =>
    have zero : BitVec.toInt (0 : BitVec 32) = 0 := rfl
    have notNeg : timeout.slt 0 = false := by
      simp only [BitVec.slt, zero, decide_eq_false_iff_not]
      omega
    simp only [Kind.msWant, notNeg, Bool.false_eq_true, if_false]
  | timeWait =>
    have msb : timeout.msb = false := by
      rw [BitVec.msb_eq_toInt]
      simpa using Int.le_of_lt positive
    simp only [Kind.msWant, BCond.TimeWait.toUnsigned,
      BitVec.signExtend_eq_setWidth_of_msb_false msb, BitVec.toNat_setWidth]
    have := timeout.isLt
    omega

theorem Sound.register (sound : Sound s) (kind : Kind) (timeout : BitVec 32) {now : Reading}
    (forward : s.clock ≤ now) : Sound (s.call kind timeout now) := by
  have free : s.timer.owner s.next = none := by
    by_contra owned
    exact absurd (sound.fresh s.next owned) (Nat.lt_irrefl _)
  refine ⟨sound.linked.register free _, sound.inside, sound.small, ?_, ?_, ?_⟩
  · exact Nat.le_trans sound.clock forward
  · intro c owned
    simp only [State.call, BEpTimer.register_owner] at owned ⊢
    by_cases self : c = s.next
    · omega
    · rw [Function.update_of_ne self] at owned
      exact Nat.lt_succ_of_lt (sound.fresh c owned)
  · intro entry member
    exact Nat.lt_succ_of_lt (sound.old entry member)

theorem Sound.remove {c : Nat} {timer : BEpTimer} (sound : Sound s)
    (removed : s.timer.removeSelfSave c = some timer) : Sound { s with timer := timer } := by
  obtain ⟨pos, size⟩ := BEpTimer.removeSelfSave_pos removed
  refine ⟨sound.linked.removeSelfSave removed, ?_, ?_, ?_, ?_, sound.old⟩
  · simp only [pos, size]; exact sound.inside
  · simp only [size]; exact sound.small
  · simp only [BEpTimer.removeSelfSave_clock removed]; exact sound.clock
  · intro c' owned
    apply sound.fresh
    intro free
    simp only [BEpTimer.removeSelfSave_owner removed] at owned
    by_cases self : c' = c
    · subst self; simp at owned
    · rw [Function.update_of_ne self] at owned
      exact owned free

/-- What a `Deal` does: it runs the callbacks of the tasks that its merge returns. -/
structure Dealt (s : State) (now : Reading) (t : State) : Prop where
  merged : ∃ result, BEpTimer.Merged s.timer now t.timer result
  ends : s.timer.targetPos now + 1 < s.timer.taskItemBucketSize ∨
    s.timer.targetPos now ≤ s.timer.bucketPosNow
  forward : s.clock ≤ now
  clock : t.clock = now
  next : t.next = s.next
  deadline : t.deadline = s.deadline
  fired : ∀ c reading, (c, reading) ∈ t.fired ↔ (c, reading) ∈ s.fired ∨ reading = now.val ∧
    ∃ index, s.timer.bucketPosNow < index ∧ index ≤ s.timer.targetPos now ∧
      ∃ task ∈ s.timer.tasks index, task.id = c
  sound : Sound t

theorem Sound.dealt {now : Reading} (sound : Sound s) (stepped : step s (.deal now) = some t) :
    Dealt s now t := by
  simp only [step] at stepped
  split at stepped
  next forward =>
    obtain ⟨⟨timer, result⟩, ran, rfl⟩ := Option.map_eq_some_iff.mp stepped
    have merges : s.timer.Merges now timer result := ⟨_, ran⟩
    have drained := merges.merged sound.inside
    obtain ⟨taken, counted⟩ := sound.linked.merge merges
    -- with an exact count the loop sees all that the merge returns
    have fired : ∀ c reading, (c, reading) ∈ result.popAll.map (fun task => (task.id, now.val)) ↔
        reading = now.val ∧ c ∈ BEpTimer.ids result := by
      intro c reading
      rw [TaskItemsList.popAll_eq counted, BEpTimer.ids, List.mem_map, List.mem_map]
      constructor
      · rintro ⟨task, member, pair⟩
        cases pair
        exact ⟨rfl, task, member, rfl⟩
      · rintro ⟨rfl, task, member, rfl⟩
        exact ⟨task, member, rfl⟩
    refine ⟨⟨result, drained⟩, (BEpTimer.merges_iff sound.inside).mp ⟨_, _, merges⟩, forward,
      rfl, rfl, rfl, ?_, ?_⟩
    · intro c reading
      rw [List.mem_append, fired, drained.mem_ids]
    · refine ⟨taken.linked, ?_, ?_, ?_, ?_, ?_⟩
      · simp only [drained.pos, drained.size]
        exact Nat.mod_lt _ (Nat.zero_lt_of_lt sound.inside)
      · simp only [drained.size]; exact sound.small
      · simp only [drained.clock]; exact Nat.le_refl _
      · intro c owned
        -- a call in the wheel after the merge was in it before
        apply sound.fresh
        intro free
        simp only [taken.owner, free, ite_self, ne_eq, not_true_eq_false] at owned
      · rintro ⟨c, reading⟩ member
        rcases List.mem_append.mp member with before | new
        · exact sound.old _ before
        · exact sound.fresh c (taken.registered c ((fired c reading).mp new).2)
  · cases stepped

theorem step_sound {label : Label} (sound : Sound s) (stepped : step s label = some t) :
    Sound t := by
  cases label with
  | call kind timeout now =>
    simp only [step] at stepped
    split at stepped
    next forward =>
      split at stepped
      · cases stepped
        exact { sound with clock := Nat.le_trans sound.clock forward }
      · cases stepped
        exact sound.register kind timeout forward
    · cases stepped
  | remove c =>
    obtain ⟨timer, removed, rfl⟩ := Option.map_eq_some_iff.mp stepped
    exact sound.remove removed
  | deal now => exact (sound.dealt stepped).sound

theorem reachable_sound (reached : machine.Reachable s) : Sound s := by
  refine reached.invariant Sound ?_ fun _ _ _ sound _ stepped => step_sound sound stepped
  rintro _ ⟨now, rfl⟩
  exact initial_sound now

/-! ### A call until its deadline -/

/-- The call `c` with the timeout `timeout` at the reading `now`, made when the wheel was
`origin`: since then only the position has moved, and the task is on its slot if anywhere. -/
structure Guarded (origin : BEpTimer) (now : Reading) (timeout c : Nat) (s : State) : Prop where
  deadline : s.deadline c = some (now + timeout)
  known : c < s.next
  later : now.val ≤ s.clock
  size : s.timer.taskItemBucketSize = origin.taskItemBucketSize
  course : ∀ reading, s.clock ≤ reading → position s.timer reading = position origin reading
  started : s.timer.bucketPosNow = origin.bucketPosNow ∨ ∃ before : Reading, now ≤ before ∧
    before.val ≤ s.clock ∧ s.timer.bucketPosNow = position origin before
  slot : ∀ index, ∀ task ∈ s.timer.tasks index, task.id = c →
    index = Ring.ahead origin.taskItemBucketSize origin.bucketPosNow timeout

theorem register_mem {timer : BEpTimer} {id msWant index : Nat} {task : TimerTask} :
    task ∈ (timer.register id msWant).tasks index ↔ task ∈ timer.tasks index ∨
      index = timer.getBucket msWant ∧ task = ⟨id, timer.lastCheckTime, msWant⟩ := by
  rw [BEpTimer.register_tasks, List.mem_append]
  by_cases here : index = timer.getBucket msWant
  · simp [here]
  · simp [here]

theorem Sound.unlinked (sound : Sound s) (index : Nat) :
    ∀ task ∈ s.timer.tasks index, task.id ≠ s.next := by
  intro task member self
  have owned := (sound.linked.owner task.id index).mpr (List.mem_map_of_mem member)
  have older := sound.fresh task.id (by rw [owned]; exact Option.some_ne_none index)
  omega

theorem Sound.called (sound : Sound s) {kind : Kind} {timeout : BitVec 32} {now : Reading}
    (bounded : Bounded s.timer timeout) :
    Guarded s.timer now timeout.toNat s.next (s.call kind timeout now) := by
  obtain ⟨-, turn, want⟩ := bounded.toNat
  refine ⟨?_, Nat.lt_succ_self _, Nat.le_refl _, rfl, fun _ _ => rfl, .inl rfl, ?_⟩
  · simp [State.call, bounded]
  · intro index task member self
    rcases register_mem.mp member with old | ⟨rfl, rfl⟩
    · exact absurd self (sound.unlinked index task old)
    · rw [want, BEpTimer.getBucket_ahead sound.inside sound.small turn]

theorem removeSelfSave_subset {timer removed : BEpTimer} {id index : Nat} {task : TimerTask}
    (returned : timer.removeSelfSave id = some removed)
    (member : task ∈ removed.tasks index) : task ∈ timer.tasks index := by
  unfold BEpTimer.removeSelfSave at returned
  split at returned
  · cases returned
  next bucket _ =>
    cases returned
    by_cases same : index = bucket
    · subst same
      simp only [BEpTimer.tasks, Function.update_self, TaskItemsList.removeSelf_items] at member
      exact List.mem_of_mem_eraseP member
    · simpa [BEpTimer.tasks, same] using member

theorem Guarded.age {origin : BEpTimer} {now reading : Reading} {timeout c : Nat}
    (guarded : Guarded origin now timeout c s) (forward : s.clock ≤ reading) :
    Guarded origin now timeout c { s with clock := reading } := by
  refine { guarded with
    later := Nat.le_trans guarded.later forward
    course := fun reading' after => guarded.course reading' (Nat.le_trans forward after)
    started := guarded.started.imp_right fun ⟨before, from_now, until_now, pos⟩ => ?_ }
  exact ⟨before, from_now, Nat.le_trans until_now forward, pos⟩

/-- Another call changes neither the deadline of this one nor its place. -/
theorem Guarded.call {origin : BEpTimer} {now reading : Reading} {timeout c : Nat}
    (guarded : Guarded origin now timeout c s) (forward : s.clock ≤ reading) (kind : Kind)
    (timeout' : BitVec 32) : Guarded origin now timeout c (s.call kind timeout' reading) := by
  have other : c ≠ s.next := Nat.ne_of_lt guarded.known
  have aged := guarded.age forward
  refine ⟨?_, Nat.lt_succ_of_lt guarded.known, aged.later, guarded.size, aged.course,
    aged.started, ?_⟩
  · simp only [State.call]
    split
    · rw [Function.update_of_ne other]; exact guarded.deadline
    · exact guarded.deadline
  · intro index task member self
    rcases register_mem.mp member with old | ⟨-, rfl⟩
    · exact guarded.slot index task old self
    · exact absurd self.symm other

theorem Guarded.remove {origin timer : BEpTimer} {now : Reading} {timeout c c' : Nat}
    (guarded : Guarded origin now timeout c s) (removed : s.timer.removeSelfSave c' = some timer) :
    Guarded origin now timeout c { s with timer := timer } := by
  obtain ⟨pos, size⟩ := BEpTimer.removeSelfSave_pos removed
  have clock := BEpTimer.removeSelfSave_clock removed
  refine ⟨guarded.deadline, guarded.known, guarded.later, size.trans guarded.size, ?_, ?_, ?_⟩
  · intro reading after
    rw [← guarded.course reading after]
    simp only [position, pos, size, clock]
  · simp only [pos]; exact guarded.started
  · intro index task member self
    exact guarded.slot index task (removeSelfSave_subset removed member) self

/-- A `Deal` moves the position along the course that `origin` has set. -/
theorem Guarded.deal {origin : BEpTimer} {now reading : Reading} {timeout c : Nat}
    (guarded : Guarded origin now timeout c s) (sound : Sound s) (dealt : Dealt s reading t) :
    Guarded origin now timeout c t := by
  obtain ⟨result, drained⟩ := dealt.merged
  have forward := Nat.le_trans sound.clock dealt.forward
  have target := sound.targetPos forward
  refine ⟨?_, ?_, ?_, drained.size.trans guarded.size, ?_, ?_, ?_⟩
  · rw [dealt.deadline]; exact guarded.deadline
  · rw [dealt.next]; exact guarded.known
  · rw [dealt.clock]; exact Nat.le_trans guarded.later dealt.forward
  · intro reading' after
    rw [dealt.clock] at after
    rw [position_merged drained target forward after]
    exact guarded.course reading' (Nat.le_trans dealt.forward after)
  · right
    refine ⟨reading, Nat.le_trans guarded.later dealt.forward, Nat.le_of_eq dealt.clock.symm, ?_⟩
    rw [drained.pos, target]
    exact guarded.course reading dealt.forward
  · intro index task member self
    rw [drained.tasks] at member
    split at member
    · simp at member
    · exact guarded.slot index task member self

theorem Guarded.after {origin : BEpTimer} {now : Reading} {timeout c : Nat} {label : Label}
    (guarded : Guarded origin now timeout c s) (sound : Sound s)
    (stepped : step s label = some t) : Guarded origin now timeout c t := by
  cases label with
  | call kind timeout' reading =>
    simp only [step] at stepped
    split at stepped
    next forward =>
      split at stepped
      · cases stepped
        exact guarded.age forward
      · cases stepped
        exact guarded.call forward kind timeout'
    · cases stepped
  | remove c' =>
    obtain ⟨timer, removed, rfl⟩ := Option.map_eq_some_iff.mp stepped
    exact guarded.remove removed
  | deal reading => exact guarded.deal sound (sound.dealt stepped)

/-- A call that the position does not overtake is not fired early by the next step. -/
theorem Guarded.onTime {origin : BEpTimer} {now : Reading} {timeout c : Nat} {label : Label}
    (guarded : Guarded origin now timeout c s) (sound : Sound s) (before : ¬ FiresEarly s c)
    (safe : ¬ Overtakes origin now timeout) (stepped : step s label = some t) :
    ¬ FiresEarly t c := by
  rintro ⟨reading, due, fired, deadline, early⟩
  have after := guarded.after sound stepped
  rw [after.deadline] at deadline
  cases deadline
  cases label with
  | call kind timeout' reading' =>
    simp only [step] at stepped
    split at stepped
    · split at stepped
      · cases stepped
        exact before ⟨reading, _, fired, guarded.deadline, early⟩
      · cases stepped
        exact before ⟨reading, _, fired, guarded.deadline, early⟩
    · cases stepped
  | remove c' =>
    obtain ⟨timer, removed, rfl⟩ := Option.map_eq_some_iff.mp stepped
    exact before ⟨reading, _, fired, guarded.deadline, early⟩
  | deal reading' =>
    have dealt := sound.dealt stepped
    rcases (dealt.fired c reading).mp fired with old | ⟨rfl, index, low, high, task, member, self⟩
    · exact before ⟨reading, _, old, guarded.deadline, early⟩
    · have slot := guarded.slot index task member self
      have target := (sound.targetPos (Nat.le_trans sound.clock dealt.forward)).trans
        (guarded.course reading' dealt.forward)
      have ends := dealt.ends.resolve_right (by omega)
      -- the merge that fired the call shows how the position has overtaken it
      apply safe
      refine ⟨reading', Nat.le_trans guarded.later dealt.forward, early, ?_, ?_, ?_⟩
      · rw [← slot, ← target]; exact high
      · rw [← target, ← guarded.size]; exact ends
      · rw [← slot]
        rcases guarded.started with same | ⟨between, from_now, until_now, pos⟩
        · exact .inl (same ▸ low)
        · exact .inr ⟨between, from_now, Nat.le_trans until_now dealt.forward, pos ▸ low⟩

theorem Guarded.run {origin : BEpTimer} {now : Reading} {timeout c : Nat} {later : List Label}
    (guarded : Guarded origin now timeout c s) (sound : Sound s) (before : ¬ FiresEarly s c)
    (safe : ¬ Overtakes origin now timeout) (ran : machine.exec s later = some u) :
    ¬ FiresEarly u c := by
  induction later generalizing s with
  | nil =>
    cases ran
    exact before
  | cons label rest ih =>
    obtain ⟨t, stepped, rest_ran⟩ := Option.bind_eq_some_iff.mp ran
    exact ih (guarded.after sound stepped) (step_sound sound stepped)
      (guarded.onTime sound before safe stepped) rest_ran

/-! ### How a call is overtaken -/

theorem Sound.deal (sound : Sound s) {now : Reading} (forward : s.clock ≤ now)
    (ends : s.timer.targetPos now + 1 < s.timer.taskItemBucketSize) :
    ∃ t, step s (.deal now) = some t := by
  obtain ⟨merged, result, ran, -⟩ := BEpTimer.merge_runs sound.inside (.inl ends)
  exact ⟨_, by rw [step, if_pos forward, ran, Option.map_some]⟩

/-- A `Deal` whose merge comes past the slot of the call runs its callback. -/
theorem Guarded.fires {origin : BEpTimer} {now early : Reading} {timeout c index : Nat}
    {task : TimerTask} (guarded : Guarded origin now timeout c s) (sound : Sound s)
    (forward : s.clock ≤ early) (soon : early.val < now + timeout)
    (member : task ∈ s.timer.tasks index) (self : task.id = c)
    (low : s.timer.bucketPosNow < index) (high : index ≤ position origin early)
    (short : position origin early + 1 < origin.taskItemBucketSize) :
    ∃ t, step s (.deal early) = some t ∧ FiresEarly t c := by
  have target : s.timer.targetPos early = position origin early :=
    (sound.targetPos (Nat.le_trans sound.clock forward)).trans (guarded.course early forward)
  obtain ⟨t, stepped⟩ := sound.deal forward (by rw [target, guarded.size]; exact short)
  have dealt := sound.dealt stepped
  refine ⟨t, stepped, early, now + timeout, ?_, ?_, soon⟩
  · rw [dealt.fired]
    exact .inr ⟨rfl, index, low, target ▸ high, task, member, self⟩
  · exact (guarded.after sound stepped).deadline

/-- An overtaken call can be fired early: by the `Deal` that overtakes it, after one that has
brought the position below its slot if it was not there. -/
theorem Guarded.overtaken {origin : BEpTimer} {now : Reading} {timeout c : Nat}
    {task : TimerTask} (guarded : Guarded origin now timeout c s) (sound : Sound s)
    (called : s.clock = now) (start : s.timer.bucketPosNow = origin.bucketPosNow)
    (member : task ∈ s.timer.tasks
      (Ring.ahead origin.taskItemBucketSize origin.bucketPosNow timeout))
    (self : task.id = c) (overtakes : Overtakes origin now timeout) :
    ∃ later u, machine.exec s later = some u ∧ FiresEarly u c := by
  obtain ⟨early, from_now, soon, high, short, below | ⟨before, first, until_early, low⟩⟩ :=
    overtakes
  · have forward : s.clock ≤ early := by rw [called]; exact from_now
    obtain ⟨u, stepped, fires⟩ := guarded.fires sound forward soon member self
      (start ▸ below) high short
    exact ⟨[.deal early], u, Transition.Machine.exec_step stepped rfl, fires⟩
  · -- the merge at `before` ends below the slot and leaves the task where it is
    have forward : s.clock ≤ before := by rw [called]; exact first
    have target : s.timer.targetPos before = position origin before :=
      (sound.targetPos (Nat.le_trans sound.clock forward)).trans
        (guarded.course before forward)
    obtain ⟨t, stepped⟩ := sound.deal forward (by rw [target, guarded.size]; omega)
    have dealt := sound.dealt stepped
    obtain ⟨result, drained⟩ := dealt.merged
    have stays : task ∈ t.timer.tasks
        (Ring.ahead origin.taskItemBucketSize origin.bucketPosNow timeout) := by
      rw [drained.tasks, if_neg (by omega)]
      exact member
    have onward : t.clock ≤ early := by rw [dealt.clock]; exact until_early
    obtain ⟨u, fired, fires⟩ := (guarded.after sound stepped).fires dealt.sound onward soon stays
      self (by rw [drained.pos, target]; exact low) high short
    exact ⟨[.deal before, .deal early], u,
      Transition.Machine.exec_step stepped (Transition.Machine.exec_step fired rfl), fires⟩

/-- From any state, a call with a bounded timeout is never fired early, whatever is done after it,
exactly when no reading before its deadline overtakes it. -/
theorem punctual_iff {kind : Kind} {timeout : BitVec 32} {now : Reading}
    (reached : machine.Reachable s) (bounded : Bounded s.timer timeout)
    (called : step s (.call kind timeout now) = some t) :
    (∀ later u, machine.exec t later = some u → ¬ FiresEarly u s.next) ↔
      ¬ Overtakes s.timer now timeout.toNat := by
  have sound := reachable_sound reached
  have after := step_sound sound called
  obtain ⟨positive, turn, want⟩ := bounded.toNat
  simp only [step] at called
  split at called
  next forward =>
    -- a zero timeout returns at once and registers nothing, but it is not in the range
    have notZero : ¬ (kind = .poll ∧ timeout = 0) := by
      rintro ⟨-, rfl⟩
      exact absurd positive (by decide)
    rw [if_neg notZero] at called
    cases called
    have guarded : Guarded s.timer now timeout.toNat s.next (s.call kind timeout now) :=
      sound.called bounded
    have slot : s.timer.getBucket (kind.msWant timeout) =
        Ring.ahead s.timer.taskItemBucketSize s.timer.bucketPosNow timeout.toNat := by
      rw [want, BEpTimer.getBucket_ahead sound.inside sound.small turn]
    constructor
    · -- the reading that overtakes the call gives a run of one or two merges that fires it
      intro never overtakes
      obtain ⟨later, u, ran, fires⟩ := guarded.overtaken after rfl rfl
        (register_mem.mpr (.inr ⟨slot.symm, rfl⟩)) rfl overtakes
      exact never later u ran fires
    · intro safe later u ran
      -- nothing has been fired under the number of the call
      have quiet : ¬ FiresEarly (s.call kind timeout now) s.next := by
        rintro ⟨reading, due, fired, -⟩
        exact absurd (sound.old _ fired) (Nat.lt_irrefl _)
      exact guarded.run after quiet safe ran
  · cases called

/-- A call at the reading of the last merge is not overtaken. -/
theorem not_overtakes_of_fresh {timer : BEpTimer} {now : Reading} {timeout : Nat}
    (inside : timer.bucketPosNow < timer.taskItemBucketSize)
    (turn : timeout ≤ timer.taskItemBucketSize) (fresh : timer.lastCheckTime = now) :
    ¬ Overtakes timer now timeout := by
  rintro ⟨early, from_now, soon, high, -, below⟩
  have from_now : now.val ≤ early := from_now
  simp only [position, fresh] at high below
  by_cases short : timer.bucketPosNow + timeout < timer.taskItemBucketSize
  · -- the slot is ahead in the array, and the position has not come so far
    rw [Ring.ahead_of_lt short, Ring.ahead_of_lt (by omega)] at high
    omega
  · -- the slot is behind, and a position that is below it has wrapped
    rw [Ring.ahead_of_le inside turn (by omega)] at high below
    rcases below with low | ⟨before, first, until_early, low⟩
    · omega
    · have first : now.val ≤ before := first
      have until_early : before.val ≤ early := until_early
      by_cases wrapped : timer.bucketPosNow + (before - now) < timer.taskItemBucketSize
      · rw [Ring.ahead_of_lt wrapped] at low
        omega
      · rw [Ring.ahead_of_le inside (by omega) (by omega)] at high
        omega

/-- A call that is made some time after the last merge, but less than its timeout, is overtaken
unless it has the first or the last slot. -/
theorem overtakes_iff_of_stale {timer : BEpTimer} {now : Reading} {timeout : Nat}
    (inside : timer.bucketPosNow < timer.taskItemBucketSize)
    (turn : timeout ≤ timer.taskItemBucketSize) (stale : timer.lastCheckTime < now)
    (within : now < timer.lastCheckTime + timeout)
    (bound : timer.lastCheckTime + timeout < 2 ^ 63) : Overtakes timer now timeout ↔
      0 < Ring.ahead timer.taskItemBucketSize timer.bucketPosNow timeout ∧
        Ring.ahead timer.taskItemBucketSize timer.bucketPosNow timeout + 1 <
          timer.taskItemBucketSize := by
  constructor
  · rintro ⟨early, -, -, high, short, below⟩
    refine ⟨?_, by omega⟩
    rcases below with low | ⟨before, -, -, low⟩
    · omega
    · omega
  · rintro ⟨notFirst, notLast⟩
    have elapsed : position timer (timer.lastCheckTime + timeout) =
        Ring.ahead timer.taskItemBucketSize timer.bucketPosNow timeout := by
      rw [position, Nat.add_sub_cancel_left]
    refine ⟨⟨timer.lastCheckTime + timeout, bound⟩, Nat.le_of_lt within, ?_, ?_, ?_, ?_⟩
    · exact Nat.add_lt_add_right stale timeout
    · exact Nat.le_of_eq elapsed.symm
    · rw [elapsed]; exact notLast
    · by_cases ahead : timer.bucketPosNow <
          Ring.ahead timer.taskItemBucketSize timer.bucketPosNow timeout
      · exact .inl ahead
      · -- one millisecond earlier the position is one slot lower
        right
        have past : timer.taskItemBucketSize ≤ timer.bucketPosNow + timeout := by
          by_contra short
          rw [Ring.ahead_of_lt (by omega)] at ahead
          omega
        refine ⟨⟨timer.lastCheckTime + timeout - 1, by omega⟩, ?_, Nat.sub_le _ _, ?_⟩
        · exact Nat.le_sub_one_of_lt within
        · rw [Ring.ahead_of_le inside turn past] at notFirst ⊢
          have elapsed' : timer.lastCheckTime + timeout - 1 - timer.lastCheckTime =
            timeout - 1 := by omega
          simp only [position, elapsed']
          rw [Ring.ahead_of_le inside (by omega) (by omega)]
          omega

/-- A poll for 50 ms, 100 ms after the last merge. -/
theorem punctual_iff_poll : machine.Reachable (initial 0) ∧
    ((∀ later u, machine.exec ((initial 0).call .poll 50 100) later = some u →
      ¬ FiresEarly u 0) ↔ ¬ Overtakes (initial 0).timer 100 50) := by
  have reached : machine.Reachable (initial 0) := .start ⟨0, rfl⟩
  have called : step (initial 0) (.call .poll 50 100) =
      some ((initial 0).call .poll 50 100) := rfl
  exact ⟨reached, punctual_iff reached (by decide) called⟩

/-- The next `Deal`, at the same reading, ends that poll. -/
theorem punctual_fails :
    ¬ ∀ (s t u : State) (kind : Kind) (timeout : BitVec 32) (now : Reading) (later : List Label),
      machine.Reachable s → Bounded s.timer timeout →
      step s (.call kind timeout now) = some t → machine.exec t later = some u →
      ¬ FiresEarly u s.next := by
  intro always
  have dealt : (machine.exec ((initial 0).call .poll 50 100) [.deal 100]).map
      (fun u => (u.fired, u.deadline 0)) = some ([(0, 100)], some 150) := by decide +kernel
  obtain ⟨u, ran, values⟩ := Option.map_eq_some_iff.mp dealt
  obtain ⟨fired, deadline⟩ := Prod.mk.inj values
  refine always (initial 0) _ u .poll 50 100 [.deal 100] (.start ⟨0, rfl⟩) (by decide) rfl ran ?_
  exact ⟨100, 150, by rw [fired]; exact List.mem_singleton.mpr rfl, deadline, by decide⟩

end BRoutine.Deadline
