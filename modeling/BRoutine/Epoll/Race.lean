import BRoutine.Epoll.Turns
import BRoutine.Filing

/-!
# Registrations beside a merge

Any number of threads register timeouts while another one merges. `getBucket` only loads
`BucketPosNow`: before the thread has locked the bucket to push its task, a merge can drain that
bucket, store a new position, and others can follow. A merge stores `BucketPosNow` and
`LastCheckTime` one after the other, and drains one bucket at a time. `bEpollDealLock` keeps
merges from each other, and the mutexes of a bucket keep a `pushBack` and a `pushAll2` apart, so
each of these is one step.

No task is lost or returned twice, and with a clock that does not go back none is returned
before its time, however old the position was that its bucket was computed from.
-/

namespace BRoutine.Race

variable {T : Type}

/-- Where a task can be: in the hands of a thread that is to push it, in a bucket, or in the list
that a merge has made. -/
inductive Place (T : Type) where
  | hand (t : T)
  | bucket (b : Nat)
  | result (k : Nat)
  deriving DecidableEq

/-- A call of `NewMergeUpdate2Now` at the index `i` of its loop. -/
structure Merge where
  now : Nat
  targetPos : Nat
  i : Nat
  /-- `BucketPosNow` has been stored -/
  stored : Bool

/-- `chosen` is the bucket that `getBucket` has returned to a thread. The last three fields are
not in the source: the reading that the position stands for, the tasks whose registration has
begun, and the reading of each merge that has returned. -/
structure State (T : Type) where
  taskItemBucketSize : Nat
  lastCheckTime : Nat
  bucketPosNow : Nat
  merge : Option Merge
  merges : Nat
  chosen : T → Option Nat
  items : Place T → List TimerTask
  tick : Nat
  started : List TimerTask
  readings : Nat → Nat

/-- `bEpTimer::New`. -/
def new (made : Reading) : State T where
  taskItemBucketSize := 1000 * timeWaitSeconds
  lastCheckTime := made
  bucketPosNow := 0
  merge := none
  merges := 0
  chosen := fun _ => none
  items := fun _ => []
  tick := made
  started := []
  readings := fun _ => 0

inductive Label (T : Type) where
  /-- the thread `t` calls `getBucket` for the task `id` -/
  | read (t : T) (id msWant : Nat)
  /-- and pushes the task to the bucket it has got -/
  | push (t : T)
  /-- a merge begins and reads the clock -/
  | begin (now : Reading)
  /-- the next step of the merge -/
  | turn

namespace State

/-- The index of the bucket that `getBucket(ms_want)` returns. -/
def getBucket (s : State T) (msWant : Nat) : Nat :=
  let msWant := if msWant > s.taskItemBucketSize then s.taskItemBucketSize else msWant
  (s.bucketPosNow + msWant) % 2 ^ 64 % s.taskItemBucketSize

/-- `target_pos` of a merge at the reading `nowMs`. -/
def targetPos (s : State T) (nowMs : Nat) : Nat :=
  (nowMs + 2 ^ 64 - s.lastCheckTime + s.bucketPosNow) % 2 ^ 64 % s.taskItemBucketSize

variable [DecidableEq T]

/-- A task of the thread `t` for the bucket that the position chooses. -/
def read (s : State T) (t : T) (id msWant : Nat) : State T :=
  { s with
    chosen := Function.update s.chosen t (some (s.getBucket msWant))
    items := Function.update s.items (.hand t) (s.items (.hand t) ++ [⟨id, s.tick, msWant⟩])
    started := s.started ++ [⟨id, s.tick, msWant⟩] }

/-- `pushBack` of the task of the thread `t` to the bucket `b`. -/
def push (s : State T) (t : T) (b : Nat) : State T :=
  { s with
    chosen := Function.update s.chosen t none
    items := Function.update (Function.update s.items (.hand t) []) (.bucket b)
      (s.items (.bucket b) ++ s.items (.hand t)) }

/-- `TaskItemBucket[i]->pushAll2(result)`. -/
def drain (s : State T) (m : Merge) : State T :=
  { s with
    merge := some { m with i := (m.i + 1) % s.taskItemBucketSize }
    items := Function.update (Function.update s.items (.bucket m.i) []) (.result s.merges)
      (s.items (.result s.merges) ++ s.items (.bucket m.i)) }

/-- One step of the merge. -/
def turn (s : State T) (m : Merge) : State T :=
  if m.stored then
    { s with
      lastCheckTime := m.now
      merge := none
      merges := s.merges + 1
      readings := Function.update s.readings s.merges m.now }
  else if m.i ≤ m.targetPos then s.drain m
  else
    { s with
      bucketPosNow := m.targetPos
      tick := m.now
      merge := some { m with stored := true } }

end State

variable [DecidableEq T]

/-- A task is registered once, and one merge runs at a time. -/
def step (s : State T) : Label T → Option (State T)
  | .read t id msWant =>
    if s.chosen t = none ∧ ∀ task ∈ s.started, task.id ≠ id then some (s.read t id msWant) else none
  | .push t => (s.chosen t).map (s.push t)
  | .begin now =>
    match s.merge with
    | some _ => none
    | none => some { s with merge := some ⟨now, s.targetPos now, s.bucketPosNow + 1, false⟩ }
  | .turn => s.merge.map s.turn

/-- Any order of the steps of any number of threads and of one merge after the other. -/
def machine (T : Type) [DecidableEq T] (made : Reading) :
    Transition.Machine (State T) (Label T) where
  start s := s = new made
  step := step

/-! ### One place for each task -/

/-- Each task whose registration has begun is at one place, and there once, and no other task is
anywhere. -/
structure Kept (s : State T) : Prop where
  one : ∃ place, Filing.Filed s.items place ∧ ∀ task, place task ≠ none ↔ task ∈ s.started
  hands : ∀ t, s.chosen t = none → s.items (.hand t) = []

variable {s : State T}

theorem Kept.read (kept : Kept s) {t : T} {id msWant : Nat}
    (fresh : ∀ task ∈ s.started, task.id ≠ id) : Kept (s.read t id msWant) := by
  obtain ⟨place, filed, started⟩ := kept.one
  have outside : place ⟨id, s.tick, msWant⟩ = none := by
    by_contra inside
    exact fresh _ ((started _).mp inside) rfl
  have filed' : Filing.Filed (s.read t id msWant).items
      (Function.update place ⟨id, s.tick, msWant⟩ (some (.hand t))) := filed.put outside
  refine ⟨⟨_, filed', fun task => ?_⟩, fun u idle => ?_⟩
  · by_cases mine : task = ⟨id, s.tick, msWant⟩
    · subst mine
      simp [State.read]
    · rw [Function.update_of_ne mine, started]
      simp [State.read, mine]
  · by_cases mine : u = t
    · subst mine
      simp [State.read] at idle
    · simp only [State.read, Function.update_of_ne mine] at idle
      simpa [State.read, mine] using kept.hands u idle

/-- All that is at one place goes to the end of another. -/
theorem one_of_pour {items : Place T → List TimerTask} {started : List TimerTask}
    (one : ∃ place, Filing.Filed items place ∧ ∀ task, place task ≠ none ↔ task ∈ started)
    {p q : Place T} (other : p ≠ q) :
    ∃ place, Filing.Filed (Function.update (Function.update items p []) q (items q ++ items p))
      place ∧ ∀ task, place task ≠ none ↔ task ∈ started := by
  obtain ⟨place, filed, known⟩ := one
  refine ⟨_, filed.pour other, fun task => ?_⟩
  rw [← known]
  by_cases moved : place task = some p
  · simp [moved]
  · simp [moved]

theorem Kept.push (kept : Kept s) (t : T) (b : Nat) : Kept (s.push t b) where
  one := one_of_pour kept.one (by simp)
  hands u idle := by
    by_cases mine : u = t
    · simp [State.push, mine]
    · simp only [State.push, Function.update_of_ne mine] at idle
      simpa [State.push, mine] using kept.hands u idle

theorem Kept.turn (kept : Kept s) (m : Merge) : Kept (s.turn m) := by
  unfold State.turn
  split
  · exact ⟨kept.one, kept.hands⟩
  · split
    · exact ⟨one_of_pour kept.one (by simp), fun u idle => by
        simpa [State.drain] using kept.hands u idle⟩
    · exact ⟨kept.one, kept.hands⟩

theorem step_kept {label : Label T} {next : State T} (kept : Kept s)
    (stepped : step s label = some next) : Kept next := by
  cases label with
  | read t id msWant =>
    simp only [step] at stepped
    split at stepped
    next allowed => cases stepped; exact kept.read allowed.2
    · cases stepped
  | push t =>
    obtain ⟨b, -, rfl⟩ := Option.map_eq_some_iff.mp stepped
    exact kept.push t b
  | begin now =>
    simp only [step] at stepped
    split at stepped
    · cases stepped
    · cases stepped
      exact ⟨kept.one, kept.hands⟩
  | turn =>
    obtain ⟨m, -, rfl⟩ := Option.map_eq_some_iff.mp stepped
    exact kept.turn m

/-- However the loads, the pushes and the steps of the merges fall, and whatever the clock reads:
a task is in the hands of the thread that registers it, in one bucket, or in the result of one
merge, and nowhere twice. -/
theorem keeps_each (made : Reading) (s : State T) (reached : (machine T made).Reachable s) :
    ∃ place, Filing.Filed s.items place ∧ ∀ task, place task ≠ none ↔ task ∈ s.started := by
  have kept : Kept s := by
    refine reached.invariant Kept ?_ fun _ _ _ kept _ stepped => step_kept kept stepped
    rintro _ rfl
    exact ⟨⟨_, Filing.Filed.empty, by simp [new]⟩, by simp [new]⟩
  exact kept.one

/-- A task chooses its bucket, a merge of two buckets runs, and only then it is pushed. The merge
after that returns it. -/
def stale : List (Label Unit) :=
  [.read () 7 3, .begin ⟨2, by decide⟩, .turn, .turn, .turn, .turn, .push (),
    .begin ⟨5, by decide⟩, .turn, .turn, .turn, .turn, .turn]

theorem keeps_each_stale : ∃ s : State Unit, (machine Unit 0).exec (new 0) stale = some s ∧
    ∃ place, Filing.Filed s.items place ∧ ∀ task, place task ≠ none ↔ task ∈ s.started := by
  obtain ⟨s, ran⟩ : ∃ s, (machine Unit 0).exec (new 0) stale = some s := ⟨_, rfl⟩
  exact ⟨s, ran, keeps_each 0 s (Transition.Machine.exec_reachable (.start rfl) ran)⟩

/-! ### No task before its time -/

/-- The reading from which on a merge may return the task. -/
def due (task : TimerTask) : Nat :=
  task.since + BEpTimer.Turns.ticks (1000 * timeWaitSeconds) task

namespace State

omit [DecidableEq T]

/-- The position and what it stands for, as an empty wheel. -/
def view (s : State T) : BEpTimer where
  taskItemBucket := fun _ => TaskItemsList.new
  taskItemBucketSize := s.taskItemBucketSize
  lastCheckTime := s.tick
  bucketPosNow := s.bucketPosNow
  owner := fun _ => none

/-- The reading at which the position reaches the bucket `b` next. -/
def reachedAt (s : State T) (b : Nat) : Nat :=
  s.tick + Ring.ticksTo s.taskItemBucketSize s.bucketPosNow b

/-- A task is in the bucket `b`, or a thread is to push it there. -/
def Bound (s : State T) (b : Nat) (task : TimerTask) : Prop :=
  task ∈ s.items (.bucket b) ∨ ∃ t, s.chosen t = some b ∧ task ∈ s.items (.hand t)

end State

/-- The loop has to drain the last bucket, and wraps before it can end. -/
def Merge.Spins (m : Merge) (size pos : Nat) : Prop :=
  m.targetPos + 1 = size ∧ pos < m.targetPos

/-- A merge that drains buckets. -/
structure Draining (s : State T) (m : Merge) : Prop where
  clock : s.tick = s.lastCheckTime
  forward : s.tick ≤ m.now
  target : m.targetPos =
    Ring.ahead s.taskItemBucketSize s.bucketPosNow (m.now - s.tick)
  spins : m.Spins s.taskItemBucketSize s.bucketPosNow → m.i ≤ m.targetPos
  index : ¬ m.Spins s.taskItemBucketSize s.bucketPosNow →
    s.bucketPosNow < m.i ∧ (m.i ≤ m.targetPos + 1 ∨ m.i = s.bucketPosNow + 1)
  result : ¬ m.Spins s.taskItemBucketSize s.bucketPosNow →
    ∀ task ∈ s.items (.result s.merges), due task ≤ m.now

/-- A merge that has stored the position and not yet the clock. -/
structure Stored (s : State T) (m : Merge) : Prop where
  clock : s.tick = m.now
  result : ∀ task ∈ s.items (.result s.merges), due task ≤ m.now

/-- No bucket is reached before the tasks bound for it are due. -/
structure Timely (s : State T) : Prop where
  sized : BEpTimer.Turns.Sized s.view
  idle : s.merge = none → s.tick = s.lastCheckTime ∧ s.items (.result s.merges) = []
  draining : ∀ m, s.merge = some m → m.stored = false → m.now < 2 ^ 63 ∧ Draining s m
  stored : ∀ m, s.merge = some m → m.stored = true → m.now < 2 ^ 63 ∧ Stored s m
  later : ∀ k, s.merges < k → s.items (.result k) = []
  returned : ∀ k < s.merges, ∀ task ∈ s.items (.result k), due task ≤ s.readings k
  inTime : ∀ b, 0 < b → b + 1 < s.taskItemBucketSize → s.reachedAt b < 2 ^ 63 →
    ∀ task, s.Bound b task → due task ≤ s.reachedAt b

omit [DecidableEq T] in
theorem new_timely (made : Reading) : Timely (new made : State T) where
  sized := ⟨rfl, by simp [State.view, new, timeWaitSeconds], made.isLt⟩
  idle _ := ⟨rfl, rfl⟩
  draining m running := by cases running
  stored m running := by cases running
  later _ _ := rfl
  returned k inside := absurd inside (Nat.not_lt_zero k)
  inTime b _ _ _ task bound := by
    rcases bound with inside | ⟨t, chosen, -⟩
    · cases inside
    · cases chosen

omit [DecidableEq T] in
/-- A registration chooses the bucket that is reached when the task is due. -/
theorem reachedAt_getBucket (sized : BEpTimer.Turns.Sized s.view) (id msWant : Nat) :
    s.reachedAt (s.getBucket msWant) = due ⟨id, s.tick, msWant⟩ := by
  have reached := BEpTimer.Turns.reachedAt_getBucket sized id msWant
  have size : s.view.taskItemBucketSize = 1000 * timeWaitSeconds := sized.size
  rw [size] at reached
  exact reached

omit [DecidableEq T] in
/-- A thread takes a bucket for its task, or pushes it: what is bound for each bucket is in
time, and nothing else changes. -/
theorem Timely.keep (timely : Timely s) {chosen : T → Option Nat} {items : Place T → List TimerTask}
    {started : List TimerTask} (results : ∀ k, items (.result k) = s.items (.result k))
    (inTime : ∀ b task, State.Bound { s with chosen := chosen, items := items } b task →
      s.Bound b task ∨ due task ≤ s.reachedAt b) :
    Timely { s with chosen := chosen, items := items, started := started } where
  sized := timely.sized
  idle none_runs := by simpa only [results] using timely.idle none_runs
  draining m running going := by
    obtain ⟨small, draining⟩ := timely.draining m running going
    exact ⟨small, draining.clock, draining.forward, draining.target, draining.spins,
      draining.index, by simpa only [results] using draining.result⟩
  stored m running done := by
    obtain ⟨small, stored⟩ := timely.stored m running done
    exact ⟨small, stored.clock, by simpa only [results] using stored.result⟩
  later k beyond := by simpa only [results] using timely.later k beyond
  returned k below := by simpa only [results] using timely.returned k below
  inTime b positive short reading task bound := by
    rcases inTime b task bound with before | fine
    · exact timely.inTime b positive short reading task before
    · exact fine

theorem Timely.read (timely : Timely s) (kept : Kept s) {t : T} {id msWant : Nat}
    (idle : s.chosen t = none) : Timely (s.read t id msWant) := by
  refine timely.keep (fun k => by simp) fun b task bound => ?_
  rcases bound with inside | ⟨u, chosen, hand⟩
  · exact .inl (.inl (by simpa using inside))
  · by_cases mine : u = t
    · -- the new task, for the bucket of its due time
      subst mine
      simp only [Function.update_self, Option.some.injEq, kept.hands u idle, List.nil_append,
        List.mem_singleton] at chosen hand
      rw [← chosen, hand]
      exact .inr (reachedAt_getBucket timely.sized id msWant).ge
    · simp only [Function.update_of_ne mine] at chosen
      exact .inl (.inr ⟨u, chosen, by simpa [mine] using hand⟩)

theorem Timely.push (timely : Timely s) {t : T} {b : Nat} (chosen : s.chosen t = some b) :
    Timely (s.push t b) := by
  refine timely.keep (fun k => by simp) fun b' task bound => .inl ?_
  rcases bound with inside | ⟨u, theirs, hand⟩
  · by_cases here : b' = b
    · subst here
      simp only [Function.update_self, List.mem_append] at inside
      exact inside.imp_right fun pushed => ⟨t, chosen, pushed⟩
    · exact .inl (by simpa [here] using inside)
  · by_cases mine : u = t
    · simp [mine] at theirs
    · simp only [Function.update_of_ne mine] at theirs
      exact .inr ⟨u, theirs, by simpa [mine] using hand⟩

/-- A clock that does not go back. -/
def Forward (s : State T) : Label T → Prop
  | .begin now => s.lastCheckTime ≤ now
  | _ => True

instance (s : State T) : (label : Label T) → Decidable (Forward s label)
  | .begin now => inferInstanceAs (Decidable (s.lastCheckTime ≤ now))
  | .read _ _ _ | .push _ | .turn => inferInstanceAs (Decidable True)

omit [DecidableEq T] in
theorem Timely.begin (timely : Timely s) {now : Reading} (free : s.merge = none)
    (forward : s.lastCheckTime ≤ now) :
    Timely { s with merge := some ⟨now, s.targetPos now, s.bucketPosNow + 1, false⟩ } := by
  obtain ⟨clock, empty⟩ := timely.idle free
  have inside : s.bucketPosNow < s.taskItemBucketSize := timely.sized.inside
  have target : s.targetPos now =
      Ring.ahead s.taskItemBucketSize s.bucketPosNow (now - s.tick) := by
    have onward : s.view.lastCheckTime ≤ now := by
      rw [← clock] at forward
      exact forward
    have ahead := BEpTimer.targetPos_ahead timely.sized.inside timely.sized.small onward now.isLt
    rw [State.targetPos, ← clock]
    exact ahead
  have below : s.targetPos now < s.taskItemBucketSize := Nat.mod_lt _ (by omega)
  refine ⟨timely.sized, by simp, ?_, ?_, timely.later, timely.returned, timely.inTime⟩
  · rintro m ⟨⟩ -
    refine ⟨now.isLt, clock, by rw [clock]; exact forward, target, ?_, ?_, ?_⟩
    · rintro ⟨last, behind⟩
      exact Nat.succ_le_of_lt behind
    · intro _
      exact ⟨Nat.lt_succ_self _, .inr rfl⟩
    · rw [empty]
      simp
  · rintro m ⟨⟩ done
    cases done

omit [DecidableEq T] in
/-- The tasks of a bucket that a merge drains are due. -/
theorem Timely.bucket_due (timely : Timely s) {m : Merge} (running : s.merge = some m)
    (going : m.stored = false) (calm : ¬ m.Spins s.taskItemBucketSize s.bucketPosNow)
    (more : m.i ≤ m.targetPos) : ∀ task ∈ s.items (.bucket m.i), due task ≤ m.now := by
  intro task member
  obtain ⟨small, draining⟩ := timely.draining m running going
  obtain ⟨behind, -⟩ := draining.index calm
  have inside : s.bucketPosNow < s.taskItemBucketSize := timely.sized.inside
  have below : m.targetPos < s.taskItemBucketSize := by
    rw [draining.target]
    exact Ring.ahead_lt (by omega) _ _
  have short : m.targetPos + 1 < s.taskItemBucketSize := by
    by_contra last
    exact calm ⟨by omega, by omega⟩
  -- the elapsed time has led past the bucket
  have forward := draining.forward
  have ticks := Ring.ticksTo_le_of_passed behind (draining.target ▸ more)
  have reached : s.reachedAt m.i ≤ m.now := by
    rw [State.reachedAt]
    omega
  have early := timely.inTime m.i (by omega) (by omega) (by omega) task (.inl member)
  omega

theorem Timely.drain (timely : Timely s) {m : Merge} (running : s.merge = some m)
    (going : m.stored = false) (more : m.i ≤ m.targetPos) : Timely (s.drain m) := by
  obtain ⟨small, draining⟩ := timely.draining m running going
  have inside : s.bucketPosNow < s.taskItemBucketSize := timely.sized.inside
  have below : m.targetPos < s.taskItemBucketSize := by
    rw [draining.target]
    exact Ring.ahead_lt (by omega) _ _
  have others : ∀ k, k ≠ s.merges → (s.drain m).items (.result k) = s.items (.result k) := by
    intro k other
    simp [State.drain, other]
  have fewer : ∀ b task, (s.drain m).Bound b task → s.Bound b task := by
    rintro b task (inside | ⟨t, chosen, hand⟩)
    · by_cases here : b = m.i
      · simp [State.drain, here] at inside
      · exact .inl (by simpa [State.drain, here] using inside)
    · exact .inr ⟨t, chosen, by simpa [State.drain] using hand⟩
  refine ⟨timely.sized, by simp [State.drain], ?_, ?_, ?_, ?_, ?_⟩
  · rintro _ ⟨⟩ -
    refine ⟨small, draining.clock, draining.forward, draining.target, ?_, ?_, ?_⟩
    · rintro ⟨last, -⟩
      -- past the last bucket the index goes on with the first
      change m.targetPos + 1 = s.taskItemBucketSize at last
      have wrapped := Nat.mod_lt (m.i + 1) (show 0 < s.taskItemBucketSize by omega)
      change (m.i + 1) % s.taskItemBucketSize ≤ m.targetPos
      omega
    · intro calm
      obtain ⟨behind, -⟩ := draining.index calm
      have short : m.targetPos + 1 < s.taskItemBucketSize := by
        by_contra last
        exact calm ⟨by change m.targetPos + 1 = s.taskItemBucketSize; omega, by
          change s.bucketPosNow < m.targetPos; omega⟩
      have next : (m.i + 1) % s.taskItemBucketSize = m.i + 1 := Nat.mod_eq_of_lt (by omega)
      change s.bucketPosNow < (m.i + 1) % s.taskItemBucketSize ∧
        ((m.i + 1) % s.taskItemBucketSize ≤ m.targetPos + 1 ∨
          (m.i + 1) % s.taskItemBucketSize = s.bucketPosNow + 1)
      rw [next]
      omega
    · intro calm task member
      simp only [State.drain, Function.update_self, List.mem_append] at member
      rcases member with before | drained
      · exact draining.result calm task before
      · exact timely.bucket_due running going calm more task drained
  · rintro _ ⟨⟩ done
    rw [going] at done
    cases done
  · intro k beyond
    rw [others k (by change s.merges < k at beyond; omega)]
    exact timely.later k beyond
  · intro k returned
    rw [others k (by change k < s.merges at returned; omega)]
    exact timely.returned k returned
  · intro b positive short reading task bound
    exact timely.inTime b positive short reading task (fewer b task bound)

omit [DecidableEq T] in
/-- Less time is left when a merge has stored the position, and no bucket is reached sooner. -/
theorem Timely.store (timely : Timely s) {m : Merge} (running : s.merge = some m)
    (going : m.stored = false) (ended : ¬ m.i ≤ m.targetPos) :
    Timely { s with
      bucketPosNow := m.targetPos
      tick := m.now
      merge := some { m with stored := true } } := by
  obtain ⟨small, draining⟩ := timely.draining m running going
  have inside : s.bucketPosNow < s.taskItemBucketSize := timely.sized.inside
  have below : m.targetPos < s.taskItemBucketSize := by
    rw [draining.target]
    exact Ring.ahead_lt (by omega) _ _
  refine ⟨⟨timely.sized.size, below, small⟩, by simp, ?_, ?_, timely.later, timely.returned, ?_⟩
  · rintro _ ⟨⟩ going'
    cases going'
  · rintro _ ⟨⟩ -
    exact ⟨small, rfl, draining.result fun spins => ended (draining.spins spins)⟩
  · intro b positive short reading task bound
    have onward := Ring.ticksTo_le_add inside (show b < s.taskItemBucketSize by
      change b + 1 < s.taskItemBucketSize at short; omega) (m.now - s.tick)
    rw [← draining.target] at onward
    have forward := draining.forward
    have later : s.reachedAt b ≤ m.now + Ring.ticksTo s.taskItemBucketSize m.targetPos b := by
      rw [State.reachedAt]
      omega
    change m.now + Ring.ticksTo s.taskItemBucketSize m.targetPos b < 2 ^ 63 at reading
    have early := timely.inTime b positive short (by omega) task bound
    exact Nat.le_trans early later

omit [DecidableEq T] in
/-- The merge returns its list. -/
theorem Timely.return (timely : Timely s) {m : Merge} (running : s.merge = some m)
    (done : m.stored = true) :
    Timely { s with
      lastCheckTime := m.now
      merge := none
      merges := s.merges + 1
      readings := Function.update s.readings s.merges m.now } := by
  obtain ⟨small, stored⟩ := timely.stored m running done
  refine ⟨timely.sized, ?_, by simp, by simp, ?_, ?_, timely.inTime⟩
  · exact fun _ => ⟨stored.clock, timely.later _ (Nat.lt_succ_self _)⟩
  · intro k beyond
    exact timely.later k (Nat.lt_of_succ_lt beyond)
  · intro k returned task member
    by_cases this : k = s.merges
    · subst this
      simpa using stored.result task member
    · simp only [Function.update_of_ne this]
      exact timely.returned k (by change k < s.merges + 1 at returned; omega) task member

theorem step_timely {label : Label T} {next : State T} (kept : Kept s) (timely : Timely s)
    (forward : Forward s label) (stepped : step s label = some next) : Timely next := by
  cases label with
  | read t id msWant =>
    simp only [step] at stepped
    split at stepped
    next allowed => cases stepped; exact timely.read kept allowed.1
    · cases stepped
  | push t =>
    obtain ⟨b, chosen, rfl⟩ := Option.map_eq_some_iff.mp stepped
    exact timely.push chosen
  | begin now =>
    simp only [step] at stepped
    split at stepped
    · cases stepped
    next free => cases stepped; exact timely.begin free forward
  | turn =>
    obtain ⟨m, running, rfl⟩ := Option.map_eq_some_iff.mp stepped
    unfold State.turn
    split
    next done => exact timely.return running done
    next going =>
      have going : m.stored = false := by simpa using going
      split
      next more => exact timely.drain running going more
      next ended => exact timely.store running going ended

/-- With a clock that does not go back, and however the loads and the pushes of the registrations
fall between the steps of the merges: what a merge has returned was registered for no later than
its reading, counted from the reading that the position stood for when `getBucket` loaded it. A
timeout of 0 and one longer than a turn count as a whole turn. -/
theorem never_early (made : Reading) (s : State T)
    (reached : (machine T made).ReachableBy Forward s) (k : Nat) (returned : k < s.merges)
    (task : TimerTask) (member : task ∈ s.items (.result k)) :
    task.since + min task.want s.taskItemBucketSize ≤ s.readings k ∧
      (task.want = 0 → task.since + s.taskItemBucketSize ≤ s.readings k) := by
  have both : Kept s ∧ Timely s := by
    refine reached.invariant (fun s => Kept s ∧ Timely s) ?_ ?_
    · rintro _ rfl
      exact ⟨⟨⟨_, Filing.Filed.empty, by simp [new]⟩, by simp [new]⟩, new_timely made⟩
    · rintro s label next ⟨kept, timely⟩ forward stepped
      exact ⟨step_kept kept stepped, step_timely kept timely forward stepped⟩
  have size : s.taskItemBucketSize = 1000 * timeWaitSeconds := both.2.sized.size
  have early := both.2.returned k returned task member
  rw [due, BEpTimer.Turns.ticks] at early
  rw [size]
  split at early
  next zero => exact ⟨by omega, fun _ => early⟩
  next wants => exact ⟨early, fun zero => absurd zero wants⟩

/-- The task of `stale` is returned by the second merge, 5 ms after its registration. -/
theorem never_early_stale : ∃ s : State Unit, s.merges = 2 ∧
    (⟨7, 0, 3⟩ : TimerTask) ∈ s.items (.result 1) ∧
      0 + min 3 s.taskItemBucketSize ≤ s.readings 1 := by
  have ran : ((machine Unit 0).execWhile Forward (new 0) stale).isSome := rfl
  obtain ⟨s, ran⟩ := Option.isSome_iff_exists.mp ran
  have reached := Transition.Machine.execWhile_reachableBy Forward (.start rfl) stale ran
  have there : s.merges = 2 ∧ (⟨7, 0, 3⟩ : TimerTask) ∈ s.items (.result 1) := by
    cases ran
    exact ⟨rfl, List.mem_singleton_self _⟩
  exact ⟨s, there.1, there.2, (never_early 0 s reached 1 (by omega) _ there.2).1⟩

end BRoutine.Race
