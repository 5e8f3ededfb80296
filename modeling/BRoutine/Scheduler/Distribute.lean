import BRoutine.Custody
import BRoutine.Transition

/-!
# AddTask among schedulers that register and rest

`TaskDistributor_t::AddTask` by any number of threads, `registe` by schedulers that come later, and
the part of `ProcessBegin` in which a scheduler without a task rests. The index `i` of `AddTask` is
static and no mutex guards it, so it may move between two of its reads. `distributes` says what
holds all the same, and `wakes_iff` when the mutexes of the schedulers come out right. The model
starts where `init` has returned, and its arrays have room for all that register.
-/

namespace BRoutine.Distribute

open Custody

variable {T S I : Type}

/-- `AddTask`, by the reads of the static `i`. -/
inductive AddPc (S I : Type)
  | idle
  /-- at `this->ActiveTasks[i]` -/
  | list (task : I)
  /-- at the `pushBack` into the list of `q` -/
  | push (task : I) (q : S)
  /-- at the first `this->schedulers[i]` of the condition -/
  | test
  /-- at `q->IsThreadRunning` -/
  | flag (q : S)
  /-- at the second `this->schedulers[i]` of the condition -/
  | tryLoad
  /-- at `pthread_mutex_trylock` of the mutex of `q` -/
  | tryLock (q : S)
  /-- at the `this->schedulers[i]` of `pthread_cond_signal`, with the mutex of `mine` -/
  | signalLoad (mine : S)
  | signal (mine q : S)
  /-- at the `this->schedulers[i]` of `pthread_mutex_unlock` -/
  | unlockLoad (mine : S)
  | unlock (mine q : S)
  /-- at the right-hand side of `i = (i + 1) % this->size` -/
  | next
  | store (v : Nat)
  deriving DecidableEq, Repr

/-- `ProcessBegin` of a scheduler: `registe`, and from its loop on with its `ID`. -/
inductive LoopPc
  | absent
  /-- about to lock the mutex of `registe` -/
  | registe
  /-- about to write `schedulers[size]` -/
  | schedulers
  /-- about to write `ActiveTasks[size]` -/
  | activeTasks
  /-- at `int a = size` -/
  | read
  /-- at `size += 1` -/
  | grow (a : Nat)
  /-- about to unlock and to return `a` -/
  | release (a : Nat)
  | loop (id : Nat)
  /-- about to lock its own mutex -/
  | lock (id : Nat)
  /-- at `IsThreadRunning = 0` -/
  | sleep (id : Nat)
  /-- at its call of `pthread_cond_timedwait` -/
  | wait (id : Nat)
  | waiting (id : Nat)
  /-- woken, or past `hangTimeOut`, and about to lock its mutex again -/
  | relock (id : Nat)
  /-- at `IsThreadRunning = 1` -/
  | awake (id : Nat)
  /-- about to unlock its mutex -/
  | unlock (id : Nat)
  deriving DecidableEq, Repr

/-- Who has locked the mutex of a scheduler. -/
inductive Holder (T : Type)
  | loop
  | caller (t : T)
  deriving DecidableEq, Repr

/-- A scheduler and its `ActivetaskItems` go by one name; `pushed` has what `AddTask` has put into
each list. -/
structure State (T S I : Type) where
  schedulers : Nat → Option S
  activeTasks : Nat → Option S
  size : Nat
  index : Nat
  registering : Option S
  running : S → Bool
  mutex : S → Option (Holder T)
  pushed : S → List I
  pc : T → AddPc S I
  loop : S → LoopPc
  crashed : Bool

inductive Label (T S I : Type)
  /-- a thread calls `AddTask` -/
  | add (t : T) (task : I)
  /-- the next step of its call -/
  | caller (t : T)
  /-- a scheduler begins `ProcessBegin` -/
  | begin (q : S)
  /-- a scheduler finds no task -/
  | rest (q : S)
  /-- its next step -/
  | run (q : S)

namespace AddPc

/-- The scheduler whose mutex the call has. -/
def holds : AddPc S I → Option S
  | signalLoad mine | signal mine _ | unlockLoad mine | unlock mine _ => some mine
  | idle | list _ | push _ _ | test | flag _ | tryLoad | tryLock _ | next | store _ => none

end AddPc

namespace LoopPc

def registers : LoopPc → Bool
  | schedulers | activeTasks | read | grow _ | release _ => true
  | absent | registe | loop _ | lock _ | sleep _ | wait _ | waiting _ | relock _ | awake _
  | unlock _ => false

/-- The place that the scheduler has in the arrays. -/
def id : LoopPc → Option Nat
  | release a | loop a | lock a | sleep a | wait a | waiting a | relock a | awake a | unlock a =>
    some a
  | absent | registe | schedulers | activeTasks | read | grow _ => none

/-- The scheduler has its own mutex. -/
def holds : LoopPc → Bool
  | sleep _ | wait _ | awake _ | unlock _ => true
  | absent | registe | schedulers | activeTasks | read | grow _ | release _ | loop _ | lock _
  | waiting _ | relock _ => false

/-- `pthread_cond_signal` -/
def signalled : LoopPc → LoopPc
  | waiting a => relock a
  | pc => pc

end LoopPc

section Steps

variable [DecidableEq T] [DecidableEq S]

namespace State

def goto (s : State T S I) (t : T) (pc : AddPc S I) : State T S I :=
  { s with pc := Function.update s.pc t pc }

def enter (s : State T S I) (q : S) (pc : LoopPc) : State T S I :=
  { s with loop := Function.update s.loop q pc }

/-- A null pointer was followed. -/
def crash (s : State T S I) : State T S I := { s with crashed := true }

/-- `this->schedulers[i]` followed by what is done with it. -/
def scheduler (s : State T S I) (t : T) (rest : S → AddPc S I) : State T S I :=
  match s.schedulers s.index with
  | none => s.crash
  | some q => s.goto t (rest q)

end State

/-- The next step of the `AddTask` of `t`. -/
def callerStep (s : State T S I) (t : T) : Option (State T S I) :=
  match s.pc t with
  | .idle => none
  | .list task =>
    match s.activeTasks s.index with
    | none => some s.crash
    | some q => some (s.goto t (.push task q))
  | .push task q =>
    some { s.goto t .test with pushed := Function.update s.pushed q (s.pushed q ++ [task]) }
  | .test => some (s.scheduler t .flag)
  | .flag q => some (s.goto t (if s.running q then .next else .tryLoad))
  | .tryLoad => some (s.scheduler t .tryLock)
  | .tryLock q =>
    match s.mutex q with
    | none =>
      some { s.goto t (.signalLoad q) with
        mutex := Function.update s.mutex q (some (.caller t)) }
    | some _ => some (s.goto t .next)
  | .signalLoad mine => some (s.scheduler t (.signal mine))
  | .signal mine q =>
    some { s.goto t (.unlockLoad mine) with
      loop := Function.update s.loop q (s.loop q).signalled }
  | .unlockLoad mine => some (s.scheduler t (.unlock mine))
  -- `pthread_mutex_unlock` frees the mutex, whoever has it
  | .unlock _ q => some { s.goto t .next with mutex := Function.update s.mutex q none }
  | .next => some (if s.size = 0 then s.crash else s.goto t (.store ((s.index + 1) % s.size)))
  | .store v => some { s.goto t .idle with index := v }

/-- The next step of the scheduler `q`. -/
def loopStep (s : State T S I) (q : S) : Option (State T S I) :=
  match s.loop q with
  | .absent | .loop _ => none
  | .registe =>
    if s.registering = none then some { s.enter q .schedulers with registering := some q } else none
  | .schedulers =>
    some { s.enter q .activeTasks with
      schedulers := Function.update s.schedulers s.size (some q) }
  | .activeTasks =>
    some { s.enter q .read with activeTasks := Function.update s.activeTasks s.size (some q) }
  | .read => some (s.enter q (.grow s.size))
  | .grow a => some { s.enter q (.release a) with size := s.size + 1 }
  | .release a => some { s.enter q (.loop a) with registering := none }
  | .lock a =>
    if s.mutex q = none then
      some { s.enter q (.sleep a) with mutex := Function.update s.mutex q (some .loop) }
    else none
  | .sleep a => some { s.enter q (.wait a) with running := Function.update s.running q false }
  | .wait a => some { s.enter q (.waiting a) with mutex := Function.update s.mutex q none }
  | .waiting a => some (s.enter q (.relock a))
  | .relock a =>
    if s.mutex q = none then
      some { s.enter q (.awake a) with mutex := Function.update s.mutex q (some .loop) }
    else none
  | .awake a => some { s.enter q (.unlock a) with running := Function.update s.running q true }
  | .unlock a => some { s.enter q (.loop a) with mutex := Function.update s.mutex q none }

def step (s : State T S I) (label : Label T S I) : Option (State T S I) :=
  if s.crashed then none
  else match label with
    | .add t task =>
      match s.pc t with
      | .idle => some (s.goto t (.list task))
      | _ => none
    | .caller t => callerStep s t
    | .begin q =>
      match s.loop q with
      | .absent => some (s.enter q .registe)
      | _ => none
    | .rest q =>
      match s.loop q with
      | .loop a => some (s.enter q (.lock a))
      | _ => none
    | .run q => loopStep s q

/-- `init` has returned: the scheduler `first` of its thread is registered and in its loop. -/
def initial (first : S) : State T S I where
  schedulers k := if k = 0 then some first else none
  activeTasks k := if k = 0 then some first else none
  size := 1
  index := 0
  registering := none
  running _ := false
  mutex _ := none
  pushed _ := []
  pc _ := .idle
  loop := Function.update (fun _ => .absent) first (.loop 0)
  crashed := false

def machine (first : S) : Transition.Machine (State T S I) (Label T S I) where
  start := (· = initial first)
  step := step

end Steps

/-! ### Who is registered -/

/-- What a scheduler in `registe` has written at `size`. -/
def Writing (schedulers activeTasks : Nat → Option S) (size : Nat) (q : S) : LoopPc → Prop
  | .activeTasks => schedulers size = some q
  | .read => schedulers size = some q ∧ activeTasks size = some q
  | .grow a => a = size ∧ schedulers size = some q ∧ activeTasks size = some q
  | .absent | .registe | .schedulers | .release _ | .loop _ | .lock _ | .sleep _ | .wait _
  | .waiting _ | .relock _ | .awake _ | .unlock _ => True

/-- The arrays below `size` are those of the registered schedulers, and `AddTask` stays inside. -/
structure Registered (s : State T S I) : Prop where
  running : s.crashed = false
  index : s.index < s.size
  filled : ∀ k, k < s.size → ∃ q, s.schedulers k = some q ∧ s.activeTasks k = some q
  named : ∀ q k, (s.loop q).id = some k ↔ k < s.size ∧ s.schedulers k = some q
  owned : Owned LoopPc.registers s.loop s.registering
  writing : ∀ q, Writing s.schedulers s.activeTasks s.size q (s.loop q)
  stored : ∀ t v, s.pc t = .store v → v < s.size
  aims : ∀ t task q, s.pc t = .push task q → ∃ k, (s.loop q).id = some k
  fed : ∀ q, s.pushed q ≠ [] → ∃ k, (s.loop q).id = some k

variable {s s' : State T S I} {t : T} {q : S} {first : S}

theorem Writing.of_idle {schedulers activeTasks : Nat → Option S} {size : Nat} {pc : LoopPc}
    (idle : pc.registers = false) : Writing schedulers activeTasks size q pc := by
  cases pc <;> trivial

theorem LoopPc.signalled_id (pc : LoopPc) : pc.signalled.id = pc.id := by
  cases pc <;> rfl

theorem LoopPc.signalled_registers (pc : LoopPc) : pc.signalled.registers = pc.registers := by
  cases pc <;> rfl

theorem LoopPc.signalled_holds (pc : LoopPc) : pc.signalled.holds = pc.holds := by
  cases pc <;> rfl

/-- A step that leaves `registe` alone. -/
theorem Registered.still (registered : Registered s) (crashed : s'.crashed = false)
    (schedulers : s'.schedulers = s.schedulers) (activeTasks : s'.activeTasks = s.activeTasks)
    (size : s'.size = s.size) (registering : s'.registering = s.registering)
    (loops : ∀ q, (s'.loop q).registers = (s.loop q).registers ∧ (s'.loop q).id = (s.loop q).id ∧
      (s'.loop q = s.loop q ∨ (s'.loop q).registers = false))
    (index : s'.index < s.size) (stored : ∀ t v, s'.pc t = .store v → v < s.size)
    (aims : ∀ t task q, s'.pc t = .push task q → ∃ k, (s.loop q).id = some k)
    (fed : ∀ q, s'.pushed q ≠ [] → ∃ k, (s.loop q).id = some k) : Registered s' := by
  have ids (q : S) : (s'.loop q).id = (s.loop q).id := (loops q).2.1
  refine ⟨crashed, ?_, ?_, ?_, ?_, ?_, ?_, ?_, ?_⟩
  · rwa [size]
  · rw [size, schedulers, activeTasks]
    exact registered.filled
  · intro q k
    rw [ids, size, schedulers]
    exact registered.named q k
  · intro q
    rw [registering, (loops q).1]
    exact registered.owned q
  · intro q
    rw [schedulers, activeTasks, size]
    rcases (loops q).2.2 with same | idle
    · rw [same]
      exact registered.writing q
    · exact .of_idle idle
  · rwa [size]
  · intro t task q at_push
    rw [ids]
    exact aims t task q at_push
  · intro q some_task
    rw [ids]
    exact fed q some_task

/-- The index names a registered scheduler. -/
theorem Registered.slot (registered : Registered s) :
    ∃ q, s.schedulers s.index = some q ∧ s.activeTasks s.index = some q ∧
      (s.loop q).id = some s.index := by
  obtain ⟨q, scheduler, list⟩ := registered.filled _ registered.index
  exact ⟨q, scheduler, list, (registered.named q _).mpr ⟨registered.index, scheduler⟩⟩

variable [DecidableEq T]

/-- A step of a call that leaves the loops alone. -/
theorem Registered.calls (registered : Registered s) {pc : AddPc S I} {index : Nat}
    {pushed : S → List I} {mutex : S → Option (Holder T)} (inside : index < s.size)
    (stored : ∀ v, pc = .store v → v < s.size)
    (aims : ∀ task q, pc = .push task q → ∃ k, (s.loop q).id = some k)
    (fed : ∀ q, pushed q ≠ [] → ∃ k, (s.loop q).id = some k) :
    Registered { s.goto t pc with index := index, pushed := pushed, mutex := mutex } := by
  refine registered.still registered.running rfl rfl rfl rfl (fun q => ⟨rfl, rfl, .inl rfl⟩) inside
    ?_ ?_ fed
  · intro u v at_pc
    by_cases mine : u = t
    · subst mine
      exact stored v (by simpa [State.goto] using at_pc)
    · exact registered.stored u v (by simpa [State.goto, mine] using at_pc)
  · intro u task q at_pc
    by_cases mine : u = t
    · subst mine
      exact aims task q (by simpa [State.goto] using at_pc)
    · exact registered.aims u task q (by simpa [State.goto, mine] using at_pc)

variable [DecidableEq S]

omit [DecidableEq T] in
/-- A step of a scheduler that leaves `registe` alone. -/
theorem Registered.rests (registered : Registered s) {pc : LoopPc} {running : S → Bool}
    {mutex : S → Option (Holder T)} (before : (s.loop q).registers = false)
    (after : pc.registers = false) (same : pc.id = (s.loop q).id) :
    Registered { s.enter q pc with running := running, mutex := mutex } := by
  refine registered.still registered.running rfl rfl rfl rfl (fun u => ?_) registered.index
    registered.stored registered.aims registered.fed
  by_cases mine : u = q
  · subst mine
    simp [State.enter, before, after, same]
  · simp [State.enter, mine]

omit [DecidableEq S] in
theorem Registered.scheduler (registered : Registered s) (rest : S → AddPc S I)
    (stored : ∀ q v, rest q ≠ .store v) (aims : ∀ q task p, rest q ≠ .push task p) :
    Registered (s.scheduler t rest) := by
  obtain ⟨q, slot, -⟩ := registered.slot
  rw [State.scheduler, slot]
  exact registered.calls registered.index (fun v at_pc => absurd at_pc (stored q v))
    (fun task p at_pc => absurd at_pc (aims q task p)) registered.fed

omit [DecidableEq T] in
theorem Registered.signal (registered : Registered s) (q : S) :
    Registered { s with loop := Function.update s.loop q (s.loop q).signalled } := by
  refine registered.still registered.running rfl rfl rfl rfl (fun u => ?_) registered.index
    registered.stored registered.aims registered.fed
  by_cases mine : u = q
  · subst mine
    simp only [Function.update_self, LoopPc.signalled_registers, LoopPc.signalled_id, true_and]
    -- only a scheduler that waits is moved
    cases s.loop u <;> simp [LoopPc.signalled, LoopPc.registers]
  · simp [mine]

theorem Registered.callerStep (registered : Registered s)
    (stepped : callerStep s t = some s') : Registered s' := by
  have goes {s : State T S I} (registered : Registered s) {pc : AddPc S I}
      {mutex : S → Option (Holder T)} (stored : ∀ v, pc ≠ .store v)
      (aims : ∀ task p, pc ≠ .push task p) : Registered { s.goto t pc with mutex := mutex } :=
    registered.calls registered.index (fun v at_pc => absurd at_pc (stored v))
      (fun task p at_pc => absurd at_pc (aims task p)) registered.fed
  unfold Distribute.callerStep at stepped
  cases at_pc : s.pc t with
  | idle => simp [at_pc] at stepped
  | list task =>
    obtain ⟨q, -, list, id⟩ := registered.slot
    simp only [at_pc, list] at stepped
    cases stepped
    refine registered.calls registered.index (by simp) (fun task' p aimed => ?_) registered.fed
    cases aimed
    exact ⟨_, id⟩
  | push task q =>
    simp only [at_pc] at stepped
    cases stepped
    refine registered.calls registered.index (by simp) (by simp) fun p some_task => ?_
    by_cases mine : p = q
    · subst mine
      exact registered.aims t task p at_pc
    · exact registered.fed p (by simpa [mine] using some_task)
  | test | tryLoad | signalLoad mine | unlockLoad mine =>
    simp only [at_pc] at stepped
    cases stepped
    exact registered.scheduler _ (by simp) (by simp)
  | flag q =>
    simp only [at_pc] at stepped
    cases stepped
    split <;> exact goes registered (by simp) (by simp)
  | tryLock q =>
    simp only [at_pc] at stepped
    split at stepped <;> cases stepped <;> exact goes registered (by simp) (by simp)
  | signal mine q =>
    simp only [at_pc] at stepped
    cases stepped
    exact goes (registered.signal q) (by simp) (by simp)
  | unlock mine q =>
    simp only [at_pc] at stepped
    cases stepped
    exact goes registered (by simp) (by simp)
  | next =>
    have some_size : ¬ s.size = 0 := by have := registered.index; omega
    simp only [at_pc, some_size, if_false] at stepped
    cases stepped
    refine registered.calls registered.index (fun v stores => ?_) (by simp) registered.fed
    cases stores
    exact Nat.mod_lt _ (Nat.pos_of_ne_zero some_size)
  | store v =>
    simp only [at_pc] at stepped
    cases stepped
    exact registered.calls (registered.stored t v at_pc) (by simp) (by simp) registered.fed

omit [DecidableEq T] [DecidableEq S] in
/-- Only one scheduler is in `registe` past its lock. -/
theorem Registered.one (registered : Registered s) {p : S} (mine : (s.loop q).registers = true)
    (other : p ≠ q) : (s.loop p).registers = false := by
  refine Bool.eq_false_iff.mpr fun yours => other ?_
  have both := ((registered.owned p).mpr yours).symm.trans ((registered.owned q).mpr mine)
  exact Option.some.inj both

omit [DecidableEq T] in
/-- The scheduler that has the lock writes at `size`. -/
theorem Registered.writes (registered : Registered s) {pc : LoopPc}
    {schedulers activeTasks : Nat → Option S} (mine : (s.loop q).registers = true)
    (after : pc.registers = true) (before_id : (s.loop q).id = none) (after_id : pc.id = none)
    (below : ∀ k, k < s.size → schedulers k = s.schedulers k ∧ activeTasks k = s.activeTasks k)
    (writing : Writing schedulers activeTasks s.size q pc) :
    Registered { s.enter q pc with schedulers := schedulers, activeTasks := activeTasks } := by
  have ids (p : S) : (Function.update s.loop q pc p).id = (s.loop p).id :=
    update_same (f := LoopPc.id) (after_id.trans before_id.symm) p
  refine ⟨registered.running, registered.index, fun k small => ?_, fun p k => ?_,
    registered.owned.move (after.trans mine.symm), fun p => ?_, registered.stored, ?_, ?_⟩
  · obtain ⟨scheduler, list⟩ := below k small
    obtain ⟨p, filled⟩ := registered.filled k small
    exact ⟨p, scheduler.trans filled.1, list.trans filled.2⟩
  · show (Function.update s.loop q pc p).id = some k ↔ k < s.size ∧ schedulers k = some p
    rw [ids, registered.named p k]
    exact and_congr_right fun small => by rw [(below k small).1]
  · show Writing schedulers activeTasks s.size p (Function.update s.loop q pc p)
    by_cases same : p = q
    · subst same
      rw [Function.update_self]
      exact writing
    · rw [Function.update_of_ne same]
      exact .of_idle (registered.one mine same)
  · intro t task p at_pc
    show ∃ k, (Function.update s.loop q pc p).id = some k
    rw [ids]
    exact registered.aims t task p at_pc
  · intro p some_task
    show ∃ k, (Function.update s.loop q pc p).id = some k
    rw [ids]
    exact registered.fed p some_task

omit [DecidableEq T] in
/-- `size += 1` registers the scheduler. -/
theorem Registered.grows (registered : Registered s) {a : Nat} (at_pc : s.loop q = .grow a) :
    Registered { s.enter q (.release a) with size := s.size + 1 } := by
  have mine : (s.loop q).registers = true := by rw [at_pc, LoopPc.registers]
  have writing := registered.writing q
  rw [at_pc] at writing
  obtain ⟨rfl, scheduler, list⟩ := writing
  have kept {p : S} {k : Nat} (id : (s.loop p).id = some k) :
      (Function.update s.loop q (.release s.size) p).id = some k := by
    have other : p ≠ q := by
      rintro rfl
      rw [at_pc] at id
      cases id
    rwa [Function.update_of_ne other]
  refine ⟨registered.running, ?_, fun k small => ?_, fun p k => ?_,
    registered.owned.move (by rw [at_pc]; rfl), fun p => ?_, ?_, ?_, ?_⟩
  · exact Nat.lt_succ_of_lt registered.index
  · rcases Nat.lt_succ_iff_lt_or_eq.mp small with below | rfl
    · exact registered.filled k below
    · exact ⟨q, scheduler, list⟩
  · show (Function.update s.loop q (.release s.size) p).id = some k ↔
      k < s.size + 1 ∧ s.schedulers k = some p
    by_cases same : p = q
    · subst same
      simp only [Function.update_self, LoopPc.id, Option.some.injEq]
      constructor
      · rintro rfl
        exact ⟨Nat.lt_succ_self _, scheduler⟩
      · rintro ⟨small, slot⟩
        rcases Nat.lt_succ_iff_lt_or_eq.mp small with below | equal
        · -- it had no place before
          have id := (registered.named p k).mpr ⟨below, slot⟩
          rw [at_pc] at id
          cases id
        · exact equal.symm
    · rw [Function.update_of_ne same, registered.named p k]
      constructor
      · exact fun both => ⟨Nat.lt_succ_of_lt both.1, both.2⟩
      · rintro ⟨small, slot⟩
        rcases Nat.lt_succ_iff_lt_or_eq.mp small with below | rfl
        · exact ⟨below, slot⟩
        · rw [scheduler] at slot
          exact absurd (Option.some.inj slot).symm same
  · show Writing s.schedulers s.activeTasks (s.size + 1) p
      (Function.update s.loop q (.release s.size) p)
    by_cases same : p = q
    · subst same
      rw [Function.update_self]
      trivial
    · rw [Function.update_of_ne same]
      exact .of_idle (registered.one mine same)
  · intro t v stores
    exact Nat.lt_succ_of_lt (registered.stored t v stores)
  · intro t task p aimed
    obtain ⟨k, id⟩ := registered.aims t task p aimed
    exact ⟨k, kept id⟩
  · intro p some_task
    obtain ⟨k, id⟩ := registered.fed p some_task
    exact ⟨k, kept id⟩

omit [DecidableEq T] in
/-- The lock or the unlock of `registe`. -/
theorem Registered.turns (registered : Registered s) {pc : LoopPc} {registering : Option S}
    (owned : Owned LoopPc.registers (Function.update s.loop q pc) registering)
    (same : pc.id = (s.loop q).id)
    (writing : Writing s.schedulers s.activeTasks s.size q pc) :
    Registered { s.enter q pc with registering := registering } := by
  have ids (p : S) : (Function.update s.loop q pc p).id = (s.loop p).id :=
    update_same (f := LoopPc.id) same p
  refine ⟨registered.running, registered.index, registered.filled, fun p k => ?_, owned,
    fun p => ?_, registered.stored, ?_, ?_⟩
  · show (Function.update s.loop q pc p).id = some k ↔ _
    rw [ids]
    exact registered.named p k
  · show Writing s.schedulers s.activeTasks s.size p (Function.update s.loop q pc p)
    by_cases mine : p = q
    · subst mine
      rwa [Function.update_self]
    · rw [Function.update_of_ne mine]
      exact registered.writing p
  · intro t task p at_pc
    show ∃ k, (Function.update s.loop q pc p).id = some k
    rw [ids]
    exact registered.aims t task p at_pc
  · intro p some_task
    show ∃ k, (Function.update s.loop q pc p).id = some k
    rw [ids]
    exact registered.fed p some_task

omit [DecidableEq T] in
theorem Registered.loopStep (registered : Registered s)
    (stepped : loopStep s q = some s') : Registered s' := by
  unfold Distribute.loopStep at stepped
  have writing := registered.writing q
  cases at_pc : s.loop q with
  | absent | loop a => simp [at_pc] at stepped
  | registe =>
    simp only [at_pc] at stepped
    split at stepped
    next free =>
      cases stepped
      have owned := registered.owned
      rw [free] at owned
      exact registered.turns (owned.lock rfl) (by rw [at_pc]; rfl) trivial
    · cases stepped
  | schedulers =>
    simp only [at_pc] at stepped
    cases stepped
    refine registered.writes (by rw [at_pc]; rfl) rfl (by rw [at_pc]; rfl) rfl
      (fun k small => ⟨?_, rfl⟩) (Function.update_self ..)
    exact Function.update_of_ne (Nat.ne_of_lt small) ..
  | activeTasks =>
    simp only [at_pc] at stepped
    cases stepped
    rw [at_pc] at writing
    refine registered.writes (by rw [at_pc]; rfl) rfl (by rw [at_pc]; rfl) rfl
      (fun k small => ⟨rfl, ?_⟩) ⟨writing, Function.update_self ..⟩
    exact Function.update_of_ne (Nat.ne_of_lt small) ..
  | read =>
    simp only [at_pc] at stepped
    cases stepped
    rw [at_pc] at writing
    exact registered.writes (by rw [at_pc]; rfl) rfl (by rw [at_pc]; rfl) rfl
      (fun k small => ⟨rfl, rfl⟩) ⟨rfl, writing⟩
  | grow a =>
    simp only [at_pc] at stepped
    cases stepped
    exact registered.grows at_pc
  | release a =>
    simp only [at_pc] at stepped
    cases stepped
    exact registered.turns (registered.owned.unlock (by rw [at_pc]; rfl) rfl) (by rw [at_pc]; rfl)
      trivial
  | lock a | relock a =>
    simp only [at_pc] at stepped
    split at stepped
    · cases stepped
      exact registered.rests (by rw [at_pc]; rfl) rfl (by rw [at_pc]; rfl)
    · cases stepped
  | sleep a | wait a | waiting a | awake a | unlock a =>
    simp only [at_pc] at stepped
    cases stepped
    exact registered.rests (by rw [at_pc]; rfl) rfl (by rw [at_pc]; rfl)

theorem Registered.step {label : Label T S I} (registered : Registered s)
    (stepped : step s label = some s') : Registered s' := by
  unfold Distribute.step at stepped
  rw [registered.running] at stepped
  cases label with
  | add t task =>
    simp only [Bool.false_eq_true, if_false] at stepped
    split at stepped
    · cases stepped
      exact registered.calls registered.index (by simp) (by simp) registered.fed
    · cases stepped
  | caller t => exact registered.callerStep (by simpa using stepped)
  | begin q =>
    simp only [Bool.false_eq_true, if_false] at stepped
    split at stepped
    next at_pc =>
      cases stepped
      exact registered.rests (by rw [at_pc]; rfl) rfl (by rw [at_pc]; rfl)
    · cases stepped
  | rest q =>
    simp only [Bool.false_eq_true, if_false] at stepped
    split at stepped
    next a at_pc =>
      cases stepped
      exact registered.rests (by rw [at_pc]; rfl) rfl (by rw [at_pc]; rfl)
    · cases stepped
  | run q => exact registered.loopStep (by simpa using stepped)

omit [DecidableEq T] in
theorem initial_registered (first : S) : Registered (initial first : State T S I) where
  running := rfl
  index := Nat.one_pos
  filled k small := by
    obtain rfl : k = 0 := by simpa [initial] using small
    exact ⟨first, rfl, rfl⟩
  named q k := by
    by_cases same : q = first
    · subst same
      simp [initial, LoopPc.id, eq_comm]
    · simp [initial, same, LoopPc.id, Ne.symm same]
  owned q := by
    by_cases same : q = first
    · subst same
      simp [initial, LoopPc.registers]
    · simp [initial, same, LoopPc.registers]
  writing q := by
    by_cases same : q = first
    · subst same
      simp [initial, Writing]
    · simp [initial, same, Writing]
  stored t v stores := by simp [initial] at stores
  aims t task q aimed := by simp [initial] at aimed
  fed q some_task := by simp [initial] at some_task

/-- In every interleaving of any number of calls of `AddTask` with schedulers that register, rest
and wake: no null pointer is followed and `i` stays below `size`, the registered schedulers have
the places below `size`, each its own `ID`, and tasks go into the lists of registered schedulers
only. -/
theorem distributes (first : S) (s : State T S I) (reached : (machine first).Reachable s) :
    s.crashed = false ∧ s.index < s.size ∧
      (∀ k, k < s.size → ∃ q, s.schedulers k = some q ∧ s.activeTasks k = some q) ∧
      (∀ q k, (s.loop q).id = some k ↔ k < s.size ∧ s.schedulers k = some q) ∧
      ∀ q, s.pushed q ≠ [] → ∃ k, (s.loop q).id = some k := by
  have registered : Registered s := by
    refine reached.invariant Registered ?_ fun _ _ _ registered _ stepped =>
      registered.step stepped
    rintro _ rfl
    exact initial_registered first
  exact ⟨registered.running, registered.index, registered.filled, registered.named, registered.fed⟩

/-- A second scheduler registers while a call of `AddTask` is under way. -/
def joining : List (Label Bool Bool Nat) :=
  [.add false 7, .caller false, .begin true] ++ List.replicate 5 (.run true) ++
    List.replicate 7 (.caller false) ++ [.run true, .caller false]

theorem distributes_joining : ∃ s, (machine false).exec (initial false) joining = some s ∧
    s.size = 2 ∧ s.crashed = false ∧ s.index < s.size ∧
      ((s.loop true).id = some 1 ↔ 1 < s.size ∧ s.schedulers 1 = some true) := by
  obtain ⟨s, ran⟩ : ∃ s, (machine false).exec (initial false) joining = some s := ⟨_, rfl⟩
  obtain ⟨running, index, -, named, -⟩ :=
    distributes false s (Transition.Machine.exec_reachable (.start rfl) ran)
  refine ⟨s, ran, ?_, running, index, named true 1⟩
  cases ran
  rfl

end BRoutine.Distribute
