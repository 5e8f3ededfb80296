import BRoutine.Mutex.Model

/-!
# bCond

`bCond::wait`, `bCond::signalAll` and `bCond::signalOnce` over one condition and the mutex its
waiters pass, with the steps of `bMutex::lock` and `bMutex::unlock` taken from
`BRoutine.BMutex`. `wait` calls `unlock`, then `list->add`, then `SwapContext`, then `lock`, and
every other routine can move between any two of these.

The model counts the exchanges that acquire and release the mutex, so that two of them can be
ordered: `acquired r` and `released r` are the counts at the last ones of `r`.
-/

namespace BRoutine.BCond

/-- Where a routine stands in the operations of the condition. -/
inductive Pc (R : Type) where
  /-- in none of them: it may be anywhere in `lock` or `unlock` of its own -/
  | outside
  /-- in the `lock->unlock()` of `wait` -/
  | release
  /-- `unlock` has returned: about to call `list->add` -/
  | add
  /-- in the wait list: about to call `SwapContext` -/
  | swap
  /-- suspended in `wait` -/
  | asleep
  /-- in the `lock->lock()` of `wait` -/
  | relock
  /-- at the `list->pop()` in the loop of `signalAll` -/
  | popAll
  /-- in the loop of `signalAll` with the routine of the popped entry: about to call `AddTask` -/
  | wakeAll (routine : R)
  /-- the loop of `signalAll` has ended -/
  | signalled
  /-- at the `list->pop()` of `signalOnce` -/
  | popOnce
  /-- in `signalOnce` with the routine of the popped entry: about to call `AddTask` -/
  | wakeOnce (routine : R)
  deriving DecidableEq, Repr

/-- The mutex with the ready queues, the condition's list and the program points. -/
structure State (R : Type) where
  mutex : BMutex.State R
  list : List R
  pc : R → Pc R
  crashed : Bool
  count : Nat
  acquired : R → Nat
  released : R → Nat

/-- The next step of a routine, or a call it makes while it is outside every operation. -/
inductive Label (R : Type) where
  | run (r : R)
  | wait (r : R)
  | signalAll (r : R)
  | signalOnce (r : R)
  deriving DecidableEq, Repr

variable {R : Type} [DecidableEq R]

def initial : State R :=
  ⟨BMutex.initial, [], fun _ => .outside, false, 1, fun _ => 0, fun _ => 0⟩

def State.goto (s : State R) (r : R) (p : Pc R) : State R :=
  { s with pc := Function.update s.pc r p }

/-- Installs the mutex after a step of `r` and counts an exchange that acquired or released it. -/
def State.install (s : State R) (r : R) (mutex : BMutex.State R) : State R :=
  match mutex.pc r with
  | .locked =>
    { s with
      mutex := mutex, count := s.count + 1, acquired := Function.update s.acquired r s.count }
  | .pop =>
    { s with
      mutex := mutex, count := s.count + 1, released := Function.update s.released r s.count }
  | _ => { s with mutex := mutex }

/-- `AddTask` of a task whose `self` is `routine`. -/
def State.addTask (s : State R) (routine : R) : State R :=
  { s with mutex := { s.mutex with ready := s.mutex.ready ++ [routine] } }

/-- A routine can call an operation of the condition when it is in no operation at all. -/
def State.free (s : State R) (r : R) : Bool :=
  s.pc r = .outside ∧ (s.mutex.pc r = .outside ∨ s.mutex.pc r = .locked)

def runStep (s : State R) (r : R) : Option (State R) :=
  match s.pc r with
  | .outside => (BMutex.step s.mutex r).map (s.install r)
  | .release => (BMutex.step s.mutex r).map fun mutex =>
      if mutex.pc r = .outside then (s.install r mutex).goto r .add else s.install r mutex
  | .add => some (({ s with list := s.list ++ [r] }).goto r .swap)
  | .swap => some (s.goto r .asleep)
  | .asleep =>
    if r ∈ s.mutex.ready then
      let mutex := { s.mutex with ready := s.mutex.ready.erase r }
      some (({ s with mutex := mutex.goto r (.retry 0) }).goto r .relock)
    else none
  | .relock => (BMutex.step s.mutex r).map fun mutex =>
      if mutex.pc r = .locked then (s.install r mutex).goto r .outside else s.install r mutex
  | .popAll =>
    match s.list with
    | [] => some (s.goto r .signalled)
    | routine :: rest => some (({ s with list := rest }).goto r (.wakeAll routine))
  | .wakeAll routine => some ((s.addTask routine).goto r .popAll)
  | .signalled => some (s.goto r .outside)
  | .popOnce =>
    match s.list with
    -- `pop` returned a null pointer and `t->routine` reads through it
    | [] => some { s with crashed := true }
    | routine :: rest => some (({ s with list := rest }).goto r (.wakeOnce routine))
  | .wakeOnce routine => some ((s.addTask routine).goto r .outside)

/-- `wait` is called with the mutex, which its first statement gives to `unlock`. -/
def step (s : State R) (label : Label R) : Option (State R) :=
  if s.crashed ∨ s.mutex.aborted then none else
  match label with
  | .run r => runStep s r
  | .wait r =>
    if s.free r ∧ s.mutex.pc r = .locked then
      some (({ s with mutex := s.mutex.goto r .unlock }).goto r .release)
    else none
  | .signalAll r => if s.free r then some (s.goto r .popAll) else none
  | .signalOnce r => if s.free r then some (s.goto r .popOnce) else none

def machine (R : Type) [DecidableEq R] : Transition.Machine (State R) (Label R) where
  start s := s = initial
  step := step

@[simp] theorem goto_pc_self (s : State R) (r : R) (p : Pc R) : (s.goto r p).pc r = p := by
  simp [State.goto]
theorem goto_pc_of_ne (s : State R) {r q : R} (p : Pc R) (other : q ≠ r) :
    (s.goto r p).pc q = s.pc q := by
  simp [State.goto, other]
@[simp] theorem goto_same (s : State R) (r : R) : s.goto r (s.pc r) = s := by
  simp [State.goto]
@[simp] theorem goto_list (s : State R) (r : R) (p : Pc R) : (s.goto r p).list = s.list := rfl
@[simp] theorem goto_mutex (s : State R) (r : R) (p : Pc R) : (s.goto r p).mutex = s.mutex := rfl
@[simp] theorem goto_count (s : State R) (r : R) (p : Pc R) : (s.goto r p).count = s.count := rfl
@[simp] theorem goto_acquired (s : State R) (r : R) (p : Pc R) :
    (s.goto r p).acquired = s.acquired := rfl
@[simp] theorem goto_released (s : State R) (r : R) (p : Pc R) :
    (s.goto r p).released = s.released := rfl

@[simp] theorem install_mutex (s : State R) (r : R) (mutex : BMutex.State R) :
    (s.install r mutex).mutex = mutex := by
  unfold State.install; split <;> rfl
@[simp] theorem install_list (s : State R) (r : R) (mutex : BMutex.State R) :
    (s.install r mutex).list = s.list := by
  unfold State.install; split <;> rfl
@[simp] theorem install_pc (s : State R) (r : R) (mutex : BMutex.State R) :
    (s.install r mutex).pc = s.pc := by
  unfold State.install; split <;> rfl
theorem install_acquired_of_ne (s : State R) {r q : R} (mutex : BMutex.State R)
    (other : q ≠ r) : (s.install r mutex).acquired q = s.acquired q := by
  unfold State.install; split <;> simp [other]
theorem install_released_of_ne (s : State R) {r q : R} (mutex : BMutex.State R)
    (other : q ≠ r) : (s.install r mutex).released q = s.released q := by
  unfold State.install; split <;> simp [other]

/-- What one step can do, with the conditions under which it does it. -/
inductive Step (s : State R) : Label R → State R → Prop where
  | own {r : R} {mutex : BMutex.State R} (at_pc : s.pc r = .outside)
      (moved : BMutex.step s.mutex r = some mutex) : Step s (.run r) (s.install r mutex)
  | releasing {r : R} {mutex : BMutex.State R} (at_pc : s.pc r = .release)
      (moved : BMutex.step s.mutex r = some mutex) (inside : mutex.pc r ≠ .outside) :
      Step s (.run r) (s.install r mutex)
  | released {r : R} {mutex : BMutex.State R} (at_pc : s.pc r = .release)
      (moved : BMutex.step s.mutex r = some mutex) (returned : mutex.pc r = .outside) :
      Step s (.run r) ((s.install r mutex).goto r .add)
  | enqueue {r : R} (at_pc : s.pc r = .add) :
      Step s (.run r) (({ s with list := s.list ++ [r] }).goto r .swap)
  | suspend {r : R} (at_pc : s.pc r = .swap) : Step s (.run r) (s.goto r .asleep)
  | resume {r : R} (at_pc : s.pc r = .asleep) (woken : r ∈ s.mutex.ready) :
      Step s (.run r) (({ s with
        mutex := ({ s.mutex with ready := s.mutex.ready.erase r }).goto r (.retry 0) }).goto
          r .relock)
  | relocking {r : R} {mutex : BMutex.State R} (at_pc : s.pc r = .relock)
      (moved : BMutex.step s.mutex r = some mutex) (inside : mutex.pc r ≠ .locked) :
      Step s (.run r) (s.install r mutex)
  | relocked {r : R} {mutex : BMutex.State R} (at_pc : s.pc r = .relock)
      (moved : BMutex.step s.mutex r = some mutex) (returned : mutex.pc r = .locked) :
      Step s (.run r) ((s.install r mutex).goto r .outside)
  | popAllNone {r : R} (at_pc : s.pc r = .popAll) (empty : s.list = []) :
      Step s (.run r) (s.goto r .signalled)
  | popAllSome {r routine : R} {rest : List R} (at_pc : s.pc r = .popAll)
      (front : s.list = routine :: rest) :
      Step s (.run r) (({ s with list := rest }).goto r (.wakeAll routine))
  | wakeAll {r routine : R} (at_pc : s.pc r = .wakeAll routine) :
      Step s (.run r) ((s.addTask routine).goto r .popAll)
  | signalled {r : R} (at_pc : s.pc r = .signalled) : Step s (.run r) (s.goto r .outside)
  | popOnceNone {r : R} (at_pc : s.pc r = .popOnce) (empty : s.list = []) :
      Step s (.run r) { s with crashed := true }
  | popOnceSome {r routine : R} {rest : List R} (at_pc : s.pc r = .popOnce)
      (front : s.list = routine :: rest) :
      Step s (.run r) (({ s with list := rest }).goto r (.wakeOnce routine))
  | wakeOnce {r routine : R} (at_pc : s.pc r = .wakeOnce routine) :
      Step s (.run r) ((s.addTask routine).goto r .outside)
  | callWait {r : R} (at_pc : s.pc r = .outside) (locked : s.mutex.pc r = .locked) :
      Step s (.wait r) (({ s with mutex := s.mutex.goto r .unlock }).goto r .release)
  | callSignalAll {r : R} (at_pc : s.pc r = .outside) : Step s (.signalAll r) (s.goto r .popAll)
  | callSignalOnce {r : R} (at_pc : s.pc r = .outside) :
      Step s (.signalOnce r) (s.goto r .popOnce)

theorem runStep_spec {s t : State R} {r : R} (stepped : runStep s r = some t) :
    Step s (.run r) t := by
  unfold runStep at stepped
  split at stepped
  next at_pc =>
    obtain ⟨mutex, moved, rfl⟩ := Option.map_eq_some_iff.mp stepped
    exact .own at_pc moved
  next at_pc =>
    obtain ⟨mutex, moved, rfl⟩ := Option.map_eq_some_iff.mp stepped
    -- `unlock` returns with this step or goes on
    by_cases returned : mutex.pc r = .outside
    · rw [if_pos returned]; exact .released at_pc moved returned
    · rw [if_neg returned]; exact .releasing at_pc moved returned
  next at_pc => cases stepped; exact .enqueue at_pc
  next at_pc => cases stepped; exact .suspend at_pc
  next at_pc =>
    split at stepped
    next woken => cases stepped; exact .resume at_pc woken
    · cases stepped
  next at_pc =>
    obtain ⟨mutex, moved, rfl⟩ := Option.map_eq_some_iff.mp stepped
    by_cases returned : mutex.pc r = .locked
    · rw [if_pos returned]; exact .relocked at_pc moved returned
    · rw [if_neg returned]; exact .relocking at_pc moved returned
  next at_pc =>
    split at stepped
    next empty => cases stepped; exact .popAllNone at_pc empty
    next routine rest front => cases stepped; exact .popAllSome at_pc front
  next routine at_pc => cases stepped; exact .wakeAll at_pc
  next at_pc => cases stepped; exact .signalled at_pc
  next at_pc =>
    split at stepped
    next empty => cases stepped; exact .popOnceNone at_pc empty
    next routine rest front => cases stepped; exact .popOnceSome at_pc front
  next routine at_pc => cases stepped; exact .wakeOnce at_pc

theorem State.free_outside {s : State R} {r : R} (free : s.free r = true) :
    s.pc r = .outside := by
  simp only [State.free, Bool.decide_and, Bool.and_eq_true, decide_eq_true_eq] at free
  exact free.1

theorem step_spec {s t : State R} {label : Label R} (stepped : step s label = some t) :
    Step s label t := by
  unfold step at stepped
  split at stepped
  · cases stepped
  · cases label with
    | run r => exact runStep_spec stepped
    | wait r =>
      simp only at stepped
      split at stepped
      next free =>
        cases stepped
        exact .callWait (State.free_outside free.1) free.2
      · cases stepped
    | signalAll r =>
      simp only at stepped
      split at stepped
      next free => cases stepped; exact .callSignalAll (State.free_outside free)
      · cases stepped
    | signalOnce r =>
      simp only at stepped
      split at stepped
      next free => cases stepped; exact .callSignalOnce (State.free_outside free)
      · cases stepped

end BRoutine.BCond
