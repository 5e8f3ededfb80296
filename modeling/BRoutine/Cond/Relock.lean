import BRoutine.Cond.TimeWait
import BRoutine.Mutex.Exclusion

/-!
# Waiting on conditions

`bCond::wait` and `bCond::timeWait` with `signalAll` and `signalOnce`, for any number of routines,
mutexes and conditions, with the wheel whose merges end a `timeWait` and the ready queue. The steps
of `lock` and `unlock` are those of `BRoutine.BMutex`, and every routine and `Deal` can move between
any two steps of another.

A routine that leaves `timeWait` by the timeout goes on as one that has the mutex. `took` records
what the source does not store: whether a routine has its mutex from an exchange of `lock`.
-/

namespace BRoutine.BCond.Relock

/-- The mutexes, with the place of each routine in `lock` and `unlock` of each. -/
structure Mutexes (M R : Type) where
  lockCount : M → Int
  list : M → List R
  pc : M → R → BMutex.Pc R
  aborted : Bool
  took : M → R → Bool

/-- Where a routine stands. `m` is the mutex given to `wait` or `timeWait`, `c` the call of
`timeWait` whose task is in the wheel. -/
inductive Pc (M K R : Type) where
  /-- in no operation -/
  | outside
  /-- in a `lock` or `unlock` that it has called itself -/
  | own (m : M)
  /-- in the `lock->unlock()` of a wait -/
  | release (m : M) (k : K) (timeoutMs : Option (BitVec 32))
  /-- about to call `list->add` -/
  | add (m : M) (k : K) (timeoutMs : Option (BitVec 32))
  /-- in the list: `timeWait` is about to put its task into the wheel -/
  | register (m : M) (timeoutMs : BitVec 32)
  /-- about to call `SwapContext` -/
  | swap (m : M) (c : Option Nat)
  | asleep (m : M) (c : Option Nat)
  /-- resumed in `timeWait`: about to look at `IsTimeout` -/
  | check (m : M) (c : Nat)
  /-- about to take its task out of the list it is in -/
  | unregister (m : M) (c : Nat)
  /-- in the `lock->lock()` of a wait -/
  | relock (m : M) (c : Option Nat)
  /-- at the `list->pop()` in the loop of `signalAll` -/
  | popAll (k : K)
  /-- about to call `AddTask` for the popped entry -/
  | wakeAll (k : K) (routine : R)
  | popOnce (k : K)
  | wakeOnce (routine : R)

/-- A task in the ready queue; `call` names the `timeWait` whose timer task it is. -/
structure Task (R : Type) where
  routine : R
  call : Option Nat
  deriving DecidableEq, Repr

/-- `expired` is the list of the last merge, `dealing` the task that `Deal` has popped from it and
whether its callback has been made. -/
structure State (M K R : Type) where
  mutexes : Mutexes M R
  entries : K → List R
  timer : BEpTimer
  expired : List Nat
  dealing : Option (Nat × Bool)
  ready : List (Task R)
  next : Nat
  routine : Nat → Option R
  isTimeout : Nat → Int
  returned : R → Option Int
  pc : R → Pc M K R
  crashed : Bool

inductive Label (M K R : Type) where
  | run (r : R)
  | lock (r : R) (m : M)
  | unlock (r : R) (m : M)
  | wait (r : R) (m : M) (k : K)
  | timeWait (r : R) (m : M) (k : K) (timeoutMs : BitVec 32)
  | signalAll (r : R) (k : K)
  | signalOnce (r : R) (k : K)
  /-- somebody hands a task of the routine to `AddTask` -/
  | post (r : R)
  | merge (now : Reading)
  | deal

variable {M K R : Type} [DecidableEq M] [DecidableEq K] [DecidableEq R]

namespace Mutexes

/-- One mutex as `BRoutine.BMutex` sees it, without the ready queue. -/
def view (x : Mutexes M R) (m : M) : BMutex.State R :=
  ⟨x.lockCount m, x.list m, [], x.pc m, x.aborted⟩

def goto (x : Mutexes M R) (m : M) (r : R) (p : BMutex.Pc R) : Mutexes M R :=
  { x with pc := Function.update x.pc m (Function.update (x.pc m) r p) }

/-- The mutex `m` after a step of `r` in `lock` or `unlock`. -/
def install (x : Mutexes M R) (m : M) (r : R) (b : BMutex.State R) : Mutexes M R where
  lockCount := Function.update x.lockCount m b.lockCount
  list := Function.update x.list m b.list
  pc := Function.update x.pc m b.pc
  aborted := b.aborted
  took :=
    if b.pc r = .locked then Function.update x.took m (Function.update (x.took m) r true)
    else x.took

/-- The routine `r` goes on as if it had `m`. -/
def assume (x : Mutexes M R) (m : M) (r : R) : Mutexes M R :=
  { x.goto m r .locked with took := Function.update x.took m (Function.update (x.took m) r false) }

end Mutexes

namespace State

def goto (s : State M K R) (r : R) (p : Pc M K R) : State M K R :=
  { s with pc := Function.update s.pc r p }

def addTask (s : State M K R) (task : Task R) : State M K R :=
  { s with ready := s.ready ++ [task] }

/-- A scheduler takes the first task of `r` out of the ready queue. -/
def takeTask (s : State M K R) (r : R) : Option (State M K R) :=
  if s.ready.any (·.routine = r) then
    some { s with ready := s.ready.eraseP (·.routine = r) }
  else none

/-- `RemoveSelfFromOwnerlink_Save` of the task of the call `c`, which is in the wheel, in the list
of a merge or in the ready queue. With no owner its mutexes are read through a null pointer. -/
def removeSelfSave (s : State M K R) (c : Nat) : Option (State M K R) :=
  match s.timer.removeSelfSave c with
  | some timer => some { s with timer := timer }
  | none =>
    if c ∈ s.expired then some { s with expired := s.expired.erase c }
    else if s.ready.any (·.call = some c) then
      some { s with ready := s.ready.eraseP (·.call = some c) }
    else none

/-- One step of `r` in `lock` or `unlock` of `m`. -/
def mutexStep (s : State M K R) (m : M) (r : R) : Option (State M K R) :=
  match s.mutexes.pc m r with
  | .asleep i => (s.takeTask r).map fun s => { s with mutexes := s.mutexes.goto m r (.retry i) }
  | .addTask mt =>
    some { s.addTask ⟨mt, none⟩ with mutexes := s.mutexes.goto m r .unlocked }
  | _ => (BMutex.step (s.mutexes.view m) r).map fun b =>
      { s with mutexes := s.mutexes.install m r b }

/-- The next step of the routine `r`. -/
def runStep (s : State M K R) (r : R) : Option (State M K R) :=
  match s.pc r with
  | .outside => none
  | .own m => (s.mutexStep m r).map fun t =>
      if t.mutexes.pc m r = .locked ∨ t.mutexes.pc m r = .outside then t.goto r .outside else t
  | .release m k timeoutMs => (s.mutexStep m r).map fun t =>
      if t.mutexes.pc m r = .outside then t.goto r (.add m k timeoutMs) else t
  | .add m k timeoutMs =>
    let s := { s with entries := Function.update s.entries k (s.entries k ++ [r]) }
    match timeoutMs with
    | none => some (s.goto r (.swap m none))
    | some timeoutMs => some (s.goto r (.register m timeoutMs))
  | .register m timeoutMs =>
    some ({ s with
      timer := s.timer.register s.next (TimeWait.toUnsigned timeoutMs)
      next := s.next + 1
      routine := Function.update s.routine s.next (some r)
      isTimeout := Function.update s.isTimeout s.next 0 }.goto r (.swap m (some s.next)))
  | .swap m c => some (s.goto r (.asleep m c))
  | .asleep m c => (s.takeTask r).map fun s =>
      match c with
      | none => { s with mutexes := s.mutexes.goto m r (.retry 0) }.goto r (.relock m none)
      | some c => s.goto r (.check m c)
  | .check m c =>
    if s.isTimeout c = 0 then some (s.goto r (.unregister m c))
    else
      some ({ s with
        mutexes := s.mutexes.assume m r
        returned := Function.update s.returned r (some 0) }.goto r .outside)
  | .unregister m c =>
    match s.removeSelfSave c with
    | none => some { s with crashed := true }
    | some s =>
      some ({ s with mutexes := s.mutexes.goto m r (.retry 0) }.goto r (.relock m (some c)))
  | .relock m c => (s.mutexStep m r).map fun t =>
      if t.mutexes.pc m r = .locked then
        { t with returned := Function.update t.returned r (c.map fun _ => 1) }.goto r .outside
      else t
  | .popAll k =>
    match s.entries k with
    | [] => some (s.goto r .outside)
    | routine :: rest =>
      some ({ s with entries := Function.update s.entries k rest }.goto r (.wakeAll k routine))
  | .wakeAll k routine => some ((s.addTask ⟨routine, none⟩).goto r (.popAll k))
  | .popOnce k =>
    match s.entries k with
    -- `pop` returned a null pointer and `t->routine` reads through it
    | [] => some { s with crashed := true }
    | routine :: rest =>
      some ({ s with entries := Function.update s.entries k rest }.goto r (.wakeOnce routine))
  | .wakeOnce routine => some ((s.addTask ⟨routine, none⟩).goto r .outside)

/-- The next step of the loop of `Deal`: `popHead`, the callback, `AddTask`. -/
def dealStep (s : State M K R) : Option (State M K R) :=
  match s.dealing with
  | none =>
    match s.expired with
    | [] => none
    | c :: rest => some { s with expired := rest, dealing := some (c, false) }
  | some (c, false) =>
    some { s with
      isTimeout := Function.update s.isTimeout c 1
      dealing := some (c, true) }
  | some (c, true) =>
    (s.routine c).map fun routine =>
      { s.addTask ⟨routine, some c⟩ with dealing := none }

/-- `r` calls an operation from where it is in none. -/
def call (s : State M K R) (r : R) (p : Pc M K R) : Option (State M K R) :=
  match s.pc r with
  | .outside => some (s.goto r p)
  | _ => none

/-- `r` calls `lock`, `unlock` or a wait on `m`, for which it has to be at `here`. -/
def callOn (s : State M K R) (r : R) (m : M) (here there : BMutex.Pc R) (p : Pc M K R) :
    Option (State M K R) :=
  if s.mutexes.pc m r = here then
    { s with mutexes := s.mutexes.goto m r there }.call r p
  else none

end State

/-- One step. `lock` is called without the mutex, `unlock` and the waits with it, and nothing moves
after `abort()` or a null pointer. -/
def step (s : State M K R) (label : Label M K R) : Option (State M K R) :=
  if s.crashed ∨ s.mutexes.aborted then none else
  match label with
  | .run r => s.runStep r
  | .lock r m => s.callOn r m .outside (.retry 0) (.own m)
  | .unlock r m => s.callOn r m .locked .unlock (.own m)
  | .wait r m k => s.callOn r m .locked .unlock (.release m k none)
  | .timeWait r m k timeoutMs => s.callOn r m .locked .unlock (.release m k (some timeoutMs))
  | .signalAll r k => s.call r (.popAll k)
  | .signalOnce r k => s.call r (.popOnce k)
  | .post r => some (s.addTask ⟨r, none⟩)
  | .merge now =>
    -- a `Deal` merges when the one before it is through
    if s.expired = [] ∧ s.dealing = none then
      (s.timer.newMergeUpdate2Now s.timer.taskItemBucketSize now).map fun (timer, result) =>
        { s with timer := timer, expired := result.popAll.map (·.id) }
    else none
  | .deal => s.dealStep

def initial (now : Reading) : State M K R where
  mutexes := ⟨fun _ => 0, fun _ => [], fun _ _ => .outside, false, fun _ _ => false⟩
  entries := fun _ => []
  timer := BEpTimer.new now
  expired := []
  dealing := none
  ready := []
  next := 0
  routine := fun _ => none
  isTimeout := fun _ => 0
  returned := fun _ => none
  pc := fun _ => .outside
  crashed := false

def machine (M K R : Type) [DecidableEq M] [DecidableEq K] [DecidableEq R] :
    Transition.Machine (State M K R) (Label M K R) where
  start s := ∃ now, s = initial now
  step := step

/-- Whoever goes on as one that has a mutex is the only one to have it, and has it from `lock`;
nobody aborts. -/
structure Held (s : State M K R) : Prop where
  running : s.mutexes.aborted = false
  alone : ∀ m p q, (s.mutexes.pc m p).holds → (s.mutexes.pc m q).holds → p = q
  taken : ∀ m r, (s.mutexes.pc m r).holds →
    s.mutexes.lockCount m = 1 ∧ s.mutexes.took m r = true

/-- Nobody leaves `timeWait` by the timeout, and no woken waiter retries its exchange with a stale
expected value on a mutex that is taken. -/
def Relocks (s : State M K R) : Label M K R → Prop
  | .run r =>
    match s.pc r with
    | .check _ c => s.isTimeout c = 0
    | .own m | .release m _ _ | .relock m _ =>
      ¬ (s.mutexes.pc m r = .retry 1 ∧ s.mutexes.lockCount m = 1)
    | _ => True
  | _ => True

end BRoutine.BCond.Relock
