import Mathlib.Data.List.Count
import BRoutine.Epoll.Registration
import BRoutine.Transition

/-!
# bCond::timeWait

`timeWait` over one condition with the wheel and the ready queue of one scheduler. Nothing else
runs between two suspensions, so each call of `timeWait`, `signalOnce` and `signalAll`, each
merge with the loop of `Deal` behind it and each resumption is one step.

A call leaves an entry in the condition's list, a task in the wheel and, when either of the two
fires, a task in the ready queue. Each of them carries the routine of the call; the model names
them by the call they stem from. `puts` and `signalled` record what the source does not store:
how often a task of the call was handed to `AddTask`, and that a signal popped its entry. Tasks
that stem from no `timeWait` call are left out of the ready queue.
-/

namespace BRoutine.BCond.TimeWait

/-- One call of `timeWait`. `isTimeout` is its local variable. -/
structure Call (R : Type) where
  routine : Option R
  isTimeout : Int
  puts : Nat
  signalled : Bool
  returned : Option Int
  deriving DecidableEq, Repr

inductive Pc where
  /-- in no call: running, or suspended at a point that is not in `timeWait` -/
  | outside
  /-- suspended in the `SwapContext` of the call -/
  | waiting (c : Nat)
  /-- in the `lock->lock()` of the call -/
  | relocking (c : Nat)
  deriving DecidableEq, Repr

structure State (R : Type) where
  timer : BEpTimer
  list : List Nat
  ready : List Nat
  pc : R → Pc
  next : Nat
  call : Nat → Call R

inductive Label (R : Type) where
  | timeWait (r : R) (timeoutMs : BitVec 32)
  | signalOnce
  | signalAll
  | merge (now : Reading)
  | resume
  | relock (r : R)

variable {R : Type} [DecidableEq R]

def initial (now : Reading) : State R :=
  ⟨BEpTimer.new now, [], [], fun _ => .outside, 0, fun _ => ⟨none, 0, 0, false, none⟩⟩

def State.modify (s : State R) (c : Nat) (f : Call R → Call R) : State R :=
  { s with call := Function.update s.call c (f (s.call c)) }

def State.goto (s : State R) (r : R) (p : Pc) : State R :=
  { s with pc := Function.update s.pc r p }

/-- `AddTask` of a task of the call `c`, after `f` has been done to the call. -/
def State.addTask (s : State R) (c : Nat) (f : Call R → Call R) : State R :=
  { s.modify c fun call => { f call with puts := call.puts + 1 } with ready := s.ready ++ [c] }

def Call.signal (call : Call R) : Call R := { call with signalled := true }

/-- `CondTimeOutCallback`. -/
def Call.condTimeOutCallback (call : Call R) : Call R := { call with isTimeout := 1 }

/-- An `int` passed as `unsigned long long`. -/
def toUnsigned (i : BitVec 32) : Nat := (i.signExtend 64).toNat

/-- `timeWait` up to its `SwapContext`. -/
def timeWait (s : State R) (r : R) (timeoutMs : BitVec 32) : State R :=
  let c := s.next
  let s := { s with next := c + 1, list := s.list ++ [c] }
  let s := s.modify c fun call => { call with routine := some r }
  { s with timer := s.timer.register c (toUnsigned timeoutMs) }.goto r (.waiting c)

/-- The loop of `signalAll` on the entries of the list. -/
def signalAllLoop : List Nat → State R → State R
  | [], s => { s with list := [] }
  | c :: rest, s => signalAllLoop rest (({ s with list := rest }).addTask c Call.signal)

/-- The loop of `Deal` over the tasks that a merge has returned. -/
def dealLoop : List TimerTask → State R → State R
  | [], s => s
  | task :: rest, s => dealLoop rest (s.addTask task.id Call.condTimeOutCallback)

/-- The routine `r` goes on behind the suspension it is in. In `timeWait` it looks at its own
`IsTimeout`; elsewhere the task has nothing to do with the suspension it ends. -/
def goOn (s : State R) (r : R) : Option (State R) :=
  match s.pc r with
  | .waiting c =>
    if (s.call c).isTimeout = 0 then
      (s.timer.removeSelfSave c).map fun timer =>
        ({ s with timer := timer }).goto r (.relocking c)
    else some ((s.modify c fun call => { call with returned := some 0 }).goto r .outside)
  | _ => some s

def step (s : State R) : Label R → Option (State R)
  | .timeWait r timeoutMs => if s.pc r = .outside then some (timeWait s r timeoutMs) else none
  | .signalOnce =>
    match s.list with
    -- `pop` returned a null pointer and `t->routine` reads through it
    | [] => none
    | c :: rest => some (({ s with list := rest }).addTask c Call.signal)
  | .signalAll => some (signalAllLoop s.list s)
  | .merge now =>
    (s.timer.newMergeUpdate2Now s.timer.taskItemBucketSize now).map fun (timer, result) =>
      dealLoop result.popAll { s with timer := timer }
  | .resume =>
    match s.ready with
    | [] => none
    | c :: rest => (s.call c).routine.bind fun r => goOn { s with ready := rest } r
  | .relock r =>
    match s.pc r with
    | .relocking c =>
      some ((s.modify c fun call => { call with returned := some 1 }).goto r .outside)
    | _ => none

def machine (R : Type) [DecidableEq R] : Transition.Machine (State R) (Label R) where
  start s := ∃ now, s = initial now
  step := step

/-! ### Small lemmas -/

section Updates
omit [DecidableEq R]

@[simp] theorem modify_timer (s : State R) (c : Nat) (f : Call R → Call R) :
    (s.modify c f).timer = s.timer := rfl
@[simp] theorem modify_list (s : State R) (c : Nat) (f : Call R → Call R) :
    (s.modify c f).list = s.list := rfl
@[simp] theorem modify_ready (s : State R) (c : Nat) (f : Call R → Call R) :
    (s.modify c f).ready = s.ready := rfl
@[simp] theorem modify_pc (s : State R) (c : Nat) (f : Call R → Call R) :
    (s.modify c f).pc = s.pc := rfl
@[simp] theorem modify_call (s : State R) (c : Nat) (f : Call R → Call R) :
    (s.modify c f).call = Function.update s.call c (f (s.call c)) := rfl

end Updates

@[simp] theorem goto_timer (s : State R) (r : R) (p : Pc) : (s.goto r p).timer = s.timer := rfl
@[simp] theorem goto_list (s : State R) (r : R) (p : Pc) : (s.goto r p).list = s.list := rfl
@[simp] theorem goto_ready (s : State R) (r : R) (p : Pc) : (s.goto r p).ready = s.ready := rfl
@[simp] theorem goto_next (s : State R) (r : R) (p : Pc) : (s.goto r p).next = s.next := rfl
@[simp] theorem goto_call (s : State R) (r : R) (p : Pc) : (s.goto r p).call = s.call := rfl
@[simp] theorem goto_pc (s : State R) (r : R) (p : Pc) :
    (s.goto r p).pc = Function.update s.pc r p := rfl
/-- A routine that moves from and to another program point than `p` changes nobody's being at
`p`. -/
theorem update_pc_iff {pc : R → Pc} {r : R} {p p' : Pc} (old : pc r ≠ p) (new : p' ≠ p) (q : R) :
    Function.update pc r p' q = p ↔ pc q = p := by
  by_cases self : q = r
  · subst self; simp [old, new]
  · rw [Function.update_of_ne self]

/-! ### What the loops do -/

omit [DecidableEq R]

/-- A call after a loop has handed `times` tasks of it to `AddTask`, with `f` done to it. -/
def Call.added (call : Call R) (f : Call R → Call R) (times : Nat) : Call R :=
  if times = 0 then call else { f call with puts := call.puts + times }

/-- What a loop over the calls `cs` does that hands a task of each to `AddTask`. -/
structure Added (s : State R) (cs : List Nat) (f : Call R → Call R) (t : State R) : Prop where
  ready : t.ready = s.ready ++ cs
  pc : t.pc = s.pc
  next : t.next = s.next
  call : ∀ c, t.call c = (s.call c).added f (cs.count c)

theorem Added.nil (s : State R) (f : Call R → Call R) : Added s [] f s where
  ready := (List.append_nil _).symm
  pc := rfl
  next := rfl
  call _ := rfl

theorem Added.cons {s t : State R} {head : Nat} {rest : List Nat} {f : Call R → Call R}
    (again : ∀ call : Call R, f { f call with puts := call.puts + 1 } =
      { f call with puts := (f call).puts + 1 })
    (added : Added (s.addTask head f) rest f t) : Added s (head :: rest) f t where
  ready := by rw [added.ready]; simp [State.addTask]
  pc := added.pc
  next := added.next
  call c := by
    rw [added.call]
    by_cases same : c = head
    · subst same
      by_cases last : rest.count c = 0
      · simp [State.addTask, State.modify, Call.added, last]
      · simp [State.addTask, State.modify, Call.added, last, again]
        omega
    · have other : head ≠ c := fun eq => same eq.symm
      simp [State.addTask, State.modify, same, other]

theorem Added.fresh {s t : State R} {cs : List Nat} {f : Call R → Call R}
    (added : Added s cs f t) (keeps : ∀ call : Call R, (f call).routine = call.routine)
    (fresh : ∀ c, s.next ≤ c → (s.call c).routine = none) :
    ∀ c, t.next ≤ c → (t.call c).routine = none := by
  intro c new
  rw [added.next] at new
  rw [added.call, Call.added]
  split
  · exact fresh c new
  · exact (keeps _).trans (fresh c new)

theorem signalAllLoop_added (entries : List Nat) (s : State R) :
    (signalAllLoop entries s).list = [] ∧ (signalAllLoop entries s).timer = s.timer ∧
      Added s entries Call.signal (signalAllLoop entries s) := by
  induction entries generalizing s with
  | nil =>
    have none := Added.nil s Call.signal
    exact ⟨rfl, rfl, none.ready, none.pc, none.next, none.call⟩
  | cons head rest ih =>
    obtain ⟨list, timer, added⟩ := ih (({ s with list := rest }).addTask head Call.signal)
    have whole := added.cons (s := { s with list := rest }) fun _ => rfl
    exact ⟨list, timer, whole.ready, whole.pc, whole.next, whole.call⟩

theorem dealLoop_added (tasks : List TimerTask) (s : State R) :
    (dealLoop tasks s).list = s.list ∧ (dealLoop tasks s).timer = s.timer ∧
      Added s (tasks.map (·.id)) Call.condTimeOutCallback (dealLoop tasks s) := by
  induction tasks generalizing s with
  | nil => exact ⟨rfl, rfl, Added.nil s Call.condTimeOutCallback⟩
  | cons task rest ih =>
    obtain ⟨list, timer, added⟩ := ih (s.addTask task.id Call.condTimeOutCallback)
    exact ⟨list, timer, added.cons fun _ => rfl⟩

end BRoutine.BCond.TimeWait
