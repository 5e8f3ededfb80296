import Mathlib.Logic.Function.Basic
import BRoutine.Transition

/-!
# bMutex

`bMutex::lock` and `bMutex::unlock` of `b_mutex_cond.cc`, run by any number of routines on one
mutex. A routine is a label: scheduling `r` performs the next step of `r`, so a schedule is an
arbitrary order of steps and repeats a routine as often as it runs. A step is one
`compare_exchange_strong`, one `list->add` or `list->pop`, one `SwapContext`, one `AddTask` or
the resumption of a woken waiter at the label `retry`.

The body of `add` and of `pop` runs under the list's own pthread mutex and a failed trylock
only yields and tries again, so each of the two is one step here. A waiter is resumed after it
has suspended: that its context is saved by then is the subject of `BRoutine.Scheduler`.
-/

namespace BRoutine.BMutex

/-- `std::atomic::compare_exchange_strong`: whether it succeeded, the value it leaves in the
variable passed as `expected`, and the value it leaves in the cell. -/
def compareExchangeStrong (cell expected desired : Int) : Bool × Int × Int :=
  if cell = expected then (true, expected, desired) else (false, cell, cell)

/-- Where a routine stands. `i` is the local variable of `lock`, `mt` the waiter popped by
`unlock`. -/
inductive Pc (R : Type) where
  /-- outside `lock` and `unlock`, without the mutex -/
  | outside
  /-- at the label `retry` of `lock` -/
  | retry (i : Int)
  /-- the exchange failed: about to call `list->add` -/
  | add (i : Int)
  /-- in the wait list: about to call `SwapContext` -/
  | swap (i : Int)
  /-- suspended in `lock` -/
  | asleep (i : Int)
  /-- `lock` has returned -/
  | locked
  /-- `unlock` is called, its exchange not yet made -/
  | unlock
  /-- about to call `list->pop` -/
  | pop
  /-- `pop` has returned `mt`: about to call `AddTask` -/
  | addTask (mt : R)
  /-- about to return from `unlock` -/
  | unlocked
  deriving DecidableEq, Repr

/-- The mutex, the ready queues and the program points. `ready` holds the routines of the tasks
that `unlock` has handed to `AddTask` and no scheduler has resumed yet. -/
structure State (R : Type) where
  lockCount : Int
  list : List R
  ready : List R
  pc : R → Pc R
  aborted : Bool

variable {R : Type} [DecidableEq R]

def State.goto (s : State R) (r : R) (p : Pc R) : State R :=
  { s with pc := Function.update s.pc r p }

/-- A fresh `bMutex` with `lockCount` 0 and nobody in `lock` or `unlock`. -/
def initial : State R := ⟨0, [], [], fun _ => .outside, false⟩

/-- The next step of the routine `r`. Outside it calls `lock`, with the mutex it calls `unlock`.
No routine moves after `abort()`. -/
def step (s : State R) (r : R) : Option (State R) :=
  if s.aborted then none else
  match s.pc r with
  | .outside => some (s.goto r (.retry 0))
  | .retry i =>
    match compareExchangeStrong s.lockCount i 1 with
    | (true, _, cell) => some (({ s with lockCount := cell }).goto r .locked)
    | (false, i', cell) => some (({ s with lockCount := cell }).goto r (.add i'))
  | .add i => some (({ s with list := s.list ++ [r] }).goto r (.swap i))
  | .swap i => some (s.goto r (.asleep i))
  | .asleep i =>
    -- a scheduler takes a task of `r` and `goto retry` keeps the value of `i`
    if r ∈ s.ready then some (({ s with ready := s.ready.erase r }).goto r (.retry i)) else none
  | .locked => some (s.goto r .unlock)
  | .unlock =>
    match compareExchangeStrong s.lockCount 1 0 with
    | (true, _, cell) => some (({ s with lockCount := cell }).goto r .pop)
    | (false, _, _) => some { s with aborted := true }
  | .pop =>
    match s.list with
    | [] => some (s.goto r .unlocked)
    | mt :: rest => some (({ s with list := rest }).goto r (.addTask mt))
  | .addTask mt => some (({ s with ready := s.ready ++ [mt] }).goto r .unlocked)
  | .unlocked => some (s.goto r .outside)

def machine (R : Type) [DecidableEq R] : Transition.Machine (State R) R where
  start s := s = initial
  step := step

@[simp] theorem goto_lockCount (s : State R) (r : R) (p : Pc R) :
    (s.goto r p).lockCount = s.lockCount := rfl
@[simp] theorem goto_list (s : State R) (r : R) (p : Pc R) : (s.goto r p).list = s.list := rfl
@[simp] theorem goto_ready (s : State R) (r : R) (p : Pc R) : (s.goto r p).ready = s.ready := rfl
@[simp] theorem goto_aborted (s : State R) (r : R) (p : Pc R) :
    (s.goto r p).aborted = s.aborted := rfl
@[simp] theorem goto_pc_self (s : State R) (r : R) (p : Pc R) : (s.goto r p).pc r = p := by
  simp [State.goto]
theorem goto_pc_of_ne (s : State R) {r q : R} (p : Pc R) (other : q ≠ r) :
    (s.goto r p).pc q = s.pc q := by
  simp [State.goto, other]

/-- What one step of `r` can do, with the conditions under which it does it. -/
inductive Step (s : State R) (r : R) : State R → Prop where
  | call (at_pc : s.pc r = .outside) : Step s r (s.goto r (.retry 0))
  | acquire {i : Int} (at_pc : s.pc r = .retry i) (equal : s.lockCount = i) :
      Step s r (({ s with lockCount := 1 }).goto r .locked)
  | refuse {i : Int} (at_pc : s.pc r = .retry i) (differs : s.lockCount ≠ i) :
      Step s r (s.goto r (.add s.lockCount))
  | enqueue {i : Int} (at_pc : s.pc r = .add i) :
      Step s r (({ s with list := s.list ++ [r] }).goto r (.swap i))
  | suspend {i : Int} (at_pc : s.pc r = .swap i) : Step s r (s.goto r (.asleep i))
  | resume {i : Int} (at_pc : s.pc r = .asleep i) (woken : r ∈ s.ready) :
      Step s r (({ s with ready := s.ready.erase r }).goto r (.retry i))
  | callUnlock (at_pc : s.pc r = .locked) : Step s r (s.goto r .unlock)
  | release (at_pc : s.pc r = .unlock) (held : s.lockCount = 1) :
      Step s r (({ s with lockCount := 0 }).goto r .pop)
  | abort (at_pc : s.pc r = .unlock) (free : s.lockCount ≠ 1) :
      Step s r { s with aborted := true }
  | popNone (at_pc : s.pc r = .pop) (empty : s.list = []) : Step s r (s.goto r .unlocked)
  | popSome {mt : R} {rest : List R} (at_pc : s.pc r = .pop) (front : s.list = mt :: rest) :
      Step s r (({ s with list := rest }).goto r (.addTask mt))
  | wake {mt : R} (at_pc : s.pc r = .addTask mt) :
      Step s r (({ s with ready := s.ready ++ [mt] }).goto r .unlocked)
  | leave (at_pc : s.pc r = .unlocked) : Step s r (s.goto r .outside)

theorem step_spec {s t : State R} {r : R} (stepped : step s r = some t) :
    s.aborted = false ∧ Step s r t := by
  unfold step at stepped
  split at stepped
  · cases stepped
  next running =>
    refine ⟨by simpa using running, ?_⟩
    split at stepped
    next at_pc => cases stepped; exact .call at_pc
    next i at_pc =>
      -- the exchange of `lock` succeeds where the expected value is found
      by_cases equal : s.lockCount = i
      · simp only [compareExchangeStrong, equal, if_true, Option.some.injEq] at stepped
        subst stepped
        exact .acquire at_pc equal
      · simp only [compareExchangeStrong, equal, if_false, Option.some.injEq] at stepped
        subst stepped
        exact .refuse at_pc equal
    next i at_pc => cases stepped; exact .enqueue at_pc
    next i at_pc => cases stepped; exact .suspend at_pc
    next i at_pc =>
      split at stepped
      next woken => cases stepped; exact .resume at_pc woken
      · cases stepped
    next at_pc => cases stepped; exact .callUnlock at_pc
    next at_pc =>
      by_cases held : s.lockCount = 1
      · simp only [compareExchangeStrong, held, if_true, Option.some.injEq] at stepped
        subst stepped
        exact .release at_pc held
      · simp only [compareExchangeStrong, held, if_false, Option.some.injEq] at stepped
        subst stepped
        exact .abort at_pc held
    next at_pc =>
      split at stepped
      next empty => cases stepped; exact .popNone at_pc empty
      next mt rest front => cases stepped; exact .popSome at_pc front
    next mt at_pc => cases stepped; exact .wake at_pc
    next at_pc => cases stepped; exact .leave at_pc

theorem step_pc_of_ne {s t : State R} {r q : R} (stepped : step s r = some t) (other : q ≠ r) :
    t.pc q = s.pc q := by
  cases (step_spec stepped).2 <;> first | rfl | exact goto_pc_of_ne _ _ other

/-- A step of `r` resumes no other woken waiter. -/
theorem step_keeps_ready {s t : State R} {r q : R} (stepped : step s r = some t) (other : q ≠ r)
    (woken : q ∈ s.ready) : q ∈ t.ready := by
  cases (step_spec stepped).2 with
  | resume at_pc ready => simpa using (List.mem_erase_of_ne other).mpr woken
  | wake at_pc => simp [woken]
  | _ => exact woken

/-- `unlock` returns from `unlocked`, and its part after the exchange begins at `pop`. -/
theorem step_returns {s t : State R} {r : R} (stepped : step s r = some t)
    (returned : t.pc r = .outside) : s.pc r = .unlocked := by
  cases (step_spec stepped).2 <;> simp_all

/-- A schedule moves only the routines it names. -/
theorem exec_pc_of_not_mem {s t : State R} {schedule : List R} {q : R}
    (ran : (machine R).exec s schedule = some t) (absent : q ∉ schedule) : t.pc q = s.pc q := by
  induction schedule generalizing s with
  | nil => cases ran; rfl
  | cons r rest ih =>
    rw [Transition.Machine.exec_cons] at ran
    obtain ⟨u, stepped, rest_ran⟩ := Option.bind_eq_some_iff.mp ran
    rw [List.mem_cons, not_or] at absent
    rw [ih rest_ran absent.2, step_pc_of_ne stepped absent.1]

end BRoutine.BMutex
