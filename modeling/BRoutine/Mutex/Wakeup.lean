import BRoutine.Mutex.Model

/-!
# No lost wake-up in bMutex

A waiter goes to sleep on a free mutex in two ways: the mutex is released between its failed
exchange and its `list->add`, or it is woken and its exchange, which still expects 1, fails on
`lockCount` 0. Both end in a `SwapContext` of a queued routine while `lockCount` is 0 and nobody
is about to pop the list or to take the mutex. `wakes_waiters` shows that without such a step
nobody is left asleep on a free mutex.
-/

namespace BRoutine.BMutex

variable {R : Type} [DecidableEq R]

/-- In a `lock` that has not suspended, or in an `unlock` that has not returned. -/
def Pc.active : Pc R → Prop
  | .retry _ | .add _ | .swap _ | .unlock | .pop | .addTask _ | .unlocked => True
  | .outside | .asleep _ | .locked => False

/-- About to call `SwapContext` in `lock`. -/
def Pc.suspending : Pc R → Bool
  | .swap _ => true
  | _ => false

/-- A free mutex with waiters has a routine at work on it or a woken waiter in a ready queue. -/
def NoLostWakeup (s : State R) : Prop :=
  s.lockCount = 0 → s.list ≠ [] → (∃ r, (s.pc r).active) ∨ s.ready ≠ []

/-- `r` is about to suspend in `lock` with its entry still in the wait list of a free mutex. -/
def QueuedOnFree (s : State R) (r : R) : Prop :=
  (s.pc r).suspending = true ∧ s.lockCount = 0 ∧ r ∈ s.list

instance (s : State R) (r : R) : Decidable (QueuedOnFree s r) :=
  inferInstanceAs (Decidable (_ ∧ _ ∧ _))

/-- It does so while no `unlock` is about to pop the list, and no `lock` is about to make an
exchange that expects 0. -/
def SleepsOnFree (s : State R) (r : R) : Prop :=
  QueuedOnFree s r ∧ ∀ q, s.pc q ≠ .pop ∧ s.pc q ≠ .retry 0

/-- A routine that will take the free mutex, wake a waiter, or queue up before it suspends. -/
def Pc.carries (queued : Prop) : Pc R → Prop
  | .retry _ | .add _ | .pop | .addTask _ => True
  | .swap _ => queued
  | .outside | .asleep _ | .locked | .unlock | .unlocked => False

/-- A free mutex with waiters has such a routine or a woken waiter in a ready queue. -/
def Carried (s : State R) : Prop :=
  s.lockCount = 0 → s.list ≠ [] → (∃ r, (s.pc r).carries (r ∈ s.list)) ∨ s.ready ≠ []

omit [DecidableEq R] in
theorem Carried.noLostWakeup {s : State R} (carried : Carried s) : NoLostWakeup s := by
  intro free waiters
  refine (carried free waiters).imp_left ?_
  rintro ⟨r, carries⟩
  refine ⟨r, ?_⟩
  cases at_pc : s.pc r <;> simp [Pc.active, Pc.carries, at_pc] at carries ⊢

omit [DecidableEq R] in
theorem initial_carried : Carried (initial : State R) := fun _ waiters => absurd rfl waiters

omit [DecidableEq R] in
/-- A step after which `r` itself carries the wake-up on. -/
theorem carried_by_self {t : State R} (r : R) (carries : (t.pc r).carries (r ∈ t.list)) :
    Carried t :=
  fun _ _ => .inl ⟨r, carries⟩

/-- A step of an `r` that did not carry the wake-up, and that leaves the wait list alone. -/
theorem Carried.of_idle {s : State R} {r : R} (carried : Carried s)
    (idle : ¬ (s.pc r).carries (r ∈ s.list)) (p : Pc R) : Carried (s.goto r p) := by
  intro free waiters
  refine (carried free waiters).imp_left ?_
  rintro ⟨q, carries⟩
  have other : q ≠ r := by rintro rfl; exact idle carries
  exact ⟨q, by rw [goto_pc_of_ne _ _ other]; exact carries⟩

theorem step_carried {s t : State R} {r : R} (carried : Carried s) (awake : ¬ SleepsOnFree s r)
    (stepped : step s r = some t) : Carried t := by
  cases (step_spec stepped).2 with
  | call at_pc => exact carried_by_self r (by simp [Pc.carries])
  | acquire at_pc equal => intro zero; simp at zero
  | refuse at_pc differs => exact carried_by_self r (by simp [Pc.carries])
  | enqueue at_pc => exact carried_by_self r (by simp [Pc.carries])
  | suspend at_pc =>
    intro free waiters
    by_cases queued : r ∈ s.list
    · -- `awake` leaves a routine that pops the list or takes the mutex
      have helped : ∃ q, s.pc q = .pop ∨ s.pc q = .retry 0 := by
        by_contra none
        simp only [not_exists, not_or] at none
        exact awake ⟨⟨by rw [at_pc]; rfl, free, queued⟩, none⟩
      obtain ⟨q, helper⟩ := helped
      have other : q ≠ r := by
        rintro rfl
        simp [at_pc] at helper
      refine .inl ⟨q, ?_⟩
      rw [goto_pc_of_ne _ _ other]
      rcases helper with pops | takes
      · simp [pops, Pc.carries]
      · simp [takes, Pc.carries]
    · -- an `unlock` has popped the entry of `r` already
      exact carried.of_idle (by simpa [Pc.carries, at_pc] using queued) _ free waiters
  | resume at_pc woken => exact carried_by_self r (by simp [Pc.carries])
  | callUnlock at_pc => exact carried.of_idle (by simp [Pc.carries, at_pc]) _
  | release at_pc held => exact carried_by_self r (by simp [Pc.carries])
  | abort at_pc free => exact carried
  | popNone at_pc empty => intro _ waiters; exact absurd empty waiters
  | popSome at_pc front => exact carried_by_self r (by simp [Pc.carries])
  | wake at_pc => intro _ _; exact .inr (by simp)
  | leave at_pc => exact carried.of_idle (by simp [Pc.carries, at_pc]) _

/-- For any routines and any order of their steps: if no routine suspends in `lock` as a queued
waiter of a free mutex that nobody is about to pop or to take, every state reached has somebody
to wake the waiters. -/
theorem wakes_waiters {s : State R}
    (reached : (machine R).ReachableBy (fun s r => ¬ SleepsOnFree s r) s) : NoLostWakeup s :=
  (reached.invariant Carried (fun _ starts => starts ▸ initial_carried)
    fun _ _ _ carried awake stepped => step_carried carried awake stepped).noLostWakeup

/-- 1 and 2 wait for 0, whose `unlock` frees the mutex and wakes 1. -/
theorem wakes_waiters_handover :
    ∃ s : State Nat, s.lockCount = 0 ∧ s.list = [2] ∧ NoLostWakeup s :=
  ⟨_, rfl, rfl, wakes_waiters (.mono (fun _ _ awake sleeps => awake sleeps.1)
    (Transition.Machine.execWhile_reachableBy (fun s r => ¬ QueuedOnFree s r)
      (.start rfl) [0, 0, 1, 1, 1, 1, 2, 2, 2, 2, 0, 0, 0, 0, 0] rfl))⟩

/-- Routine 0 locks, 1 queues up and sleeps, 0 unlocks and wakes 1, whose exchange expects 1 and
fails on the free mutex: 1 queues up again and sleeps with nobody left to wake it. -/
theorem wakes_waiters_fails :
    ¬ ∀ s : State Nat, (machine Nat).Reachable s → NoLostWakeup s := by
  intro claim
  obtain ⟨s, ran, free, waiters, first, second, queues⟩ : ∃ s,
      (machine Nat).exec initial [0, 0, 1, 1, 1, 1, 0, 0, 0, 0, 0, 1, 1, 1, 1] = some s ∧
      s.lockCount = 0 ∧ s.list = [1] ∧ s.pc 0 = .outside ∧ s.pc 1 = .asleep 0 ∧ s.ready = [] :=
    ⟨_, rfl, rfl, rfl, rfl, rfl, rfl⟩
  have reached := Transition.Machine.exec_reachable (m := machine Nat) (.start rfl) ran
  rcases claim s reached free (by simp [waiters]) with ⟨q, active⟩ | woken
  · by_cases zero : q = 0
    · subst zero; simp [Pc.active, first] at active
    · by_cases one : q = 1
      · subst one; simp [Pc.active, second] at active
      · have idle : s.pc q = .outside := exec_pc_of_not_mem ran (by simp [zero, one])
        simp [Pc.active, idle] at active
  · exact woken queues

end BRoutine.BMutex
