import BRoutine.Mutex.Model

/-!
# Mutual exclusion of bMutex

`lock` keeps its local `i` across the jump to `retry`. A failed exchange has stored the observed
`lockCount`, that is 1, in `i`, so the exchange of a woken waiter succeeds while another routine
has the mutex. `excludes_iff` shows that this is the only way to lose mutual exclusion.
-/

namespace BRoutine.BMutex

variable {R : Type} [DecidableEq R]

/-- Between a returned `lock` and the exchange of the matching `unlock`. -/
def Pc.holds : Pc R → Prop
  | .locked | .unlock => True
  | _ => False

/-- At most one routine has the mutex and no `unlock` has called `abort`. -/
def Exclusive (s : State R) : Prop :=
  (∀ p q, (s.pc p).holds → (s.pc q).holds → p = q) ∧ s.aborted = false

/-- A woken waiter makes its exchange, with the expected value 1 its failed attempt has left in
`i`, while the mutex is taken. -/
def StaleRetry (s : State R) (r : R) : Prop := s.pc r = .retry 1 ∧ s.lockCount = 1

/-- `lockCount` tells whether somebody has the mutex. -/
structure Counted (s : State R) : Prop where
  running : s.aborted = false
  cell : s.lockCount = 0 ∨ s.lockCount = 1
  free : s.lockCount = 0 → ∀ q, ¬ (s.pc q).holds
  taken : s.lockCount = 1 → ∃ h, (s.pc h).holds
  unique : ∀ p q, (s.pc p).holds → (s.pc q).holds → p = q

omit [DecidableEq R] in
theorem initial_counted : Counted (initial : State R) where
  running := rfl
  cell := .inl rfl
  free := fun _ _ inside => inside
  taken := fun taken => absurd taken (by simp [initial])
  unique := fun _ _ inside => inside.elim

omit [DecidableEq R] in
theorem Counted.exclusive {s : State R} (counted : Counted s) : Exclusive s :=
  ⟨counted.unique, counted.running⟩

/-- A step of `r` that keeps `lockCount` and does not change whether `r` has the mutex. -/
theorem Counted.move {s : State R} {r : R} (counted : Counted s) (list ready : List R) {p : Pc R}
    (same : p.holds ↔ (s.pc r).holds) :
    Counted (({ s with list := list, ready := ready } : State R).goto r p) := by
  have holds_iff : ∀ q,
      ((({ s with list := list, ready := ready } : State R).goto r p).pc q).holds ↔
        (s.pc q).holds := by
    intro q
    by_cases mine : q = r
    · subst mine
      rw [goto_pc_self]
      exact same
    · rw [goto_pc_of_ne _ _ mine]
  constructor
  · exact counted.running
  · exact counted.cell
  · intro free q inside
    exact counted.free free q ((holds_iff q).mp inside)
  · intro taken
    obtain ⟨h, inside⟩ := counted.taken taken
    exact ⟨h, (holds_iff h).mpr inside⟩
  · intro p q inside_p inside_q
    exact counted.unique p q ((holds_iff p).mp inside_p) ((holds_iff q).mp inside_q)

theorem Counted.acquire {s : State R} {r : R} (counted : Counted s) (free : s.lockCount = 0) :
    Counted (({ s with lockCount := 1 } : State R).goto r .locked) := by
  have only : ∀ q, ((({ s with lockCount := 1 } : State R).goto r .locked).pc q).holds → q = r := by
    intro q inside
    by_contra other
    rw [goto_pc_of_ne _ _ other] at inside
    exact counted.free free q inside
  constructor
  · exact counted.running
  · exact .inr rfl
  · intro zero; simp at zero
  · intro _; exact ⟨r, by simp [Pc.holds]⟩
  · intro p q inside_p inside_q; rw [only p inside_p, only q inside_q]

theorem Counted.release {s : State R} {r : R} (counted : Counted s) (holder : (s.pc r).holds) :
    Counted (({ s with lockCount := 0 } : State R).goto r .pop) := by
  have none : ∀ q, ¬ ((({ s with lockCount := 0 } : State R).goto r .pop).pc q).holds := by
    intro q inside
    by_cases mine : q = r
    · subst mine; simp [Pc.holds] at inside
    · rw [goto_pc_of_ne _ _ mine] at inside
      exact mine (counted.unique q r inside holder)
  constructor
  · exact counted.running
  · exact .inl rfl
  · intro _; exact none
  · intro one; simp at one
  · intro p _ inside_p _; exact absurd inside_p (none p)

theorem step_counted {s t : State R} {r : R} (counted : Counted s) (fresh : ¬ StaleRetry s r)
    (stepped : step s r = some t) : Counted t := by
  cases (step_spec stepped).2 with
  | call at_pc => exact counted.move s.list s.ready (by simp [Pc.holds, at_pc])
  | acquire at_pc equal =>
    -- an exchange that expects 1 and finds 1 is the one `fresh` excludes
    rcases counted.cell with zero | one
    · exact counted.acquire zero
    · exact absurd ⟨by rw [at_pc, ← equal, one], one⟩ fresh
  | refuse at_pc differs => exact counted.move s.list s.ready (by simp [Pc.holds, at_pc])
  | enqueue at_pc => exact counted.move (s.list ++ [r]) s.ready (by simp [Pc.holds, at_pc])
  | suspend at_pc => exact counted.move s.list s.ready (by simp [Pc.holds, at_pc])
  | resume at_pc woken => exact counted.move s.list (s.ready.erase r) (by simp [Pc.holds, at_pc])
  | callUnlock at_pc => exact counted.move s.list s.ready (by simp [Pc.holds, at_pc])
  | release at_pc held => exact counted.release (by simp [Pc.holds, at_pc])
  | abort at_pc free =>
    -- whoever calls `unlock` has the mutex, so its exchange finds 1
    rcases counted.cell with zero | one
    · exact absurd (by simp [Pc.holds, at_pc]) (counted.free zero r)
    · exact absurd one free
  | popNone at_pc empty => exact counted.move s.list s.ready (by simp [Pc.holds, at_pc])
  | popSome at_pc front => exact counted.move _ s.ready (by simp [Pc.holds, at_pc])
  | wake at_pc => exact counted.move s.list _ (by simp [Pc.holds, at_pc])
  | leave at_pc => exact counted.move s.list s.ready (by simp [Pc.holds, at_pc])

/-- The exchange of a stale retry gives the mutex to a second routine. -/
theorem staleRetry_breaks {s t : State R} {r : R} (counted : Counted s) (stale : StaleRetry s r)
    (stepped : step s r = some t) : ¬ Exclusive t := by
  obtain ⟨at_retry, one⟩ := stale
  obtain ⟨h, inside⟩ := counted.taken one
  have other : h ≠ r := by
    intro same
    subst same
    simp [Pc.holds, at_retry] at inside
  have taken : t = ({ s with lockCount := 1 } : State R).goto r .locked := by
    have run : step s r = some (({ s with lockCount := 1 } : State R).goto r .locked) := by
      simp [step, counted.running, at_retry, compareExchangeStrong, one]
    exact Option.some.inj (stepped.symm.trans run)
  rintro ⟨unique, -⟩
  apply other
  apply unique
  · rw [taken, goto_pc_of_ne _ _ other]; exact inside
  · rw [taken]; simp [Pc.holds]

/-- For any routines and any order of their steps: at most one routine has the mutex and nobody
aborts, all along the schedule, exactly when no woken waiter retries while the mutex is taken. -/
theorem excludes_iff (schedule : List R) :
    (∀ s, (machine R).Visits initial schedule s → Exclusive s) ↔
      ∀ s r, (machine R).Takes initial schedule s r → ¬ StaleRetry s r :=
  Transition.Machine.safe_iff_steps_ok (m := machine R) Counted
    (fun s r => ¬ StaleRetry s r)
    (fun _ _ _ counted fresh stepped => step_counted counted fresh stepped)
    (fun _ counted => counted.exclusive)
    (fun _ _ _ counted stale stepped => staleRetry_breaks counted (not_not.mp stale) stepped)
    initial_counted schedule

/-- Routine 0 locks, routine 1 waits, 0 unlocks and locks again, and the woken 1 locks too. -/
theorem excludes_fails :
    ¬ ∀ schedule : List Nat, ∀ s, (machine Nat).Visits initial schedule s → Exclusive s := by
  intro claim
  let schedule := [0, 0, 1, 1, 1, 1, 0, 0, 0, 0, 0, 0, 0, 1, 1]
  obtain ⟨s, ran, first, second⟩ : ∃ s, (machine Nat).exec initial schedule = some s ∧
      s.pc 0 = .locked ∧ s.pc 1 = .locked := ⟨_, rfl, rfl, rfl⟩
  have exclusive := (claim schedule s ⟨schedule, List.prefix_rfl, ran⟩).1
  exact absurd (exclusive 0 1 (by simp [first, Pc.holds]) (by simp [second, Pc.holds])) (by decide)

end BRoutine.BMutex
