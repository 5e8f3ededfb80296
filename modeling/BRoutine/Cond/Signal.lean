import BRoutine.Cond.Model

/-!
# The signals of a mutex holder and the waiters before it

`wait` gives the mutex back before it adds its entry, so another routine can take the mutex and
run the whole of `signalAll` in between. `reaches_iff` shows that a signal is lost exactly when
the loop of a `signalAll` ends while a waiter that released the mutex before the signaller took
it has still to add its entry.
-/

namespace BRoutine.BCond

variable {R : Type} [DecidableEq R]

/-- In `unlock`, after its exchange. -/
def exchanged : BMutex.Pc R → Prop
  | .pop | .addTask _ | .unlocked => True
  | _ => False

/-- In `wait`, with the mutex released and the entry not in the list yet. -/
def Gap (s : State R) (r : R) : Prop :=
  (s.pc r = .release ∧ exchanged (s.mutex.pc r)) ∨ s.pc r = .add

/-- In `wait`, with the mutex released and not resumed. -/
def Waits (s : State R) (r : R) : Prop := Gap s r ∨ s.pc r = .swap ∨ s.pc r = .asleep

/-- A task of `r` is in a ready queue, or a signaller has popped the entry of `r` for one. -/
def Woken (s : State R) (r : R) : Prop :=
  r ∈ s.mutex.ready ∨ ∃ g, s.pc g = .wakeAll r ∨ s.pc g = .wakeOnce r

/-- When the loop of `signalAll` has ended, every waiter that released the mutex before the
signaller acquired it had its entry in the list and is woken. -/
def SignalsReach (s : State R) : Prop :=
  ∀ g r, s.pc g = .signalled → Waits s r → s.released r < s.acquired g →
    (¬ Gap s r ∧ r ∉ s.list) ∧ Woken s r

/-- The loop of a `signalAll` finds the list empty while a waiter that released the mutex before
the signaller acquired it has still to add its entry. -/
def EndsInGap (s : State R) : Label R → Prop
  | .run g => s.pc g = .popAll ∧ s.list = [] ∧ ∃ r, Gap s r ∧ s.released r < s.acquired g
  | _ => False

/-- The exchanges are counted in order, a sleeping waiter is in the list or woken, and at the
end of a `signalAll` only later waiters are unsignalled. -/
structure Ordered (s : State R) : Prop where
  counted : ∀ g, s.acquired g < s.count
  kept : ∀ r, s.pc r = .swap ∨ s.pc r = .asleep → r ∈ s.list ∨ Woken s r
  ended : ∀ g r, s.pc g = .signalled → Gap s r ∨ r ∈ s.list → s.acquired g ≤ s.released r

omit [DecidableEq R] in
theorem initial_ordered : Ordered (initial : State R) where
  counted := fun _ => Nat.one_pos
  kept := fun _ sleeping => by simp [initial] at sleeping
  ended := fun _ _ signalled => by simp [initial] at signalled

omit [DecidableEq R] in
theorem Ordered.signalsReach {s : State R} (ordered : Ordered s) : SignalsReach s := by
  intro g r signalled waits before
  have late : ¬ (Gap s r ∨ r ∈ s.list) := fun unsignalled =>
    absurd (ordered.ended g r signalled unsignalled) (by omega)
  rw [not_or] at late
  have sleeping := waits.resolve_left late.1
  exact ⟨late, (ordered.kept r sleeping).resolve_left late.2⟩

/-! ### Steps of the mutex -/

theorem install_counted {s : State R} (counted : ∀ g, s.acquired g < s.count) (r : R)
    (mutex : BMutex.State R) (g : R) :
    (s.install r mutex).acquired g < (s.install r mutex).count := by
  have below := counted g
  unfold State.install
  split
  · by_cases mine : g = r
    · subst mine; simp
    · simp only [Function.update_of_ne mine]; omega
  · simp only; omega
  · exact below

/-- A release is stamped after every acquisition so far. -/
theorem install_released {s : State R} (counted : ∀ g, s.acquired g < s.count) {g r : R}
    (mutex : BMutex.State R)
    (before : mutex.pc r = .pop ∨ s.acquired g ≤ s.released r) :
    s.acquired g ≤ (s.install r mutex).released r := by
  have below := counted g
  unfold State.install
  split
  next locked => simpa [locked] using before
  · simp only [Function.update_self]; omega
  next other released => exact before.resolve_left released

/-- `unlock` passes its exchange at the step to `pop`, which counts a release. -/
theorem step_exchanged {s t : BMutex.State R} {r : R} (stepped : BMutex.step s r = some t)
    (after : exchanged (t.pc r)) : t.pc r = .pop ∨ exchanged (s.pc r) := by
  cases (BMutex.step_spec stepped).2 <;> simp_all [exchanged]

/-- What a step of the mutex by `r`, which may end an operation of `r`, keeps. -/
theorem Ordered.install {s : State R} {r : R} {mutex : BMutex.State R} (ordered : Ordered s)
    (moved : BMutex.step s.mutex r = some mutex) (p : Pc R)
    (awake : s.pc r ≠ .swap ∧ s.pc r ≠ .asleep ∧ s.pc r ≠ .signalled)
    (idle : ∀ q, s.pc r ≠ .wakeAll q ∧ s.pc r ≠ .wakeOnce q)
    (next : p ≠ .swap ∧ p ≠ .asleep ∧ p ≠ .signalled)
    (gap : (p = .release ∧ exchanged (mutex.pc r)) ∨ p = .add → mutex.pc r = .pop ∨ Gap s r) :
    Ordered ((s.install r mutex).goto r p) := by
  constructor
  · intro g
    exact install_counted ordered.counted r mutex g
  · intro q sleeping
    -- the routine that moves is none of those that sleep
    have other : q ≠ r := by rintro rfl; simp [next.1, next.2.1] at sleeping
    rw [goto_pc_of_ne _ _ other, install_pc] at sleeping
    rcases ordered.kept q sleeping with queued | ready | ⟨g, popped⟩
    · exact .inl (by simpa using queued)
    · exact .inr (.inl (by simpa using BMutex.step_keeps_ready moved other ready))
    · have busy : g ≠ r := by rintro rfl; exact popped.elim (idle q).1 (idle q).2
      exact .inr (.inr ⟨g, by rw [goto_pc_of_ne _ _ busy, install_pc]; exact popped⟩)
  · intro g q signalled unsignalled
    have other : g ≠ r := by rintro rfl; simp [next.2.2] at signalled
    rw [goto_pc_of_ne _ _ other, install_pc] at signalled
    rw [goto_acquired, install_acquired_of_ne _ _ other, goto_released]
    -- only the routine that moves can have left the mutex
    by_cases mine : q = r
    · subst mine
      refine install_released ordered.counted mutex ?_
      rcases unsignalled with inside | queued
      · refine (gap (by simpa [Gap] using inside)).imp_right fun before => ?_
        exact ordered.ended g q signalled (.inl before)
      · exact .inr (ordered.ended g q signalled (.inr (by simpa using queued)))
    · rw [install_released_of_ne _ _ mine]
      refine ordered.ended g q signalled (unsignalled.imp ?_ (by simp))
      intro inside
      have same : mutex.pc q = s.mutex.pc q := BMutex.step_pc_of_ne moved mine
      simpa [Gap, goto_pc_of_ne _ _ mine, same] using inside

/-! ### Steps of the condition -/

/-- What a step of the condition by `r` keeps: it moves no stamp, wakes or leaves queued whoever
was, and ends no `signalAll` too early. -/
theorem Ordered.of_step {s t : State R} {r : R} (ordered : Ordered s)
    (others : ∀ q, q ≠ r → t.pc q = s.pc q) (count : t.count = s.count)
    (acquired : t.acquired = s.acquired) (released : t.released = s.released)
    (asleep : t.pc r = .swap ∨ t.pc r = .asleep →
      r ∈ t.list ∨ s.pc r = .swap ∨ s.pc r = .asleep)
    (pending : ∀ q, q ∈ s.list ∨ Woken s q →
      q ∈ t.list ∨ Woken t q ∨ (q = r ∧ ¬ (t.pc r = .swap ∨ t.pc r = .asleep)))
    (early : t.pc r = .signalled → ∀ q, Gap s q ∨ q ∈ s.list → s.acquired r ≤ s.released q)
    (unsignalled : ∀ q, Gap t q ∨ q ∈ t.list → Gap s q ∨ q ∈ s.list) : Ordered t := by
  constructor
  · rw [acquired, count]; exact ordered.counted
  · intro q sleeping
    have before : q ∈ t.list ∨ s.pc q = .swap ∨ s.pc q = .asleep := by
      by_cases mine : q = r
      · subst mine; exact asleep sleeping
      · rw [others q mine] at sleeping; exact .inr sleeping
    rcases before with queued | before
    · exact .inl queued
    · rcases pending q (ordered.kept q before) with queued | woken | ⟨rfl, awake⟩
      · exact .inl queued
      · exact .inr woken
      · exact absurd sleeping awake
  · intro g q signalled inside
    rw [acquired, released]
    by_cases mine : g = r
    · subst mine; exact early signalled q (unsignalled q inside)
    · rw [others g mine] at signalled
      exact ordered.ended g q signalled (unsignalled q inside)

omit [DecidableEq R] in
/-- An entry popped by `r` is not lost when `r` was not already carrying another. -/
theorem Woken.of_pcs {s t : State R} {r q : R} (woken : Woken s q)
    (ready : q ∈ s.mutex.ready → q ∈ t.mutex.ready) (others : ∀ g, g ≠ r → t.pc g = s.pc g)
    (carried : s.pc r = .wakeAll q ∨ s.pc r = .wakeOnce q → Woken t q) : Woken t q := by
  rcases woken with inside | ⟨g, popped⟩
  · exact .inl (ready inside)
  · by_cases mine : g = r
    · subst mine; exact carried popped
    · exact .inr ⟨g, by rw [others g mine]; exact popped⟩

theorem gap_goto {s : State R} {r q : R} {p : Pc R}
    (leaves : ¬ ((p = .release ∧ exchanged (s.mutex.pc r)) ∨ p = .add))
    (inside : Gap (s.goto r p) q) : Gap s q := by
  by_cases mine : q = r
  · subst mine; exact absurd (by simpa [Gap] using inside) leaves
  · simpa [Gap, goto_pc_of_ne _ _ mine] using inside

/-- A step that only moves `r` from one place outside the list operations to another. -/
theorem Ordered.move {s : State R} {r : R} (ordered : Ordered s) (p : Pc R)
    (idle : ∀ q, s.pc r ≠ .wakeAll q ∧ s.pc r ≠ .wakeOnce q)
    (asleep : p = .swap ∨ p = .asleep → s.pc r = .swap ∨ s.pc r = .asleep)
    (early : p = .signalled → ∀ q, Gap s q ∨ q ∈ s.list → s.acquired r ≤ s.released q)
    (leaves : ¬ ((p = .release ∧ exchanged (s.mutex.pc r)) ∨ p = .add)) :
    Ordered (s.goto r p) := by
  refine ordered.of_step (r := r) (fun q other => goto_pc_of_ne _ _ other) rfl rfl rfl ?_ ?_ ?_ ?_
  · intro sleeping; exact .inr (asleep (by simpa using sleeping))
  · rintro q (queued | woken)
    · exact .inl queued
    · refine .inr (.inl (woken.of_pcs id (fun g other => goto_pc_of_ne _ _ other) ?_))
      exact fun popped => absurd popped (not_or.mpr (idle q))
  · intro signalled; exact early (by simpa using signalled)
  · rintro q (inside | queued)
    · exact .inl (gap_goto leaves inside)
    · exact .inr queued

theorem Ordered.enqueue {s : State R} {r : R} (ordered : Ordered s) (at_pc : s.pc r = .add) :
    Ordered (({ s with list := s.list ++ [r] }).goto r .swap) := by
  refine ordered.of_step (r := r) (fun q other => goto_pc_of_ne _ _ other) rfl rfl rfl ?_ ?_ ?_ ?_
  · intro _; exact .inl (by simp)
  · rintro q (queued | woken)
    · exact .inl (by simp [queued])
    · refine .inr (.inl (woken.of_pcs id (fun g other => goto_pc_of_ne _ _ other) ?_))
      intro popped; simp [at_pc] at popped
  · intro signalled; simp at signalled
  · rintro q (inside | queued)
    · exact .inl (gap_goto (s := { s with list := s.list ++ [r] }) (by simp) inside)
    · rcases List.mem_append.mp queued with before | mine
      · exact .inr before
      · exact .inl (.inr (by simpa [List.mem_singleton.mp mine] using at_pc))

theorem Ordered.resume {s : State R} {r : R} (ordered : Ordered s) (at_pc : s.pc r = .asleep) :
    Ordered (({ s with
      mutex := ({ s.mutex with ready := s.mutex.ready.erase r }).goto r (.retry 0) }).goto
        r .relock) := by
  refine ordered.of_step (r := r) (fun q other => goto_pc_of_ne _ _ other) rfl rfl rfl ?_ ?_ ?_ ?_
  · intro sleeping; simp at sleeping
  · rintro q pending
    by_cases mine : q = r
    · exact .inr (.inr ⟨mine, by simp⟩)
    · refine pending.imp id fun woken => .inl (woken.of_pcs (r := r) ?_ ?_ ?_)
      · intro ready; simpa using (List.mem_erase_of_ne mine).mpr ready
      · exact fun g other => goto_pc_of_ne _ _ other
      · intro popped; simp [at_pc] at popped
  · intro signalled; simp at signalled
  · rintro q (inside | queued)
    · left
      by_cases mine : q = r
      · subst mine; simp [Gap] at inside
      · simpa [Gap, goto_pc_of_ne _ _ mine, BMutex.goto_pc_of_ne _ _ mine] using inside
    · exact .inr queued

/-- A popped entry passes from the list to the signaller that popped it. -/
theorem Ordered.pop {s : State R} {r routine : R} {rest : List R} (ordered : Ordered s)
    (idle : ∀ q, s.pc r ≠ .wakeAll q ∧ s.pc r ≠ .wakeOnce q) (front : s.list = routine :: rest)
    (p : Pc R) (carries : p = .wakeAll routine ∨ p = .wakeOnce routine) :
    Ordered (({ s with list := rest }).goto r p) := by
  refine ordered.of_step (r := r) (fun q other => goto_pc_of_ne _ _ other) rfl rfl rfl ?_ ?_ ?_ ?_
  · intro sleeping; rcases carries with rfl | rfl <;> simp at sleeping
  · rintro q (queued | woken)
    · rw [front, List.mem_cons] at queued
      rcases queued with rfl | queued
      · exact .inr (.inl (.inr ⟨r, by simpa using carries⟩))
      · exact .inl queued
    · refine .inr (.inl (woken.of_pcs id (fun g other => goto_pc_of_ne _ _ other) ?_))
      exact fun popped => absurd popped (not_or.mpr (idle q))
  · intro signalled; rcases carries with rfl | rfl <;> simp at signalled
  · rintro q (inside | queued)
    · refine .inl (gap_goto (s := { s with list := rest }) ?_ inside)
      rcases carries with rfl | rfl <;> simp
    · exact .inr (by rw [front]; exact List.mem_cons_of_mem _ queued)

/-- `AddTask` passes it on to a ready queue. -/
theorem Ordered.addTask {s : State R} {r routine : R} (ordered : Ordered s)
    (carried : s.pc r = .wakeAll routine ∨ s.pc r = .wakeOnce routine)
    (p : Pc R) (next : p = .popAll ∨ p = .outside) :
    Ordered ((s.addTask routine).goto r p) := by
  refine ordered.of_step (r := r) (fun q other => goto_pc_of_ne _ _ other) rfl rfl rfl ?_ ?_ ?_ ?_
  · intro sleeping; rcases next with rfl | rfl <;> simp at sleeping
  · rintro q (queued | woken)
    · exact .inl queued
    · refine .inr (.inl (woken.of_pcs (r := r) ?_ ?_ ?_))
      · intro ready; simp [State.addTask, ready]
      · exact fun g other => goto_pc_of_ne _ _ other
      · intro popped
        have same : q = routine := by
          rcases carried with here | here <;> rw [here] at popped <;> simpa [eq_comm] using popped
        exact .inl (by simp [State.addTask, same])
  · intro signalled; rcases next with rfl | rfl <;> simp at signalled
  · rintro q (inside | queued)
    · refine .inl (gap_goto (s := s.addTask routine) ?_ inside)
      rcases next with rfl | rfl <;> simp
    · exact .inr queued

theorem Ordered.callWait {s : State R} {r : R} (ordered : Ordered s)
    (at_pc : s.pc r = .outside) :
    Ordered (({ s with mutex := s.mutex.goto r .unlock }).goto r .release) := by
  refine ordered.of_step (r := r) (fun q other => goto_pc_of_ne _ _ other) rfl rfl rfl ?_ ?_ ?_ ?_
  · intro sleeping; simp at sleeping
  · rintro q (queued | woken)
    · exact .inl queued
    · refine .inr (.inl (woken.of_pcs (r := r) id (fun g other => goto_pc_of_ne _ _ other) ?_))
      intro popped; simp [at_pc] at popped
  · intro signalled; simp at signalled
  · rintro q (inside | queued)
    · left
      by_cases mine : q = r
      · subst mine; simp [Gap, exchanged] at inside
      · simpa [Gap, goto_pc_of_ne _ _ mine, BMutex.goto_pc_of_ne _ _ mine] using inside
    · exact .inr queued

theorem step_ordered {s t : State R} {label : Label R} (ordered : Ordered s)
    (timely : ¬ EndsInGap s label) (stepped : step s label = some t) : Ordered t := by
  cases step_spec stepped with
  | @own r mutex at_pc moved =>
    have kept := ordered.install moved (s.pc r) (by simp [at_pc]) (by simp [at_pc])
      (by simp [at_pc]) (by simp [at_pc])
    rwa [← install_pc s r mutex, goto_same] at kept
  | @releasing r mutex at_pc moved inside =>
    have kept := ordered.install moved (s.pc r) (by simp [at_pc]) (by simp [at_pc])
      (by simp [at_pc]) (by
        rintro (⟨-, after⟩ | at_add)
        · exact (step_exchanged moved after).imp_right fun before => .inl ⟨at_pc, before⟩
        · simp [at_pc] at at_add)
    rwa [← install_pc s r mutex, goto_same] at kept
  | released at_pc moved returned =>
    have before := BMutex.step_returns moved returned
    exact ordered.install moved _ (by simp [at_pc]) (by simp [at_pc]) (by simp)
      fun _ => .inr (.inl ⟨at_pc, by simp [exchanged, before]⟩)
  | enqueue at_pc => exact ordered.enqueue at_pc
  | suspend at_pc => exact ordered.move _ (by simp [at_pc]) (by simp [at_pc]) (by simp) (by simp)
  | resume at_pc woken => exact ordered.resume at_pc
  | @relocking r mutex at_pc moved inside =>
    have kept := ordered.install moved (s.pc r) (by simp [at_pc]) (by simp [at_pc])
      (by simp [at_pc]) (by simp [at_pc])
    rwa [← install_pc s r mutex, goto_same] at kept
  | relocked at_pc moved returned =>
    exact ordered.install moved _ (by simp [at_pc]) (by simp [at_pc]) (by simp) (by simp)
  | @popAllNone r at_pc empty =>
    refine ordered.move _ (by simp [at_pc]) (by simp) ?_ (by simp)
    -- `timely` says that no earlier waiter is in the gap, and nobody is in the list
    rintro - q (inside | queued)
    · by_contra before
      exact timely ⟨at_pc, empty, q, inside, by omega⟩
    · simp [empty] at queued
  | popAllSome at_pc front => exact ordered.pop (by simp [at_pc]) front _ (.inl rfl)
  | wakeAll at_pc => exact ordered.addTask (.inl at_pc) _ (.inl rfl)
  | signalled at_pc => exact ordered.move _ (by simp [at_pc]) (by simp) (by simp) (by simp)
  | popOnceNone at_pc empty => exact ⟨ordered.counted, ordered.kept, ordered.ended⟩
  | popOnceSome at_pc front => exact ordered.pop (by simp [at_pc]) front _ (.inr rfl)
  | wakeOnce at_pc => exact ordered.addTask (.inr at_pc) _ (.inr rfl)
  | callWait at_pc locked => exact ordered.callWait at_pc
  | callSignalAll at_pc => exact ordered.move _ (by simp [at_pc]) (by simp) (by simp) (by simp)
  | callSignalOnce at_pc => exact ordered.move _ (by simp [at_pc]) (by simp) (by simp) (by simp)

/-- The `signalAll` that ends in the gap of a waiter leaves that waiter unsignalled. -/
theorem endsInGap_loses {s t : State R} {label : Label R} (early : EndsInGap s label)
    (stepped : step s label = some t) : ¬ SignalsReach t := by
  cases label with
  | wait r => exact early.elim
  | signalAll r => exact early.elim
  | signalOnce r => exact early.elim
  | run g =>
    obtain ⟨at_pc, empty, r, inside, before⟩ := early
    have other : r ≠ g := by
      rintro rfl
      simp [Gap, at_pc] at inside
    have ended : t = s.goto g .signalled := by
      have spec := step_spec stepped
      cases spec <;> simp_all
    subst ended
    have still : Gap (s.goto g .signalled) r := by
      simpa [Gap, goto_pc_of_ne _ _ other] using inside
    intro reach
    exact (reach g r (by simp) (.inl still) before).1.1 still

/-- For any routines and any order of their steps: every finished `signalAll` reaches the waiters
that released the mutex before the signaller acquired it, all along the schedule, exactly when
none ends in the gap of such a waiter. -/
theorem reaches_iff (schedule : List (Label R)) :
    (∀ s, (machine R).Visits initial schedule s → SignalsReach s) ↔
      ∀ s label, (machine R).Takes initial schedule s label → ¬ EndsInGap s label :=
  Transition.Machine.safe_iff_steps_ok (m := machine R) Ordered
    (fun s label => ¬ EndsInGap s label)
    (fun _ _ _ ordered timely stepped => step_ordered ordered timely stepped)
    (fun _ ordered => ordered.signalsReach)
    (fun _ _ _ _ early stepped => endsInGap_loses (not_not.mp early) stepped)
    initial_ordered schedule

/-- Routine 0 locks and waits; between its `unlock` and its `add`, 1 locks and runs `signalAll`,
which finds the list empty. -/
theorem reaches_fails :
    ¬ ∀ schedule : List (Label Nat), ∀ s, (machine Nat).Visits initial schedule s →
      SignalsReach s := by
  intro claim
  let schedule : List (Label Nat) :=
    [.run 0, .run 0, .wait 0, .run 0, .run 0, .run 0, .run 1, .run 1, .signalAll 1, .run 1]
  obtain ⟨s, ran, ended, waiting, before⟩ : ∃ s, (machine Nat).exec initial schedule = some s ∧
      s.pc 1 = .signalled ∧ s.pc 0 = .add ∧ s.released 0 < s.acquired 1 :=
    ⟨_, rfl, rfl, rfl, by decide⟩
  have gap : Gap s 0 := .inr waiting
  have reach := claim schedule s ⟨schedule, List.prefix_rfl, ran⟩
  exact (reach 1 0 ended (.inl gap) before).1.1 gap

end BRoutine.BCond
