import BRoutine.Scheduler.Leave

/-!
# Contexts are saved first

A routine publishes itself before it calls `SwapContext`, and nothing makes the scheduler that
finds it wait for `bSwap`. Contexts are saved first in the runs in which every task taken is one
of a routine that has left. On one scheduler that is every run: whoever takes a task runs on the
thread that the routine has left. On two it is not.
-/

namespace BRoutine.Scheduler

/-- No `bSwap` has loaded registers that were not stored, and no routine occupies two
schedulers. -/
structure SavedFirst (s : State) : Prop where
  early : s.early = false
  apart : ∀ j < s.size, ∀ k < s.size, j ≠ k → s.occupyRoutine j ≠ s.occupyRoutine k

/-- The routine that runs on a thread is in the hands of its scheduler. -/
theorem Tidy.occupy {s : State} {k : Nat} (tidy : Tidy s k) :
    s.occupyRoutine k = .loop k ∨ s.has k = some (s.occupyRoutine k) := by
  cases user : (s.occupyRoutine k).isProgress with
  | true =>
    left
    unfold Tidy at tidy
    split at tidy <;> simp_all
  | false =>
    right
    unfold State.has
    split
    next r at_pc =>
      simp only [Tidy, at_pc] at tidy
      rw [tidy.1] at user
      cases user
    all_goals rw [user, if_neg (by simp)]

theorem Orderly.savedFirst {s : State} (orderly : Orderly s) : SavedFirst s where
  early := orderly.early
  apart j _ k _ other same := by
    rcases (orderly.tidy j).occupy with loop | mine
    · rcases (orderly.tidy k).occupy with home | yours
      · rw [loop, home] at same
        exact other (Routine.loop.inj same)
      · rw [← same, loop] at yours
        exact has_ne_loop (orderly.tidy k) yours j rfl
    · rcases (orderly.tidy k).occupy with home | yours
      · rw [same, home] at mine
        exact has_ne_loop (orderly.tidy j) mine k rfl
      · rw [← same] at yours
        exact other (orderly.unique j k _ mine yours)

/-- In every run of any number of schedulers whose every task taken is one of a routine that has
left, contexts are saved first. -/
theorem savedFirst_of_left {n : Nat} {s : State}
    (reached : (machine n).ReachableBy (fun s label => takesLeft s label) s) : SavedFirst s := by
  have orderly : Orderly s := by
    refine reached.invariant Orderly ?_ fun _ _ _ orderly left stepped =>
      step_orderly orderly left stepped
    rintro _ rfl
    exact initial_orderly
  exact orderly.savedFirst

/-- Main leaves scheduler 0 and goes on on scheduler 1. -/
example : ∃ s, s.size = 2 ∧ s.occupyRoutine 1 = .main ∧ s.pc 1 = .user ∧ SavedFirst s :=
  ⟨_, rfl, rfl, rfl, savedFirst_of_left (n := 2) (Transition.Machine.execWhile_reachableBy
    (fun s label => takesLeft s label) (.start rfl)
    [.register, .run 0, .run 0, .run 0, .run 0, .run 0, .run 0, .call 0 (.resume (.user 0)),
      .run 0, .run 0, .run 0, .run 0, .run 0, .run 0, .run 1, .run 1, .run 1, .run 1, .run 1,
      .run 1] rfl)⟩

/-! ### One scheduler -/

/-- Whether the registers of `r` may be out of date at the program point: `r` runs on the thread
or is being left. -/
def Running (s : State) (k : Nat) (r : Routine) : Prop :=
  match s.pc k with
  | .store => s.pendingRoutine k = some r
  | .load => False
  | _ => s.occupyRoutine k = r

/-- With one scheduler only the routine on its thread has no saved context. -/
structure Single (s : State) : Prop where
  size : s.size = 1
  early : s.early = false
  saved : ∀ r, s.saved r = false → Running s 0 r

theorem initial_single : Single initial where
  size := rfl
  early := rfl
  saved r unsaved := by
    simp only [initial, ne_eq, decide_not, Bool.not_eq_eq_eq_not, Bool.not_false,
      decide_eq_true_eq] at unsaved
    exact unsaved.symm

theorem running_of_ordinary {s : State} {k : Nat} {r : Routine} (at_pc : (s.pc k).ordinary) :
    Running s k r ↔ s.occupyRoutine k = r := by
  unfold Running
  split
  next here => rw [here] at at_pc; cases at_pc
  next here => rw [here] at at_pc; cases at_pc
  next => rfl

/-- A step that stays outside `SwapContext` and changes nothing that it works on. -/
theorem Single.ordinary {s t : State} (single : Single s) (at_pc : (s.pc 0).ordinary)
    (to_pc : (t.pc 0).ordinary) (size : t.size = s.size) (early : t.early = s.early)
    (saved : t.saved = s.saved) (occupy : t.occupyRoutine = s.occupyRoutine) : Single t where
  size := by rw [size, single.size]
  early := by rw [early, single.early]
  saved r unsaved := by
    rw [saved] at unsaved
    rw [running_of_ordinary to_pc, occupy, ← running_of_ordinary at_pc]
    exact single.saved r unsaved

theorem Act.single {s t : State} {label : Label} (single : Single s) (act : Act s 0 label t) :
    Single t := by
  cases act with
  | quiet lists polls dealLock stays =>
    obtain ⟨before, after⟩ := stays.ordinary
    exact single.ordinary before (by simpa using after) rfl rfl rfl rfl
  | taken at_pc front =>
    have before : (s.pc 0).ordinary = true := by
      rcases at_pc with here | ⟨id, here⟩ <;> rw [here] <;> rfl
    exact single.ordinary before (by simp [Pc.ordinary]) rfl rfl rfl rfl
  | pend at_pc =>
    exact single.ordinary (by rw [at_pc]; rfl) (by simp [Pc.ordinary]) rfl rfl rfl rfl
  | @addTask r _ _ at_pc =>
    have same := addTask_same s r
    exact single.ordinary (by rw [at_pc]; rfl) (by simp [Pc.ordinary]) same.size same.early
      same.saved same.occupy
  | @swap r at_pc pending =>
    -- from here on the routine that is left is the pending one
    refine ⟨single.size, single.early, fun q unsaved => ?_⟩
    have running := single.saved q unsaved
    rw [running_of_ordinary (by rw [at_pc]; rfl)] at running
    simp [Running, running]
  | @store r at_pc pending =>
    refine ⟨single.size, single.early, fun q unsaved => ?_⟩
    simp only [goto_saved] at unsaved
    by_cases left : q = r
    · subst left; simp at unsaved
    · rw [Function.update_of_ne left] at unsaved
      have running := single.saved q unsaved
      simp only [Running, at_pc, pending, Option.some.injEq] at running
      exact absurd running.symm left
  | load at_pc =>
    -- every context is saved before the load, and after it all but that of the new routine
    have allSaved : ∀ q, s.saved q = true := by
      intro q
      by_contra unsaved
      have running := single.saved q (by simpa using unsaved)
      simp [Running, at_pc] at running
    refine ⟨single.size, by simp [single.early, allSaved], fun q unsaved => ?_⟩
    rw [running_of_ordinary (by simp only [goto_pc, Function.update_self]; split <;> rfl)]
    by_cases here : q = s.occupyRoutine 0
    · exact here.symm
    · simp [here, allSaved] at unsaved
  | @steal id locked at_pc other inside =>
    have same := stolen_same s 0 id locked
    exact single.ordinary (by rw [at_pc]; rfl) (by simp [Pc.ordinary]) same.size same.early
      same.saved same.occupy
  | crash => exact ⟨single.size, single.early, single.saved⟩

theorem step_single {n : Nat} {s t : State} {label : Label} (few : n ≤ 1) (single : Single s)
    (stepped : step n s label = some t) : Single t := by
  have size := single.size
  rcases step_spec stepped with ⟨k, inside, act⟩ | ⟨more, -⟩
  · obtain rfl : k = 0 := by omega
    exact act.single single
  · omega

theorem reachable_single {n : Nat} {s : State} (few : n ≤ 1) (reached : (machine n).Reachable s) :
    Single s := by
  refine reached.invariant Single ?_ fun _ _ _ single _ stepped => step_single few single stepped
  rintro _ rfl
  exact initial_single

/-! ### Two schedulers -/

/-- Main resumes a routine on scheduler 0. Its own task goes to scheduler 1, which runs main
before main has called `SwapContext`. -/
theorem two_run_main {n : Nat} (several : 2 ≤ n) :
    ∃ s, (machine n).Reachable s ∧ s.size = 2 ∧ s.occupyRoutine 0 = .main ∧
      s.occupyRoutine 1 = .main ∧ s.early = true := by
  have registered : (machine n).Reachable { initial with
      size := 2
      saved := Function.update initial.saved (.loop 1) false } := by
    refine .step (a := .register) (.start rfl) trivial ?_
    simp only [machine, step]
    rw [if_neg (by decide), if_pos (show initial.size < n from several)]
    rfl
  obtain ⟨s, ran, size, first, second, early⟩ : ∃ s, (machine n).exec { initial with
      size := 2
      saved := Function.update initial.saved (.loop 1) false }
      [.run 0, .run 0, .run 0, .run 0, .run 0, .run 0, .call 0 (.resume (.user 0)), .run 0,
        .run 0, .run 0, .run 1, .run 1, .run 1, .run 1, .run 1, .run 1] = some s ∧
      s.size = 2 ∧ s.occupyRoutine 0 = .main ∧ s.occupyRoutine 1 = .main ∧ s.early = true :=
    ⟨_, rfl, rfl, rfl, rfl, rfl⟩
  exact ⟨s, Transition.Machine.exec_reachable registered ran, size, first, second, early⟩

/-- In every state that any order of their steps reaches, contexts were saved first and no routine
occupies two schedulers, exactly when there is one scheduler at most. -/
theorem savedFirst_single (n : Nat) :
    (∀ s, (machine n).Reachable s → SavedFirst s) ↔ n ≤ 1 := by
  constructor
  · intro safe
    by_contra several
    obtain ⟨s, reached, -, -, -, early⟩ := two_run_main (n := n) (by omega)
    rw [(safe s reached).early] at early
    cases early
  · intro few s reached
    have single := reachable_single few reached
    refine ⟨single.early, fun j below k below' apart => ?_⟩
    have size := single.size
    omega

/-- For any number of schedulers: contexts are saved first in every run whose every task taken is
one of a routine that has left, and in all runs exactly when there is one scheduler at most. -/
theorem savedFirst_iff (n : Nat) :
    (∀ s, (machine n).ReachableBy (fun s label => takesLeft s label) s → SavedFirst s) ∧
      ((∀ s, (machine n).Reachable s → SavedFirst s) ↔ n ≤ 1) :=
  ⟨fun _ reached => savedFirst_of_left reached, savedFirst_single n⟩

/-- Main occupies two schedulers. -/
theorem savedFirst_fails : ¬ ∀ n s, (machine n).Reachable s → SavedFirst s := by
  intro always
  obtain ⟨s, reached, size, first, second, -⟩ := two_run_main (n := 2) (by omega)
  refine (always 2 s reached).apart 0 (by omega) 1 (by omega) (by omega) ?_
  rw [first, second]

end BRoutine.Scheduler
