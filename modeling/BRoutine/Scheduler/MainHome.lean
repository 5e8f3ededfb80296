import BRoutine.Scheduler.Context

/-!
# Main stays on its scheduler

Main belongs to the thread of scheduler 0. `stealTaskRoutine` means to leave its tasks alone, but
`AddTask` deals them out like any other, and `Try2stealTask` returns main when it is alone in a
queue. These are the two ways out: without them main stays, and with a second scheduler there is
always a run that takes the first.
-/

namespace BRoutine.Scheduler

/-- Main occupies no scheduler but its own, and no other loop has taken a task of main. -/
structure MainHome (s : State) : Prop where
  occupy : ∀ k < s.size, s.occupyRoutine k = .main → k = 0
  taken : ∀ k < s.size, s.pc k = .got .main → k = 0

/-- Each `AddTask` of main happens while the distributor is at scheduler 0, and no `Try2stealTask`
locks a queue whose only task is main's. -/
def homeOnly (s : State) : Label → Bool
  | .run k =>
    match s.pc k with
    | .add (.main :: _) _ => s.index == 0
    | _ => true
  | .steal k locked =>
    match s.pc k with
    | .scan id => !locked || s.activeTasks id != [.main]
    | _ => true
  | _ => true

/-- Nothing of main is anywhere but on scheduler 0. -/
structure Home (s : State) : Prop where
  queues : ∀ k, k ≠ 0 → .main ∉ s.activeTasks k
  pending : ∀ k, k ≠ 0 → s.pendingRoutine k ≠ some .main
  occupy : ∀ k, k ≠ 0 → s.occupyRoutine k ≠ .main
  taken : ∀ k, k ≠ 0 → s.pc k ≠ .got .main

theorem initial_home : Home initial where
  queues k away := by simp [initial, away]
  pending k away := by simp [initial, away]
  occupy k _ := by simp [initial]
  taken k _ := by simp [initial]

theorem Home.mainHome {s : State} (home : Home s) : MainHome s where
  occupy k _ main := by
    by_contra away
    exact home.occupy k away main
  taken k _ main := by
    by_contra away
    exact home.taken k away main

/-- A thread that does not get a task of main leaves the program points as they should be. -/
theorem Home.goto_taken {s : State} (home : Home s) (k : Nat) {p : Pc}
    (free : k ≠ 0 → p ≠ .got .main) :
    ∀ j, j ≠ 0 → Function.update s.pc k p j ≠ .got .main := by
  intro j away
  by_cases same : j = k
  · subst same
    rw [Function.update_self]
    exact free away
  · rw [Function.update_of_ne same]
    exact home.taken j away

/-- `Try2stealTask` returns main only when it is alone in the queue. -/
theorem try2stealTask_main {activeTask : List Routine} {locked : Bool}
    (alone : locked = true → activeTask ≠ [.main]) :
    (try2stealTask activeTask locked).2 ≠ some .main := by
  unfold try2stealTask
  split
  · simp
  next unlocked =>
    split
    · simp
    next a =>
      have other : a ≠ .main := fun eq => alone (by simpa using unlocked) (by rw [eq])
      rw [if_neg other]
      simpa using other
    next a b rest =>
      split
      · simp
      next other => simpa using other

theorem Home.addTask_queues {s : State} (home : Home s) {r : Routine}
    (index : r = .main → s.index = 0) (j : Nat) (away : j ≠ 0) :
    .main ∉ (s.addTask r).activeTasks j := by
  intro member
  rcases mem_addTask member with before | ⟨rfl, main, -⟩
  · exact home.queues j away before
  · exact away (index main.symm)

theorem Home.stolen_queues {s : State} (home : Home s) {k id : Nat} {locked : Bool}
    (alone : locked = true → s.activeTasks id ≠ [.main]) (j : Nat) (away : j ≠ 0) :
    .main ∉ (s.stolen k id locked).activeTasks j := by
  intro member
  rcases mem_stolen member with before | ⟨-, taken⟩
  · exact home.queues j away before
  · exact try2stealTask_main alone taken

theorem Act.home {s t : State} {k : Nat} {label : Label} (home : Home s)
    (onlyHome : homeOnly s label) (act : Act s k label t) : Home t := by
  cases act with
  | quiet lists polls dealLock stays =>
    exact ⟨home.queues, home.pending, home.occupy,
      home.goto_taken k fun _ => stays.not_got .main⟩
  | @taken r rest at_pc front =>
    refine ⟨fun j away => ?_, home.pending, home.occupy, home.goto_taken k fun away => ?_⟩
    · have before := home.queues j away
      by_cases same : j = k
      · subst same
        rw [front] at before
        simpa using fun later => before (List.mem_cons_of_mem _ later)
      · simpa [same] using before
    · -- the task taken was in the queue of `k`
      have before := home.queues k away
      rw [front] at before
      rintro ⟨⟩
      exact before List.mem_cons_self
  | @pend r at_pc =>
    refine ⟨home.queues, fun j away => ?_, home.occupy, home.goto_taken k (by simp)⟩
    by_cases same : j = k
    · subst same
      rintro main
      simp only [goto_pending, Function.update_self, Option.some.injEq] at main
      exact home.taken j away (by rw [at_pc, main])
    · simpa [same] using home.pending j away
  | @addTask r tasks back at_pc =>
    have index : r = .main → s.index = 0 := by
      rintro rfl
      simpa [homeOnly, at_pc] using onlyHome
    have same := addTask_same s r
    constructor
    · exact home.addTask_queues index
    · rw [goto_pending, same.pending]
      exact home.pending
    · rw [goto_occupy, same.occupy]
      exact home.occupy
    · rw [goto_pc, same.pc]
      exact home.goto_taken k (by simp)
  | @swap r at_pc pending =>
    -- the two pointers change places, and neither is main away from home
    refine ⟨home.queues, fun j away => ?_, fun j away => ?_, home.goto_taken k (by simp)⟩
    · by_cases same : j = k
      · subst same
        simpa using home.occupy j away
      · simpa [same] using home.pending j away
    · by_cases same : j = k
      · subst same
        have next := home.pending j away
        rw [pending] at next
        simpa using next
      · simpa [same] using home.occupy j away
  | store at_pc pending =>
    exact ⟨home.queues, home.pending, home.occupy, home.goto_taken k (by simp)⟩
  | load at_pc =>
    refine ⟨home.queues, home.pending, home.occupy, home.goto_taken k fun _ => ?_⟩
    split <;> simp
  | @steal id locked at_pc other inside =>
    have alone : locked = true → s.activeTasks id ≠ [.main] := by
      intro locks
      simpa [homeOnly, at_pc, locks] using onlyHome
    have same := stolen_same s k id locked
    constructor
    · exact home.stolen_queues alone
    · rw [goto_pending, same.pending]
      exact home.pending
    · rw [goto_occupy, same.occupy]
      exact home.occupy
    · rw [goto_pc, same.pc]
      exact home.goto_taken k (by simp)
  | crash => exact ⟨home.queues, home.pending, home.occupy, home.taken⟩

theorem step_home {n : Nat} {s t : State} {label : Label} (home : Home s)
    (onlyHome : homeOnly s label) (stepped : step n s label = some t) : Home t := by
  rcases step_spec stepped with ⟨k, -, act⟩ | ⟨-, rfl⟩
  · exact act.home home onlyHome
  · exact ⟨home.queues, home.pending, home.occupy, home.taken⟩

/-- Main stays in every run of any number of schedulers whose every `AddTask` of main happens
while the distributor is at scheduler 0 and in which no `Try2stealTask` finds main alone. -/
theorem main_stays {n : Nat} {s : State}
    (reached : (machine n).ReachableBy (fun s label => homeOnly s label) s) : MainHome s := by
  have home : Home s := by
    -- that nothing of main is on another scheduler is what every step keeps
    refine reached.invariant Home ?_ fun _ _ _ home onlyHome stepped =>
      step_home home onlyHome stepped
    rintro _ rfl
    exact initial_home
  exact home.mainHome

/-- Two schedulers: main has yielded on scheduler 0 and runs there again. -/
theorem main_stays_yield :
    ∃ s, s.size = 2 ∧ s.occupyRoutine 0 = .main ∧ s.pc 0 = .user ∧ MainHome s :=
  ⟨_, rfl, rfl, rfl, main_stays (n := 2) (Transition.Machine.execWhile_reachableBy
    (fun s label => homeOnly s label) (.start rfl)
    [.register, .run 0, .run 0, .run 0, .run 0, .run 0, .run 0, .call 0 .yield, .run 0, .run 0,
      .run 0, .run 0, .run 0, .run 1, .run 0, .run 0, .run 0, .run 0, .run 0, .run 0] rfl)⟩

/-- For any number of schedulers: main stays in every run exactly when there is one scheduler at
most. -/
theorem mainHome_iff (n : Nat) : (∀ s, (machine n).Reachable s → MainHome s) ↔ n ≤ 1 := by
  constructor
  · intro stays
    by_contra several
    obtain ⟨s, reached, size, -, second, -⟩ := two_run_main (n := n) (by omega)
    exact absurd ((stays s reached).occupy 1 (by omega) second) (by decide)
  · intro few s reached
    have size := (reachable_single few reached).size
    exact ⟨fun k inside _ => by omega, fun k inside _ => by omega⟩

/-- With two schedulers main is taken by the second one. -/
theorem main_stays_fails : ¬ ∀ n s, (machine n).Reachable s → MainHome s := by
  intro always
  obtain ⟨s, reached, size, -, second, -⟩ := two_run_main (n := 2) (by omega)
  exact absurd ((always 2 s reached).occupy 1 (by omega) second) (by decide)

end BRoutine.Scheduler
