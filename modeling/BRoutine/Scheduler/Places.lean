import BRoutine.Scheduler.Tasks

/-!
# Where a routine is

A routine that has been resumed waits in a ready queue, on the list of a mutex or a condition, or in
a `poll`; or a thread has it in its hands, to link a task of it or to run it. `one_place_iff` says
in which runs each routine is at one of these places at a time, from its first `Resume` to its end,
so that none is lost and none gets doubled. A routine in `timeWait`, which is not among the calls
here, can be on the list of its condition and in a ready queue at once.
-/

namespace BRoutine.Scheduler

/-- Where a routine can be. -/
inductive Spot where
  /-- in `ActivetaskItems` of the scheduler `k` -/
  | queue (k : Nat)
  | list (l : Nat)
  | polls
  /-- in a task that the thread `k` is to call `AddTask` for -/
  | hand (k : Nat)
  /-- taken by the thread `k`, which has not given it to another place since -/
  | own (k : Nat)
  deriving DecidableEq, Repr

/-- The routine that the thread `k` has taken: on its way to it, or running it. A routine that has
published itself is at the place where it has done so. -/
def State.own (s : State) (k : Nat) : Option Routine :=
  match s.pc k with
  | .got r => some r
  | .user | .add _ .user => some (s.occupyRoutine k)
  | .swap => if (s.occupyRoutine k).isProgress then s.pendingRoutine k else none
  | .store | .load =>
    if (s.occupyRoutine k).isProgress then none else some (s.occupyRoutine k)
  | .top | .take | .scan _ | .add _ .swap | .add _ .deal => none

def spots (s : State) : Spot → List Routine
  | .queue k => s.activeTasks k
  | .list l => s.lists l
  | .polls => s.polls
  | .hand k => match s.pc k with
    | .add tasks _ => tasks
    | _ => []
  | .own k => (s.own k).toList

/-- Not resumed yet, resumed, or returned from its function. -/
inductive Life where
  | new
  | started
  | ended
  deriving DecidableEq, Repr

/-- A run with the life of each routine. -/
structure Lived where
  base : State
  life : Routine → Life

/-- Main runs from the start. -/
def Lived.initial : Lived := ⟨Scheduler.initial, fun r => if r = .main then .started else .new⟩

/-- What a step does to the lives. -/
def live (s : Lived) : Label → Routine → Life
  | .call _ (.resume target) =>
    if target.isProgress = false ∧ s.life target = .new then
      Function.update s.life target .started
    else s.life
  | .call k .finish => Function.update s.life (s.base.occupyRoutine k) .ended
  | _ => s.life

/-- At most `n` schedulers. -/
def lived (n : Nat) : Transition.Machine Lived Label where
  start s := s = .initial
  step s label := (step n s.base label).map fun base => ⟨base, live s label⟩

/-- A routine that has been resumed and has not ended is at one place, and there once. The others
are at none. -/
def OnePlace (s : Lived) : Prop :=
  ∃ place, Filing.Filed (spots s.base) place ∧ ∀ r, place r ≠ none ↔ s.life r = .started

/-- Only new routines are resumed, and no `Try2stealTask` returns the only task of a queue when it
is one of main. -/
def Resumes (s : Lived) : Label → Prop
  | .call _ (.resume target) => target.isProgress = false ∧ s.life target = .new
  | label => ¬ copiesMain s.base label

/-! ### Moves of a routine -/

section Moves

variable {s t : Lived} {p q : Spot} {r : Routine}

theorem OnePlace.same (one : OnePlace s) (still : spots t.base = spots s.base)
    (life : t.life = s.life) : OnePlace t := by
  unfold OnePlace
  rw [still, life]
  exact one

theorem OnePlace.move (one : OnePlace s) (rest : List Routine) (other : q ≠ p)
    (left : (spots s.base p).Perm (r :: rest))
    (moved : spots t.base =
      Function.update (Function.update (spots s.base) p rest) q (spots s.base q ++ [r]))
    (life : t.life = s.life) : OnePlace t := by
  obtain ⟨place, filed, started⟩ := one
  have inside : r ∈ spots s.base p := left.mem_iff.mpr List.mem_cons_self
  refine ⟨_, moved ▸ filed.handOver other inside left, fun j => ?_⟩
  by_cases mine : j = r
  · subst mine
    rw [life, ← started, (filed.mem p j).mp inside]
    simp
  · rw [Function.update_of_ne mine, started, life]

theorem OnePlace.enter (one : OnePlace s) (new : s.life r = .new)
    (moved : spots t.base = Function.update (spots s.base) p (spots s.base p ++ [r]))
    (life : t.life = Function.update s.life r .started) : OnePlace t := by
  obtain ⟨place, filed, started⟩ := one
  have outside : place r = none := by
    by_contra inside
    rw [(started r).mp inside] at new
    cases new
  refine ⟨_, moved ▸ filed.put outside, fun j => ?_⟩
  by_cases mine : j = r
  · simp [mine, life]
  · rw [life, Function.update_of_ne mine, Function.update_of_ne mine, started]

theorem OnePlace.leave (one : OnePlace s) (rest : List Routine)
    (left : (spots s.base p).Perm (r :: rest))
    (moved : spots t.base = Function.update (spots s.base) p rest)
    (life : t.life = Function.update s.life r .ended) : OnePlace t := by
  obtain ⟨place, filed, started⟩ := one
  refine ⟨_, moved ▸ filed.take (left.mem_iff.mpr List.mem_cons_self) left, fun j => ?_⟩
  by_cases mine : j = r
  · simp [mine, life]
  · rw [life, Function.update_of_ne mine, Function.update_of_ne mine, started]

theorem OnePlace.reorder (one : OnePlace s) {items : List Routine}
    (same : (spots s.base p).Perm items)
    (moved : spots t.base = Function.update (spots s.base) p items)
    (life : t.life = s.life) : OnePlace t := by
  obtain ⟨place, filed, started⟩ := one
  exact ⟨place, moved ▸ filed.reorder same, life ▸ started⟩

end Moves

/-! ### Steps -/

section Steps

variable {s t : State} {k : Nat}

theorem own_congr {j : Nat} (pc : t.pc j = s.pc j)
    (occupy : t.occupyRoutine j = s.occupyRoutine j)
    (pending : t.pendingRoutine j = s.pendingRoutine j) : t.own j = s.own j := by
  unfold State.own
  rw [pc, occupy, pending]

/-- The places after a step of the thread `k`. -/
theorem spots_eq {content : Spot → List Routine}
    (others : ∀ j, j ≠ k → t.pc j = s.pc j ∧ t.occupyRoutine j = s.occupyRoutine j ∧
      t.pendingRoutine j = s.pendingRoutine j)
    (queue : ∀ j, t.activeTasks j = content (.queue j))
    (list : ∀ l, t.lists l = content (.list l)) (polls : t.polls = content .polls)
    (hand : spots t (.hand k) = content (.hand k)) (own : (t.own k).toList = content (.own k))
    (rest : ∀ j, j ≠ k → content (.hand j) = spots s (.hand j) ∧
      content (.own j) = spots s (.own j)) : spots t = content := by
  funext p
  cases p with
  | queue j => exact queue j
  | list l => exact list l
  | polls => exact polls
  | hand j =>
    by_cases here : j = k
    · rw [here, hand]
    · rw [(rest j here).1]
      simp only [spots, (others j here).1]
  | own j =>
    by_cases here : j = k
    · rw [here, ← own]
      rfl
    · obtain ⟨pc, occupy, pending⟩ := others j here
      rw [(rest j here).2]
      simp only [spots, own_congr pc occupy pending]

/-- A step that moves no routine. -/
theorem spots_same
    (others : ∀ j, j ≠ k → t.pc j = s.pc j ∧ t.occupyRoutine j = s.occupyRoutine j ∧
      t.pendingRoutine j = s.pendingRoutine j)
    (queue : t.activeTasks = s.activeTasks) (list : t.lists = s.lists) (polls : t.polls = s.polls)
    (hand : spots t (.hand k) = spots s (.hand k)) (own : t.own k = s.own k) :
    spots t = spots s :=
  spots_eq others (fun j => by rw [queue]; rfl) (fun l => by rw [list]; rfl) polls hand
    (by rw [own]; rfl) fun _ _ => ⟨rfl, rfl⟩

/-- A loop is nowhere. -/
theorem OnePlace.not_loop {s : Lived} (one : OnePlace s) (loops : ∀ j, s.life (.loop j) = .new)
    {p : Spot} {r : Routine} (inside : r ∈ spots s.base p) : r.isProgress = false := by
  obtain ⟨place, filed, started⟩ := one
  cases r with
  | loop j =>
    have life := (started (.loop j)).mp (by rw [(filed.mem p _).mp inside]; simp)
    rw [loops j] at life
    cases life
  | main | user => rfl

/-- The first task of the queue of `k` is taken. -/
theorem spots_taken {r : Routine} {rest : List Routine} (idle : s.own k = none)
    (empty : spots s (.hand k) = []) :
    spots (({ s with activeTasks := Function.update s.activeTasks k rest }).goto k (.got r)) =
      Function.update (Function.update (spots s) (.queue k) rest) (.own k)
        (spots s (.own k) ++ [r]) := by
  have mine : (({ s with activeTasks := Function.update s.activeTasks k rest }).goto k
      (.got r)).own k = some r := by simp [State.own]
  refine spots_eq (s := s) (k := k) (fun j other => by simp [other]) (fun j => ?_)
    (fun l => by simp [spots, State.goto]) (by simp [spots, State.goto]) ?_ ?_
    fun j other => by simp [other]
  · by_cases here : j = k
    · simp [here]
    · simp [here, spots]
  · simpa [spots] using empty.symm
  · simp [mine, spots, idle]

theorem run_one {s : Lived} {t : State} {k : Nat} (homed : Homed s.base)
    (loops : ∀ j, s.life (.loop j) = .new) (one : OnePlace s)
    (ran : run s.base k = some t) : OnePlace ⟨t, s.life⟩ := by
  have mine := homed.paired k
  unfold run at ran
  split at ran
  next at_pc =>
    cases ran
    refine one.same (spots_same (goto_others _) rfl rfl rfl ?_ ?_) rfl
    · simp [spots, at_pc]
    · simp [State.own, at_pc]
  next at_pc =>
    have idle : s.base.own k = none := by simp [State.own, at_pc]
    have empty : spots s.base (.hand k) = [] := by simp [spots, at_pc]
    split at ran
    next =>
      cases ran
      refine one.same (spots_same (goto_others _) rfl rfl rfl ?_ ?_) rfl
      · simp [spots, at_pc]
      · simp [State.own, at_pc]
    next r rest front =>
      cases ran
      exact one.move rest (p := .queue k) (q := .own k) (by simp) (by rw [← front]; rfl)
        (spots_taken idle empty) rfl
  next id at_pc =>
    have idle : s.base.own k = none := by simp [State.own, at_pc]
    have empty : spots s.base (.hand k) = [] := by simp [spots, at_pc]
    split at ran
    next =>
      split at ran
      next =>
        cases ran
        refine one.same (spots_same (goto_others _) rfl rfl rfl ?_ ?_) rfl
        · simp [spots, at_pc]
        · simp [State.own, at_pc]
      next r rest front =>
        cases ran
        exact one.move rest (p := .queue k) (q := .own k) (by simp) (by rw [← front]; rfl)
          (spots_taken idle empty) rfl
    next => cases ran
  next r at_pc =>
    cases ran
    have home := (mine.inLoop (by rw [at_pc]; rfl)).1
    refine one.same (spots_same (k := k) (fun j other => by simp [other]) rfl rfl rfl ?_ ?_) rfl
    · simp [spots, at_pc]
    · simp [State.own, at_pc, home]
  next => cases ran
  next at_pc =>
    cases ran
    obtain ⟨user, -⟩ := mine.inCode (by rw [at_pc]; rfl)
    refine one.same (spots_same (goto_others _) rfl rfl rfl ?_ ?_) rfl
    · simp [spots, at_pc]
    · simp [State.own, at_pc, user]
  next at_pc =>
    cases ran
    refine one.same (spots_same (goto_others _) rfl rfl rfl ?_ ?_) rfl
    · simp [spots, at_pc]
    · simp [State.own, at_pc]
  next at_pc =>
    cases ran
    refine one.same (spots_same (k := k) (fun j other => by simp [other]) rfl rfl rfl ?_ ?_) rfl
    · simp [spots, at_pc]
    · simp [State.own, at_pc]
  next r tasks back at_pc =>
    cases ran
    have user := one.not_loop loops (p := .hand k) (r := r) (by simp [spots, at_pc])
    have same := addTask_same s.base r
    refine one.move tasks (p := .hand k) (q := .queue s.base.index) (r := r) (by simp)
      (by simp [spots, at_pc]) ?_ rfl
    refine spots_eq (s := s.base) (k := k) (fun j other => ?_) (fun j => ?_) (fun l => ?_) ?_ ?_
      ?_ fun j other => by simp [other]
    · simp [other, same.pc, same.occupy, same.pending]
    · by_cases here : j = s.base.index
      · simp [here, State.addTask, user, spots]
      · simp [here, State.addTask, user, spots]
    · simp [State.addTask, user, spots, State.goto]
    · simp [State.addTask, user, spots, State.goto]
    · simp [spots]
    · cases back <;> simp [State.own, spots, at_pc, same.occupy]
  next at_pc =>
    split at ran
    · cases ran
      exact one.same rfl rfl
    next r pending =>
      cases ran
      refine one.same (spots_same (k := k) (fun j other => by simp [other]) rfl rfl rfl ?_ ?_) rfl
      · simp [spots, at_pc]
      · -- of the two pointers the same one is not the loop
        rcases mine.swap_pair (by rw [at_pc]; rfl) with ⟨home, q, next, user⟩ | ⟨user, home⟩
        · rw [pending] at next
          cases next
          simp [State.own, at_pc, home, pending, user]
        · rw [pending] at home
          cases home
          simp [State.own, at_pc, user]
  next at_pc =>
    obtain ⟨r, pending, rfl⟩ := Option.map_eq_some_iff.mp ran
    refine one.same (spots_same (k := k) (fun j other => by simp [other]) rfl rfl rfl ?_ ?_) rfl
    · simp [spots, at_pc]
    · cases user : (s.base.occupyRoutine k).isProgress <;> simp [State.own, at_pc, user]
  next at_pc =>
    cases ran
    refine one.same (spots_same (k := k) (fun j other => by simp [other]) rfl rfl rfl ?_ ?_) rfl
    · cases (s.base.occupyRoutine k).isProgress <;> simp [spots, at_pc]
    · cases user : (s.base.occupyRoutine k).isProgress <;> simp [State.own, at_pc, user]

/-- A routine that runs on `k` is its own there. -/
theorem spots_user (at_pc : s.pc k = .user) :
    spots s (.own k) = [s.occupyRoutine k] ∧ spots s (.hand k) = [] := by
  simp [spots, State.own, at_pc]

theorem call_one {s : Lived} {t : State} {k : Nat} {op : Op} (homed : Homed s.base)
    (one : OnePlace s) (at_pc : s.base.pc k = .user) (fits : Resumes s (.call k op))
    (called : call s.base k op = some t) : OnePlace ⟨t, live s (.call k op)⟩ := by
  obtain ⟨user, -⟩ := (homed.paired k).inCode (by rw [at_pc]; rfl)
  obtain ⟨own, hand⟩ := spots_user at_pc
  cases op with
  | resume target =>
    cases called
    have starts : live s (.call k (.resume target)) = Function.update s.life target .started :=
      if_pos fits
    rw [starts]
    -- the task of the target is made first, then that of the caller
    have first : OnePlace ⟨s.base.goto k (.add [target] .user),
        Function.update s.life target .started⟩ := by
      refine one.enter (p := .hand k) fits.2 ?_ rfl
      refine spots_eq (s := s.base) (k := k) (goto_others _) (fun j => by simp [spots])
        (fun l => by simp [spots, State.goto]) (by simp [spots, State.goto]) ?_ ?_
        fun j other => by simp [other]
      · rw [Function.update_self, hand]
        simp [spots]
      · simp [own, State.own]
    refine first.move [] (p := .own k) (q := .hand k) (r := s.base.occupyRoutine k)
      (by simp) (by simp [spots, State.own]) ?_ rfl
    refine spots_eq (s := s.base.goto k (.add [target] .user)) (k := k)
      (fun j other => by simp [other]) (fun j => by simp [spots])
      (fun l => by simp [spots, State.goto]) (by simp [spots, State.goto]) ?_ ?_
      fun j other => by simp [other]
    · simp [spots]
    · simp [State.own]
  | yield =>
    cases called
    refine one.move [] (p := .own k) (q := .hand k) (by simp) (by rw [own]) ?_ rfl
    refine spots_eq (s := s.base) (k := k) (goto_others _) (fun j => by simp [spots])
      (fun l => by simp [spots, State.goto]) (by simp [spots, State.goto]) ?_ ?_
      fun j other => by simp [other]
    · rw [Function.update_self, hand]
      simp [spots]
    · simp [State.own]
  | wait list =>
    cases called
    refine one.move [] (p := .own k) (q := .list list) (by simp) (by rw [own]) ?_ rfl
    refine spots_eq (s := s.base) (k := k) (fun j other => by simp [other])
      (fun j => by simp [spots]) (fun l => ?_) (by simp [spots, State.goto]) ?_ ?_
      fun j other => by simp [other]
    · by_cases here : l = list
      · simp [here, spots, State.goto]
      · simp [here, spots, State.goto]
    · simp [spots, at_pc]
    · simp [State.own, user]
  | wake list =>
    cases front : s.base.lists list with
    | nil =>
      simp only [call, front] at called
      cases called
      refine one.same (spots_same (goto_others _) rfl rfl rfl ?_ ?_) rfl
      · simp [spots, at_pc]
      · simp [State.own, at_pc]
    | cons r rest =>
      simp only [call, front] at called
      cases called
      refine one.move rest (p := .list list) (q := .hand k) (by simp) (by rw [← front]; rfl) ?_ rfl
      refine spots_eq (s := s.base) (k := k) (fun j other => by simp [other])
        (fun j => by simp [spots]) (fun l => ?_) (by simp [spots, State.goto]) ?_ ?_
        fun j other => by simp [other]
      · by_cases here : l = list
        · simp [here, State.goto]
        · simp [here, spots, State.goto]
      · rw [Function.update_self, hand]
        simp [spots]
      · simp [own, State.own]
  | poll =>
    cases called
    refine one.move [] (p := .own k) (q := .polls) (by simp) (by rw [own]) ?_ rfl
    refine spots_eq (s := s.base) (k := k) (fun j other => by simp [other])
      (fun j => by simp [spots]) (fun l => by simp [spots, State.goto])
      (by simp [spots, State.goto]) ?_ ?_ fun j other => by simp [other]
    · simp [spots, at_pc]
    · simp [State.own, user]
  | finish =>
    simp only [call] at called
    split at called
    · cases called
    · cases called
      refine one.leave [] (p := .own k) (by rw [own]) ?_ rfl
      refine spots_eq (s := s.base) (k := k) (goto_others _) (fun j => by simp [spots])
        (fun l => by simp [spots, State.goto]) (by simp [spots, State.goto]) ?_ ?_
        fun j other => by simp [other]
      · simp [spots, at_pc]
      · simp [State.own, user]

/-- A scan that changes the queues only. -/
theorem spots_scan {id : Nat} {queues : Nat → List Routine} {content : Spot → List Routine}
    (at_pc : s.pc k = .scan id) (queue : ∀ j, queues j = content (.queue j))
    (rest : ∀ p, (∀ j, p ≠ .queue j) → content p = spots s p) :
    spots (({ s with activeTasks := queues }).goto k (.scan (id + 1))) = content := by
  refine spots_eq (s := s) (k := k) (fun j other => by simp [other]) queue (fun l => ?_) ?_ ?_ ?_
    fun j _ => ⟨rest _ (by simp), rest _ (by simp)⟩
  · exact (rest (.list l) (by simp)).symm
  · exact (rest .polls (by simp)).symm
  · rw [rest (.hand k) (by simp)]
    simp [spots, at_pc]
  · rw [rest (.own k) (by simp)]
    simp [spots, State.own, at_pc]

/-- What a thief takes out of the queue of `id` it links in its own. -/
theorem steal_one {s : Lived} {k id : Nat} {locked : Bool} (one : OnePlace s)
    (at_pc : s.base.pc k = .scan id) (other : id ≠ k)
    (plain : locked = true → s.base.activeTasks id ≠ [.main]) :
    OnePlace ⟨(s.base.stolen k id locked).goto k (.scan (id + 1)), s.life⟩ := by
  have moved {r : Routine} {rest : List Routine} (front : s.base.activeTasks id = r :: rest)
      (same : try2stealTask (s.base.activeTasks id) locked = (rest, some r)) :
      OnePlace ⟨(s.base.stolen k id locked).goto k (.scan (id + 1)), s.life⟩ := by
    refine one.move rest (p := .queue id) (q := .queue k) (by simpa using Ne.symm other)
      (by rw [← front]; rfl) ?_ rfl
    simp only [State.stolen, same, State.push]
    refine spots_scan at_pc (fun j => ?_) fun p away => by simp [away]
    by_cases mine : j = k
    · simp [mine, spots, Ne.symm other]
    · by_cases here : j = id
      · simp [here, other]
      · simp [mine, here, spots]
  have still (items : List Routine) (same : try2stealTask (s.base.activeTasks id) locked =
      (items, none)) (perm : (s.base.activeTasks id).Perm items) :
      OnePlace ⟨(s.base.stolen k id locked).goto k (.scan (id + 1)), s.life⟩ := by
    refine one.reorder (p := .queue id) perm ?_ rfl
    simp only [State.stolen, same]
    refine spots_scan at_pc (fun j => ?_) fun p away => by simp [away]
    by_cases here : j = id
    · simp [here]
    · simp [here, spots]
  unfold try2stealTask at moved still
  cases locked with
  | false => exact still _ rfl .rfl
  | true =>
    cases front : s.base.activeTasks id with
    | nil => exact still [] (by rw [front]; rfl) (by rw [front])
    | cons a rest =>
      cases rest with
      | nil =>
        have user : a ≠ .main := fun main => plain rfl (by rw [front, main])
        exact moved front (by rw [front]; simp [user])
      | cons b rest =>
        by_cases main : a = .main
        · refine still (b :: rest ++ [a]) (by rw [front]; simp [main]) ?_
          rw [front]
          exact (List.perm_append_singleton a _).symm
        · exact moved front (by rw [front]; simp [main])

theorem step_one {n : Nat} {s : Lived} {label : Label} {t : State} (homed : Homed s.base)
    (loops : ∀ j, s.life (.loop j) = .new) (one : OnePlace s) (fits : Resumes s label)
    (stepped : step n s.base label = some t) : OnePlace ⟨t, live s label⟩ := by
  simp only [step] at stepped
  split at stepped
  · cases stepped
  · cases label with
    | register =>
      simp only at stepped
      split at stepped
      · cases stepped
        exact one.same (spots_same (k := s.base.size) (fun _ _ => ⟨rfl, rfl, rfl⟩) rfl rfl rfl rfl
          rfl) rfl
      · cases stepped
    | run k =>
      simp only at stepped
      split at stepped
      · exact run_one homed loops one stepped
      · cases stepped
    | call k op =>
      simp only at stepped
      split at stepped
      next here => exact call_one homed one here.2 fits stepped
      · cases stepped
    | deal k r =>
      simp only at stepped
      split at stepped
      next here =>
        cases stepped
        obtain ⟨-, at_pc, polled, -⟩ := here
        refine one.move (s.base.polls.erase r) (p := .polls) (q := .hand k) (r := r)
          (by simp) (List.perm_cons_erase polled) ?_ rfl
        refine spots_eq (s := s.base) (k := k) (fun j other => by simp [other])
          (fun j => by simp [spots]) (fun l => by simp [spots, State.goto])
          (by simp [State.goto]) ?_ ?_ fun j other => by simp [other]
        · simp [spots, at_pc]
        · simp [spots, State.own, at_pc]
      · cases stepped
    | steal k locked =>
      simp only at stepped
      split at stepped
      next =>
        split at stepped
        next id at_pc =>
          split at stepped
          · cases stepped
          next other =>
            split at stepped
            next outside =>
              cases stepped
              exact one.same rfl rfl
            next inside =>
              cases stepped
              exact steal_one one at_pc other fun locks alone =>
                fits ⟨locks, id, at_pc, other, by omega, alone⟩
        · cases stepped
      · cases stepped

/-- The loops stay what they are. -/
theorem live_loop {s : Lived} {label : Label} {n : Nat} {t : State} (homed : Homed s.base)
    (loops : ∀ j, s.life (.loop j) = .new) (stepped : step n s.base label = some t) (j : Nat) :
    live s label (.loop j) = .new := by
  cases label with
  | call k op =>
    cases op with
    | resume target =>
      simp only [live]
      split
      next fits =>
        have other : Routine.loop j ≠ target := by
          rintro rfl
          cases fits.1
        rw [Function.update_of_ne other]
        exact loops j
      next => exact loops j
    | finish =>
      have at_pc : s.base.pc k = .user := by
        simp only [step] at stepped
        split at stepped
        · cases stepped
        · split at stepped
          next here => exact here.2
          next => cases stepped
      obtain ⟨user, -⟩ := (homed.paired k).inCode (by rw [at_pc]; rfl)
      have other : Routine.loop j ≠ s.base.occupyRoutine k := by
        intro same
        rw [← same] at user
        cases user
      simp only [live]
      rw [Function.update_of_ne other]
      exact loops j
    | yield | wait | wake | poll => exact loops j
  | register | run | deal | steal => exact loops j

/-- A second `Resume` makes a second task, or one of a routine that is not to run. -/
theorem not_one_of_resume {s : Lived} {t : State} {k : Nat} {target : Routine} (one : OnePlace s)
    (at_pc : s.base.pc k = .user) (again : ¬ Resumes s (.call k (.resume target)))
    (called : call s.base k (.resume target) = some t) :
    ¬ OnePlace ⟨t, live s (.call k (.resume target))⟩ := by
  cases called
  have life : live s (.call k (.resume target)) = s.life := if_neg again
  rw [life]
  rintro ⟨place', filed', started'⟩
  have hand : spots (s.base.goto k (.add [target, s.base.occupyRoutine k] .swap)) (.hand k) =
      [target, s.base.occupyRoutine k] := by simp [spots]
  have here : place' target = some (.hand k) := (filed'.mem _ _).mp (by
    rw [hand]
    exact List.mem_cons_self)
  obtain ⟨place, filed, started⟩ := one
  obtain ⟨p, before⟩ := Option.ne_none_iff_exists'.mp
    ((started target).mpr ((started' target).mp (by rw [here]; simp)))
  have inside := (filed.mem p target).mpr before
  by_cases self : target = s.base.occupyRoutine k
  · -- two tasks of the caller
    have nodup := filed'.nodup (.hand k)
    rw [hand, self] at nodup
    simp at nodup
  · have away : p ≠ .own k ∧ p ≠ .hand k := by
      constructor <;> rintro rfl <;> simp [spots, State.own, at_pc, self] at inside
    have still : target ∈
        spots (s.base.goto k (.add [target, s.base.occupyRoutine k] .swap)) p := by
      cases p with
      | queue | list | polls => exact inside
      | hand j =>
        have other : j ≠ k := fun same => away.2 (by rw [same])
        simpa [spots, other] using inside
      | own j =>
        have other : j ≠ k := fun same => away.1 (by rw [same])
        have same : (s.base.goto k (.add [target, s.base.occupyRoutine k] .swap)).own j =
            s.base.own j := own_congr (by simp [other]) rfl rfl
        simp only [spots, same]
        exact inside
    exact away.2 (filed'.unique still (by rw [hand]; exact List.mem_cons_self))

/-- Main's only task, returned and still linked. -/
theorem not_one_of_copies {n : Nat} {s : Lived} {t : State} {label : Label}
    (copies : copiesMain s.base label) (stepped : step n s.base label = some t) :
    ¬ OnePlace ⟨t, live s label⟩ := by
  cases label with
  | steal k locked =>
    obtain ⟨rfl, id, at_pc, other, inside, alone⟩ := copies
    simp only [step, at_pc, if_neg other, if_neg (Nat.not_le.mpr inside)] at stepped
    split at stepped
    · cases stepped
    · split at stepped
      · cases stepped
        rintro ⟨place, filed, -⟩
        have theirs : Routine.main ∈ spots ((s.base.stolen k id true).goto k (.scan (id + 1)))
            (.queue id) := by
          simp [spots, State.stolen, try2stealTask, alone, State.push, other]
        have mine : Routine.main ∈ spots ((s.base.stolen k id true).goto k (.scan (id + 1)))
            (.queue k) := by
          simp [spots, State.stolen, try2stealTask, alone, State.push]
        exact other (Spot.queue.inj (filed.unique theirs mine))
      · cases stepped
  | register | run | call | deal => cases copies

end Steps

/-! ### Runs -/

theorem initial_one : OnePlace .initial := by
  have filed := (Filing.Filed.empty (K := Spot) (I := Routine)).put (k := .queue 0) (i := .main) rfl
  have same : spots initial = Function.update (fun _ => []) (.queue 0) [.main] := by
    funext p
    cases p with
    | queue k => by_cases first : k = 0 <;> simp [spots, initial, first]
    | list | polls | hand | own => simp [spots, State.own, initial]
  refine ⟨_, same ▸ filed, fun r => ?_⟩
  by_cases main : r = .main <;> simp [main, Lived.initial]

theorem lived_step_iff {n : Nat} {s t : Lived} {label : Label} :
    (lived n).step s label = some t ↔
      step n s.base label = some t.base ∧ t.life = live s label := by
  simp only [lived, Option.map_eq_some_iff]
  constructor
  · rintro ⟨base, stepped, rfl⟩
    exact ⟨stepped, rfl⟩
  · rintro ⟨stepped, same⟩
    exact ⟨t.base, stepped, by rw [← same]⟩

/-- For any number of schedulers and every order of their steps: in every state main and every
routine that has been resumed and has not ended is in exactly one queue, wait list, poll or pair of
hands, and there once, and no other routine is in any, exactly when only new routines are resumed
and no `Try2stealTask` returns the only task of a queue when it is one of main. The calls are those
of `Op`. -/
theorem one_place_iff (n : Nat) (schedule : List Label) :
    (∀ s, (lived n).Visits .initial schedule s → OnePlace s) ↔
      ∀ s label, (lived n).Takes .initial schedule s label → Resumes s label := by
  refine Transition.Machine.safe_iff_steps_ok
    (fun s => Homed s.base ∧ (∀ j, s.life (.loop j) = .new) ∧ OnePlace s) _ ?_ ?_ ?_
    ⟨initial_homed, fun _ => rfl, initial_one⟩ schedule
  · rintro s label t ⟨homed, loops, one⟩ fits stepped
    obtain ⟨base, life⟩ := lived_step_iff.mp stepped
    have after := step_one homed loops one fits base
    rw [← life] at after
    refine ⟨step_homed homed base, fun j => ?_, after⟩
    rw [life]
    exact live_loop homed loops base j
  · rintro s ⟨-, -, one⟩
    exact one
  · rintro s label t ⟨-, -, one⟩ misfit stepped
    obtain ⟨base, life⟩ := lived_step_iff.mp stepped
    have bad : ¬ OnePlace ⟨t.base, live s label⟩ := by
      cases label with
      | call k op =>
        cases op with
        | resume target =>
          simp only [step] at base
          split at base
          · cases base
          · split at base
            next here => exact not_one_of_resume one here.2 misfit base
            · cases base
        | yield | wait | wake | poll | finish => exact absurd (fun copies => copies) misfit
      | register | run | deal => exact absurd (fun copies => copies) misfit
      | steal k locked => exact not_one_of_copies (not_not.mp misfit) base
    rw [← life] at bad
    exact bad

end BRoutine.Scheduler
