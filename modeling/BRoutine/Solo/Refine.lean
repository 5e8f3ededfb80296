import Mathlib.Data.List.Basic
import BRoutine.Scheduler.Model
import BRoutine.Solo.Fifo

/-!
# The one scheduler among many

The machine of one scheduler has the records, contexts, stacks and pools of its routines and takes
the steps between two calls of `SwapContext` at once. The machine of any number of schedulers has
none of these and takes the steps apart. `one_is_many` shows that the first does what the second
does with a single scheduler, so that what holds of any number of schedulers holds of it.
-/

namespace BRoutine.Solo

/-- The routine of a number. -/
def image (r : Nat) : Scheduler.Routine :=
  if r = main then .main else if r = loopRoutine then .loop 0 else .user r

theorem image_loop : image loopRoutine = .loop 0 := rfl

theorem image_injective : Function.Injective image := by
  intro r q same
  unfold image at same
  split_ifs at same <;> simp_all

theorem image_isProgress {r : Nat} (other : r ≠ loopRoutine) : (image r).isProgress = false := by
  unfold image
  split
  · rfl
  · rfl

theorem image_ne_loop {r : Nat} (other : r ≠ loopRoutine) : image r ≠ .loop 0 :=
  fun same => other (image_injective same)

/-- Where the only thread is, for code that goes on. -/
def point : Control → Scheduler.Pc
  | .user _ => .user
  | .leave _ => .swap
  | .create | .ended _ | .loop | .back _ => .top

/-- What the machine of many schedulers has of a state: all that it knows of. -/
def view (s : State) : Scheduler.State where
  size := 1
  occupyRoutine := Function.update .loop 0 (image s.occupyRoutine)
  pendingRoutine := Function.update (fun _ => none) 0 (some (image s.pendingRoutine))
  activeTasks := Function.update (fun _ => []) 0 ((s.activeTasks 0).items.map image)
  pc := Function.update (fun _ => .top) 0 (point s.control)
  index := 0
  lists := fun l => (s.lists l).map image
  polls := s.polls.map image
  dealLock := false
  saved := Function.update (fun _ => true) (image s.occupyRoutine) false
  early := false
  crashed := false

/-- Main does not call `deleteSelf`. -/
def MainStays (s : State) (label : Label) : Prop :=
  label = .call .deleteSelf → s.control ≠ .user main

/-! ### Runs of the one scheduler among many -/

open Scheduler (Label.run) in
/-- A routine switches to another whose registers are stored. -/
theorem exec_switch {t : Scheduler.State} {q : Scheduler.Routine} (size : t.size = 1)
    (fine : t.crashed = false) (early : t.early = false) (at_pc : t.pc 0 = .swap)
    (pending : t.pendingRoutine 0 = some q) (other : q ≠ t.occupyRoutine 0)
    (stored : t.saved q = true) :
    (Scheduler.machine 1).exec t [.run 0, .run 0, .run 0] = some { t with
      occupyRoutine := Function.update t.occupyRoutine 0 q
      pendingRoutine := Function.update t.pendingRoutine 0 (some (t.occupyRoutine 0))
      pc := Function.update t.pc 0 (if q.isProgress then .top else .user)
      saved := Function.update (Function.update t.saved (t.occupyRoutine 0) true) q false } := by
  simp [Transition.Machine.exec_cons, Scheduler.machine, Scheduler.step, Scheduler.run, size, fine,
    early, at_pc, pending, other, stored, Scheduler.State.goto]

variable {s t : State} {place : Nat → Option Key} {r : Nat}

/-- The many schedulers get from what is seen of `s` to what is seen of `t`. -/
def Leads (s t : State) : Prop :=
  ∃ schedule, (Scheduler.machine 1).exec (view s) schedule = some (view t)

theorem Leads.same (same : view t = view s) : Leads s t := ⟨[], by rw [same]; rfl⟩

theorem Leads.trans {u : State} (first : Leads s t) (second : Leads t u) : Leads s u := by
  obtain ⟨front, ran⟩ := first
  obtain ⟨back, ran'⟩ := second
  exact ⟨front ++ back, by rw [Transition.Machine.exec_append, ran, Option.bind_some, ran']⟩

/-- The `SwapContext` of the routine `r`. -/
theorem Executes.leads (executes : Executes s r) (leave : s.control = .leave r) (cont : Cont)
    (task : Nat) : Leads s (s.away r cont task) := by
  have away := image_ne_loop executes.other
  refine ⟨[.run 0, .run 0, .run 0], ?_⟩
  rw [exec_switch (q := .loop 0) rfl rfl rfl]
  · have top : (Scheduler.Routine.loop 0).isProgress = true := rfl
    simp [view, State.away, image_loop, executes.occupy, top, point]
  · simp [view, point, leave]
  · simp [view, executes.pending, image_loop]
  · simpa [view, executes.occupy] using Ne.symm away
  · simp [view, executes.occupy, Ne.symm away]

/-- The `SwapContext` of the loop for the routine `r`. -/
theorem Loops.leads {rest : List Nat} (loops : Loops s) (loop : s.control = .loop)
    (other : r ≠ loopRoutine) (front : (s.activeTasks 0).items = r :: rest) (count : Nat) :
    Leads s (State.enter { s with
      activeTasks := Function.update s.activeTasks 0 ⟨rest, count⟩
      switches := s.switches ++ [r] } r) := by
  have user := image_isProgress other
  have away := image_ne_loop other
  -- the loop takes the task and writes `pendingRoutine`
  have took : (Scheduler.machine 1).exec (view s) [.run 0, .run 0, .run 0] = some { view s with
      activeTasks := Function.update (fun _ => []) 0 (rest.map image)
      pendingRoutine := Function.update (fun _ => none) 0 (some (image r))
      pc := Function.update (fun _ => .top) 0 .swap } := by
    simp [Transition.Machine.exec_cons, Scheduler.machine, Scheduler.step, Scheduler.run, view,
      point, loop, front, Scheduler.State.goto]
  refine ⟨[.run 0, .run 0, .run 0] ++ [.run 0, .run 0, .run 0], ?_⟩
  rw [Transition.Machine.exec_append, took, Option.bind_some,
    exec_switch (q := image r) rfl rfl rfl]
  · simp [view, State.enter, State.modify, loops.occupy, image_loop, user, point]
  · simp
  · simp
  · simpa [view, loops.occupy, image_loop] using away
  · simp [view, loops.occupy, image_loop, away]

/-- An operation that ends with the `SwapContext` of the routine `r`. -/
theorem Executes.suspends (executes : Executes s r) {mid : State} (same : SameCode s mid)
    (op : Scheduler.Op) (adds : Nat)
    (ran : (Scheduler.machine 1).exec (view s) (.call 0 op :: List.replicate adds (.run 0)) =
      some (view { mid with control := .leave r })) (cont : Cont) (task : Nat) :
    Leads s (mid.away r cont task) := by
  have first : Leads s { mid with control := .leave r } := ⟨_, ran⟩
  have there : Executes { mid with control := .leave r } r := by
    have executes := same.executes executes
    constructor
    · exact executes.occupy
    · exact executes.pending
    · exact executes.born
    · exact executes.other
    · exact executes.isProgress
    · exact executes.loop
    · exact executes.size
    · exact executes.index
  exact first.trans (there.leads rfl cont task)

/-- The loop routine is in no file. -/
theorem Sound.ne_loop (sound : Sound s place) {k : Key} (inside : r ∈ s.content k) :
    r ≠ loopRoutine := by
  rintro rfl
  have placed := (sound.filed.mem k _).mp inside
  rw [sound.loop] at placed
  cases placed

theorem Sound.leads (sound : Sound s place) (queued : Queued s) (created : s.control ≠ .create)
    {label : Label} (stays : MainStays s label) (stepped : step s label = some t) : Leads s t := by
  have effect := sound.effect stepped
  cases effect with
  | create create => exact absurd create created
  | lost user => exact .same rfl
  | made user => exact .same rfl
  | @resume _ i task user loop made =>
    obtain ⟨executes, live, -⟩ := sound.executes user
    have other := sound.ne_loop (k := .made) made
    refine executes.suspends ((sameCode_made s _).trans ((sameCode_pushBack _ i).trans
      (sameCode_pushBack _ _))) (.resume (image i)) 3 ?_ _ _
    simp [Transition.Machine.exec_cons, Scheduler.machine, Scheduler.step, Scheduler.run,
      Scheduler.call, view, point, user, Scheduler.State.goto, Scheduler.State.addTask,
      image_isProgress, other, executes.other, executes.occupy, State.pushBack,
      TaskItemsList.pushBackUnsafe]
  | @yield r task user loop =>
    obtain ⟨executes, live, -⟩ := sound.executes user
    refine executes.suspends (sameCode_pushBack s _) .yield 2 ?_ _ _
    simp [Transition.Machine.exec_cons, Scheduler.machine, Scheduler.step, Scheduler.run,
      Scheduler.call, view, point, user, Scheduler.State.goto, Scheduler.State.addTask,
      image_isProgress, executes.other, executes.occupy, State.pushBack,
      TaskItemsList.pushBackUnsafe]
  | @wait r task list user loop =>
    obtain ⟨executes, live, -⟩ := sound.executes user
    refine executes.suspends (sameCode_lists s _) (.wait list) 0 ?_ _ _
    have waits : (fun l => (Function.update s.lists list (s.lists list ++ [r]) l).map image) =
        Function.update (fun l => (s.lists l).map image) list
          ((s.lists list).map image ++ [image r]) := by
      funext l
      by_cases here : l = list
      · simp [here]
      · simp [here]
    simp [Transition.Machine.exec_cons, Scheduler.machine, Scheduler.step, Scheduler.call, view,
      point, user, Scheduler.State.goto, executes.occupy, waits]
  | @poll r task user loop =>
    obtain ⟨executes, live, -⟩ := sound.executes user
    refine executes.suspends (sameCode_polls s _) .poll 0 ?_ _ _
    simp [Transition.Machine.exec_cons, Scheduler.machine, Scheduler.step, Scheduler.call, view,
      point, user, Scheduler.State.goto, executes.occupy]
  | @noWaiter r list user none =>
    refine ⟨[.call 0 (.wake list)], ?_⟩
    simp [Transition.Machine.exec_cons, Scheduler.machine, Scheduler.step, Scheduler.call, view,
      point, user, Scheduler.State.goto, none]
  | @wake r list w rest user front =>
    have here : w ∈ s.content (.waiting list) := by
      rw [State.content, front]
      exact List.mem_cons_self
    have other := sound.ne_loop here
    have woken : (fun l => (Function.update s.lists list rest l).map image) =
        Function.update (fun l => (s.lists l).map image) list (rest.map image) := by
      funext l
      by_cases here : l = list
      · simp [here]
      · simp [here]
    refine ⟨[.call 0 (.wake list), .run 0, .run 0], ?_⟩
    simp [Transition.Machine.exec_cons, Scheduler.machine, Scheduler.step, Scheduler.run,
      Scheduler.call, view, point, user, Scheduler.State.goto, Scheduler.State.addTask, front,
      image_isProgress, other, State.pushBack, TaskItemsList.pushBackUnsafe, woken]
  | @recycle r op _ user ends recycled =>
    obtain ⟨executes, live, -⟩ := sound.executes user
    -- main does not end
    have other : r ≠ main := by
      rintro rfl
      rcases ends with rfl | rfl
      · simp [Solo.step, user, State.call] at stepped
      · exact stays rfl user
    have away : image r ≠ .main := fun same => other (image_injective same)
    refine ⟨[.call 0 .finish], ?_⟩
    cases recycled <;>
      simp [Transition.Machine.exec_cons, Scheduler.machine, Scheduler.step, Scheduler.call, view,
        point, user, Scheduler.State.goto, executes.occupy, away]
  | @leave r task leave loop =>
    have control := sound.control
    simp only [AtControl, leave] at control
    exact control.1.leads leave _ _
  | @deal r loop polls =>
    have other := sound.ne_loop (k := .polling) polls
    refine ⟨[.deal 0 (image r), .run 0, .run 0], ?_⟩
    have polled : ∃ q ∈ s.polls, image q = image r := ⟨r, polls, rfl⟩
    simp [Transition.Machine.exec_cons, Scheduler.machine, Scheduler.step, Scheduler.run, view,
      point, loop, Scheduler.State.goto, Scheduler.State.addTask, image_isProgress, other, polled,
      State.pushBack, TaskItemsList.pushBackUnsafe, List.map_erase image_injective]
  | idle loop empty =>
    have nothing : (s.activeTasks 0).items = [] := by
      cases front : (s.activeTasks 0).items with
      | nil => rfl
      | cons task rest => simp [TaskItemsList.popHead, queued.counted, front] at empty
    refine ⟨[.run 0, .run 0, .run 0], ?_⟩
    simp [Transition.Machine.exec_cons, Scheduler.machine, Scheduler.step, Scheduler.run, view,
      point, loop, Scheduler.State.goto, nothing]
  | @turn task rest loop front =>
    obtain ⟨loops, -⟩ := sound.loops loop
    have other := sound.ne_loop (k := .ready) (r := task) (by
      rw [State.content, front]
      exact List.mem_cons_self)
    exact loops.leads loop other front _
  | back back flag =>
    refine .same ?_
    simp [view, point, back]
  | delete back flag doomed held =>
    refine .same ?_
    simp [view, point, back]

/-! ### All runs -/

/-- After the first `SwapContext` the many schedulers start. -/
theorem view_started : view initial.started = Scheduler.initial := by
  have loop : image loopRoutine = .loop 0 := rfl
  have main : image main = .main := rfl
  have occupy : Function.update Scheduler.Routine.loop 0 (.loop 0) = .loop :=
    Function.update_eq_self 0 _
  have pc : Function.update (fun _ : Nat => Scheduler.Pc.top) 0 .top = fun _ => .top :=
    Function.update_eq_self (f := fun _ : Nat => Scheduler.Pc.top) 0
  simp only [view, State.started, State.pushBack, TaskItemsList.pushBackUnsafe, loop, main, occupy,
    point, pc, Scheduler.initial]
  congr 1
  · funext k
    by_cases first : k = 0 <;> simp [first]
  · funext k
    by_cases first : k = 0 <;> simp [first, initial, TaskItemsList.new, main]
  · funext q
    by_cases home : q = .loop 0 <;> simp [home]

/-- A state of the one scheduler, seen by the many. -/
structure Refines (s : State) : Prop where
  sound : ∃ place, Sound s place
  queued : Queued s
  first : s.control = .create → s = initial
  reached : s.control ≠ .create → (Scheduler.machine 1).Reachable (view s)

theorem step_refines {s t : State} {label : Label} (refines : Refines s) (stays : MainStays s label)
    (stepped : step s label = some t) : Refines t := by
  obtain ⟨place, sound⟩ := refines.sound
  have effect := sound.effect stepped
  have after : t.control ≠ .create := by
    cases effect with
    | recycle _ _ recycled => cases recycled <;> simp
    | create | lost | made | noWaiter | wake | deal | idle =>
      simp_all [State.started, State.lost, State.ready, State.pushBack]
    | _ => simp [State.away, State.enter, State.modify]
  refine ⟨sound.after effect, refines.queued.after effect, fun create => absurd create after,
    fun _ => ?_⟩
  by_cases create : s.control = .create
  · cases refines.first create
    cases effect with
    | create => exact view_started ▸ .start rfl
    | _ => simp_all
  · obtain ⟨schedule, ran⟩ := sound.leads refines.queued create stays stepped
    exact Transition.Machine.exec_reachable (refines.reached create) ran

/-- In every run of one scheduler in which main does not call `deleteSelf` and each routine that is
made is resumed once, whatever else the routines call: each state after the first `SwapContext` is,
but for what the machine of many schedulers leaves out, a state that this machine reaches with one
scheduler. -/
theorem one_is_many (s : State) (reached : machine.ReachableBy MainStays s)
    (created : s.control ≠ .create) : (Scheduler.machine 1).Reachable (view s) := by
  have refines : Refines s := by
    refine reached.invariant Refines ?_ fun _ _ _ refines stays stepped =>
      step_refines refines stays stepped
    rintro _ rfl
    exact ⟨⟨_, initial_sound⟩, initial_queued, fun _ => rfl, fun other => absurd rfl other⟩
  exact refines.reached created

/-- A routine that main has made runs on the one scheduler. -/
theorem one_is_many_first :
    ∃ s, s.control = .user 2 ∧ (Scheduler.machine 1).Reachable (view s) := by
  have run : (machine.exec initial
      [.create, .turn, .call (.new 1), .call (.resume 2), .back, .turn]).map (·.control) =
      some (.user 2) := rfl
  obtain ⟨s, ran, control⟩ := Option.map_eq_some_iff.mp run
  refine ⟨s, control, one_is_many s (Transition.Machine.exec_reachableBy (.start rfl) ?_ ran) ?_⟩
  · intro label listed s deletes
    subst deletes
    simp at listed
  · rw [control]
    simp

end BRoutine.Solo
