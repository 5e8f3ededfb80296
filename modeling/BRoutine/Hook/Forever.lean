import BRoutine.Hook.Batch

/-!
# Polls without a timeout

A negative timeout becomes `INTMAX_MAX`, which `getBucket` cuts down to one turn of the wheel. So
the call waits in the bucket of the position it was made at, and a merge that comes round to that
bucket ends the call as if its time had come. `endures_iff` shows that a call without a timeout
ends by its events alone exactly when no merge drains its bucket before.
-/

namespace BRoutine.Hook

/-- The hooked polls, with the calls that were made with a negative timeout and the values that
calls have returned. -/
structure Watch where
  state : State
  forever : Nat → Bool
  result : Nat → Option Nat

/-- A step of the polls, noting which call it begins or ends. -/
def Watch.step (pollable : Int → Bool) (w : Watch) : Label → Option Watch
  | .poll fds timeout =>
    if timeout = 0 then some w
    else some { w with
      state := Hook.poll pollable w.state fds timeout
      forever := Function.update w.forever w.state.next (timeout.slt 0) }
  | .deal reports now => (Hook.step pollable w.state (.deal reports now)).map fun t =>
      { w with state := t }
  | .resume c =>
    if c ∈ w.state.added then (pollReturn w.state c).map fun (t, v) =>
      { w with state := t, result := Function.update w.result c (some v) }
    else none

def Watch.initial (now : Reading) : Watch := ⟨Hook.initial now, fun _ => false, fun _ => none⟩

def Watch.machine (pollable : Int → Bool) : Transition.Machine Watch Label where
  start w := ∃ now, w = Watch.initial now
  step := Watch.step pollable

/-- No call with a negative timeout has timed out, each of them waits until it has an event, and
none has returned 0. -/
structure Endures (w : Watch) : Prop where
  notTimedOut : ∀ c pm, w.forever c = true → w.state.message c = some pm →
    pm.isTasktimeout = false
  suspended : ∀ c pm, w.forever c = true → w.state.message c = some pm → c ∈ w.state.added →
    0 < pm.activeFdsNums
  result : ∀ c, w.forever c = true → w.result c ≠ some 0

/-- A merge drains no bucket in which a call with a negative timeout waits, unless one of its
descriptors has an event in the batch before the merge. -/
def EventsFirst (w : Watch) : Label → Prop
  | .deal reports now => ∀ index, w.state.timer.bucketPosNow < index →
      index ≤ w.state.timer.targetPos now → ∀ task ∈ w.state.timer.tasks index,
      w.forever task.id = true →
      ∃ report ∈ reports, ∃ item, w.state.interest report.1 = some item ∧ item.args = task.id
  | _ => True

/-! ### One step -/

/-- The calls that wait are as `poll` has left them, and those that are woken have an event. -/
structure Steady (w : Watch) : Prop where
  consistent : Consistent w.state
  bound : ∀ c, w.forever c = true → c < w.state.next
  returned : ∀ c, w.result c ≠ none → c < w.state.next
  woken : ∀ c pm, w.forever c = true → w.state.message c = some pm → c ∈ w.state.added →
    pm.isTasktimeout = false ∧ 0 < pm.activeFdsNums
  result : ∀ c, w.forever c = true → w.result c ≠ some 0

theorem initial_steady (now : Reading) : Steady (Watch.initial now) where
  consistent := initial_consistent now
  bound := by simp [Watch.initial]
  returned := by simp [Watch.initial]
  woken := by simp [Watch.initial]
  result := by simp [Watch.initial]

variable {pollable : Int → Bool} {w u : Watch} {s t : State}

theorem Steady.endures (steady : Steady w) : Endures w where
  notTimedOut c pm forever present := by
    by_cases woken : c ∈ w.state.added
    · exact (steady.woken c pm forever present woken).1
    · rw [(steady.consistent.waiting c pm present woken).1]
      rfl
  suspended c pm forever present woken := (steady.woken c pm forever present woken).2
  result := steady.result

theorem Steady.poll (steady : Steady w) (fds : List PollFd) (timeout : BitVec 32) :
    Steady { w with
      state := Hook.poll pollable w.state fds timeout
      forever := Function.update w.forever w.state.next (timeout.slt 0) } := by
  have next : (Hook.poll pollable w.state fds timeout).next = w.state.next + 1 := by
    simp only [Hook.poll, foldl_epollCtlAdd]
  have added : (Hook.poll pollable w.state fds timeout).added = w.state.added := by
    simp only [Hook.poll, foldl_epollCtlAdd]
  have message : ∀ c, c ≠ w.state.next →
      (Hook.poll pollable w.state fds timeout).message c = w.state.message c := by
    intro c other
    simp only [Hook.poll, foldl_epollCtlAdd, Function.update_of_ne other]
  have older : ∀ c, c ≠ w.state.next →
      Function.update w.forever w.state.next (timeout.slt 0) c = true → w.forever c = true := by
    intro c other forever
    rwa [Function.update_of_ne other] at forever
  constructor
  · exact poll_consistent pollable steady.consistent fds timeout
  · intro c forever
    rw [next]
    by_cases self : c = w.state.next
    · omega
    · exact Nat.lt_succ_of_lt (steady.bound c (older c self forever))
  · intro c ended
    rw [next]
    exact Nat.lt_succ_of_lt (steady.returned c ended)
  · intro c pm forever present woken
    rw [added] at woken
    have self : c ≠ w.state.next := Nat.ne_of_lt (steady.consistent.bound c (.inr woken))
    have present : w.state.message c = some pm := (message c self).symm.trans present
    exact steady.woken c pm (older c self forever) present woken
  · intro c forever ended
    by_cases self : c = w.state.next
    · -- nobody has returned from a call that is only made now
      have before := steady.returned c (by rw [ended]; exact Option.some_ne_none 0)
      omega
    · exact steady.result c (older c self forever) ended

theorem mem_callsOf_reports {batch : List Event} {reports : List (Int × BitVec 32)} {c : Nat}
    (reported : epollWait s reports = some batch) : c ∈ callsOf batch ↔
      ∃ report ∈ reports, ∃ item, s.interest report.1 = some item ∧ item.args = c := by
  rw [callsOf, List.mem_map]
  constructor
  · rintro ⟨event, member, rfl⟩
    obtain ⟨fd, listed, registered⟩ := (epollWait_mem reported event).mp member
    exact ⟨_, listed, event.ptr, registered, rfl⟩
  · rintro ⟨⟨fd, events⟩, listed, item, registered, rfl⟩
    exact ⟨⟨item, events⟩, (epollWait_mem reported _).mpr ⟨fd, listed, registered⟩, rfl⟩

theorem Steady.deal {reports : List (Int × BitVec 32)} {now : Reading} (steady : Steady w)
    (first : EventsFirst w (.deal reports now)) (dealt : deal w.state reports now = some t) :
    Steady { w with state := t } := by
  obtain ⟨batch, q, reported, passed, middle, merged⟩ := deal_passed steady.consistent dealt
  obtain ⟨woken, wakes, -, -, due⟩ := mergePass_wakes middle merged
  have next : t.next = w.state.next := wakes.next.trans passed.wakes.next
  refine ⟨deal_consistent steady.consistent dealt, ?_, ?_, ?_, steady.result⟩
  · rw [next]; exact steady.bound
  · rw [next]; exact steady.returned
  · intro c pm forever present added
    -- the merge wakes no such call: the batch has taken it out of the bucket before
    have left : c ∉ woken := by
      rw [due]
      rintro ⟨index, low, high, task, member, rfl⟩
      rw [passed.pos] at low
      rw [passed.target] at high
      obtain ⟨member, unhit⟩ := (passed.tasks index task).mp member
      exact unhit ((mem_callsOf_reports reported).mpr (first index low high task member forever))
    rw [wakes.kept c left] at present
    have before := ((wakes.added c).mp added).resolve_right left
    by_cases hit : c ∈ callsOf batch
    · exact (passed.joined c pm hit present).2
    · rw [passed.wakes.kept c hit] at present
      exact steady.woken c pm forever present
        (((passed.wakes.added c).mp before).resolve_right hit)

/-- A merge that drains the bucket of a call that has no event ends the call. -/
theorem deal_not_endures {reports : List (Int × BitVec 32)} {now : Reading} (steady : Steady w)
    (late : ¬ EventsFirst w (.deal reports now)) (dealt : deal w.state reports now = some t) :
    ¬ Endures { w with state := t } := by
  intro endures
  obtain ⟨batch, q, reported, passed, middle, merged⟩ := deal_passed steady.consistent dealt
  obtain ⟨woken, wakes, spares, timedOut, due⟩ := mergePass_wakes middle merged
  simp only [EventsFirst, not_forall] at late
  obtain ⟨index, low, high, task, member, forever, quiet⟩ := late
  have unhit : task.id ∉ callsOf batch := by rwa [mem_callsOf_reports reported]
  have ended : task.id ∈ woken := by
    rw [due]
    refine ⟨index, ?_, ?_, task, (passed.tasks index task).mpr ⟨member, unhit⟩, rfl⟩
    · rw [passed.pos]; exact low
    · rw [passed.target]; exact high
  obtain ⟨pm, present, marked⟩ := timedOut task.id ended
  rw [endures.notTimedOut task.id pm forever present] at marked
  cases marked

theorem pollReturn_value {c v : Nat} (returned : pollReturn s c = some (t, v)) :
    ∃ pm, s.message c = some pm ∧ v = pm.activeFdsNums := by
  obtain ⟨pm, present, after⟩ := Option.bind_eq_some_iff.mp returned
  refine ⟨pm, present, ?_⟩
  simp only at after
  split at after
  · cases after
    rfl
  · obtain ⟨task, -, ended⟩ := Option.map_eq_some_iff.mp after
    split at ended
    · cases ended; rfl
    · cases ended; rfl

theorem Steady.resume {c v : Nat} (steady : Steady w) (woken : c ∈ w.state.added)
    (returned : pollReturn w.state c = some (t, v)) :
    Steady { w with state := t, result := Function.update w.result c (some v) } := by
  obtain ⟨-, message, added, next, -⟩ := pollReturn_ended returned
  refine ⟨pollReturn_consistent steady.consistent woken returned, ?_, ?_, ?_, ?_⟩
  · rw [next]; exact steady.bound
  · intro c' ended
    rw [next]
    by_cases self : c' = c
    · subst self; exact steady.consistent.bound c' (.inr woken)
    · exact steady.returned c' (by simpa [self] using ended)
  · intro c' pm forever present woken'
    rw [message] at present
    rw [added] at woken'
    by_cases self : c' = c
    · subst self; simp at present
    · rw [Function.update_of_ne self] at present
      exact steady.woken c' pm forever present woken'
  · intro c' forever
    by_cases self : c' = c
    · -- the call returns what its message has counted
      subst self
      obtain ⟨pm, present, rfl⟩ := pollReturn_value returned
      have counted := (steady.woken c' pm forever present woken).2
      simpa using Nat.ne_of_gt counted
    · simpa [self] using steady.result c' forever

theorem Steady.step {label : Label} (steady : Steady w) (first : EventsFirst w label)
    (stepped : Watch.step pollable w label = some u) : Steady u := by
  cases label with
  | poll fds timeout =>
    simp only [Watch.step] at stepped
    split at stepped
    · cases stepped
      exact steady
    · cases stepped
      exact steady.poll fds timeout
  | deal reports now =>
    obtain ⟨t, dealt, rfl⟩ := Option.map_eq_some_iff.mp stepped
    exact steady.deal first dealt
  | resume c =>
    simp only [Watch.step] at stepped
    split at stepped
    next woken =>
      obtain ⟨⟨t, v⟩, returned, rfl⟩ := Option.map_eq_some_iff.mp stepped
      exact steady.resume woken returned
    · cases stepped

/-- Along a schedule no call with a negative timeout times out, goes on without an event or
returns 0, exactly when no merge drains the bucket of such a call before it has an event. -/
theorem endures_iff (pollable : Int → Bool) (now : Reading) (schedule : List Label) :
    (∀ u, (Watch.machine pollable).Visits (Watch.initial now) schedule u → Endures u) ↔
      ∀ u label, (Watch.machine pollable).Takes (Watch.initial now) schedule u label →
        EventsFirst u label := by
  refine Transition.Machine.safe_iff_steps_ok Steady EventsFirst
    (fun _ _ _ steady first stepped => steady.step first stepped)
    (fun _ steady => steady.endures) ?_ (initial_steady now) schedule
  intro w label u steady late stepped
  -- only a merge can break it: it drains a call that waits for ever
  cases label with
  | poll fds timeout => exact absurd trivial late
  | deal reports reading =>
    obtain ⟨t, dealt, rfl⟩ := Option.map_eq_some_iff.mp stepped
    exact deal_not_endures steady late dealt
  | resume c => exact absurd trivial late

/-- A call without a timeout, made 5 ms after the start, comes back with 0 after one turn of the
wheel. -/
theorem endures_fails :
    ¬ ∀ (schedule : List Label) (u : Watch),
      (Watch.machine fun fd => 0 ≤ fd).Visits (Watch.initial 0) schedule u → Endures u := by
  intro always
  let calls : List Label :=
    [.deal [] 5, .poll [⟨5, pollIn, 0⟩] (-1), .deal [] 30001, .deal [] 30005, .resume 0]
  have ends : ((Watch.machine fun fd => 0 ≤ fd).exec (Watch.initial 0) calls).map
      (fun u => (u.forever 0, u.result 0)) = some (true, some 0) := by decide +kernel
  obtain ⟨u, ran, values⟩ := Option.map_eq_some_iff.mp ends
  obtain ⟨forever, zero⟩ := Prod.mk.inj values
  exact (always calls u ⟨calls, List.prefix_rfl, ran⟩).result 0 forever zero

end BRoutine.Hook
