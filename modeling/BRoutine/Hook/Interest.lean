import BRoutine.Hook.Batch

/-!
# Polls that share descriptors

All calls of `poll` share one epoll instance, which knows a file descriptor once. A call whose
`EPOLL_CTL_ADD` is refused waits without its descriptor, and whoever ends first deregisters it by
number. `undisturbed_iff` shows that this is the only way for calls to disturb each other: as long
as nobody polls a descriptor that is registered, each call keeps its own.
-/

namespace BRoutine.Hook

variable {pollable : Int → Bool} {s t : State}

/-- Each call that waits has every descriptor that epoll accepts registered for itself, so that
an event on it reaches the message of the call. -/
def Undisturbed (pollable : Int → Bool) (s : State) : Prop :=
  ∀ c pm, s.message c = some pm → c ∉ s.added → ∀ item ∈ pm.eachFdTask,
    pollable item.epollFd = true → ∃ own, s.interest item.epollFd = some own ∧ own.args = c

/-- A call registers no descriptor that is registered already; with timeout 0 it registers none. -/
def FreeFds (pollable : Int → Bool) (s : State) : Label → Prop
  | .poll fds timeout =>
    timeout ≠ 0 → ∀ entry ∈ fds, pollable entry.fd = true → s.interest entry.fd = none
  | _ => True

/-- A call that has been handed to `AddTask` knows it when it goes on. -/
def Marked (s : State) : Prop :=
  ∀ c pm, s.message c = some pm → c ∈ s.added →
    pm.isJoinActiveList = true ∨ pm.isTasktimeout = true

/-! ### Calls that end -/

/-- Calls that had their descriptors to themselves take nothing from the others when they end. -/
theorem Undisturbed.wake {woken : List Nat} (undisturbed : Undisturbed pollable s)
    (wakes : Wakes s woken t) (spares : Spares s woken t) : Undisturbed pollable t := by
  intro c pm present waiting item member accepted
  rw [wakes.added, not_or] at waiting
  rw [wakes.kept c waiting.2] at present
  obtain ⟨own, registered, mine⟩ :=
    undisturbed c pm present waiting.1 item member accepted
  refine ⟨own, ?_, mine⟩
  rw [spares.interest, registered]
  -- a woken call with the same descriptor would have had it registered too
  intro c' pm' ended before shared
  obtain ⟨item', member', same⟩ := List.mem_map.mp shared
  obtain ⟨own', registered', theirs⟩ := undisturbed c' pm' before (spares.pending c' ended)
    item' member' (by rw [same]; exact accepted)
  rw [same, registered] at registered'
  cases registered'
  rw [← mine, theirs] at waiting
  exact waiting.2 ended

theorem Marked.wake {woken : List Nat} (marked : Marked s) (wakes : Wakes s woken t)
    (now : ∀ c pm, c ∈ woken → t.message c = some pm →
      pm.isJoinActiveList = true ∨ pm.isTasktimeout = true) : Marked t := by
  intro c pm present added
  by_cases ended : c ∈ woken
  · exact now c pm ended present
  · rw [wakes.kept c ended] at present
    have before : c ∈ s.added := ((wakes.added c).mp added).resolve_right ended
    exact marked c pm present before

theorem deal_undisturbed {reports : List (Int × BitVec 32)} {now : Reading}
    (consistent : Consistent s) (undisturbed : Undisturbed pollable s) (marked : Marked s)
    (returned : deal s reports now = some t) : Undisturbed pollable t ∧ Marked t := by
  obtain ⟨batch, q, -, passed, middle, merged⟩ := deal_passed consistent returned
  obtain ⟨woken, wakes, spares, timedOut, -⟩ := mergePass_wakes middle merged
  constructor
  · exact (undisturbed.wake passed.wakes passed.spares).wake wakes spares
  · have joined := marked.wake passed.wakes fun c pm hit present =>
      .inl (passed.joined c pm hit present).1
    refine joined.wake wakes fun c pm ended present => .inr ?_
    obtain ⟨pm', after, marked⟩ := timedOut c ended
    rw [present] at after
    cases after
    exact marked

/-- A call that knows why it was woken deregisters nothing when it returns. -/
theorem pollReturn_interest {c v : Nat} (marked : Marked s) (woken : c ∈ s.added)
    (returned : pollReturn s c = some (t, v)) :
    t.interest = s.interest := by
  obtain ⟨pm, present, after⟩ := Option.bind_eq_some_iff.mp returned
  simp only at after
  split at after
  · cases after
    rfl
  next notJoined =>
    obtain ⟨task, -, ended⟩ := Option.map_eq_some_iff.mp after
    have timedOut := (marked c pm present woken).resolve_left notJoined
    rw [if_pos timedOut] at ended
    cases ended
    rfl

theorem pollReturn_undisturbed {c v : Nat} (undisturbed : Undisturbed pollable s)
    (marked : Marked s) (woken : c ∈ s.added) (returned : pollReturn s c = some (t, v)) :
    Undisturbed pollable t ∧ Marked t := by
  have interest := pollReturn_interest marked woken returned
  obtain ⟨-, message, added, -, -⟩ := pollReturn_ended returned
  have other : ∀ c' pm, t.message c' = some pm → s.message c' = some pm := by
    intro c' pm present
    rw [message] at present
    by_cases self : c' = c
    · subst self
      simp at present
    · rwa [Function.update_of_ne self] at present
  constructor
  · intro c' pm present waiting
    rw [interest]
    rw [added] at waiting
    exact undisturbed c' pm (other c' pm present) waiting
  · intro c' pm present ended
    rw [added] at ended
    exact marked c' pm (other c' pm present) ended

/-! ### Calls that begin -/

theorem poll_undisturbed (consistent : Consistent s) (undisturbed : Undisturbed pollable s)
    (marked : Marked s) {fds : List PollFd} {timeout : BitVec 32}
    (free : ∀ entry ∈ fds, pollable entry.fd = true → s.interest entry.fd = none) :
    Undisturbed pollable (poll pollable s fds timeout) ∧
      Marked (poll pollable s fds timeout) := by
  have message : (poll pollable s fds timeout).message =
      Function.update s.message s.next (some (.new s.next fds)) := by
    simp only [poll, foldl_epollCtlAdd]
  have added : (poll pollable s fds timeout).added = s.added := by
    simp only [poll, foldl_epollCtlAdd]
  constructor
  · intro c pm present waiting item member accepted
    rw [added] at waiting
    rw [poll_interest]
    by_cases self : c = s.next
    · subst self
      rw [message, Function.update_self] at present
      cases present
      -- the descriptor was free, so the first item for it is registered
      obtain ⟨entry, listed, rfl⟩ := List.mem_map.mp member
      rw [free entry listed accepted, Option.none_or, if_pos accepted]
      obtain ⟨own, found⟩ : ∃ own, (PollMessage.new s.next fds).eachFdTask.find?
          (·.epollFd == entry.fd) = some own := by
        rw [← Option.isSome_iff_exists, List.find?_isSome]
        exact ⟨_, member, by simp⟩
      refine ⟨own, found, ?_⟩
      obtain ⟨entry', -, rfl⟩ := List.mem_map.mp (List.mem_of_find?_eq_some found)
      rfl
    · rw [message, Function.update_of_ne self] at present
      obtain ⟨own, registered, mine⟩ :=
        undisturbed c pm present waiting item member accepted
      exact ⟨own, by rw [registered, Option.some_or], mine⟩
  · intro c pm present woken
    rw [added] at woken
    have self : c ≠ s.next := Nat.ne_of_lt (consistent.bound c (.inr woken))
    rw [message, Function.update_of_ne self] at present
    exact marked c pm present woken

/-- A call that polls a registered descriptor waits without it. -/
theorem poll_disturbed (consistent : Consistent s) {fds : List PollFd} {timeout : BitVec 32}
    (shared : ¬ ∀ entry ∈ fds, pollable entry.fd = true → s.interest entry.fd = none) :
    ¬ Undisturbed pollable (poll pollable s fds timeout) := by
  intro undisturbed
  simp only [not_forall] at shared
  obtain ⟨entry, listed, accepted, taken⟩ := shared
  obtain ⟨item, registered⟩ := Option.ne_none_iff_exists'.mp taken
  have older : item.args < s.next := by
    obtain ⟨-, -, pm, present, -⟩ := consistent.interest entry.fd item registered
    exact consistent.bound item.args (.inl (by rw [present]; exact Option.some_ne_none pm))
  have present : (poll pollable s fds timeout).message s.next = some (.new s.next fds) := by
    simp only [poll, foldl_epollCtlAdd, Function.update_self]
  have waiting : s.next ∉ (poll pollable s fds timeout).added := by
    simp only [poll, foldl_epollCtlAdd]
    exact fun woken => Nat.lt_irrefl _ (consistent.bound s.next (.inr woken))
  obtain ⟨own, kept, mine⟩ := undisturbed s.next _ present waiting _
    (List.mem_map_of_mem listed) accepted
  rw [poll_interest, registered, Option.some_or] at kept
  cases kept
  omega

/-! ### Runs -/

/-- What every run of calls with descriptors of their own keeps. -/
structure Apiece (pollable : Int → Bool) (s : State) : Prop where
  consistent : Consistent s
  undisturbed : Undisturbed pollable s
  marked : Marked s

theorem initial_apiece (pollable : Int → Bool) (now : Reading) : Apiece pollable (initial now) where
  consistent := initial_consistent now
  undisturbed := by simp [Undisturbed, initial]
  marked := by simp [Marked, initial]

theorem Apiece.step {label : Label} (apiece : Apiece pollable s) (free : FreeFds pollable s label)
    (stepped : Hook.step pollable s label = some t) : Apiece pollable t := by
  have consistent := step_consistent apiece.consistent stepped
  cases label with
  | poll fds timeout =>
    simp only [Hook.step] at stepped
    split at stepped
    · cases stepped
      exact apiece
    next waits =>
      cases stepped
      obtain ⟨undisturbed, marked⟩ :=
        poll_undisturbed apiece.consistent apiece.undisturbed apiece.marked (free waits)
      exact ⟨consistent, undisturbed, marked⟩
  | deal reports now =>
    obtain ⟨undisturbed, marked⟩ :=
      deal_undisturbed apiece.consistent apiece.undisturbed apiece.marked stepped
    exact ⟨consistent, undisturbed, marked⟩
  | resume c =>
    simp only [Hook.step] at stepped
    split at stepped
    next woken =>
      obtain ⟨⟨t', v⟩, returned, rfl⟩ := Option.map_eq_some_iff.mp stepped
      obtain ⟨undisturbed, marked⟩ :=
        pollReturn_undisturbed apiece.undisturbed apiece.marked woken returned
      exact ⟨consistent, undisturbed, marked⟩
    · cases stepped

/-- Along a schedule of calls, batches, merges and returns every call that waits keeps all its
descriptors exactly when no call polls a descriptor that is registered at that moment. -/
theorem undisturbed_iff (pollable : Int → Bool) (now : Reading) (schedule : List Label) :
    (∀ t, (machine pollable).Visits (initial now) schedule t → Undisturbed pollable t) ↔
      ∀ t label, (machine pollable).Takes (initial now) schedule t label →
        FreeFds pollable t label := by
  refine Transition.Machine.safe_iff_steps_ok (Apiece pollable) (FreeFds pollable)
    (fun _ _ _ apiece free stepped => apiece.step free stepped)
    (fun _ apiece => apiece.undisturbed) ?_ (initial_apiece pollable now) schedule
  intro t label u apiece shared stepped
  -- only a call of `poll` can break it: epoll refuses a descriptor that it has already
  cases label with
  | poll fds timeout =>
    obtain ⟨waits, shared⟩ := Classical.not_imp.mp shared
    have stepped : (if timeout = 0 then some t else some (poll pollable t fds timeout)) = some u :=
      stepped
    rw [if_neg waits] at stepped
    cases stepped
    exact poll_disturbed apiece.consistent shared
  | deal reports now => exact absurd trivial shared
  | resume c => exact absurd trivial shared

/-- Two calls poll the descriptor 5: the second one waits without it. -/
theorem undisturbed_fails :
    ¬ ∀ (schedule : List Label) (t : State),
      (machine fun fd => 0 ≤ fd).Visits (initial 0) schedule t →
      Undisturbed (fun fd => 0 ≤ fd) t := by
  intro always
  let calls : List Label := [.poll [⟨5, pollIn, 0⟩] 1000, .poll [⟨5, pollOut, 0⟩] 1000]
  obtain ⟨t, ran, present, waiting, registered⟩ : ∃ t,
      (machine fun fd => 0 ≤ fd).exec (initial 0) calls = some t ∧
      t.message 1 = some (.new 1 [⟨5, pollOut, 0⟩]) ∧ 1 ∉ t.added ∧
      t.interest 5 = some ⟨0, 5, epollIn⟩ :=
    ⟨_, rfl, rfl, by decide +kernel, by decide +kernel⟩
  obtain ⟨own, found, mine⟩ := always calls t ⟨calls, List.prefix_rfl, ran⟩ 1 _ present waiting
    ⟨1, 5, epollOut⟩ (by decide +kernel) rfl
  rw [registered] at found
  cases found
  cases mine

end BRoutine.Hook
