import BRoutine.Epoll.Registration
import BRoutine.Hook.Events
import BRoutine.Transition

/-!
# The hooked poll

`poll` of `b_hook.cc` in routines with hooking on, with the epoll instance, the wheel and `Deal`. A
call with timeout 0 is left to the system; the others suspend.

Such a call of `poll` puts a `poll_message` on its own stack, registers its task in the wheel and
one item for each entry of the array in epoll, and suspends. `Deal` then works on the message from
outside: the prepare pass and the callback pass for each event of a batch, `pollTimeout` for a
task that a merge has returned. The message is gone once `poll` has returned, and a step that
would read it after that has no result. So has a step that would follow a null pointer.

Calls are numbered, and the task of a call has its number. `interest` is what epoll holds: at
most one registration for each file descriptor, which `EPOLL_CTL_DEL` takes out whoever made it.
-/

namespace BRoutine.Hook

structure PollFd where
  fd : Int
  events : BitVec 16
  revents : BitVec 16
  deriving DecidableEq, Repr

/-- The `TaskItem` of one entry: `args` is the call whose message `perpareFuncArgs` and
`callbackFunArgs` point to, `events` the events of `bEpollEvent`. -/
structure FdTask where
  args : Nat
  epollFd : Int
  events : BitVec 32
  deriving DecidableEq, Repr

/-- An `epoll_event`. -/
structure Event where
  ptr : FdTask
  events : BitVec 32
  deriving DecidableEq, Repr

/-- `poll_message`, with the `IsTasktimeout` of its task. -/
structure PollMessage where
  pollfds : List PollFd
  task : Option Nat
  eachFdTask : List FdTask
  activeFdsNums : Nat
  activeFdsNums2 : Nat
  isJoinActiveList : Bool
  isRemoveFromTimeoutList : Bool
  isTasktimeout : Bool
  deriving DecidableEq, Repr

/-- The constructor of `poll_message` for the call `c`. -/
def PollMessage.new (c : Nat) (fds : List PollFd) : PollMessage where
  pollfds := fds.map fun entry => { entry with revents := 0 }
  task := some c
  eachFdTask := fds.map fun entry => ⟨c, entry.fd, pollToEpollEvents entry.events⟩
  activeFdsNums := 0
  activeFdsNums2 := 0
  isJoinActiveList := false
  isRemoveFromTimeoutList := false
  isTasktimeout := false

/-- The epoll instance, the wheel, the messages of the calls that have not returned, and the
tasks handed to `AddTask` in order. -/
structure State where
  timer : BEpTimer
  interest : Int → Option FdTask
  message : Nat → Option PollMessage
  added : List Nat
  next : Nat

def initial (now : Reading) : State :=
  ⟨BEpTimer.new now, fun _ => none, fun _ => none, [], 0⟩

/-- `EPOLL_CTL_ADD`, which the kernel refuses for a file descriptor it cannot poll and for one
that is registered. -/
def State.epollCtlAdd (pollable : Int → Bool) (s : State) (item : FdTask) : State :=
  if pollable item.epollFd ∧ s.interest item.epollFd = none then
    { s with interest := Function.update s.interest item.epollFd (some item) }
  else s

/-- `EPOLL_CTL_DEL`. -/
def State.epollCtlDel (s : State) (item : FdTask) : State :=
  { s with interest := Function.update s.interest item.epollFd none }

def intmaxMax : Nat := 2 ^ 63 - 1

/-- The suspending branch of `poll` up to its `SwapContext`. -/
def poll (pollable : Int → Bool) (s : State) (fds : List PollFd) (timeout : BitVec 32) : State :=
  let c := s.next
  let pm := PollMessage.new c fds
  let s := { s with
    next := c + 1
    message := Function.update s.message c (some pm)
    timer := s.timer.register c (if timeout.slt 0 then intmaxMax else timeout.toNat) }
  pm.eachFdTask.foldl (State.epollCtlAdd pollable) s

/-- The loop of `pollPerpare`: the first entry of the file descriptor gets the events. -/
def setRevents (targetFd : Int) (revents : BitVec 16) : List PollFd → List PollFd
  | [] => []
  | entry :: rest =>
    if entry.fd = targetFd then { entry with revents := revents } :: rest
    else entry :: setRevents targetFd revents rest

/-- What `pollPerpare` does to the message. -/
def PollMessage.perpare (pm : PollMessage) (event : Event) : PollMessage :=
  { pm with
    pollfds := setRevents event.ptr.epollFd (epollToPollEvents event.events) pm.pollfds
    activeFdsNums := pm.activeFdsNums + 1
    activeFdsNums2 := pm.activeFdsNums2 + 1
    isRemoveFromTimeoutList := true }

def pollPerpare (s : State) (event : Event) : Option State :=
  (s.message event.ptr.args).bind fun pm =>
    let s := { s with message := Function.update s.message event.ptr.args (pm.perpare event) }
    if pm.isRemoveFromTimeoutList then some s
    else pm.task.bind fun task =>
      (s.timer.removeSelfSave task).map fun timer => { s with timer := timer }

/-- `--` on a `size_t`. -/
def decrement (n : Nat) : Nat := if n = 0 then 2 ^ 64 - 1 else n - 1

def pollCallback (s : State) (event : Event) : Option State :=
  (s.message event.ptr.args).bind fun pm =>
    let pm := { pm with activeFdsNums2 := decrement pm.activeFdsNums2 }
    if !pm.isJoinActiveList ∧ pm.activeFdsNums2 = 0 then
      pm.task.map fun task =>
        let joined := { pm with isJoinActiveList := true, task := none }
        let s := pm.eachFdTask.foldl State.epollCtlDel s
        { s with
          added := s.added ++ [task]
          message := Function.update s.message event.ptr.args (some joined) }
    else some { s with message := Function.update s.message event.ptr.args (some pm) }

/-- `pollTimeout` for the task of the call `c`, with the rest of the loop of `Deal` for it. -/
def pollTimeout (s : State) (c : Nat) : Option State :=
  (s.message c).map fun pm =>
    let s := pm.eachFdTask.foldl State.epollCtlDel s
    { s with
      added := s.added ++ [c]
      message := Function.update s.message c (some { pm with isTasktimeout := true }) }

/-- The events of an `epoll_wait` that reports `reports`: each carries the item its file
descriptor is registered with. -/
def epollWait (s : State) (reports : List (Int × BitVec 32)) : Option (List Event) :=
  reports.mapM fun (fd, events) => (s.interest fd).map fun item => ⟨item, events⟩

/-- The prepare pass and the callback pass of `Deal`. -/
def perparePass (batch : List Event) (s : State) : Option State := batch.foldlM pollPerpare s
def callbackPass (batch : List Event) (s : State) : Option State := batch.foldlM pollCallback s

/-- The merge of `Deal` and the loop over its tasks. -/
def mergePass (now : Reading) (s : State) : Option State :=
  (s.timer.newMergeUpdate2Now s.timer.taskItemBucketSize now).bind fun (timer, result) =>
    (result.popAll.map (·.id)).foldlM pollTimeout { s with timer := timer }

/-- `bRoutineEnv::Deal`. -/
def deal (s : State) (reports : List (Int × BitVec 32)) (now : Reading) : Option State :=
  (epollWait s reports).bind fun batch =>
    ((perparePass batch s).bind (callbackPass batch)).bind (mergePass now)

/-- `poll` of the call `c` behind its `SwapContext`: it ends with the message, and returns
`_activeFdsNums`. -/
def pollReturn (s : State) (c : Nat) : Option (State × Nat) :=
  (s.message c).bind fun pm =>
    let after := { s with message := Function.update s.message c none }
    if pm.isJoinActiveList then some (after, pm.activeFdsNums)
    else pm.task.map fun _ =>
      if pm.isTasktimeout then (after, pm.activeFdsNums)
      else (pm.eachFdTask.foldl State.epollCtlDel after, pm.activeFdsNums)

inductive Label where
  | poll (fds : List PollFd) (timeout : BitVec 32)
  | deal (reports : List (Int × BitVec 32)) (now : Reading)
  | resume (c : Nat)

/-- A `poll` with timeout 0 is left to the system. A call goes on once its task has been handed to
`AddTask`. -/
def step (pollable : Int → Bool) (s : State) : Label → Option State
  | .poll fds timeout => if timeout = 0 then some s else some (poll pollable s fds timeout)
  | .deal reports now => deal s reports now
  | .resume c => if c ∈ s.added then (pollReturn s c).map Prod.fst else none

def machine (pollable : Int → Bool) : Transition.Machine State Label where
  start s := ∃ now, s = initial now
  step := step pollable

/-! ### Registrations -/

/-- A loop of `EPOLL_CTL_DEL` over the items of a message. -/
theorem foldl_epollCtlDel (items : List FdTask) (s : State) :
    items.foldl State.epollCtlDel s = { s with
      interest := fun fd => if fd ∈ items.map (·.epollFd) then none else s.interest fd } := by
  induction items generalizing s with
  | nil => simp
  | cons item rest ih =>
    rw [List.foldl_cons, ih]
    simp only [State.epollCtlDel, State.mk.injEq, and_true, true_and]
    funext fd
    by_cases same : fd = item.epollFd
    · simp [same]
    · simp [same]

/-- What the end of `poll` leaves, whether or not it deregisters its descriptors again. -/
structure Ended (s : State) (c : Nat) (t : State) : Prop where
  timer : t.timer = s.timer
  message : t.message = Function.update s.message c none
  added : t.added = s.added
  next : t.next = s.next
  narrower : ∀ fd item, t.interest fd = some item → s.interest fd = some item

theorem pollReturn_ended {s t : State} {c v : Nat} (returned : pollReturn s c = some (t, v)) :
    Ended s c t := by
  obtain ⟨pm, -, after⟩ := Option.bind_eq_some_iff.mp returned
  simp only at after
  split at after
  · cases after
    exact ⟨rfl, rfl, rfl, rfl, fun _ _ same => same⟩
  · obtain ⟨task, -, ended⟩ := Option.map_eq_some_iff.mp after
    split at ended
    · cases ended
      exact ⟨rfl, rfl, rfl, rfl, fun _ _ same => same⟩
    · rw [foldl_epollCtlDel] at ended
      cases ended
      refine ⟨rfl, rfl, rfl, rfl, fun fd item registered => ?_⟩
      simp only at registered
      split at registered
      · cases registered
      · exact registered

/-- A loop of `EPOLL_CTL_ADD` registers each pollable file descriptor that was free with the
first item for it. -/
theorem foldl_epollCtlAdd (pollable : Int → Bool) (items : List FdTask) (s : State) :
    items.foldl (State.epollCtlAdd pollable) s = { s with
      interest := fun fd => (s.interest fd).or
        (if pollable fd then items.find? (·.epollFd == fd) else none) } := by
  induction items generalizing s with
  | nil => simp
  | cons item rest ih =>
    rw [List.foldl_cons, ih]
    simp only [State.epollCtlAdd]
    split
    next accepted =>
      simp only [State.mk.injEq, and_true, true_and]
      funext fd
      by_cases same : fd = item.epollFd
      · simp [same, accepted]
      · have other : (item.epollFd == fd) = false := by simpa using fun eq => same eq.symm
        simp [same, other]
    next refused =>
      simp only [State.mk.injEq, and_true, true_and]
      funext fd
      by_cases same : fd = item.epollFd
      · subst same
        cases taken : s.interest item.epollFd <;> simp_all
      · have other : (item.epollFd == fd) = false := by simpa using fun eq => same eq.symm
        simp [other]

theorem poll_interest (pollable : Int → Bool) (s : State) (fds : List PollFd)
    (timeout : BitVec 32) (fd : Int) : (poll pollable s fds timeout).interest fd =
      (s.interest fd).or (if pollable fd then
        (PollMessage.new s.next fds).eachFdTask.find? (·.epollFd == fd) else none) := by
  simp only [poll, foldl_epollCtlAdd]

/-- A first call whose entries all have one descriptor registers that of its first entry. -/
theorem poll_interest_single {pollable : Int → Bool} {now : Reading} {entry : PollFd}
    {rest : List PollFd} (same : ∀ other ∈ rest, other.fd = entry.fd)
    (accepted : pollable entry.fd = true) (timeout : BitVec 32) (fd : Int) :
    (poll pollable (initial now) (entry :: rest) timeout).interest fd =
      if fd = entry.fd then some ⟨0, entry.fd, pollToEpollEvents entry.events⟩ else none := by
  have none : (initial now).interest fd = none := rfl
  rw [poll_interest, none, Option.none_or]
  by_cases here : fd = entry.fd
  · subst here
    simp [accepted, PollMessage.new, initial]
  · have absent : (PollMessage.new (initial now).next (entry :: rest)).eachFdTask.find?
        (·.epollFd == fd) = Option.none := by
      rw [List.find?_eq_none]
      intro item member
      obtain ⟨other, listed, rfl⟩ := List.mem_map.mp member
      rcases List.mem_cons.mp listed with rfl | later
      · simpa using fun eq => here eq.symm
      · simpa [same other later] using fun eq => here eq.symm
    simp [absent, here]

end BRoutine.Hook
