import BRoutine.Hook.Poll

/-!
# Polls on several schedulers

The same functions with any number of schedulers, whose steps interleave: `poll` one
`EPOLL_CTL_ADD` at a time up to its `SwapContext`, and `Deal`, which one scheduler at a time is in,
one function call at a time. `pollCallback` is in two parts: once `AddTask` has the task, another
scheduler can take it, and the write of `pm->task` comes after that.

A message is gone when its call has returned. `late` records that `pollPerpare`, `pollCallback` or
`pollTimeout` has worked on a message that was gone. A call goes on when a scheduler takes its task,
and only when it has been suspended; descriptors are not closed.
-/

namespace BRoutine.Hook

/-- `poll` up to its loop of `EPOLL_CTL_ADD`. -/
def pollBegin (s : State) (fds : List PollFd) (timeout : BitVec 32) : State :=
  let c := s.next
  { s with
    next := c + 1
    message := Function.update s.message c (some (PollMessage.new c fds))
    timer := s.timer.register c (if timeout.slt 0 then intmaxMax else timeout.toNat) }

/-- `pollCallback` up to its `AddTask`, and whether it calls it. -/
def callbackAdd (s : State) (event : Event) : Option (State × Bool) :=
  (s.message event.ptr.args).bind fun pm =>
    let pm := { pm with activeFdsNums2 := decrement pm.activeFdsNums2 }
    if !pm.isJoinActiveList ∧ pm.activeFdsNums2 = 0 then
      pm.task.map fun task =>
        let s := pm.eachFdTask.foldl State.epollCtlDel s
        ({ s with
          added := s.added ++ [task]
          message := Function.update s.message event.ptr.args
            (some { pm with isJoinActiveList := true }) }, true)
    else some ({ s with message := Function.update s.message event.ptr.args (some pm) }, false)

/-- `pm->task = nullptr` behind the `AddTask`. -/
def clearTask (s : State) (c : Nat) : Option State :=
  (s.message c).map fun pm =>
    { s with message := Function.update s.message c (some { pm with task := none }) }

theorem poll_eq (pollable : Int → Bool) (s : State) (fds : List PollFd) (timeout : BitVec 32) :
    poll pollable s fds timeout = (PollMessage.new s.next fds).eachFdTask.foldl
      (State.epollCtlAdd pollable) (pollBegin s fds timeout) := rfl

/-- The two parts of `pollCallback` without a step in between. -/
theorem pollCallback_eq (s : State) (event : Event) :
    pollCallback s event = (callbackAdd s event).bind fun (t, joins) =>
      if joins then clearTask t event.ptr.args else some t := by
  cases present : s.message event.ptr.args with
  | none => simp [pollCallback, callbackAdd, present]
  | some pm =>
    by_cases joins : pm.isJoinActiveList = false ∧ decrement pm.activeFdsNums2 = 0
    · obtain ⟨notJoined, zero⟩ := joins
      cases task : pm.task with
      | none => simp [pollCallback, callbackAdd, present, notJoined, zero, task]
      | some _ =>
        simp [pollCallback, callbackAdd, clearTask, present, notJoined, zero, task,
          foldl_epollCtlDel]
    · simp [pollCallback, callbackAdd, present, joins]

namespace Threads

/-- Where a scheduler is. -/
inductive Pc where
  /-- in the loop of `ProcessBegin` or in the code of a routine -/
  | idle
  /-- in `poll` of the call `c`, with these items still to be registered -/
  | adding (c : Nat) (items : List FdTask)
  /-- in `Deal`, in the prepare pass behind `done` -/
  | perparing (done rest : List Event)
  /-- in `Deal`, in the callback pass -/
  | calling (rest : List Event)
  /-- in `pollCallback`, between `AddTask` and the write of `pm->task` -/
  | clearing (c : Nat) (rest : List Event)
  /-- in `Deal`, in the loop over the tasks of the merge -/
  | expiring (tasks : List Nat)
  /-- in `poll` of the call `c` behind its `SwapContext` -/
  | returning (c : Nat)
  deriving DecidableEq, Repr

inductive Stage where
  | registering
  | suspended
  | resumed
  deriving DecidableEq, Repr

/-- `stage` is how far the routine of each call is in `poll`. -/
structure State where
  polls : Hook.State
  pc : Nat → Pc
  bEpollDealLock : Option Nat
  stage : Nat → Stage
  late : Bool

def initial (now : Reading) : State :=
  ⟨Hook.initial now, fun _ => .idle, none, fun _ => .registering, false⟩

inductive Label where
  /-- a routine on the scheduler `k` calls `poll` -/
  | poll (k : Nat) (fds : List PollFd) (timeout : BitVec 32)
  /-- the scheduler `k` enters `Deal`, and `epoll_wait` returns -/
  | deal (k : Nat) (reports : List (Int × BitVec 32))
  /-- `NewMergeUpdate2Now` in `Deal` of the scheduler `k` -/
  | merge (k : Nat) (now : Reading)
  /-- the scheduler `k` takes the task of the call `c` and switches to its routine -/
  | resume (k c : Nat)
  /-- the scheduler `k` goes on in `poll` or in `Deal` -/
  | run (k : Nat)

def Label.thread : Label → Nat
  | .poll k _ _ | .deal k _ | .merge k _ | .resume k _ | .run k => k

def State.goto (s : State) (k : Nat) (p : Pc) : State :=
  { s with pc := Function.update s.pc k p }

/-- The scheduler `k` works on the message of `c`, and goes on at `p` if that is gone. -/
def State.onMessage (s : State) (k c : Nat) (p : Pc) (work : Option State) : Option State :=
  if s.polls.message c = none then some { s.goto k p with late := true } else work

def runStep (pollable : Int → Bool) (s : State) (k : Nat) : Option State :=
  match s.pc k with
  | .idle => none
  | .adding c (item :: rest) =>
    some { s.goto k (.adding c rest) with polls := s.polls.epollCtlAdd pollable item }
  | .adding c [] =>
    some { s.goto k .idle with stage := Function.update s.stage c .suspended }
  | .perparing done (event :: rest) =>
    let p := .perparing (done ++ [event]) rest
    s.onMessage k event.ptr.args p
      ((pollPerpare s.polls event).map fun polls => { s.goto k p with polls := polls })
  | .perparing done [] => some (s.goto k (.calling done))
  | .calling (event :: rest) =>
    s.onMessage k event.ptr.args (.calling rest)
      ((callbackAdd s.polls event).map fun (polls, joins) =>
        { s.goto k (if joins then .clearing event.ptr.args rest else .calling rest) with
          polls := polls })
  | .calling [] => none
  | .clearing c rest =>
    s.onMessage k c (.calling rest)
      ((clearTask s.polls c).map fun polls => { s.goto k (.calling rest) with polls := polls })
  | .expiring (c :: rest) =>
    s.onMessage k c (.expiring rest)
      ((pollTimeout s.polls c).map fun polls => { s.goto k (.expiring rest) with polls := polls })
  | .expiring [] => some { s.goto k .idle with bEpollDealLock := none }
  | .returning c =>
    (pollReturn s.polls c).map fun (polls, _) => { s.goto k .idle with polls := polls }

def step (pollable : Int → Bool) (s : State) : Label → Option State
  | .poll k fds timeout =>
    if s.pc k = .idle then
      -- with timeout 0 the system is asked
      if timeout = 0 then some s else
      let c := s.polls.next
      some { s.goto k (.adding c (PollMessage.new c fds).eachFdTask) with
        polls := pollBegin s.polls fds timeout
        stage := Function.update s.stage c .registering }
    else none
  | .deal k reports =>
    if s.pc k = .idle ∧ s.bEpollDealLock = none then
      (epollWait s.polls reports).map fun batch =>
        { s.goto k (.perparing [] batch) with bEpollDealLock := some k }
    else none
  | .merge k now =>
    if s.pc k = .calling [] then
      (s.polls.timer.newMergeUpdate2Now s.polls.timer.taskItemBucketSize now).map
        fun (timer, result) =>
          { s.goto k (.expiring (result.popAll.map (·.id))) with
            polls := { s.polls with timer := timer } }
    else none
  | .resume k c =>
    if s.pc k = .idle ∧ c ∈ s.polls.added ∧ s.stage c = .suspended then
      some { s.goto k (.returning c) with stage := Function.update s.stage c .resumed }
    else none
  | .run k => runStep pollable s k

/-- `n` schedulers. -/
def machine (pollable : Int → Bool) (n : Nat) : Transition.Machine State Label where
  start s := ∃ now, s = initial now
  step s label := if label.thread < n then step pollable s label else none

/-- No message has been worked on after its call had returned, and no task has been given to
`AddTask` twice. -/
structure Safe (s : State) : Prop where
  alive : s.late = false
  once : s.polls.added.Nodup

/-- A descriptor is added only for a call whose task `AddTask` does not have yet, and a call
returns only when `pollCallback` has written its `pm->task`. -/
def Calm (s : State) : Label → Prop
  | .run k =>
    match s.pc k with
    | .adding c (_ :: _) => c ∉ s.polls.added
    | .returning c => ∀ j rest, s.pc j ≠ .clearing c rest
    | _ => True
  | _ => True

end Threads

end BRoutine.Hook
