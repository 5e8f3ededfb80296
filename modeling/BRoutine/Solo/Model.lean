import BRoutine.Pool
import BRoutine.Task.List
import BRoutine.Transition

/-!
# One scheduler

`bRoutineEnv::init` with one scheduler from the first `SwapContext` of `CreatMutProcessEnv` on:
the loop of `ProcessBegin`, the routines it runs and what they call, the two pools of
`bRoutineEnv`, and `bRoutine::New`, `bRoutineRecycle` and `bRoutine::Del`.

A step is what one piece of code does between two calls of `SwapContext`, or less. `bSwap` stores
in the first context where the running code goes on and continues where the second says, so who
executes (`control`) is state of its own beside `occupyRoutine`. Routines and stacks are known by
the numbers they were allocated with; the context that a routine was allocated with has its
number. A routine that `Del` has freed and a stack that it has unmapped are not allocated again.

`lists` are the wait lists of mutexes and conditions, `polls` the routines that `Deal` will wake.
Of a program the model asks that it resumes each routine made by `New` once.
-/

namespace BRoutine.Solo

/-- What `RoutineBegin` calls for a routine. -/
inductive Func where
  | processBegin
  | user
  deriving DecidableEq, Repr

structure Routine where
  func : Func
  isMain : Bool
  isBegin : Bool
  isDone : Bool
  isProgress : Bool
  stack : Option Nat
  context : Nat
  deriving DecidableEq, Repr

/-- The main routine. -/
def main : Nat := 0

/-- The routine of `ProcessBegin`. -/
def loopRoutine : Nat := 1

/-- Where the code goes on that was left in a context. -/
inductive Cont where
  /-- at the entry of `RoutineBegin` -/
  | begin (r : Nat)
  /-- in the code of the routine, behind the call that suspended it -/
  | user (r : Nat)
  /-- behind the last `SwapContext` of the routine -/
  | ended (r : Nat)
  /-- in `ProcessBegin` behind its `SwapContext`, with a task of the routine -/
  | loop (task : Nat)
  deriving DecidableEq, Repr

/-- What executes. -/
inductive Control where
  /-- main in `CreatMutProcessEnv` -/
  | create
  /-- the code of a routine -/
  | user (r : Nat)
  /-- a routine that is recycled, at its last `SwapContext` -/
  | leave (r : Nat)
  /-- a routine behind its last `SwapContext` -/
  | ended (r : Nat)
  /-- `ProcessBegin` at the top of its loop -/
  | loop
  /-- `ProcessBegin` behind its `SwapContext` -/
  | back (task : Nat)
  deriving DecidableEq, Repr

/-- `activeTasks`, `size` and `index` are the distributor with the static `i` of `AddTask`; the
scheduler's own `ActivetaskItems` is the one at 0. `made` are the routines that are still to be
resumed. The last four fields record what the source does not store: the tasks in the order they
were put into the ready queue, the switches that `ProcessBegin` made for them, the routine that
set `IsPendingNeedDelete`, and whether something was thrown or a null pointer followed. -/
structure State where
  routine : Nat → Routine
  regs : Nat → Option Cont
  stackSize : Nat → Nat
  nextRoutine : Nat
  nextStack : Nat
  occupyRoutine : Nat
  pendingRoutine : Nat
  isPendingNeedDelete : Bool
  activeTasks : Nat → TaskItemsList Nat
  size : Nat
  index : Nat
  routinePool : List Nat
  stackPool : StackPool
  freed : List Nat
  unmapped : List Nat
  lists : Nat → List Nat
  polls : List Nat
  made : List Nat
  control : Control
  puts : List Nat
  switches : List Nat
  flagBy : Option Nat
  thrown : Bool

/-- The `calloc` of a routine and of its context. -/
def Routine.calloc (context : Nat) : Routine where
  func := .user
  isMain := false
  isBegin := false
  isDone := false
  isProgress := false
  stack := none
  context := context

/-- In `CreatMutProcessEnv` before the call of `SwapContext`: main as `bSchedulerCreat` has made
it, and the loop routine as `New` has. -/
def initial : State where
  routine := fun r =>
    if r = main then
      { Routine.calloc main with isMain := true, isBegin := true, isProgress := true }
    else if r = loopRoutine then
      { Routine.calloc loopRoutine with func := .processBegin, isProgress := true, stack := some 0 }
    else Routine.calloc r
  regs := fun c => if c = loopRoutine then some (.begin loopRoutine) else none
  stackSize := fun _ => largeStackSize * 1024
  nextRoutine := 2
  nextStack := 1
  occupyRoutine := main
  pendingRoutine := loopRoutine
  isPendingNeedDelete := false
  activeTasks := fun _ => TaskItemsList.new
  size := 0
  index := 0
  routinePool := []
  stackPool := .new
  freed := []
  unmapped := []
  lists := fun _ => []
  polls := []
  made := []
  control := .create
  puts := []
  switches := []
  flagBy := none
  thrown := false

def State.modify (s : State) (r : Nat) (f : Routine → Routine) : State :=
  { s with routine := Function.update s.routine r (f (s.routine r)) }

/-- `ActiveTasks[k]->pushBack` of a task of `r`. -/
def State.pushBack (s : State) (k r : Nat) : State :=
  { s with
    activeTasks := Function.update s.activeTasks k ((s.activeTasks k).pushBackUnsafe r)
    puts := s.puts ++ [r] }

/-- `TaskDistributor_t::AddTask`. -/
def State.addTask (s : State) (r : Nat) : State :=
  if (s.routine r).isProgress then { s with thrown := true }
  else { s.pushBack s.index r with index := (s.index + 1) % s.size }

/-- The code behind `bSwap` goes on. `RoutineBegin` calls the function of its routine, and
`ProcessBegin` registers its scheduler. -/
def State.resume (s : State) : Cont → State
  | .begin r =>
    if (s.routine r).isBegin then { s with thrown := true }
    else
      let s := s.modify r fun record => { record with isBegin := true }
      match (s.routine r).func with
      | .user => { s with control := .user r }
      | .processBegin =>
        { s.modify s.occupyRoutine fun record => { record with isProgress := true } with
          size := s.size + 1
          control := .loop }
  | .user r => { s with control := .user r }
  | .ended r => { s with control := .ended r }
  | .loop task => { s with control := .back task }

/-- `bScheduler::SwapContext`, called by code that goes on at `cont`. -/
def State.swapContext (s : State) (cont : Cont) : State :=
  let occupy := s.routine s.occupyRoutine
  let s := if occupy.isMain ∧ occupy.isProgress then
      (s.modify s.occupyRoutine fun record => { record with isProgress := false }).pushBack 0
        s.occupyRoutine
    else s
  let pc := (s.routine s.occupyRoutine).context
  let oc := (s.routine s.pendingRoutine).context
  let s := { s with
    occupyRoutine := s.pendingRoutine
    pendingRoutine := s.occupyRoutine
    regs := Function.update s.regs pc (some cont) }
  match s.regs oc with
  | none => { s with thrown := true }
  | some cont => s.resume cont

/-- `bRoutineEnv::bRoutineRecycle`. -/
def State.recycle (s : State) (r : Nat) : State :=
  let s := s.modify r fun record => { record with isDone := true }
  if (s.routine r).isMain then s
  else
    match (s.routine r).stack with
    | none => { s with thrown := true }
    | some st =>
      match s.stackPool.push (s.stackSize st) st with
      | none => { s with isPendingNeedDelete := true, flagBy := some r }
      | some pool =>
        { s.modify r fun record => { record with stack := none } with
          stackPool := pool
          routinePool := s.routinePool ++ [r] }

/-- The routine of `bRoutine::New`: out of the pool, or allocated with its context. -/
def State.takeRoutine (s : State) : Nat × State :=
  match s.routinePool with
  | i :: rest => (i, { s with routinePool := rest })
  | [] =>
    (s.nextRoutine, { s.modify s.nextRoutine fun _ => Routine.calloc s.nextRoutine with
      nextRoutine := s.nextRoutine + 1 })

/-- The stack of `bRoutine::New`: out of the pool, or mapped. -/
def State.takeStack (s : State) (level : Int) : Option (Nat × State) :=
  match s.stackPool.pop level with
  | some (st, pool) => some (st, { s with stackPool := pool })
  | none => (stackSizeOf level).map fun size =>
      (s.nextStack, { s with
        stackSize := Function.update s.stackSize s.nextStack size
        nextStack := s.nextStack + 1 })

/-- What `bRoutine::New` sets before it looks for a stack; `pop` of an empty pool sets `stack`. -/
def Routine.reset (record : Routine) : Routine :=
  { record with
    isBegin := false, isDone := false, isMain := false, isProgress := false, stack := none }

/-- `bRoutine::New`. If `bRoutineStack::New` throws, the routine that was taken is lost. -/
def State.new (s : State) (level : Int) : State :=
  let (i, s) := s.takeRoutine
  let s := s.modify i Routine.reset
  match s.takeStack level with
  | none => s
  | some (st, s) =>
    let s := s.modify i fun record => { record with stack := some st, func := .user }
    { s with
      regs := Function.update s.regs (s.routine i).context (some (.begin i))
      made := s.made ++ [i] }

/-- `bRoutine::Del`. -/
def State.del (s : State) (r : Nat) : State :=
  match (s.routine r).stack with
  | none => { s with thrown := true }
  | some st => { s with freed := s.freed ++ [r], unmapped := s.unmapped ++ [st] }

/-- What a routine can call. -/
inductive Op where
  /-- `bRoutine::New` -/
  | new (level : Int)
  /-- `i->Resume()` -/
  | resume (i : Nat)
  | yield
  /-- `list->add(getSelf())` and `SwapContext`, of `lock` and of `wait` -/
  | wait (list : Nat)
  /-- `list->pop()` and `AddTask`, of `unlock` and of the signals -/
  | wake (list : Nat)
  /-- the suspending branch of `poll` -/
  | poll
  /-- the end of `RoutineBegin` up to its `SwapContext` -/
  | finish
  /-- `deleteSelf` up to its `SwapContext` -/
  | deleteSelf
  deriving DecidableEq, Repr

def State.call (s : State) (r : Nat) : Op → Option State
  | .new level => some (s.new level)
  | .resume i =>
    if i ∈ s.made then
      let s := { s with made := s.made.erase i }
      some (((s.addTask i).addTask s.occupyRoutine).swapContext (.user r))
    else none
  | .yield => some ((s.addTask s.occupyRoutine).swapContext (.user r))
  | .wait list => some (({ s with
      lists := Function.update s.lists list (s.lists list ++ [s.occupyRoutine]) }).swapContext
        (.user r))
  | .wake list =>
    match s.lists list with
    | [] => some s
    | w :: rest => some (({ s with lists := Function.update s.lists list rest }).addTask w)
  | .poll => some (({ s with polls := s.polls ++ [s.occupyRoutine] }).swapContext (.user r))
  | .finish =>
    -- the code of main is not called by `RoutineBegin`
    if r = main then none
    else
      let s := s.modify r fun record => { record with isDone := true, isBegin := false }
      some { s.recycle r with control := .leave r }
  | .deleteSelf => some { s.recycle s.occupyRoutine with control := .leave r }

inductive Label where
  /-- the `SwapContext` of `CreatMutProcessEnv` -/
  | create
  /-- the routine that executes makes a call -/
  | call (op : Op)
  /-- the last `SwapContext` of a routine -/
  | leave
  /-- `Deal` wakes the routine `r` from its `poll` -/
  | deal (r : Nat)
  /-- `ProcessBegin` takes a task and switches to its routine -/
  | turn
  /-- `ProcessBegin` behind its `SwapContext` up to the end of its turn -/
  | back
  deriving DecidableEq, Repr

def State.turn (s : State) : State :=
  -- the loop of `stealTaskRoutine` has no other scheduler to visit, and pops once more
  match (s.activeTasks 0).popHead.or (s.activeTasks 0).popHead with
  | none => s
  | some (task, rest) =>
    ({ s with
      activeTasks := Function.update s.activeTasks 0 rest
      pendingRoutine := task
      switches := s.switches ++ [task] }).swapContext (.loop task)

def State.back (s : State) : State :=
  if s.isPendingNeedDelete then
    { if (s.routine s.pendingRoutine).isMain then s else s.del s.pendingRoutine with
      isPendingNeedDelete := false
      flagBy := none
      control := .loop }
  else { s with control := .loop }

def step (s : State) : Label → Option State
  | .create => if s.control = .create then some (s.swapContext (.user main)) else none
  | .call op =>
    match s.control with
    | .user r => s.call r op
    | _ => none
  | .leave =>
    match s.control with
    | .leave r => some (s.swapContext (.ended r))
    | _ => none
  | .deal r =>
    if s.control = .loop ∧ r ∈ s.polls then
      some (({ s with polls := s.polls.erase r }).addTask r)
    else none
  | .turn => if s.control = .loop then some s.turn else none
  | .back =>
    match s.control with
    | .back _ => some s.back
    | _ => none

def machine : Transition.Machine State Label where
  start s := s = initial
  step := step

end BRoutine.Solo
