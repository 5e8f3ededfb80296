import Mathlib.Data.List.Basic
import BRoutine.Pool
import BRoutine.Transition

/-!
# Recycling between schedulers

Any number of threads in `ProcessBegin` with the two pools that they share: what `bRoutine::New`
takes out and what `bRoutineRecycle` puts in, one access to a pool at a time, and the `bSwap` with
which a routine leaves its stack, its stores and its loads apart.

A routine is `published` from when its task is in a ready queue, or it is in a wait list or
registered in epoll, from where its task will get into one, until a scheduler takes the task; any
scheduler may take any such task at any time. The loop of a scheduler executes on a stack that is
in no pool. Routines and stacks are known by the numbers they were allocated with, and each routine
has the context of its number; a routine that `Del` has freed is not allocated again.
-/

namespace BRoutine.Recycle

/-- The main routine. It has no stack of the pool. -/
def main : Nat := 0

inductive Pc where
  /-- in the loop of `ProcessBegin` -/
  | loop
  /-- `ProcessBegin` with a task of `r`, up to the loads of `bSwap` -/
  | got (r : Nat)
  /-- in the code of `r` -/
  | user (r : Nat)
  /-- in `New`, about to call `RoutinePool->pop()` -/
  | newRoutine (r : Nat) (level : Int)
  /-- in `New` with the routine `i`, about to call `UnSharedStackPool->pop` -/
  | newStack (r i : Nat) (level : Int)
  /-- in `UnSharedStackPool->pop`, about to decrement `RoutineNums` -/
  | newCount (r i st : Nat)
  /-- in `New`, about to call `i->context->init(i, i->stack)` -/
  | newInit (r i st : Nat)
  /-- about to call `AddTask` for itself, or to enter a wait list or epoll -/
  | publish (r : Nat)
  /-- in `bRoutineRecycle`, about to compare `RoutineNums` -/
  | recycle (r : Nat)
  /-- in `UnSharedStackPool->push` with its stack, about to put it into a list -/
  | pushStack (r st : Nat)
  /-- in `UnSharedStackPool->push`, about to increment `RoutineNums` -/
  | count (r : Nat)
  /-- about to clear `rt->stack` -/
  | clear (r : Nat)
  /-- about to call `RoutinePool->push(rt)` -/
  | pushRoutine (r : Nat)
  /-- in `SwapContext`, up to the stores of `bSwap`; `recycled` is whether it is in the pools -/
  | swap (r : Nat) (recycled : Bool)
  /-- in `bSwap` behind its stores, up to its loads -/
  | load (r : Nat) (recycled : Bool)
  /-- in `ProcessBegin` behind its `SwapContext` -/
  | back (r : Nat)
  deriving DecidableEq, Repr

/-- `stack` is the member of a routine, `regs` the stack that the `rsp` in its context points to,
`on` the stack that a thread executes on. `made` are the routines that are still to be resumed.
`clashed` records that `New` has taken a routine or a stack, or has initialised a context, of a
routine that was still executing. -/
structure State where
  size : Nat
  pc : Nat → Pc
  on : Nat → Option Nat
  stack : Nat → Option Nat
  regs : Nat → Option Nat
  stackSize : Nat → Nat
  nextRoutine : Nat
  nextStack : Nat
  routinePool : List Nat
  stackPool : StackPool
  made : List Nat
  published : List Nat
  isPendingNeedDelete : Nat → Bool
  freed : List Nat
  clashed : Bool

/-- Main has left its context in the first `SwapContext` and is in the ready queue. -/
def initial : State where
  size := 1
  pc := fun _ => .loop
  on := fun _ => none
  stack := fun _ => none
  regs := fun _ => none
  stackSize := fun _ => largeStackSize * 1024
  nextRoutine := 1
  nextStack := 0
  routinePool := []
  stackPool := .new
  made := []
  published := [main]
  isPendingNeedDelete := fun _ => false
  freed := []
  clashed := false

/-- The routine that executes on a thread, up to the loads of the `bSwap` that leaves it. -/
def Pc.executes : Pc → Option Nat
  | .user r | .newRoutine r _ | .newStack r _ _ | .newCount r _ _ | .newInit r _ _ | .publish r
  | .recycle r | .pushStack r _ | .count r | .clear r | .pushRoutine r | .swap r _
  | .load r _ => some r
  | .loop | .got _ | .back _ => none

def State.goto (s : State) (k : Nat) (p : Pc) : State :=
  { s with pc := Function.update s.pc k p }

/-- A thread still executes the routine, or is yet to leave its stack. -/
def State.inUse (s : State) (i : Nat) : Bool :=
  decide (∃ j < s.size, (s.pc j).executes = some i)

def State.stackInUse (s : State) (st : Nat) : Bool :=
  decide (∃ j < s.size, s.on j = some st)

/-- What a routine can call. -/
inductive Op where
  /-- `bRoutine::New` -/
  | new (level : Int)
  /-- `i->Resume()` -/
  | resume (i : Nat)
  /-- `yield`, and the suspending branches of `lock`, `wait` and `poll` -/
  | suspend
  /-- the end of `RoutineBegin` -/
  | finish
  | deleteSelf
  deriving DecidableEq, Repr

inductive Label where
  /-- another thread calls `registe` -/
  | register
  /-- the next step of the thread `k` -/
  | run (k : Nat)
  /-- the routine on the thread `k` makes a call -/
  | call (k : Nat) (op : Op)
  /-- the loop on the thread `k` takes a task of `r` -/
  | take (k r : Nat)
  deriving DecidableEq, Repr

def call (s : State) (k r : Nat) : Op → Option State
  | .new level => some (s.goto k (.newRoutine r level))
  | .resume i =>
    -- `AddTask` of the routine that is resumed comes first
    if i ∈ s.made then
      some (({ s with made := s.made.erase i, published := s.published ++ [i] }).goto k
        (.publish r))
    else none
  | .suspend => some (s.goto k (.publish r))
  | .finish => if r = main then none else some (s.goto k (.recycle r))
  | .deleteSelf => some (s.goto k (.recycle r))

/-- `UnSharedStackPool->pop`, and `bRoutineStack::New` if it finds no stack. -/
def newStack (s : State) (k r i : Nat) (level : Int) : State :=
  match (popList level).map fun l => (l, s.stackPool.list l) with
  | some (l, st :: rest) =>
    ({ s with
      stackPool := { s.stackPool with list := Function.update s.stackPool.list l rest }
      stack := Function.update s.stack i (some st)
      clashed := s.clashed || s.stackInUse st }).goto k (.newCount r i st)
  | _ =>
    match stackSizeOf level with
    -- it throws, and the routine is lost
    | none => ({ s with stack := Function.update s.stack i none }).goto k (.user r)
    | some size =>
      ({ s with
        stack := Function.update s.stack i (some s.nextStack)
        stackSize := Function.update s.stackSize s.nextStack size
        nextStack := s.nextStack + 1 }).goto k (.newInit r i s.nextStack)

def run (s : State) (k : Nat) : Option State :=
  match s.pc k with
  | .loop => none
  | .got r => some (({ s with on := Function.update s.on k (s.regs r) }).goto k (.user r))
  | .user _ => none
  | .newRoutine r level =>
    match s.routinePool with
    | i :: rest => some (({ s with
        routinePool := rest
        clashed := s.clashed || s.inUse i }).goto k (.newStack r i level))
    | [] => some (({ s with nextRoutine := s.nextRoutine + 1 }).goto k
        (.newStack r s.nextRoutine level))
  | .newStack r i level => some (newStack s k r i level)
  | .newCount r i st => some (({ s with stackPool :=
      { s.stackPool with routineNums := s.stackPool.routineNums - 1 } }).goto k (.newInit r i st))
  | .newInit r i st => some (({ s with
      regs := Function.update s.regs i (some st)
      made := s.made ++ [i]
      clashed := s.clashed || s.inUse i }).goto k (.user r))
  | .publish r => some (({ s with published := s.published ++ [r] }).goto k (.swap r false))
  | .recycle r =>
    if r = main then some (s.goto k (.swap r false))
    else if s.stackPool.routineNums ≥ maxKeepRoutinesThread then
      some (({ s with
        isPendingNeedDelete := Function.update s.isPendingNeedDelete k true }).goto k
          (.swap r false))
    else (s.stack r).map fun st => s.goto k (.pushStack r st)
  | .pushStack r st =>
    some (({ s with stackPool := s.stackPool.keep (s.stackSize st) st }).goto k (.count r))
  | .count r => some (({ s with stackPool :=
      { s.stackPool with routineNums := s.stackPool.routineNums + 1 } }).goto k (.clear r))
  | .clear r => some (({ s with stack := Function.update s.stack r none }).goto k (.pushRoutine r))
  | .pushRoutine r =>
    some (({ s with routinePool := s.routinePool ++ [r] }).goto k (.swap r true))
  | .swap r recycled =>
    some (({ s with regs := Function.update s.regs r (s.on k) }).goto k (.load r recycled))
  | .load r _ => some (({ s with on := Function.update s.on k none }).goto k (.back r))
  | .back r => some (({ s with
      freed := if s.isPendingNeedDelete k ∧ r ≠ main then s.freed ++ [r] else s.freed
      isPendingNeedDelete := Function.update s.isPendingNeedDelete k false }).goto k .loop)

def step (n : Nat) (s : State) : Label → Option State
  | .register => if s.size < n then some { s with size := s.size + 1 } else none
  | .run k => if k < s.size then run s k else none
  | .call k op =>
    if k < s.size then
      match s.pc k with
      | .user r => call s k r op
      | _ => none
    else none
  | .take k r =>
    if k < s.size ∧ s.pc k = .loop ∧ r ∈ s.published then
      some (({ s with published := s.published.erase r }).goto k (.got r))
    else none

/-- At most `n` schedulers. -/
def machine (n : Nat) : Transition.Machine State Label where
  start s := s = initial
  step := step n

/-! ### What a step can do -/

/-- Moves that no pool, routine or stack sees. -/
inductive Pc.Quiet : Pc → Pc → Prop where
  | new (r : Nat) (level : Int) : Quiet (.user r) (.newRoutine r level)
  | suspend (r : Nat) : Quiet (.user r) (.publish r)
  | finish (r : Nat) : Quiet (.user r) (.recycle r)
  | counted (r i st : Nat) : Quiet (.newCount r i st) (.newInit r i st)
  | stays (r : Nat) : Quiet (.recycle r) (.swap r false)
  | clears (r : Nat) : Quiet (.count r) (.clear r)
  | back (r : Nat) : Quiet (.back r) .loop

/-- The steps of the thread `k`, and the labels they can have. -/
inductive Act (s : State) (k : Nat) : Label → State → Prop where
  | quiet {label : Label} {p : Pc} (quiet : (s.pc k).Quiet p) (routineNums : Int)
      (flags : Nat → Bool) (freed : List Nat) :
      Act s k label (({ s with
        stackPool := { s.stackPool with routineNums := routineNums }
        isPendingNeedDelete := flags
        freed := freed }).goto k p)
  | resume {r i : Nat} (at_pc : s.pc k = .user r) (made : i ∈ s.made) :
      Act s k (.call k (.resume i)) (({ s with
        made := s.made.erase i
        published := s.published ++ [i] }).goto k (.publish r))
  | enter {r : Nat} (at_pc : s.pc k = .got r) :
      Act s k (.run k) (({ s with on := Function.update s.on k (s.regs r) }).goto k (.user r))
  | popRoutine {r i : Nat} {level : Int} {rest : List Nat} (at_pc : s.pc k = .newRoutine r level)
      (head : s.routinePool = i :: rest) :
      Act s k (.run k) (({ s with
        routinePool := rest
        clashed := s.clashed || s.inUse i }).goto k (.newStack r i level))
  | allocate {r : Nat} {level : Int} (at_pc : s.pc k = .newRoutine r level) :
      Act s k (.run k) (({ s with nextRoutine := s.nextRoutine + 1 }).goto k
        (.newStack r s.nextRoutine level))
  | popStack {r i st : Nat} {level : Int} {l : PoolList} {rest : List Nat}
      (at_pc : s.pc k = .newStack r i level) (found : popList level = some l)
      (head : s.stackPool.list l = st :: rest) :
      Act s k (.run k) (({ s with
        stackPool := { s.stackPool with list := Function.update s.stackPool.list l rest }
        stack := Function.update s.stack i (some st)
        clashed := s.clashed || s.stackInUse st }).goto k (.newCount r i st))
  | throw {r i : Nat} {level : Int} (at_pc : s.pc k = .newStack r i level) :
      Act s k (.run k) (({ s with stack := Function.update s.stack i none }).goto k (.user r))
  | map {r i size : Nat} {level : Int} (at_pc : s.pc k = .newStack r i level)
      (legal : size ∈ stackSizes) :
      Act s k (.run k) (({ s with
        stack := Function.update s.stack i (some s.nextStack)
        stackSize := Function.update s.stackSize s.nextStack size
        nextStack := s.nextStack + 1 }).goto k (.newInit r i s.nextStack))
  | init {r i st : Nat} (at_pc : s.pc k = .newInit r i st) :
      Act s k (.run k) (({ s with
        regs := Function.update s.regs i (some st)
        made := s.made ++ [i]
        clashed := s.clashed || s.inUse i }).goto k (.user r))
  | publish {r : Nat} (at_pc : s.pc k = .publish r) :
      Act s k (.run k) (({ s with published := s.published ++ [r] }).goto k (.swap r false))
  | returns {r st : Nat} (at_pc : s.pc k = .recycle r) (held : s.stack r = some st) :
      Act s k (.run k) (s.goto k (.pushStack r st))
  | pushStack {r st : Nat} (at_pc : s.pc k = .pushStack r st) :
      Act s k (.run k) (({ s with
        stackPool := s.stackPool.keep (s.stackSize st) st }).goto k (.count r))
  | clear {r : Nat} (at_pc : s.pc k = .clear r) :
      Act s k (.run k) (({ s with stack := Function.update s.stack r none }).goto k
        (.pushRoutine r))
  | pushRoutine {r : Nat} (at_pc : s.pc k = .pushRoutine r) :
      Act s k (.run k) (({ s with routinePool := s.routinePool ++ [r] }).goto k (.swap r true))
  | store {r : Nat} {recycled : Bool} (at_pc : s.pc k = .swap r recycled) :
      Act s k (.run k) (({ s with regs := Function.update s.regs r (s.on k) }).goto k
        (.load r recycled))
  | leave {r : Nat} {recycled : Bool} (at_pc : s.pc k = .load r recycled) :
      Act s k (.run k) (({ s with on := Function.update s.on k none }).goto k (.back r))
  | take {r : Nat} (at_pc : s.pc k = .loop) (published : r ∈ s.published) :
      Act s k (.take k r) (({ s with published := s.published.erase r }).goto k (.got r))

theorem call_spec {s t : State} {k r : Nat} {op : Op} (at_pc : s.pc k = .user r)
    (called : call s k r op = some t) : Act s k (.call k op) t := by
  have quiet : ∀ {p : Pc}, (Pc.user r).Quiet p → Act s k (.call k op) (s.goto k p) := by
    intro p moves
    exact .quiet (at_pc ▸ moves) s.stackPool.routineNums s.isPendingNeedDelete s.freed
  cases op with
  | new level => cases called; exact quiet (.new r level)
  | resume i =>
    rw [call] at called
    split at called
    next made => cases called; exact .resume at_pc made
    · cases called
  | suspend => cases called; exact quiet (.suspend r)
  | finish =>
    rw [call] at called
    split at called
    · cases called
    · cases called; exact quiet (.finish r)
  | deleteSelf => cases called; exact quiet (.finish r)

theorem newStack_spec {s : State} {k r i : Nat} {level : Int}
    (at_pc : s.pc k = .newStack r i level) : Act s k (.run k) (newStack s k r i level) := by
  rw [newStack]
  split
  next l st rest matched =>
    obtain ⟨l', found, same⟩ := Option.map_eq_some_iff.mp matched
    obtain ⟨rfl, head⟩ := Prod.mk.inj same
    exact .popStack at_pc found head
  · split
    · exact .throw at_pc
    next size some => exact .map at_pc (stackSizeOf_mem some)

theorem run_spec {s t : State} {k : Nat} (stepped : run s k = some t) : Act s k (.run k) t := by
  -- steps that change nothing but the program point and counters
  have quiet : ∀ {o p : Pc}, s.pc k = o → o.Quiet p → Act s k (.run k) (s.goto k p) := by
    intro o p at_pc moves
    exact .quiet (at_pc ▸ moves) s.stackPool.routineNums s.isPendingNeedDelete s.freed
  unfold run at stepped
  split at stepped
  · cases stepped
  next r at_pc => cases stepped; exact .enter at_pc
  · cases stepped
  next r level at_pc =>
    split at stepped
    next i rest head => cases stepped; exact .popRoutine at_pc head
    · cases stepped; exact .allocate at_pc
  next r i level at_pc => cases stepped; exact newStack_spec at_pc
  next r i st at_pc =>
    cases stepped
    exact .quiet (at_pc ▸ .counted r i st) _ s.isPendingNeedDelete s.freed
  next r i st at_pc => cases stepped; exact .init at_pc
  next r at_pc => cases stepped; exact .publish at_pc
  next r at_pc =>
    split at stepped
    · cases stepped; exact quiet at_pc (.stays r)
    · split at stepped
      · cases stepped
        exact .quiet (at_pc ▸ .stays r) s.stackPool.routineNums _ s.freed
      · obtain ⟨st, held, rfl⟩ := Option.map_eq_some_iff.mp stepped
        exact .returns at_pc held
  next r st at_pc => cases stepped; exact .pushStack at_pc
  next r at_pc =>
    cases stepped
    exact .quiet (at_pc ▸ .clears r) _ s.isPendingNeedDelete s.freed
  next r at_pc => cases stepped; exact .clear at_pc
  next r at_pc => cases stepped; exact .pushRoutine at_pc
  next r recycled at_pc => cases stepped; exact .store at_pc
  next r recycled at_pc => cases stepped; exact .leave at_pc
  next r at_pc =>
    cases stepped
    exact .quiet (at_pc ▸ .back r) s.stackPool.routineNums _ _

/-- A step is one of a registered thread, or another thread registers. -/
theorem step_spec {n : Nat} {s t : State} {label : Label} (stepped : step n s label = some t) :
    (∃ k < s.size, Act s k label t) ∨ s.size < n ∧ t = { s with size := s.size + 1 } := by
  cases label with
  | register =>
    simp only [step] at stepped
    split at stepped
    next more => cases stepped; exact .inr ⟨more, rfl⟩
    · cases stepped
  | run k =>
    simp only [step] at stepped
    split at stepped
    next inside => exact .inl ⟨k, inside, run_spec stepped⟩
    · cases stepped
  | call k op =>
    simp only [step] at stepped
    split at stepped
    next inside =>
      split at stepped
      next r at_pc => exact .inl ⟨k, inside, call_spec at_pc stepped⟩
      · cases stepped
    · cases stepped
  | take k r =>
    simp only [step] at stepped
    split at stepped
    next here => cases stepped; exact .inl ⟨k, here.1, .take here.2.1 here.2.2⟩
    · cases stepped

end BRoutine.Recycle
