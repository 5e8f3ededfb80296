import Mathlib.Data.List.Basic
import Mathlib.Logic.Function.Basic
import BRoutine.Transition

/-!
# bScheduler

Any number of threads in `ProcessBegin` of `b_scheduler.cc`, with the operations that routines
publish themselves by. A thread is known by the `ID` its scheduler has got from `registe`, and
what it executes at a time is its program point: the loop of `ProcessBegin`, the code of a
routine, or `SwapContext` on the way between the two. The steps of `SwapContext` are apart: the
swap of the two pointers, the stores of `bSwap` and its loads.

The model starts where `CreatMutProcessEnv` has called `SwapContext` for the first time. Main has
saved its context there, has lost its `IsProgress` and has its task in the queue of scheduler 0.
The threads of other schedulers register at any time after that.

A ready queue is the list of its routines, and one call of `pushBack`, `popHead` or
`Try2stealTask` is one step, as is one `AddTask`. So is the registration of `poll`, its push into
the wheel and its `epoll_ctl` calls, and `timeWait` is not among the calls. Routines are not
recycled: a user routine that has returned is not used again.
-/

namespace BRoutine.Scheduler

/-- The loop routine of a scheduler, the main routine, or a routine made by `New`. -/
inductive Routine where
  | loop (k : Nat)
  | main
  | user (r : Nat)
  deriving DecidableEq, Repr

/-- Routines with `IsProgress`, which `AddTask` refuses. -/
def Routine.isProgress : Routine → Bool
  | .loop _ => true
  | _ => false

/-- Where `AddTask` leads back to. -/
inductive Back where
  | swap
  | user
  | deal
  deriving DecidableEq, Repr

inductive Pc where
  /-- at the top of the loop of `ProcessBegin` -/
  | top
  /-- about to call `ActivetaskItems->popHead()` -/
  | take
  /-- in the loop of `stealTaskRoutine` at the index `id` -/
  | scan (id : Nat)
  /-- with a task of `r`: about to write `pendingRoutine` -/
  | got (r : Routine)
  /-- in the code of a routine -/
  | user
  /-- about to call `AddTask` for each of `tasks` -/
  | add (tasks : List Routine) (back : Back)
  /-- at the call of `SwapContext` -/
  | swap
  /-- the pointers are swapped: about to store the registers -/
  | store
  /-- the registers are stored: about to load those of the new routine -/
  | load
  deriving DecidableEq, Repr

/-- `index` is the static `i` of `AddTask`, `lists` are the wait lists of mutexes and conditions,
`polls` the routines whose `poll` is registered. `saved` says of a routine that its registers have
been stored since they were last loaded, and `early` that some `bSwap` has loaded the registers of
one of which they have not. -/
structure State where
  size : Nat
  occupyRoutine : Nat → Routine
  pendingRoutine : Nat → Option Routine
  activeTasks : Nat → List Routine
  pc : Nat → Pc
  index : Nat
  lists : Nat → List Routine
  polls : List Routine
  dealLock : Bool
  saved : Routine → Bool
  early : Bool
  crashed : Bool

/-- Scheduler 0 is in its loop, with the task of main in its queue. -/
def initial : State where
  size := 1
  occupyRoutine := .loop
  pendingRoutine := fun k => if k = 0 then some .main else none
  activeTasks := fun k => if k = 0 then [.main] else []
  pc := fun _ => .top
  index := 0
  lists := fun _ => []
  polls := []
  dealLock := false
  saved := fun r => r ≠ .loop 0
  early := false
  crashed := false

/-- What a routine can call. -/
inductive Op where
  /-- `target->Resume()` -/
  | resume (target : Routine)
  | yield
  /-- `list->add(getSelf())` and `SwapContext`, of `lock` and of `wait` -/
  | wait (list : Nat)
  /-- `list->pop()` and `AddTask`, of `unlock`, `signalOnce` and `signalAll` -/
  | wake (list : Nat)
  /-- the suspending branch of `poll` -/
  | poll
  /-- the end of `RoutineBegin` -/
  | finish
  deriving DecidableEq, Repr

inductive Label where
  /-- another thread calls `registe` -/
  | register
  /-- the next step of the thread `k` -/
  | run (k : Nat)
  /-- the routine on the thread `k` makes a call -/
  | call (k : Nat) (op : Op)
  /-- `Deal` on the thread `k` wakes the routine `r` from its `poll` -/
  | deal (k : Nat) (r : Routine)
  /-- one turn of the loop of `stealTaskRoutine`; `locked` is whether the trylocks succeed -/
  | steal (k : Nat) (locked : Bool)
  deriving DecidableEq, Repr

def State.goto (s : State) (k : Nat) (p : Pc) : State :=
  { s with pc := Function.update s.pc k p }

/-- `AddTask` of a task of `r`. -/
def State.addTask (s : State) (r : Routine) : State :=
  if r.isProgress then { s with crashed := true }
  else { s with
    activeTasks := Function.update s.activeTasks s.index (s.activeTasks s.index ++ [r])
    index := (s.index + 1) % s.size }

/-- `ActivetaskItems->pushBack` of the scheduler `k`. -/
def State.push (s : State) (k : Nat) (r : Routine) : State :=
  { s with activeTasks := Function.update s.activeTasks k (s.activeTasks k ++ [r]) }

/-- `Try2stealTask`: what it leaves in the queue and the task it returns. -/
def try2stealTask (activeTask : List Routine) (locked : Bool) :
    List Routine × Option Routine :=
  if !locked then (activeTask, none) else
  match activeTask with
  | [] => ([], none)
  -- with one element main is pushed back and still returned
  | [a] => if a = .main then ([a], some a) else ([], some a)
  | a :: b :: rest => if a = .main then (b :: rest ++ [a], none) else (b :: rest, some a)

/-- The body of the loop of `stealTaskRoutine` at the index `id`. -/
def State.stolen (s : State) (k id : Nat) (locked : Bool) : State :=
  let (left, taken) := try2stealTask (s.activeTasks id) locked
  let s := { s with activeTasks := Function.update s.activeTasks id left }
  match taken with
  | none => s
  | some p => s.push k p

def call (s : State) (k : Nat) : Op → Option State
  | .resume target => some (s.goto k (.add [target, s.occupyRoutine k] .swap))
  | .yield => some (s.goto k (.add [s.occupyRoutine k] .swap))
  | .wait list => some (({ s with
      lists := Function.update s.lists list (s.lists list ++ [s.occupyRoutine k]) }).goto k .swap)
  | .wake list =>
    match s.lists list with
    | [] => some (s.goto k .user)
    | r :: rest =>
      some (({ s with lists := Function.update s.lists list rest }).goto k (.add [r] .user))
  | .poll => some (({ s with polls := s.polls ++ [s.occupyRoutine k] }).goto k .swap)
  | .finish => if s.occupyRoutine k = .main then none else some (s.goto k .swap)

def run (s : State) (k : Nat) : Option State :=
  match s.pc k with
  | .top => some (s.goto k .take)
  | .take =>
    match s.activeTasks k with
    | [] => some (s.goto k (.scan ((k + 1) % s.size)))
    | r :: rest =>
      some (({ s with activeTasks := Function.update s.activeTasks k rest }).goto k (.got r))
  | .scan id =>
    if id = k then
      -- `return sch->ActivetaskItems->popHead()`, and without a task the timed wait
      match s.activeTasks k with
      | [] => some (s.goto k .top)
      | r :: rest =>
        some (({ s with activeTasks := Function.update s.activeTasks k rest }).goto k (.got r))
    else none
  | .got r => some (({ s with
      pendingRoutine := Function.update s.pendingRoutine k (some r) }).goto k .swap)
  | .user => none
  | .add [] .swap => some (s.goto k .swap)
  | .add [] .user => some (s.goto k .user)
  | .add [] .deal => some (({ s with dealLock := false }).goto k .top)
  | .add (r :: tasks) back => some ((s.addTask r).goto k (.add tasks back))
  | .swap =>
    match s.pendingRoutine k with
    | none => some { s with crashed := true }
    | some r => some (({ s with
        occupyRoutine := Function.update s.occupyRoutine k r
        pendingRoutine := Function.update s.pendingRoutine k (some (s.occupyRoutine k)) }).goto k
          .store)
  | .store => (s.pendingRoutine k).map fun r =>
      ({ s with saved := Function.update s.saved r true }).goto k .load
  | .load =>
    let r := s.occupyRoutine k
    -- the new routine goes on behind the `SwapContext` it has left by
    some (({ s with
      saved := Function.update s.saved r false
      early := s.early || !s.saved r }).goto k (if r.isProgress then .top else .user))

def step (n : Nat) (s : State) (label : Label) : Option State :=
  if s.crashed then none else
  match label with
  | .register => if s.size < n then some { s with
      size := s.size + 1
      saved := Function.update s.saved (.loop s.size) false } else none
  | .run k => if k < s.size then run s k else none
  | .call k op => if k < s.size ∧ s.pc k = .user then call s k op else none
  | .deal k r =>
    if k < s.size ∧ s.pc k = .top ∧ r ∈ s.polls ∧ s.dealLock = false then
      some (({ s with polls := s.polls.erase r, dealLock := true }).goto k (.add [r] .deal))
    else none
  | .steal k locked =>
    if k < s.size then
      match s.pc k with
      | .scan id =>
        if id = k then none
        -- `++id` does not wrap: past the last scheduler the entry is a null pointer
        else if s.size ≤ id then some { s with crashed := true }
        else some ((s.stolen k id locked).goto k (.scan (id + 1)))
      | _ => none
    else none

/-- At most `n` schedulers. -/
def machine (n : Nat) : Transition.Machine State Label where
  start s := s = initial
  step := step n

/-! ### Small lemmas -/

@[simp] theorem goto_size (s : State) (k : Nat) (p : Pc) : (s.goto k p).size = s.size := rfl
@[simp] theorem goto_occupy (s : State) (k : Nat) (p : Pc) :
    (s.goto k p).occupyRoutine = s.occupyRoutine := rfl
@[simp] theorem goto_pending (s : State) (k : Nat) (p : Pc) :
    (s.goto k p).pendingRoutine = s.pendingRoutine := rfl
@[simp] theorem goto_activeTasks (s : State) (k : Nat) (p : Pc) :
    (s.goto k p).activeTasks = s.activeTasks := rfl
@[simp] theorem goto_saved (s : State) (k : Nat) (p : Pc) : (s.goto k p).saved = s.saved := rfl
@[simp] theorem goto_early (s : State) (k : Nat) (p : Pc) : (s.goto k p).early = s.early := rfl
@[simp] theorem goto_pc (s : State) (k : Nat) (p : Pc) :
    (s.goto k p).pc = Function.update s.pc k p := rfl

/-- The ready queues aside, nothing that `SwapContext` works on differs. -/
structure SameContexts (t s : State) : Prop where
  size : t.size = s.size
  pc : t.pc = s.pc
  occupy : t.occupyRoutine = s.occupyRoutine
  pending : t.pendingRoutine = s.pendingRoutine
  saved : t.saved = s.saved
  early : t.early = s.early

theorem addTask_same (s : State) (r : Routine) : SameContexts (s.addTask r) s := by
  unfold State.addTask
  split <;> constructor <;> rfl

theorem stolen_same (s : State) (k id : Nat) (locked : Bool) :
    SameContexts (s.stolen k id locked) s := by
  simp only [State.stolen]
  split <;> constructor <;> rfl

theorem try2stealTask_subset {activeTask left : List Routine} {locked : Bool}
    {taken : Option Routine} (returned : try2stealTask activeTask locked = (left, taken)) :
    (∀ r ∈ left, r ∈ activeTask) ∧ ∀ r, taken = some r → r ∈ activeTask := by
  unfold try2stealTask at returned
  split at returned
  · cases returned
    simp
  split at returned
  · cases returned
    simp
  next a =>
    -- the task of main goes back and is returned all the same
    split at returned <;> cases returned <;> simp
  next a b rest =>
    split at returned
    · cases returned
      refine ⟨fun r member => ?_, by simp⟩
      simp only [List.cons_append, List.mem_cons, List.mem_append, List.not_mem_nil,
        or_false] at member ⊢
      tauto
    · cases returned
      refine ⟨fun r member => List.mem_cons_of_mem _ member, ?_⟩
      rintro r ⟨⟩
      exact List.mem_cons_self

/-- What a queue holds after a `pushBack`. -/
theorem mem_pushed {queues : Nat → List Routine} {j k : Nat} {r q : Routine}
    (member : q ∈ Function.update queues k (queues k ++ [r]) j) :
    q ∈ queues j ∨ j = k ∧ q = r := by
  by_cases here : j = k
  · subst here
    rw [Function.update_self, List.mem_append, List.mem_singleton] at member
    exact member.imp_right fun same => ⟨rfl, same⟩
  · rw [Function.update_of_ne here] at member
    exact .inl member

theorem mem_addTask {s : State} {j : Nat} {r q : Routine}
    (member : q ∈ (s.addTask r).activeTasks j) :
    q ∈ s.activeTasks j ∨ j = s.index ∧ q = r ∧ r.isProgress = false := by
  unfold State.addTask at member
  split at member
  · exact .inl member
  next user =>
    refine (mem_pushed member).imp_right ?_
    rintro ⟨here, same⟩
    exact ⟨here, same, by simpa using user⟩

/-- The tasks of a queue after a theft were there before, but for the one stolen. -/
theorem mem_stolen {s : State} {j k id : Nat} {locked : Bool} {q : Routine}
    (member : q ∈ (s.stolen k id locked).activeTasks j) :
    q ∈ s.activeTasks j ∨ j = k ∧ (try2stealTask (s.activeTasks id) locked).2 = some q := by
  cases returned : try2stealTask (s.activeTasks id) locked with
  | mk left taken =>
    have stays := (try2stealTask_subset returned).1
    have rest : ∀ p ∈ Function.update s.activeTasks id left j, p ∈ s.activeTasks j := by
      intro p inside
      by_cases here : j = id
      · subst here
        rw [Function.update_self] at inside
        exact stays p inside
      · rw [Function.update_of_ne here] at inside
        exact inside
    simp only [State.stolen, returned] at member
    cases taken with
    | none => exact .inl (rest q member)
    | some p =>
      rcases mem_pushed member with inside | ⟨here, rfl⟩
      · exact .inl (rest q inside)
      · exact .inr ⟨here, rfl⟩

/-! ### What a step can do -/

/-- Not inside `SwapContext`, between its two pointers and the loads of `bSwap`. -/
def Pc.ordinary : Pc → Bool
  | .store | .load => false
  | _ => true

/-- In the loop of `ProcessBegin`. -/
def Pc.inLoop : Pc → Bool
  | .top | .take | .scan _ | .got _ | .add _ .deal => true
  | _ => false

/-- In the code of a routine, before `SwapContext`. -/
def Pc.inCode : Pc → Bool
  | .user | .add _ .swap | .add _ .user => true
  | _ => false

theorem Pc.ordinary_of_inLoop {p : Pc} (inside : p.inLoop = true) : p.ordinary = true := by
  cases p <;> first | rfl | cases inside

theorem Pc.ordinary_of_inCode {p : Pc} (inside : p.inCode = true) : p.ordinary = true := by
  cases p <;> first | rfl | cases inside

/-- A move within the loop, or within the code of a routine up to `SwapContext`. -/
def Pc.Stays (p o : Pc) : Prop :=
  (o.inLoop = true ∧ p.inLoop = true ∧ ∀ r, o ≠ .got r ∧ p ≠ .got r) ∨
    (o.inCode = true ∧ (p.inCode = true ∨ p = .swap))

theorem Pc.Stays.ordinary {p o : Pc} (stays : p.Stays o) :
    o.ordinary = true ∧ p.ordinary = true := by
  rcases stays with ⟨before, after, -⟩ | ⟨before, after | rfl⟩
  · exact ⟨ordinary_of_inLoop before, ordinary_of_inLoop after⟩
  · exact ⟨ordinary_of_inCode before, ordinary_of_inCode after⟩
  · exact ⟨ordinary_of_inCode before, rfl⟩

theorem Pc.Stays.not_got {p o : Pc} (stays : p.Stays o) (r : Routine) : p ≠ .got r := by
  rcases stays with ⟨-, -, free⟩ | ⟨-, after | rfl⟩
  · exact (free r).2
  · rintro rfl
    cases after
  · simp

/-- The steps of the thread `k`, and the labels they can have. -/
inductive Act (s : State) (k : Nat) : Label → State → Prop where
  /-- only the program point and what routines wait on have changed -/
  | quiet {label : Label} {p : Pc} (lists : Nat → List Routine) (polls : List Routine)
      (dealLock : Bool) (stays : p.Stays (s.pc k)) :
      Act s k label (({ s with lists := lists, polls := polls, dealLock := dealLock }).goto k p)
  | taken {r : Routine} {rest : List Routine} (at_pc : s.pc k = .take ∨ ∃ id, s.pc k = .scan id)
      (front : s.activeTasks k = r :: rest) :
      Act s k (.run k) (({ s with
        activeTasks := Function.update s.activeTasks k rest }).goto k (.got r))
  | pend {r : Routine} (at_pc : s.pc k = .got r) :
      Act s k (.run k) (({ s with
        pendingRoutine := Function.update s.pendingRoutine k (some r) }).goto k .swap)
  | addTask {r : Routine} {tasks : List Routine} {back : Back}
      (at_pc : s.pc k = .add (r :: tasks) back) :
      Act s k (.run k) ((s.addTask r).goto k (.add tasks back))
  | swap {r : Routine} (at_pc : s.pc k = .swap) (pending : s.pendingRoutine k = some r) :
      Act s k (.run k) (({ s with
        occupyRoutine := Function.update s.occupyRoutine k r
        pendingRoutine := Function.update s.pendingRoutine k (some (s.occupyRoutine k)) }).goto k
          .store)
  | store {r : Routine} (at_pc : s.pc k = .store) (pending : s.pendingRoutine k = some r) :
      Act s k (.run k) (({ s with saved := Function.update s.saved r true }).goto k .load)
  | load (at_pc : s.pc k = .load) :
      Act s k (.run k) (({ s with
        saved := Function.update s.saved (s.occupyRoutine k) false
        early := s.early || !s.saved (s.occupyRoutine k) }).goto k
          (if (s.occupyRoutine k).isProgress then .top else .user))
  | steal {id : Nat} (locked : Bool) (at_pc : s.pc k = .scan id) (other : id ≠ k)
      (inside : id < s.size) :
      Act s k (.steal k locked) ((s.stolen k id locked).goto k (.scan (id + 1)))
  | crash {label : Label} : Act s k label { s with crashed := true }

theorem call_spec {s t : State} {k : Nat} {op : Op} (at_pc : s.pc k = .user)
    (stepped : call s k op = some t) : Act s k (.call k op) t := by
  have inside : (s.pc k).inCode = true := by rw [at_pc]; rfl
  cases op with
  | resume target => cases stepped; exact .quiet _ _ _ (.inr ⟨inside, .inl rfl⟩)
  | yield => cases stepped; exact .quiet _ _ _ (.inr ⟨inside, .inl rfl⟩)
  | wait list => cases stepped; exact .quiet _ _ _ (.inr ⟨inside, .inr rfl⟩)
  | wake list =>
    simp only [call] at stepped
    split at stepped <;> cases stepped <;> exact .quiet _ _ _ (.inr ⟨inside, .inl rfl⟩)
  | poll => cases stepped; exact .quiet _ _ _ (.inr ⟨inside, .inr rfl⟩)
  | finish =>
    simp only [call] at stepped
    split at stepped
    · cases stepped
    · cases stepped; exact .quiet _ _ _ (.inr ⟨inside, .inr rfl⟩)

theorem run_spec {s t : State} {k : Nat} (stepped : run s k = some t) :
    Act s k (.run k) t := by
  -- a move from one program point of the loop to another
  have within : ∀ {o p : Pc}, s.pc k = o → o.inLoop = true → p.inLoop = true →
      (∀ r, o ≠ .got r ∧ p ≠ .got r) → p.Stays (s.pc k) := by
    intro o p at_pc before after free
    exact .inl ⟨by rw [at_pc, before], after, by rwa [at_pc]⟩
  unfold run at stepped
  split at stepped
  next at_pc => cases stepped; exact .quiet _ _ _ (within at_pc rfl rfl (by simp))
  next at_pc =>
    split at stepped
    · cases stepped; exact .quiet _ _ _ (within at_pc rfl rfl (by simp))
    next front => cases stepped; exact .taken (.inl at_pc) front
  next id at_pc =>
    split at stepped
    · split at stepped
      · cases stepped; exact .quiet _ _ _ (within at_pc rfl rfl (by simp))
      next front => cases stepped; exact .taken (.inr ⟨id, at_pc⟩) front
    · cases stepped
  next at_pc => cases stepped; exact .pend at_pc
  next => cases stepped
  next at_pc => cases stepped; exact .quiet _ _ _ (.inr ⟨by rw [at_pc]; rfl, .inr rfl⟩)
  next at_pc => cases stepped; exact .quiet _ _ _ (.inr ⟨by rw [at_pc]; rfl, .inl rfl⟩)
  next at_pc => cases stepped; exact .quiet _ _ _ (within at_pc rfl rfl (by simp))
  next at_pc => cases stepped; exact .addTask at_pc
  next at_pc =>
    split at stepped
    · cases stepped; exact .crash
    next pending => cases stepped; exact .swap at_pc pending
  next at_pc =>
    obtain ⟨r, pending, rfl⟩ := Option.map_eq_some_iff.mp stepped
    exact .store at_pc pending
  next at_pc => cases stepped; exact .load at_pc

/-- A step is one of a registered thread, or another thread registers. -/
theorem step_spec {n : Nat} {s t : State} {label : Label} (stepped : step n s label = some t) :
    (∃ k < s.size, Act s k label t) ∨ s.size < n ∧ t = { s with
      size := s.size + 1
      saved := Function.update s.saved (.loop s.size) false } := by
  simp only [step] at stepped
  split at stepped
  · cases stepped
  cases label with
  | register =>
    simp only at stepped
    split at stepped
    next more => cases stepped; exact .inr ⟨more, rfl⟩
    · cases stepped
  | run k =>
    simp only at stepped
    split at stepped
    next inside => exact .inl ⟨k, inside, run_spec stepped⟩
    · cases stepped
  | call k op =>
    simp only at stepped
    split at stepped
    next here => exact .inl ⟨k, here.1, call_spec here.2 stepped⟩
    · cases stepped
  | deal k r =>
    simp only at stepped
    split at stepped
    next here =>
      cases stepped
      exact .inl ⟨k, here.1, .quiet _ _ _ (.inl ⟨by rw [here.2.1]; rfl, rfl, by simp [here.2.1]⟩)⟩
    · cases stepped
  | steal k locked =>
    simp only at stepped
    split at stepped
    next here =>
      -- the scan skips its own queue and crashes behind the last one
      refine .inl ⟨k, here, ?_⟩
      split at stepped
      next id at_pc =>
        split at stepped
        · cases stepped
        next other =>
          split at stepped
          · cases stepped; exact .crash
          next inside =>
            cases stepped
            exact .steal locked at_pc other (by omega)
      · cases stepped
    · cases stepped

end BRoutine.Scheduler
