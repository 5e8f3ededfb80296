import BRoutine.Filing
import BRoutine.Solo.Model

/-!
# Who executes on one scheduler

Every routine that has not finished is in one file: made and not yet resumed, in the ready queue,
in a wait list or in a poll; or it executes. `Sound` keeps this together with what
`occupyRoutine` and `pendingRoutine` are at each point where code can execute, and with what the
contexts of the routines hold that do not.
-/

namespace BRoutine.Solo

/-- Where a routine is kept while it does not execute. -/
inductive Key where
  | made
  | ready
  | waiting (list : Nat)
  | polling
  | pooled
  deriving DecidableEq, Repr

def State.content (s : State) : Key → List Nat
  | .made => s.made
  | .ready => (s.activeTasks 0).items
  | .waiting list => s.lists list
  | .polling => s.polls
  | .pooled => s.routinePool

/-- A routine that has not finished, and its context if it is not executing: at the entry of
`RoutineBegin`, or where it has been suspended. -/
structure Live (s : State) (r : Nat) : Prop where
  func : (s.routine r).func = .user
  isDone : (s.routine r).isDone = false
  isProgress : (s.routine r).isProgress = false
  stack : r = main ∨ (s.routine r).stack ≠ none

structure Resting (s : State) (r : Nat) : Prop where
  live : Live s r
  regs : ((s.routine r).isBegin = false ∧ s.regs r = some (.begin r)) ∨
    ((s.routine r).isBegin = true ∧ s.regs r = some (.user r))

/-- The pointers while the code of the routine `r` executes. -/
structure Executes (s : State) (r : Nat) : Prop where
  occupy : s.occupyRoutine = r
  pending : s.pendingRoutine = loopRoutine
  born : r < s.nextRoutine
  other : r ≠ loopRoutine
  isProgress : (s.routine r).isProgress = false
  loop : ∃ task, s.regs loopRoutine = some (.loop task)
  size : s.size = 1
  index : s.index = 0

/-- The pointers while `ProcessBegin` executes. -/
structure Loops (s : State) : Prop where
  occupy : s.occupyRoutine = loopRoutine
  size : s.size = 1
  index : s.index = 0

/-- The routine `r` has finished and has set `IsPendingNeedDelete`. -/
structure Doomed (s : State) (r : Nat) : Prop where
  flagBy : s.flagBy = some r
  isDone : (s.routine r).isDone = true
  notMain : r ≠ main
  notLoop : r ≠ loopRoutine
  stack : (s.routine r).stack ≠ none

/-- Before the first `SwapContext`. -/
structure Creating (s : State) : Prop where
  occupy : s.occupyRoutine = main
  pending : s.pendingRoutine = loopRoutine
  size : s.size = 0
  index : s.index = 0
  main : s.routine main =
    { Routine.calloc main with isMain := true, isBegin := true, isProgress := true }
  begins : s.regs loopRoutine = some (.begin loopRoutine)
  isBegin : (s.routine loopRoutine).isBegin = false
  func : (s.routine loopRoutine).func = .processBegin

def AtControl (s : State) (place : Nat → Option Key) : Prop :=
  match s.control with
  | .create => Creating s ∧ place main = none ∧ s.isPendingNeedDelete = false
  | .user r => Executes s r ∧ Live s r ∧ (s.routine r).isBegin = true ∧ place r = none ∧
      s.isPendingNeedDelete = false
  | .leave r => Executes s r ∧ (s.routine r).isDone = true ∧
      (place r = none ∨ place r = some .pooled) ∧ (s.isPendingNeedDelete = true → Doomed s r)
  | .ended _ => False
  | .loop => Loops s ∧ s.isPendingNeedDelete = false
  | .back _ => Loops s ∧ (s.isPendingNeedDelete = true → Doomed s s.pendingRoutine)

structure Sound (s : State) (place : Nat → Option Key) : Prop where
  filed : Filing.Filed s.content place
  thrown : s.thrown = false
  born : loopRoutine < s.nextRoutine
  unborn : ∀ r, s.nextRoutine ≤ r → place r = none
  context : ∀ r, (s.routine r).context = r
  isMain : ∀ r, (s.routine r).isMain = true ↔ r = main
  loop : place loopRoutine = none
  notPooled : place main ≠ some .pooled
  resting : ∀ r k, place r = some k → k ≠ .pooled → Resting s r
  control : AtControl s place

theorem initial_sound : Sound initial fun _ => none where
  filed := by
    constructor
    · intro k r
      cases k <;> simp [State.content, initial]
    · intro k
      cases k <;> simp [State.content, initial]
  thrown := rfl
  born := by decide
  unborn _ _ := rfl
  context r := by
    simp only [initial]
    split
    next same => exact same.symm
    · split
      next same => exact same.symm
      · rfl
  isMain r := by
    simp only [initial]
    split
    next same => simp [same]
    next other => split <;> simp [Routine.calloc, other]
  loop := rfl
  notPooled := by simp
  resting := by simp
  control := ⟨⟨rfl, rfl, rfl, rfl, rfl, rfl, rfl, rfl⟩, rfl, rfl⟩

variable {s t : State} {place : Nat → Option Key} {r : Nat}

/-! ### The files -/

theorem content_made (s : State) (list : List Nat) :
    ({ s with made := list } : State).content = Function.update s.content .made list := by
  funext k
  cases k <;> simp [State.content]

theorem content_polls (s : State) (list : List Nat) :
    ({ s with polls := list } : State).content = Function.update s.content .polling list := by
  funext k
  cases k <;> simp [State.content]

theorem content_pool (s : State) (list : List Nat) :
    ({ s with routinePool := list } : State).content = Function.update s.content .pooled list := by
  funext k
  cases k <;> simp [State.content]

theorem content_tasks (s : State) (list : TaskItemsList Nat) :
    ({ s with activeTasks := Function.update s.activeTasks 0 list } : State).content =
      Function.update s.content .ready list.items := by
  funext k
  cases k <;> simp [State.content]

theorem content_lists (s : State) (l : Nat) (list : List Nat) :
    ({ s with lists := Function.update s.lists l list } : State).content =
      Function.update s.content (.waiting l) list := by
  funext k
  cases k with
  | waiting l' => by_cases same : l' = l <;> simp [State.content, same]
  | _ => simp [State.content]

theorem content_pushBack (s : State) (r : Nat) :
    (s.pushBack 0 r).content = Function.update s.content .ready (s.content .ready ++ [r]) :=
  content_tasks s ((s.activeTasks 0).pushBackUnsafe r)

/-! ### Tasks and switches -/

theorem Live.congr (live : Live s r) (routine : t.routine r = s.routine r) : Live t r := by
  obtain ⟨func, isDone, isProgress, stack⟩ := live
  constructor
  · rw [routine]; exact func
  · rw [routine]; exact isDone
  · rw [routine]; exact isProgress
  · rw [routine]; exact stack

theorem Resting.congr (resting : Resting s r) (routine : t.routine r = s.routine r)
    (regs : t.regs r = s.regs r) : Resting t r where
  live := resting.live.congr routine
  regs := by rw [routine, regs]; exact resting.regs

theorem addTask_eq (size : s.size = 1) (index : s.index = 0)
    (isProgress : (s.routine r).isProgress = false) : s.addTask r = s.pushBack 0 r := by
  have same : (s.index + 1) % s.size = s.index := by rw [index, size]
  have pushed : s.addTask r = s.pushBack s.index r := by
    rw [State.addTask, if_neg (by simp [isProgress]), same]
    rfl
  rw [pushed, index]

/-- After the `SwapContext` of the routine `r`: `ProcessBegin` is behind its own. -/
def State.away (s : State) (r : Nat) (cont : Cont) (task : Nat) : State :=
  { s with
    occupyRoutine := loopRoutine
    pendingRoutine := r
    regs := Function.update s.regs r (some cont)
    control := .back task }

theorem Executes.swapContext (executes : Executes s r) (context : ∀ r, (s.routine r).context = r)
    (cont : Cont) : ∃ task, s.regs loopRoutine = some (.loop task) ∧
      s.swapContext cont = s.away r cont task := by
  obtain ⟨task, held⟩ := executes.loop
  refine ⟨task, held, ?_⟩
  have still : Function.update s.regs r (some cont) loopRoutine = some (.loop task) := by
    rw [Function.update_of_ne (Ne.symm executes.other), held]
  simp [State.swapContext, executes.occupy, executes.pending, executes.isProgress, context, still,
    State.resume, State.away]

/-- After the `SwapContext` of `ProcessBegin` for a task of the routine `r`. -/
def State.enter (s : State) (r : Nat) : State :=
  { s.modify r fun record => { record with isBegin := true } with
    occupyRoutine := r
    pendingRoutine := loopRoutine
    regs := Function.update s.regs loopRoutine (some (.loop r))
    control := .user r }

theorem Loops.swapContext (loops : Loops s) (context : ∀ r, (s.routine r).context = r)
    (notMain : (s.routine loopRoutine).isMain = false) (other : r ≠ loopRoutine)
    (pending : s.pendingRoutine = r) (resting : Resting s r) :
    s.swapContext (.loop r) = s.enter r := by
  have still : Function.update s.regs loopRoutine (some (.loop r)) r = s.regs r :=
    Function.update_of_ne other ..
  rw [State.enter]
  rcases resting.regs with ⟨fresh, held⟩ | ⟨begun, held⟩
  · simp [State.swapContext, loops.occupy, pending, notMain, context, still, held, State.resume,
      fresh, State.modify, resting.live.func]
  · -- the routine has begun, so its record is as it was
    have record : { s.routine r with isBegin := true } = s.routine r := by rw [← begun]
    have same : (s.modify r fun record => { record with isBegin := true }) = s := by
      rw [State.modify, record, Function.update_eq_self]
    rw [same]
    simp [State.swapContext, loops.occupy, pending, notMain, context, still, held, State.resume]

/-- `t` differs from `s` in nothing but the files of routines. -/
structure SameCode (s t : State) : Prop where
  routine : t.routine = s.routine
  regs : t.regs = s.regs
  nextRoutine : t.nextRoutine = s.nextRoutine
  occupy : t.occupyRoutine = s.occupyRoutine
  pending : t.pendingRoutine = s.pendingRoutine
  flag : t.isPendingNeedDelete = s.isPendingNeedDelete
  flagBy : t.flagBy = s.flagBy
  size : t.size = s.size
  index : t.index = s.index
  control : t.control = s.control
  thrown : t.thrown = s.thrown

theorem SameCode.trans {u : State} (first : SameCode s t) (second : SameCode t u) :
    SameCode s u where
  routine := second.routine.trans first.routine
  regs := second.regs.trans first.regs
  nextRoutine := second.nextRoutine.trans first.nextRoutine
  occupy := second.occupy.trans first.occupy
  pending := second.pending.trans first.pending
  flag := second.flag.trans first.flag
  flagBy := second.flagBy.trans first.flagBy
  size := second.size.trans first.size
  index := second.index.trans first.index
  control := second.control.trans first.control
  thrown := second.thrown.trans first.thrown

theorem sameCode_pushBack (s : State) (r : Nat) : SameCode s (s.pushBack 0 r) := by
  constructor <;> rfl

theorem sameCode_made (s : State) (list : List Nat) : SameCode s { s with made := list } := by
  constructor <;> rfl

theorem sameCode_polls (s : State) (list : List Nat) : SameCode s { s with polls := list } := by
  constructor <;> rfl

theorem sameCode_lists (s : State) (lists : Nat → List Nat) :
    SameCode s { s with lists := lists } := by
  constructor <;> rfl

theorem SameCode.live (same : SameCode s t) (live : Live s r) : Live t r :=
  live.congr (congrFun same.routine r)

theorem SameCode.resting (same : SameCode s t) (resting : Resting s r) : Resting t r :=
  resting.congr (congrFun same.routine r) (congrFun same.regs r)

theorem SameCode.executes (same : SameCode s t) (executes : Executes s r) : Executes t r where
  occupy := same.occupy.trans executes.occupy
  pending := same.pending.trans executes.pending
  born := by rw [same.nextRoutine]; exact executes.born
  other := executes.other
  isProgress := by rw [same.routine]; exact executes.isProgress
  loop := by rw [same.regs]; exact executes.loop
  size := same.size.trans executes.size
  index := same.index.trans executes.index

/-- The files of the routines after some of those that rest have moved. -/
structure Moved (s : State) (place place' : Nat → Option Key) : Prop where
  out : ∀ i, place i = none → place' i = none
  rests : ∀ i k, place' i = some k → k ≠ .pooled → Resting s i
  notPooled : place' main ≠ some .pooled

theorem Sound.unmoved (sound : Sound s place) : Moved s place place where
  out _ outside := outside
  rests := sound.resting
  notPooled := sound.notPooled

/-- A routine that rests is put into the ready queue. -/
theorem Moved.ready {place' : Nat → Option Key} (moved : Moved s place place')
    (resting : Resting s r) (inside : place r ≠ none) :
    Moved s place (Function.update place' r (some .ready)) where
  out i outside := by
    have other : i ≠ r := by rintro rfl; exact inside outside
    rw [Function.update_of_ne other]
    exact moved.out i outside
  rests i k placed notPooled := by
    by_cases self : i = r
    · subst self; exact resting
    · rw [Function.update_of_ne self] at placed
      exact moved.rests i k placed notPooled
  notPooled := by
    by_cases self : main = r
    · subst self; simp
    · rw [Function.update_of_ne self]; exact moved.notPooled

end BRoutine.Solo
