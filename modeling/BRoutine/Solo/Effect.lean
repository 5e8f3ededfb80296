import BRoutine.Solo.Sound

/-!
# What a step does

`Effect` lists what the steps of the machine leave of a sound state: each of its cases gives the
whole state after the step. Everything that is proved about runs goes by cases on it.
-/

namespace BRoutine.Solo

variable {s t : State} {place : Nat → Option Key} {r : Nat}

theorem Sound.executes (sound : Sound s place) (user : s.control = .user r) :
    Executes s r ∧ Live s r ∧ (s.routine r).isBegin = true ∧ place r = none ∧
      s.isPendingNeedDelete = false := by
  have control := sound.control
  simpa only [AtControl, user] using control

theorem Sound.loops (sound : Sound s place) (loop : s.control = .loop) :
    Loops s ∧ s.isPendingNeedDelete = false := by
  have control := sound.control
  simpa only [AtControl, loop] using control

theorem SameCode.addTask (same : SameCode s t) (size : s.size = 1) (index : s.index = 0)
    (isProgress : (s.routine r).isProgress = false) : t.addTask r = t.pushBack 0 r :=
  addTask_eq (same.size.trans size) (same.index.trans index) (by rwa [same.routine])

/-! ### The first switch -/

/-- Main has been put into the ready queue, and `RoutineBegin` has called `ProcessBegin`. -/
def State.started (s : State) : State :=
  { s.pushBack 0 main with
    routine := Function.update (Function.update s.routine main
        { s.routine main with isProgress := false }) loopRoutine
        { s.routine loopRoutine with isBegin := true, isProgress := true }
    occupyRoutine := loopRoutine
    pendingRoutine := main
    regs := Function.update s.regs main (some (.user main))
    size := 1
    control := .loop }

theorem swapContext_started (creating : Creating s) (context : ∀ r, (s.routine r).context = r) :
    s.swapContext (.user main) = s.started := by
  have apart : main ≠ loopRoutine := by decide
  have isMain : (s.routine main).isMain = true ∧ (s.routine main).isProgress = true := by
    rw [creating.main]; exact ⟨rfl, rfl⟩
  simp [State.started, State.swapContext, creating.occupy, creating.pending, isMain, State.modify,
    State.pushBack, context, creating.begins, State.resume, creating.isBegin, creating.func,
    creating.size, Ne.symm apart]

/-! ### New -/

/-- The routine of `New` comes out of the pool, or is allocated. -/
theorem takeRoutine_cases (s : State) :
    (∃ i rest, s.routinePool = i :: rest ∧
      s.takeRoutine = (i, { s with routinePool := rest })) ∨
    s.takeRoutine = (s.nextRoutine, { s.modify s.nextRoutine fun _ => Routine.calloc s.nextRoutine
      with nextRoutine := s.nextRoutine + 1 }) := by
  rw [State.takeRoutine]
  split
  next i rest pool => exact .inl ⟨i, rest, pool, rfl⟩
  · exact .inr rfl

/-- `takeStack` looks at the stacks only. -/
theorem takeStack_local (pool : t.stackPool = s.stackPool) (sizes : t.stackSize = s.stackSize)
    (next : t.nextStack = s.nextStack) (level : Int) :
    t.takeStack level = (s.takeStack level).map fun (st, w) =>
      (st, { t with
        stackSize := w.stackSize
        nextStack := w.nextStack
        stackPool := w.stackPool }) := by
  rw [State.takeStack, State.takeStack, pool, sizes, next]
  cases s.stackPool.pop level with
  | some pair => simp [← sizes, ← next]
  | none => cases stackSizeOf level <;> simp [← pool]

/-- What `New` leaves if `bRoutineStack::New` throws: the routine is in no file any more. -/
def State.lost (s : State) (i : Nat) (record : Routine) : State :=
  { s with
    routine := Function.update s.routine i record.reset
    routinePool := s.takeRoutine.2.routinePool
    nextRoutine := s.takeRoutine.2.nextRoutine }

/-- What `New` leaves otherwise: the routine `i` at its entry, on the stack `st`. -/
def State.ready (s w : State) (i st : Nat) : State :=
  { s with
    routine := Function.update s.routine i { Routine.calloc i with stack := some st }
    regs := Function.update s.regs i (some (.begin i))
    stackSize := w.stackSize
    nextRoutine := s.takeRoutine.2.nextRoutine
    nextStack := w.nextStack
    routinePool := s.takeRoutine.2.routinePool
    stackPool := w.stackPool
    made := s.made ++ [i] }

theorem takeRoutine_eq (context : ∀ r, (s.routine r).context = r) :
    ∃ base : Routine, base.context = s.takeRoutine.1 ∧ s.takeRoutine.2 = { s with
      routine := Function.update s.routine s.takeRoutine.1 base
      routinePool := s.takeRoutine.2.routinePool
      nextRoutine := s.takeRoutine.2.nextRoutine } := by
  rcases takeRoutine_cases s with ⟨i, rest, -, taken⟩ | taken
  · refine ⟨s.routine i, by rw [taken, context], ?_⟩
    rw [taken]
    simp
  · refine ⟨Routine.calloc s.nextRoutine, by rw [taken]; rfl, ?_⟩
    rw [taken]
    rfl

theorem new_cases (context : ∀ r, (s.routine r).context = r) (level : Int) :
    (s.takeStack level = none ∧
      ∃ record, record.context = s.takeRoutine.1 ∧ s.new level = s.lost s.takeRoutine.1 record) ∨
    ∃ st w, s.takeStack level = some (st, w) ∧ s.new level = s.ready w s.takeRoutine.1 st := by
  obtain ⟨base, itself, taken⟩ := takeRoutine_eq context
  have same := takeStack_local (s := s)
    (t := s.takeRoutine.2.modify s.takeRoutine.1 Routine.reset)
    (by rw [taken]; rfl) (by rw [taken]; rfl) (by rw [taken]; rfl) level
  cases stack : s.takeStack level with
  | none =>
    rw [stack] at same
    refine .inl ⟨rfl, base, itself, ?_⟩
    simp only [State.new, same, Option.map_none]
    rw [taken]
    simp [State.lost, State.modify]
  | some pair =>
    rw [stack] at same
    refine .inr ⟨pair.1, pair.2, rfl, ?_⟩
    simp only [State.new, same, Option.map_some]
    rw [taken]
    simp [State.ready, State.modify, Routine.calloc, Routine.reset, itself]

/-! ### Recycling -/

/-- The record of a routine that is finished but for its stack. -/
structure Ended (s : State) (r : Nat) (record : Routine) : Prop where
  context : record.context = (s.routine r).context
  isMain : record.isMain = (s.routine r).isMain
  stack : record.stack = (s.routine r).stack
  isProgress : record.isProgress = (s.routine r).isProgress
  isDone : record.isDone = true

/-- What the end of the routine `r` leaves, up to its last `SwapContext`. -/
inductive Recycled (s : State) (r : Nat) : State → Prop where
  | main {record : Routine} : r = main → Ended s r record →
      Recycled s r { s with
        routine := Function.update s.routine r record
        control := .leave r }
  /-- the pools are full -/
  | full {record : Routine} {st : Nat} : r ≠ main → Ended s r record → record.stack = some st →
      s.stackPool.push (s.stackSize st) st = none →
      Recycled s r { s with
        routine := Function.update s.routine r record
        isPendingNeedDelete := true
        flagBy := some r
        control := .leave r }
  | pooled {record : Routine} {st : Nat} {pool : StackPool} : r ≠ main → Ended s r record →
      record.stack = some st → s.stackPool.push (s.stackSize st) st = some pool →
      Recycled s r { s with
        routine := Function.update s.routine r { record with stack := none }
        stackPool := pool
        routinePool := s.routinePool ++ [r]
        control := .leave r }

/-- The code of the routine has set `f` before `bRoutineRecycle`. -/
theorem recycle_cases (isMain : (s.routine r).isMain = true ↔ r = main)
    (stack : r = main ∨ (s.routine r).stack ≠ none) {f : Routine → Routine}
    (kept : ∀ record, (f record).context = record.context ∧ (f record).isMain = record.isMain ∧
      (f record).stack = record.stack ∧ (f record).isProgress = record.isProgress) :
    Recycled s r { (s.modify r f).recycle r with control := .leave r } := by
  obtain ⟨context, sameMain, sameStack, sameProgress⟩ := kept (s.routine r)
  have ended : Ended s r { f (s.routine r) with isDone := true } :=
    ⟨context, sameMain, sameStack, sameProgress, rfl⟩
  by_cases same : r = main
  · have done : (s.modify r f).recycle r =
        (s.modify r f).modify r fun record => { record with isDone := true } := by
      simp [State.recycle, State.modify, sameMain, isMain.mpr same]
    rw [done]
    simpa [State.modify] using Recycled.main same ended
  · have notMain : (s.routine r).isMain = false := by
      rw [Bool.eq_false_iff]
      exact fun yes => same (isMain.mp yes)
    obtain ⟨st, held⟩ := Option.ne_none_iff_exists'.mp (stack.resolve_left same)
    have held' := ended.stack.trans held
    cases pushed : s.stackPool.push (s.stackSize st) st with
    | none =>
      have full := Recycled.full same ended held' pushed
      simpa [State.recycle, State.modify, sameMain, notMain, sameStack, held, pushed] using full
    | some pool =>
      have pooled := Recycled.pooled same ended held' pushed
      simpa [State.recycle, State.modify, sameMain, notMain, sameStack, held, pushed] using pooled

/-! ### The loop -/

theorem popHead_cases (list : TaskItemsList Nat) :
    list.popHead = none ∨ ∃ task rest, list.items = task :: rest ∧
      list.popHead = some (task, ⟨rest, list.itemCount - 1⟩) := by
  rw [TaskItemsList.popHead]
  split
  · exact .inl rfl
  · split
    · exact .inl rfl
    next task rest head => exact .inr ⟨task, rest, head, rfl⟩

/-- `ProcessBegin` switches to the routine of the first task, which executes from then on. -/
theorem Sound.turn_cases (sound : Sound s place) (loop : s.control = .loop) :
    ((s.activeTasks 0).popHead = none ∧ s.turn = s) ∨
    ∃ task rest, (s.activeTasks 0).items = task :: rest ∧
      Resting s task ∧ task ≠ loopRoutine ∧ s.turn = State.enter { s with
        activeTasks := Function.update s.activeTasks 0 ⟨rest, (s.activeTasks 0).itemCount - 1⟩
        switches := s.switches ++ [task] } task := by
  obtain ⟨loops, -⟩ := sound.loops loop
  rw [State.turn]
  rcases popHead_cases (s.activeTasks 0) with empty | ⟨task, rest, head, popped⟩
  · left
    simp [empty]
  · right
    have here : task ∈ s.content .ready := by
      rw [State.content, head]
      exact List.mem_cons_self
    have inside := (sound.filed.mem _ task).mp here
    have resting := sound.resting task _ inside (by simp)
    have notLoop : task ≠ loopRoutine := (Filing.ne_of_placed sound.loop inside).symm
    have notMain : (s.routine loopRoutine).isMain = false := by
      rw [Bool.eq_false_iff, ne_eq, sound.isMain]
      decide
    refine ⟨task, rest, head, resting, notLoop, ?_⟩
    simp only [popped, Option.some_or]
    have taken : Loops { s with
        activeTasks := Function.update s.activeTasks 0 ⟨rest, (s.activeTasks 0).itemCount - 1⟩
        pendingRoutine := task
        switches := s.switches ++ [task] } := ⟨loops.occupy, loops.size, loops.index⟩
    exact taken.swapContext sound.context notMain notLoop rfl (resting.congr rfl rfl)

/-- `Del` is called for the routine that has set the flag, and for no other. -/
theorem Sound.back_cases (sound : Sound s place) {task : Nat} (back : s.control = .back task) :
    (s.isPendingNeedDelete = false ∧ s.back = { s with control := .loop }) ∨
    (s.isPendingNeedDelete = true ∧ Doomed s s.pendingRoutine ∧
      ∃ st, (s.routine s.pendingRoutine).stack = some st ∧ s.back = { s with
        freed := s.freed ++ [s.pendingRoutine]
        unmapped := s.unmapped ++ [st]
        isPendingNeedDelete := false
        flagBy := none
        control := .loop }) := by
  have control := sound.control
  simp only [AtControl, back] at control
  obtain ⟨-, doomed⟩ := control
  cases flag : s.isPendingNeedDelete with
  | false =>
    left
    simp [State.back, flag]
  | true =>
    right
    have doomed := doomed flag
    have isMain : (s.routine s.pendingRoutine).isMain = false := by
      rw [Bool.eq_false_iff, ne_eq, sound.isMain]
      exact doomed.notMain
    obtain ⟨st, held⟩ := Option.ne_none_iff_exists'.mp doomed.stack
    refine ⟨rfl, doomed, st, held, ?_⟩
    simp [State.back, flag, isMain, State.del, held]

/-! ### All steps -/

inductive Effect (s : State) : Label → State → Prop where
  | create : s.control = .create → Effect s .create s.started
  | lost {r : Nat} {level : Int} {record : Routine} : s.control = .user r →
      s.takeStack level = none → record.context = s.takeRoutine.1 →
      Effect s (.call (.new level)) (s.lost s.takeRoutine.1 record)
  | made {r : Nat} {level : Int} {st : Nat} {w : State} : s.control = .user r →
      s.takeStack level = some (st, w) →
      Effect s (.call (.new level)) (s.ready w s.takeRoutine.1 st)
  | resume {r i task : Nat} : s.control = .user r → s.regs loopRoutine = some (.loop task) →
      i ∈ s.made →
      Effect s (.call (.resume i)) (State.away ((State.pushBack { s with
        made := s.made.erase i } 0 i).pushBack 0 r) r (.user r) task)
  | yield {r task : Nat} : s.control = .user r → s.regs loopRoutine = some (.loop task) →
      Effect s (.call .yield) ((s.pushBack 0 r).away r (.user r) task)
  | wait {r task list : Nat} : s.control = .user r → s.regs loopRoutine = some (.loop task) →
      Effect s (.call (.wait list)) (State.away { s with
        lists := Function.update s.lists list (s.lists list ++ [r]) } r (.user r) task)
  | poll {r task : Nat} : s.control = .user r → s.regs loopRoutine = some (.loop task) →
      Effect s (.call .poll) (State.away { s with polls := s.polls ++ [r] } r (.user r) task)
  | noWaiter {r list : Nat} : s.control = .user r → s.lists list = [] →
      Effect s (.call (.wake list)) s
  | wake {r list w : Nat} {rest : List Nat} : s.control = .user r → s.lists list = w :: rest →
      Effect s (.call (.wake list)) (State.pushBack { s with
        lists := Function.update s.lists list rest } 0 w)
  | recycle {r : Nat} {op : Op} {t : State} : s.control = .user r →
      op = .finish ∨ op = .deleteSelf → Recycled s r t → Effect s (.call op) t
  | leave {r task : Nat} : s.control = .leave r → s.regs loopRoutine = some (.loop task) →
      Effect s .leave (s.away r (.ended r) task)
  | deal {r : Nat} : s.control = .loop → r ∈ s.polls →
      Effect s (.deal r) (State.pushBack { s with polls := s.polls.erase r } 0 r)
  | idle : s.control = .loop → (s.activeTasks 0).popHead = none → Effect s .turn s
  | turn {task : Nat} {rest : List Nat} : s.control = .loop →
      (s.activeTasks 0).items = task :: rest →
      Effect s .turn (State.enter { s with
        activeTasks := Function.update s.activeTasks 0 ⟨rest, (s.activeTasks 0).itemCount - 1⟩
        switches := s.switches ++ [task] } task)
  | back {task : Nat} : s.control = .back task → s.isPendingNeedDelete = false →
      Effect s .back { s with control := .loop }
  | delete {task st : Nat} : s.control = .back task → s.isPendingNeedDelete = true →
      Doomed s s.pendingRoutine → (s.routine s.pendingRoutine).stack = some st →
      Effect s .back { s with
        freed := s.freed ++ [s.pendingRoutine]
        unmapped := s.unmapped ++ [st]
        isPendingNeedDelete := false
        flagBy := none
        control := .loop }

theorem Sound.call_effect (sound : Sound s place) (user : s.control = .user r) {op : Op}
    (called : s.call r op = some t) : Effect s (.call op) t := by
  obtain ⟨executes, live, -, -, -⟩ := sound.executes user
  obtain rfl := executes.occupy
  -- the state in which an operation calls `SwapContext` has the code of `s`
  have away : ∀ {u : State}, SameCode s u → ∃ task, s.regs loopRoutine = some (.loop task) ∧
      u.swapContext (.user s.occupyRoutine) =
        u.away s.occupyRoutine (.user s.occupyRoutine) task := by
    intro u same
    have context : ∀ r, (u.routine r).context = r := by rw [same.routine]; exact sound.context
    rw [← same.regs]
    exact (same.executes executes).swapContext context _
  have pushed : ∀ {u : State} {i : Nat}, SameCode s u → Live s i → u.addTask i = u.pushBack 0 i :=
    fun same live => same.addTask executes.size executes.index live.isProgress
  cases op with
  | new level =>
    cases called
    rcases new_cases sound.context level with ⟨none, record, itself, lost⟩ | ⟨st, w, some, ready⟩
    · rw [lost]
      exact .lost user none itself
    · rw [ready]
      exact .made user some
  | resume i =>
    rw [State.call] at called
    split at called
    next made =>
      cases called
      have inside := (sound.filed.mem .made i).mp made
      have resting := sound.resting i _ inside (by simp)
      have erased := sameCode_made s (s.made.erase i)
      have first := erased.trans (sameCode_pushBack _ i)
      obtain ⟨task, loop, swapped⟩ := away (first.trans (sameCode_pushBack _ _))
      rw [pushed erased resting.live, pushed first live, swapped]
      exact .resume user loop made
    · cases called
  | yield =>
    cases called
    obtain ⟨task, loop, swapped⟩ := away (sameCode_pushBack s _)
    rw [addTask_eq executes.size executes.index live.isProgress, swapped]
    exact .yield user loop
  | wait list =>
    cases called
    obtain ⟨task, loop, swapped⟩ := away (sameCode_lists s _)
    rw [swapped]
    exact .wait user loop
  | wake list =>
    rw [State.call] at called
    split at called
    next none =>
      cases called
      exact .noWaiter user none
    next w rest head =>
      cases called
      have here : w ∈ s.content (.waiting list) := by
        rw [State.content, head]
        exact List.mem_cons_self
      have resting := sound.resting w _ ((sound.filed.mem _ w).mp here) (by simp)
      rw [pushed (sameCode_lists s _) resting.live]
      exact .wake user head
  | poll =>
    cases called
    obtain ⟨task, loop, swapped⟩ := away (sameCode_polls s _)
    rw [swapped]
    exact .poll user loop
  | finish =>
    rw [State.call] at called
    split at called
    · cases called
    · cases called
      exact .recycle user (.inl rfl)
        (recycle_cases (sound.isMain _) live.stack fun record => ⟨rfl, rfl, rfl, rfl⟩)
  | deleteSelf =>
    cases called
    have same : s.modify s.occupyRoutine id = s := by
      rw [State.modify, id, Function.update_eq_self]
    have recycled := recycle_cases (f := id) (sound.isMain _) live.stack
      fun record => ⟨rfl, rfl, rfl, rfl⟩
    rw [same] at recycled
    exact .recycle user (.inr rfl) recycled

theorem Sound.effect (sound : Sound s place) {label : Label} (stepped : step s label = some t) :
    Effect s label t := by
  cases label with
  | create =>
    rw [Solo.step] at stepped
    split at stepped
    next create =>
      cases stepped
      have control := sound.control
      simp only [AtControl, create] at control
      rw [swapContext_started control.1 sound.context]
      exact .create create
    · cases stepped
  | call op =>
    rw [Solo.step] at stepped
    split at stepped
    next r user => exact sound.call_effect user stepped
    · cases stepped
  | leave =>
    rw [Solo.step] at stepped
    split at stepped
    next r leave =>
      cases stepped
      have control := sound.control
      -- the end of `func` switches to the loop, whose context is there
      simp only [AtControl, leave] at control
      obtain ⟨task, loop, swapped⟩ := control.1.swapContext sound.context (.ended r)
      rw [swapped]
      exact .leave leave loop
    · cases stepped
  | deal r =>
    rw [Solo.step] at stepped
    split at stepped
    next loop =>
      cases stepped
      -- a routine that polls rests, so its task can be added
      obtain ⟨loops, -⟩ := sound.loops loop.1
      have resting := sound.resting r _ ((sound.filed.mem .polling r).mp loop.2) (by simp)
      rw [(sameCode_polls s _).addTask loops.size loops.index resting.live.isProgress]
      exact .deal loop.1 loop.2
    · cases stepped
  | turn =>
    rw [Solo.step] at stepped
    split at stepped
    next loop =>
      cases stepped
      rcases sound.turn_cases loop with ⟨empty, idle⟩ | ⟨task, rest, head, -, -, turned⟩
      · rw [idle]
        exact .idle loop empty
      · rw [turned]
        exact .turn loop head
    · cases stepped
  | back =>
    rw [Solo.step] at stepped
    split at stepped
    next task back =>
      cases stepped
      rcases sound.back_cases back with ⟨flag, after⟩ | ⟨flag, doomed, st, held, after⟩
      · rw [after]
        exact .back back flag
      · rw [after]
        exact .delete back flag doomed held
    · cases stepped

end BRoutine.Solo
