import BRoutine.Solo.Steps

/-!
# Stacks are owned once

A stack that has been mapped belongs to a routine that has not been freed, is in one of the three
lists of the pool, or has been unmapped by `Del`. `RoutineNums` counts what is in the lists.
-/

namespace BRoutine.Solo

/-! ### Where a stack is -/

inductive Home where
  | held (r : Nat)
  | pooled (list : PoolList)
  | unmapped
  deriving DecidableEq, Repr

/-- The record of a routine that has been freed holds nothing. -/
def State.stacksAt (s : State) : Home → List Nat
  | .held r => if r ∈ s.freed then [] else (s.routine r).stack.toList
  | .pooled list => s.stackPool.list list
  | .unmapped => s.unmapped

/-- The routine has been allocated and has neither finished nor been freed. -/
structure Alive (s : State) (r : Nat) : Prop where
  born : r < s.nextRoutine
  notFreed : r ∉ s.freed
  isDone : (s.routine r).isDone = false

/-- The routine has finished, and the loop will call `Del` for it when it goes on. -/
structure Condemned (s : State) (r : Nat) : Prop where
  isDone : (s.routine r).isDone = true
  flag : s.isPendingNeedDelete = true
  next : s.control = .leave r ∨ (∃ task, s.control = .back task) ∧ s.pendingRoutine = r

structure OwnedOnce (s : State) : Prop where
  place : ∀ st, st < s.nextStack → ∃ home, st ∈ s.stacksAt home ∧
    ∀ home', st ∈ s.stacksAt home' → home' = home
  once : ∀ home, (s.stacksAt home).Nodup
  holder : ∀ r, s.stacksAt (.held r) ≠ [] → Alive s r ∨ Condemned s r
  apart : ∀ r r', Alive s r → Alive s r' → r ≠ r' →
    (s.routine r).context ≠ (s.routine r').context ∧
    ∀ st, (s.routine r).stack = some st → (s.routine r').stack ≠ some st
  total : s.stackPool.routineNums = (s.stackPool.list .mini).length +
    (s.stackPool.list .medium).length + (s.stackPool.list .large).length
  bound : s.stackPool.routineNums ≤ maxKeepRoutinesThread

/-- What every step keeps. -/
structure Stacked (s : State) (home : Nat → Option Home) : Prop where
  filed : Filing.Filed s.stacksAt home
  created : ∀ st, st < s.nextStack ↔ home st ≠ none
  sizes : ∀ st, s.stackSize st ∈ stackSizes
  counted : s.stackPool.Counted
  holder : ∀ r, r ∉ s.freed → (s.routine r).stack ≠ none → r < s.nextRoutine ∧
    ((s.routine r).isDone = false ∨ s.isPendingNeedDelete = true ∧ s.flagBy = some r)
  empty : ∀ r, r ∈ s.routinePool ∨ s.nextRoutine ≤ r ∨ r = main → (s.routine r).stack = none
  freed : ∀ r, r ∈ s.freed → r < s.nextRoutine ∧ (s.routine r).isDone = true ∧ r ∉ s.routinePool
  flagged : s.isPendingNeedDelete = true → ∀ r, s.flagBy = some r → r ∉ s.freed

variable {s t : State} {place : Nat → Option Key} {home : Nat → Option Home} {r : Nat}

/-! ### Steps -/

/-- A step that leaves the stacks where they are. -/
structure SameStacks (s t : State) : Prop where
  stack : ∀ r, (t.routine r).stack = (s.routine r).stack
  isDone : ∀ r, (t.routine r).isDone = (s.routine r).isDone
  stackSize : t.stackSize = s.stackSize
  nextRoutine : t.nextRoutine = s.nextRoutine
  nextStack : t.nextStack = s.nextStack
  flag : t.isPendingNeedDelete = s.isPendingNeedDelete
  flagBy : t.flagBy = s.flagBy
  routinePool : t.routinePool = s.routinePool
  stackPool : t.stackPool = s.stackPool
  freed : t.freed = s.freed
  unmapped : t.unmapped = s.unmapped

theorem SameStacks.stacksAt (same : SameStacks s t) : t.stacksAt = s.stacksAt := by
  funext k
  cases k with
  | held r => simp [State.stacksAt, same.freed, same.stack]
  | pooled list => simp [State.stacksAt, same.stackPool]
  | unmapped => exact same.unmapped

theorem Stacked.same (stacked : Stacked s home) (same : SameStacks s t) : Stacked t home where
  filed := by rw [same.stacksAt]; exact stacked.filed
  created := by rw [same.nextStack]; exact stacked.created
  sizes := by rw [same.stackSize]; exact stacked.sizes
  counted := by rw [same.stackPool]; exact stacked.counted
  holder r notFreed held := by
    rw [same.freed] at notFreed
    rw [same.stack] at held
    rw [same.nextRoutine, same.isDone, same.flag, same.flagBy]
    exact stacked.holder r notFreed held
  empty r idle := by
    rw [same.routinePool, same.nextRoutine] at idle
    rw [same.stack]
    exact stacked.empty r idle
  freed r gone := by
    rw [same.freed] at gone
    rw [same.nextRoutine, same.isDone, same.routinePool]
    exact stacked.freed r gone
  flagged := by rw [same.flag, same.flagBy, same.freed]; exact stacked.flagged

theorem initial_stacked :
    Stacked initial (Function.update (fun _ => none) 0 (some (.held loopRoutine))) := by
  have stack : ∀ r, r ≠ loopRoutine → (initial.routine r).stack = none := by
    intro r other
    simp only [initial, other, if_false]
    split <;> rfl
  constructor
  · have none := Filing.Filed.empty (K := Home) (I := Nat)
    -- the one stack is the one of the loop
    have put := none.put (k := .held loopRoutine) (i := 0) rfl
    convert put using 1
    funext k
    cases k with
    | held r =>
      by_cases self : r = loopRoutine
      · subst self
        simp [State.stacksAt, initial, main, loopRoutine]
      · simp [State.stacksAt, stack r self, self]
    | pooled list => rfl
    | unmapped => rfl
  · intro st
    cases st <;> simp [initial]
  · exact fun _ => (by decide : largeStackSize * 1024 ∈ stackSizes)
  · constructor <;> decide
  · intro r _ held
    have self : r = loopRoutine := by
      by_contra other
      exact held (stack r other)
    subst self
    exact ⟨by decide, .inl rfl⟩
  · intro r idle
    apply stack
    rintro rfl
    simp [initial, loopRoutine, main] at idle
  · intro r gone
    cases gone
  · intro flag
    cases flag

/-! ### New -/

/-- The routine that `New` takes has no stack, is not freed, and leaves the pool. -/
structure Taken (s : State) (i : Nat) : Prop where
  notFreed : i ∉ s.freed
  stack : (s.routine i).stack = none
  notMain : i ≠ main
  born : i < s.takeRoutine.2.nextRoutine
  nextRoutine : s.nextRoutine ≤ s.takeRoutine.2.nextRoutine
  pool : ∀ r, r ∈ s.takeRoutine.2.routinePool → r ∈ s.routinePool ∧ r ≠ i

theorem Stacked.taken (stacked : Stacked s home) (sound : Sound s place) :
    Taken s s.takeRoutine.1 := by
  obtain ⟨spare, same, born, filed⟩ := sound.takeRoutine
  -- a filed routine is in the pool once, so the rest of the pool is without it
  have gone : s.takeRoutine.1 ∉ s.takeRoutine.2.routinePool := by
    have absent := filed.not_mem (Function.update_self ..) .pooled
    rwa [Function.update_self] at absent
  have idle : s.takeRoutine.1 ∈ s.routinePool ∨ s.nextRoutine ≤ s.takeRoutine.1 := by
    rcases spare.place with pooled | ⟨-, beyond⟩
    · exact .inl ((sound.filed.mem .pooled _).mpr pooled)
    · exact .inr beyond
  refine ⟨?_, ?_, spare.notMain, born, same.nextRoutine, ?_⟩
  · intro freed
    obtain ⟨born', -, notPooled⟩ := stacked.freed _ freed
    rcases idle with pooled | beyond
    · exact notPooled pooled
    · omega
  · rcases idle with pooled | beyond
    · exact stacked.empty _ (.inl pooled)
    · exact stacked.empty _ (.inr (.inl beyond))
  · intro r pooled
    refine ⟨?_, fun self => gone (self ▸ pooled)⟩
    rcases takeRoutine_cases s with ⟨i, rest, head, taken⟩ | taken
    · rw [head]
      rw [taken] at pooled
      exact List.mem_cons_of_mem i pooled
    · rw [taken] at pooled
      exact pooled

/-- What is left to show after `New`: only the record of the routine it took has changed. -/
theorem Stacked.new {home' : Nat → Option Home} {i : Nat} (stacked : Stacked s home)
    (taken : Taken s i) (others : ∀ r, r ≠ i → t.routine r = s.routine r)
    (isDone : (t.routine i).isDone = false)
    (nextRoutine : t.nextRoutine = s.takeRoutine.2.nextRoutine)
    (routinePool : t.routinePool = s.takeRoutine.2.routinePool) (freed : t.freed = s.freed)
    (flag : t.isPendingNeedDelete = s.isPendingNeedDelete) (flagBy : t.flagBy = s.flagBy)
    (filed : Filing.Filed t.stacksAt home') (created : ∀ st, st < t.nextStack ↔ home' st ≠ none)
    (sizes : ∀ st, t.stackSize st ∈ stackSizes) (counted : t.stackPool.Counted) :
    Stacked t home' where
  filed := filed
  created := created
  sizes := sizes
  counted := counted
  holder r notFreed held := by
    rw [nextRoutine, flag, flagBy]
    by_cases self : r = i
    · subst self
      exact ⟨taken.born, .inl isDone⟩
    · rw [freed] at notFreed
      rw [others r self] at held ⊢
      obtain ⟨born, holds⟩ := stacked.holder r notFreed held
      exact ⟨Nat.lt_of_lt_of_le born taken.nextRoutine, holds⟩
  empty r idle := by
    rw [routinePool, nextRoutine] at idle
    have born := taken.born
    have more := taken.nextRoutine
    -- none of the routines with no stack is the one that gets one
    have self : r ≠ i := by
      rcases idle with pooled | beyond | isMain
      · exact (taken.pool r pooled).2
      · omega
      · exact isMain ▸ Ne.symm taken.notMain
    rw [others r self]
    apply stacked.empty r
    rcases idle with pooled | beyond | isMain
    · exact .inl (taken.pool r pooled).1
    · exact .inr (.inl (by omega))
    · exact .inr (.inr isMain)
  freed r gone := by
    rw [freed] at gone
    have self : r ≠ i := fun self => taken.notFreed (self ▸ gone)
    obtain ⟨born, done, notPooled⟩ := stacked.freed r gone
    rw [nextRoutine, others r self, routinePool]
    exact ⟨Nat.lt_of_lt_of_le born taken.nextRoutine, done,
      fun pooled => notPooled (taken.pool r pooled).1⟩
  flagged := by rw [flag, flagBy, freed]; exact stacked.flagged

theorem Stacked.lost (stacked : Stacked s home) (taken : Taken s s.takeRoutine.1)
    (record : Routine) : Stacked (s.lost s.takeRoutine.1 record) home := by
  have same : (s.lost s.takeRoutine.1 record).stacksAt = s.stacksAt := by
    funext k
    cases k with
    | held r =>
      by_cases self : r = s.takeRoutine.1
      · simp [State.stacksAt, State.lost, self, Routine.reset, taken.stack]
      · simp [State.stacksAt, State.lost, self]
    | pooled list => rfl
    | unmapped => rfl
  refine stacked.new (t := s.lost _ record) taken ?_ ?_ rfl rfl rfl rfl rfl ?_ stacked.created
    stacked.sizes stacked.counted
  · intro r other
    exact Function.update_of_ne other ..
  · simp [State.lost, Routine.reset]
  · rw [same]
    exact stacked.filed

/-- The stack comes out of a list of the pool, or is mapped. -/
theorem takeStack_cases {level : Int} {st : Nat} {w : State}
    (taken : s.takeStack level = some (st, w)) :
    (s.stackPool.pop level = some (st, w.stackPool) ∧ w.stackSize = s.stackSize ∧
      w.nextStack = s.nextStack) ∨
    (st = s.nextStack ∧ w.stackPool = s.stackPool ∧ w.nextStack = s.nextStack + 1 ∧
      ∃ size ∈ stackSizes, w.stackSize = Function.update s.stackSize st size) := by
  rw [State.takeStack] at taken
  split at taken
  next st' pool popped =>
    cases taken
    exact .inl ⟨popped, rfl, rfl⟩
  · obtain ⟨size, some, same⟩ := Option.map_eq_some_iff.mp taken
    cases same
    exact .inr ⟨rfl, rfl, rfl, size, stackSizeOf_mem some, rfl⟩

/-- A stack with no home is given to the routine that `New` has taken. -/
theorem Stacked.ready {content : Home → List Nat} {home' : Nat → Option Home} {st : Nat}
    {w : State} (taken : Taken s s.takeRoutine.1) (filed : Filing.Filed content home')
    (outside : home' st = none) (held : ∀ r, content (.held r) = s.stacksAt (.held r))
    (pooled : ∀ list, content (.pooled list) = w.stackPool.list list)
    (unmapped : content .unmapped = s.unmapped) :
    Filing.Filed (s.ready w s.takeRoutine.1 st).stacksAt
      (Function.update home' st (some (.held s.takeRoutine.1))) := by
  have empty : content (.held s.takeRoutine.1) = [] := by
    rw [held]
    simp [State.stacksAt, taken.stack]
  have put := filed.put (k := Home.held s.takeRoutine.1) outside
  rw [empty] at put
  convert put using 1
  funext k
  cases k with
  | held r =>
    by_cases self : r = s.takeRoutine.1
    · subst self
      simp [State.stacksAt, State.ready, taken.notFreed]
    · simp [State.stacksAt, State.ready, self, held]
  | pooled list => simp [State.stacksAt, State.ready, pooled]
  | unmapped => simp [State.stacksAt, State.ready, unmapped]

theorem Stacked.made (stacked : Stacked s home) (taken : Taken s s.takeRoutine.1) {level : Int}
    {st : Nat} {w : State} (stack : s.takeStack level = some (st, w)) :
    ∃ home', Stacked (s.ready w s.takeRoutine.1 st) home' := by
  have others : ∀ r, r ≠ s.takeRoutine.1 →
      (s.ready w s.takeRoutine.1 st).routine r = s.routine r := fun r other =>
    Function.update_of_ne other ..
  have isDone : ((s.ready w s.takeRoutine.1 st).routine s.takeRoutine.1).isDone = false := by
    simp [State.ready, Routine.calloc]
  rcases takeStack_cases stack with ⟨popped, size, next⟩ | ⟨fresh, pool, next, size, legal, mapped⟩
  · obtain ⟨l, rest, head, after⟩ := StackPool.pop_cases popped
    have lists : w.stackPool.list = Function.update s.stackPool.list l rest := by rw [after]
    -- the stack leaves the list that gave it
    have out := stacked.filed.takeHead (k := Home.pooled l) head
    have inside : home st = some (.pooled l) := by
      rw [← stacked.filed.mem, State.stacksAt, head]
      exact List.mem_cons_self
    refine ⟨_, stacked.new taken others isDone rfl rfl rfl rfl rfl
      (Stacked.ready taken out (Function.update_self ..) ?_ ?_ ?_) ?_ ?_
      (stacked.counted.pop popped)⟩
    · intro r
      simp
    · intro list
      rw [lists]
      by_cases self : list = l
      · subst self; simp
      · simp [self, State.stacksAt]
    · simp [State.stacksAt]
    · intro st'
      simp only [State.ready, next]
      by_cases self : st' = st
      · subst self
        simp [stacked.created, inside]
      · simp [self, stacked.created]
    · simp only [State.ready, size]
      exact stacked.sizes
  · -- a mapped stack is new, so it has had no home
    have outside : home st = none := by
      by_contra inside
      have old := (stacked.created st).mpr inside
      omega
    refine ⟨_, stacked.new taken others isDone rfl rfl rfl rfl rfl
      (Stacked.ready taken stacked.filed outside (fun _ => rfl) ?_ rfl) ?_ ?_ ?_⟩
    · intro list
      rw [pool]
      rfl
    · intro st'
      simp only [State.ready, next]
      by_cases self : st' = st
      · subst self
        simp [fresh]
      · have created := stacked.created st'
        simp only [Function.update_of_ne self, ← created]
        omega
    · intro st'
      simp only [State.ready, mapped]
      by_cases self : st' = st
      · subst self; simpa using legal
      · simpa [self] using stacked.sizes st'
    · simp only [State.ready, pool]
      exact stacked.counted

/-! ### Recycling and deleting -/

/-- What is left to show after the end of a routine: only its own record has changed. -/
theorem Stacked.ends {home' : Nat → Option Home} (stacked : Stacked s home)
    (notFreed : r ∉ s.freed) (notPooled : r ∉ s.routinePool) (born : r < s.nextRoutine)
    (unset : s.isPendingNeedDelete = false) (others : ∀ j, j ≠ r → t.routine j = s.routine j)
    (isDone : (t.routine r).isDone = true) (nextRoutine : t.nextRoutine = s.nextRoutine)
    (freed : t.freed = s.freed)
    (pooled : ∀ j, j ∈ t.routinePool → j ∈ s.routinePool ∨ j = r ∧ (t.routine r).stack = none)
    (isMain : r = main → (t.routine r).stack = none)
    (holds : (t.routine r).stack ≠ none → t.isPendingNeedDelete = true ∧ t.flagBy = some r)
    (flagBy : t.isPendingNeedDelete = true → t.flagBy = some r)
    (filed : Filing.Filed t.stacksAt home') (created : ∀ st, st < t.nextStack ↔ home' st ≠ none)
    (sizes : t.stackSize = s.stackSize) (counted : t.stackPool.Counted) : Stacked t home' where
  filed := filed
  created := created
  sizes := by rw [sizes]; exact stacked.sizes
  counted := counted
  holder j notFreed' held := by
    rw [nextRoutine]
    by_cases self : j = r
    · subst self
      exact ⟨born, .inr (holds held)⟩
    · rw [freed] at notFreed'
      rw [others j self] at held ⊢
      obtain ⟨born', alive | ⟨set, -⟩⟩ := stacked.holder j notFreed' held
      · exact ⟨born', .inl alive⟩
      · rw [unset] at set
        cases set
  empty j idle := by
    rw [nextRoutine] at idle
    by_cases self : j = r
    · subst self
      rcases idle with inside | beyond | same
      · exact ((pooled j inside).resolve_left notPooled).2
      · omega
      · exact isMain same
    · rw [others j self]
      apply stacked.empty j
      rcases idle with inside | beyond | same
      · exact .inl ((pooled j inside).resolve_right fun same => self same.1)
      · exact .inr (.inl beyond)
      · exact .inr (.inr same)
  freed j gone := by
    rw [freed] at gone
    -- the routine that ends has not been freed yet
    have self : j ≠ r := fun self => notFreed (self ▸ gone)
    obtain ⟨born', done, out⟩ := stacked.freed j gone
    rw [nextRoutine, others j self]
    refine ⟨born', done, fun inside => ?_⟩
    rcases pooled j inside with inside | ⟨same, -⟩
    · exact out inside
    · exact self same
  flagged set j by' := by
    rw [flagBy set] at by'
    cases by'
    rw [freed]
    exact notFreed

theorem Stacked.recycled (stacked : Stacked s home) (sound : Sound s place)
    (user : s.control = .user r) (recycled : Recycled s r t) : ∃ home', Stacked t home' := by
  obtain ⟨executes, live, -, out, unset⟩ := sound.executes user
  have notFreed : r ∉ s.freed := by
    intro freed
    have done := (stacked.freed r freed).2.1
    rw [live.isDone] at done
    cases done
  have notPooled : r ∉ s.routinePool := sound.filed.not_mem out .pooled
  have ends := fun t home' => @Stacked.ends s t home r home' stacked notFreed notPooled
    executes.born unset
  -- a routine that keeps its stack keeps it where it was
  have keeps : ∀ {record : Routine} {j : Nat}, Ended s r record →
      (Function.update s.routine r record j).stack = (s.routine j).stack := by
    intro record j ended
    by_cases self : j = r
    · subst self; simp [ended.stack]
    · simp [self]
  cases recycled with
  | @main record same ended =>
    have none : record.stack = none := by
      rw [ended.stack]
      exact stacked.empty r (.inr (.inr same))
    refine ⟨home, ends _ _ (fun j other => Function.update_of_ne other ..) (by simp [ended.isDone])
      rfl rfl (fun j inside => .inl inside) (by simp [none]) (by simp [none]) (by simp [unset]) ?_
      stacked.created rfl stacked.counted⟩
    convert stacked.filed using 1
    funext k
    cases k with
    | held j => simp [State.stacksAt, keeps ended]
    | pooled list => rfl
    | unmapped => rfl
  | @full record st notMain ended held _ =>
    refine ⟨home, ends _ _ (fun j other => Function.update_of_ne other ..) (by simp [ended.isDone])
      rfl rfl (fun j inside => .inl inside) (fun same => absurd same notMain) (fun _ => ⟨rfl, rfl⟩)
      (fun _ => rfl) ?_ stacked.created rfl stacked.counted⟩
    convert stacked.filed using 1
    funext k
    cases k with
    | held j => simp [State.stacksAt, keeps ended]
    | pooled list => rfl
    | unmapped => rfl
  | @pooled record st pool notMain ended held pushed =>
    obtain ⟨-, l, after⟩ := StackPool.push_cases (stacked.sizes st) pushed
    have lists : pool.list = Function.update s.stackPool.list l (s.stackPool.list l ++ [st]) := by
      rw [after]
    have here : s.stacksAt (.held r) = [st] := by
      rw [ended.stack] at held
      simp [State.stacksAt, notFreed, held]
    have inside : home st = some (.held r) := by
      rw [← stacked.filed.mem, here]
      exact List.mem_singleton_self st
    have moved := (stacked.filed.takeHead here).put (k := .pooled l) (Function.update_self ..)
    refine ⟨Function.update (Function.update home st none) st (some (.pooled l)),
      ends _ _ (fun j other => Function.update_of_ne other ..) (by simp [ended.isDone])
      rfl rfl ?_ (fun same => absurd same notMain) (by simp) (by simp [unset]) ?_ ?_ rfl
      (stacked.counted.push (stacked.sizes st) pushed)⟩
    · intro j member
      simpa using member
    · convert moved using 1
      funext k
      cases k with
      | held j =>
        by_cases self : j = r
        · subst self; simp [State.stacksAt]
        · simp [State.stacksAt, self]
      | pooled list =>
        by_cases self : list = l
        · subst self; simp [State.stacksAt, lists]
        · simp [State.stacksAt, lists, self]
      | unmapped => simp [State.stacksAt]
    · intro st'
      by_cases self : st' = st
      · subst self
        simp [stacked.created, inside]
      · simp [self, stacked.created]

/-- `Del` unmaps the stack of the routine that has set the flag. -/
theorem Stacked.delete (stacked : Stacked s home) {p st : Nat} (flag : s.isPendingNeedDelete = true)
    (doomed : Doomed s p) (held : (s.routine p).stack = some st) :
    ∃ home', Stacked { s with
      freed := s.freed ++ [p]
      unmapped := s.unmapped ++ [st]
      isPendingNeedDelete := false
      flagBy := none
      control := .loop } home' := by
  have notFreed := stacked.flagged flag p doomed.flagBy
  have born := (stacked.holder p notFreed (by simp [held])).1
  have here : s.stacksAt (.held p) = [st] := by simp [State.stacksAt, notFreed, held]
  have inside : home st = some (.held p) := by
    rw [← stacked.filed.mem, here]
    exact List.mem_singleton_self st
  -- the stack moves from the routine to those that are unmapped
  have moved := (stacked.filed.takeHead here).put (k := .unmapped) (Function.update_self ..)
  refine ⟨Function.update (Function.update home st none) st (some .unmapped), ?_, ?_,
    stacked.sizes, stacked.counted, ?_, stacked.empty, ?_, fun set => by cases set⟩
  · convert moved using 1
    funext k
    cases k with
    | held j =>
      by_cases self : j = p
      · subst self; simp [State.stacksAt]
      · simp [State.stacksAt, self]
    | pooled list => simp [State.stacksAt]
    | unmapped => simp [State.stacksAt]
  · intro st'
    by_cases self : st' = st
    · subst self
      simp [stacked.created, inside]
    · simp [self, stacked.created]
  · intro r notFreed' held'
    simp only [List.mem_append, List.mem_singleton, not_or] at notFreed'
    obtain ⟨born', alive | ⟨-, flagBy⟩⟩ := stacked.holder r notFreed'.1 held'
    · exact ⟨born', .inl alive⟩
    · -- only the routine that is deleted had the flag set for it
      rw [doomed.flagBy] at flagBy
      cases flagBy
      exact absurd rfl notFreed'.2
  · intro r gone
    simp only [List.mem_append, List.mem_singleton] at gone
    rcases gone with gone | rfl
    · exact stacked.freed r gone
    · refine ⟨born, doomed.isDone, fun pooled => ?_⟩
      rw [stacked.empty r (.inl pooled)] at held
      cases held

/-! ### Runs -/

theorem sameStacks_enter (s : State) (r : Nat) : SameStacks s (s.enter r) := by
  have same : ∀ j, ((s.enter r).routine j).stack = (s.routine j).stack ∧
      ((s.enter r).routine j).isDone = (s.routine j).isDone := by
    intro j
    by_cases self : j = r
    · subst self; simp [State.enter, State.modify]
    · simp [State.enter, State.modify, self]
  exact ⟨fun j => (same j).1, fun j => (same j).2, rfl, rfl, rfl, rfl, rfl, rfl, rfl, rfl, rfl⟩

theorem sameStacks_started (s : State) : SameStacks s s.started := by
  have same : ∀ j, (s.started.routine j).stack = (s.routine j).stack ∧
      (s.started.routine j).isDone = (s.routine j).isDone := by
    intro j
    by_cases isLoop : j = loopRoutine
    · subst isLoop; simp [State.started]
    · by_cases isMain : j = main
      · subst isMain; simp [State.started, isLoop]
      · simp [State.started, isLoop, isMain]
  exact ⟨fun j => (same j).1, fun j => (same j).2, rfl, rfl, rfl, rfl, rfl, rfl, rfl, rfl, rfl⟩

theorem Stacked.after (stacked : Stacked s home) (sound : Sound s place) {label : Label}
    (effect : Effect s label t) : ∃ home', Stacked t home' := by
  cases effect with
  | create _ => exact ⟨home, stacked.same (sameStacks_started s)⟩
  | lost _ _ _ => exact ⟨home, stacked.lost (stacked.taken sound) _⟩
  | made _ stack => exact stacked.made (stacked.taken sound) stack
  | recycle user _ recycled => exact stacked.recycled sound user recycled
  | turn _ _ =>
    refine ⟨home, Stacked.same ?_ (sameStacks_enter _ _)⟩
    exact stacked.same (by constructor <;> intros <;> rfl)
  | delete _ flag doomed held => exact stacked.delete flag doomed held
  | _ => exact ⟨home, stacked.same (by constructor <;> intros <;> rfl)⟩

/-- What has been proved of every step, in the words of `OwnedOnce`. -/
theorem Stacked.owned (stacked : Stacked s home) (sound : Sound s place) : OwnedOnce s where
  place st created := by
    obtain ⟨k, here⟩ := Option.ne_none_iff_exists'.mp ((stacked.created st).mp created)
    have member := (stacked.filed.mem k st).mpr here
    exact ⟨k, member, fun k' there => stacked.filed.unique there member⟩
  once := stacked.filed.nodup
  holder r held := by
    have notFreed : r ∉ s.freed := by
      intro gone
      simp [State.stacksAt, gone] at held
    have stack : (s.routine r).stack ≠ none := by
      intro none
      simp [State.stacksAt, none] at held
    obtain ⟨born, alive | ⟨flag, flagBy⟩⟩ := stacked.holder r notFreed stack
    · exact .inl ⟨born, notFreed, alive⟩
    · right
      have control := sound.control
      unfold AtControl at control
      -- the flag is set only between the end of a routine and its deletion
      split at control
      · rw [control.2.2] at flag
        cases flag
      · rw [control.2.2.2.2] at flag
        cases flag
      next r' leave =>
        have doomed := control.2.2.2 flag
        have same := doomed.flagBy.symm.trans flagBy
        cases same
        exact ⟨doomed.isDone, flag, .inl leave⟩
      · exact control.elim
      · rw [control.2] at flag
        cases flag
      next task back =>
        have doomed := control.2 flag
        have same := doomed.flagBy.symm.trans flagBy
        cases same
        exact ⟨doomed.isDone, flag, .inr ⟨⟨task, back⟩, rfl⟩⟩
  apart r r' alive alive' other := by
    refine ⟨by rw [sound.context, sound.context]; exact other, fun st held held' => other ?_⟩
    have here : st ∈ s.stacksAt (.held r) := by simp [State.stacksAt, alive.notFreed, held]
    have there : st ∈ s.stacksAt (.held r') := by simp [State.stacksAt, alive'.notFreed, held']
    have same := stacked.filed.unique here there
    cases same
    rfl
  total := stacked.counted.total
  bound := stacked.counted.bound

/-- In every run of one scheduler, whatever the routines call. -/
theorem stacks_owned (reached : machine.Reachable s) : OwnedOnce s := by
  obtain ⟨⟨place, sound⟩, home, stacked⟩ : (∃ place, Sound s place) ∧ ∃ home, Stacked s home := by
    -- the homes of the stacks are kept along with the files of the routines
    apply reached.invariant fun s => (∃ place, Sound s place) ∧ ∃ home, Stacked s home
    · rintro s rfl
      exact ⟨⟨_, initial_sound⟩, _, initial_stacked⟩
    · rintro s label t ⟨⟨place, sound⟩, home, stacked⟩ - stepped
      have effect := sound.effect stepped
      exact ⟨sound.after effect, stacked.after sound effect⟩
  exact stacked.owned sound

/-- A routine has finished on a small stack, and the next takes the stack over. -/
theorem stacks_owned_again : ∃ s, machine.exec initial
    [.create, .turn, .call (.new 1), .call (.resume 2), .back, .turn, .call .finish, .leave, .back,
      .turn, .call (.new 1)] = some s ∧
    (s.routine 2).stack = some 1 ∧ s.nextStack = 2 ∧ OwnedOnce s := by
  have ran : machine.exec initial
    [.create, .turn, .call (.new 1), .call (.resume 2), .back, .turn, .call .finish, .leave, .back,
      .turn, .call (.new 1)] = some _ := rfl
  exact ⟨_, ran, rfl, rfl, stacks_owned (Transition.Machine.exec_reachable (.start rfl) ran)⟩

end BRoutine.Solo
