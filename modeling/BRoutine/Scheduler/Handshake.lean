import BRoutine.Scheduler.Distribute

/-!
# The mutexes that AddTask takes

`AddTask` names the scheduler by `i` once more for each of `pthread_mutex_trylock`,
`pthread_cond_signal` and `pthread_mutex_unlock`. If another call has moved `i` in between, it
unlocks the mutex of another scheduler and leaves the one that it took locked. `wakes_iff` says
that nothing else goes wrong with these mutexes.
-/

namespace BRoutine.Distribute

open Custody

variable {T S I : Type} {s s' : State T S I} {t : T} {q : S}

/-- The mutex of a scheduler is held by the call that has taken it, until that call unlocks it, or
by its own loop around the wait. -/
structure Disciplined (s : State T S I) : Prop where
  called : ∀ q t, s.mutex q = some (.caller t) ↔ (s.pc t).holds = some q
  own : ∀ q, s.mutex q = some .loop ↔ (s.loop q).holds = true
  back : ∀ t mine q, s.pc t = .unlock mine q → q = mine

/-- When a call reads `i` for its unlock, `i` names the scheduler whose mutex it has. -/
def Steady (s : State T S I) : Label T S I → Prop
  | .caller t => ∀ mine, s.pc t = .unlockLoad mine → s.schedulers s.index = some mine
  | .add _ _ | .begin _ | .rest _ | .run _ => True

/-- A step that takes and frees no mutex. -/
theorem Disciplined.still (disciplined : Disciplined s) (mutex : s'.mutex = s.mutex)
    (calls : ∀ t, (s'.pc t).holds = (s.pc t).holds)
    (loops : ∀ q, (s'.loop q).holds = (s.loop q).holds)
    (back : ∀ t mine q, s'.pc t = .unlock mine q → q = mine) : Disciplined s' := by
  refine ⟨fun q t => ?_, fun q => ?_, back⟩
  · rw [mutex, calls]
    exact disciplined.called q t
  · rw [mutex, loops]
    exact disciplined.own q

variable [DecidableEq T]

theorem Disciplined.goes (disciplined : Disciplined s) {pc : AddPc S I} {index : Nat}
    {pushed : S → List I} {loop : S → LoopPc} (same : pc.holds = (s.pc t).holds)
    (loops : ∀ q, (loop q).holds = (s.loop q).holds)
    (back : ∀ mine q, pc = .unlock mine q → q = mine) :
    Disciplined { s.goto t pc with index := index, pushed := pushed, loop := loop } := by
  refine disciplined.still rfl (update_same same) loops fun u mine q at_pc => ?_
  by_cases moved : u = t
  · subst moved
    exact back mine q (by simpa [State.goto] using at_pc)
  · exact disciplined.back u mine q (by simpa [State.goto, moved] using at_pc)

variable [DecidableEq S]

omit [DecidableEq T] in
theorem Disciplined.enters (disciplined : Disciplined s) {pc : LoopPc}
    {schedulers activeTasks : Nat → Option S} {size : Nat} {registering : Option S}
    {running : S → Bool} (same : pc.holds = (s.loop q).holds) :
    Disciplined { s.enter q pc with
      schedulers := schedulers, activeTasks := activeTasks, size := size,
      registering := registering, running := running } :=
  disciplined.still rfl (fun _ => rfl) (update_same same) disciplined.back

/-- A call takes the mutex of `q`. -/
theorem Disciplined.takes (disciplined : Disciplined s) (free : s.mutex q = none)
    (before : (s.pc t).holds = none) :
    Disciplined { s.goto t (.signalLoad q) with
      mutex := Function.update s.mutex q (some (.caller t)) } := by
  refine ⟨fun p u => ?_, fun p => ?_, fun u mine p at_pc => ?_⟩
  · show Function.update s.mutex q (some (.caller t)) p = _ ↔
      (Function.update s.pc t (.signalLoad q) u).holds = _
    by_cases same : p = q
    · subst same
      by_cases moved : u = t
      · subst moved
        simp [AddPc.holds]
      · have out : (s.pc u).holds ≠ some p := fun held => by
          rw [(disciplined.called p u).mpr held] at free
          cases free
        simpa [moved, Ne.symm moved] using out
    · rw [Function.update_of_ne same]
      by_cases moved : u = t
      · subst moved
        have out : s.mutex p ≠ some (.caller u) := fun held => by
          rw [(disciplined.called p u).mp held] at before
          cases before
        simpa [AddPc.holds, Ne.symm same] using out
      · rw [Function.update_of_ne moved]
        exact disciplined.called p u
  · show Function.update s.mutex q (some (.caller t)) p = _ ↔ (s.loop p).holds = true
    by_cases same : p = q
    · subst same
      have out : (s.loop p).holds ≠ true := fun held => by
        rw [(disciplined.own p).mpr held] at free
        cases free
      simpa using out
    · rw [Function.update_of_ne same]
      exact disciplined.own p
  · by_cases moved : u = t
    · subst moved
      simp [State.goto] at at_pc
    · exact disciplined.back u mine p (by simpa [State.goto, moved] using at_pc)

/-- A call frees the mutex that it has. -/
theorem Disciplined.frees (disciplined : Disciplined s) (held : (s.pc t).holds = some q) :
    Disciplined { s.goto t .next with mutex := Function.update s.mutex q none } := by
  have mine := (disciplined.called q t).mpr held
  refine ⟨fun p u => ?_, fun p => ?_, fun u mine p at_pc => ?_⟩
  · show Function.update s.mutex q none p = _ ↔ (Function.update s.pc t .next u).holds = _
    by_cases same : p = q
    · subst same
      by_cases moved : u = t
      · subst moved
        simp [AddPc.holds]
      · have out : (s.pc u).holds ≠ some p := fun yours => by
          rw [(disciplined.called p u).mpr yours] at mine
          cases mine
          exact moved rfl
        simpa [moved] using out
    · rw [Function.update_of_ne same]
      by_cases moved : u = t
      · subst moved
        have out : s.mutex p ≠ some (.caller u) := fun yours => by
          rw [(disciplined.called p u).mp yours] at held
          exact same (Option.some.inj held)
        simpa [AddPc.holds] using out
      · rw [Function.update_of_ne moved]
        exact disciplined.called p u
  · show Function.update s.mutex q none p = _ ↔ (s.loop p).holds = true
    by_cases same : p = q
    · subst same
      have out : (s.loop p).holds ≠ true := fun yours => by
        rw [(disciplined.own p).mpr yours] at mine
        cases mine
      simpa using out
    · rw [Function.update_of_ne same]
      exact disciplined.own p
  · by_cases moved : u = t
    · subst moved
      simp [State.goto] at at_pc
    · exact disciplined.back u mine p (by simpa [State.goto, moved] using at_pc)

omit [DecidableEq T] in
/-- A scheduler takes or frees its own mutex. -/
theorem Disciplined.turns (disciplined : Disciplined s) {pc : LoopPc} {running : S → Bool}
    {mutex : Option (Holder T)} (before : ∀ t, s.mutex q ≠ some (.caller t))
    (after : (mutex = none ∧ pc.holds = false) ∨ (mutex = some .loop ∧ pc.holds = true)) :
    Disciplined { s.enter q pc with
      running := running, mutex := Function.update s.mutex q mutex } := by
  have mine (t : T) : mutex ≠ some (.caller t) := by
    rcases after with ⟨rfl, -⟩ | ⟨rfl, -⟩ <;> simp
  refine ⟨fun p t => ?_, fun p => ?_, disciplined.back⟩
  · show Function.update s.mutex q mutex p = _ ↔ (s.pc t).holds = some p
    by_cases same : p = q
    · subst same
      rw [Function.update_self, ← disciplined.called p t]
      exact iff_of_false (mine t) (before t)
    · rw [Function.update_of_ne same]
      exact disciplined.called p t
  · show Function.update s.mutex q mutex p = _ ↔ (Function.update s.loop q pc p).holds = true
    by_cases same : p = q
    · subst same
      rw [Function.update_self, Function.update_self]
      rcases after with ⟨rfl, idle⟩ | ⟨rfl, held⟩
      · simp [idle]
      · simp [held]
    · rw [Function.update_of_ne same, Function.update_of_ne same]
      exact disciplined.own p

/-! ### One step -/

omit [DecidableEq S] in
theorem Disciplined.scheduler (disciplined : Disciplined s) (registered : Registered s)
    (rest : S → AddPc S I) (same : ∀ q, (rest q).holds = (s.pc t).holds)
    (back : ∀ p mine q, s.schedulers s.index = some p → rest p = .unlock mine q → q = mine) :
    Disciplined (s.scheduler t rest) := by
  obtain ⟨p, slot, -⟩ := registered.slot
  rw [State.scheduler, slot]
  exact disciplined.goes (same p) (fun _ => rfl) fun mine q => back p mine q slot

theorem Disciplined.callerStep (disciplined : Disciplined s) (registered : Registered s)
    (steady : Steady s (.caller t : Label T S I)) (stepped : callerStep s t = some s') :
    Disciplined s' := by
  unfold Distribute.callerStep at stepped
  cases at_pc : s.pc t with
  | idle => simp [at_pc] at stepped
  | list task =>
    obtain ⟨q, -, list, -⟩ := registered.slot
    simp only [at_pc, list] at stepped
    cases stepped
    exact disciplined.goes (by rw [at_pc]; rfl) (fun _ => rfl) (by simp)
  | push task q =>
    simp only [at_pc] at stepped
    cases stepped
    exact disciplined.goes (by rw [at_pc]; rfl) (fun _ => rfl) (by simp)
  | test | tryLoad | signalLoad mine =>
    simp only [at_pc] at stepped
    cases stepped
    exact disciplined.scheduler registered _ (fun q => by rw [at_pc]; rfl) (by simp)
  | flag q =>
    simp only [at_pc] at stepped
    cases stepped
    refine disciplined.goes ?_ (fun _ => rfl) (by split <;> simp)
    rw [at_pc]
    split <;> rfl
  | tryLock q =>
    simp only [at_pc] at stepped
    split at stepped
    next free =>
      cases stepped
      exact disciplined.takes free (by rw [at_pc]; rfl)
    next =>
      cases stepped
      exact disciplined.goes (by rw [at_pc]; rfl) (fun _ => rfl) (by simp)
  | signal mine q =>
    simp only [at_pc] at stepped
    cases stepped
    refine disciplined.goes (by rw [at_pc]; rfl) (fun p => ?_) (by simp)
    exact update_same (f := LoopPc.holds) (LoopPc.signalled_holds _) p
  | unlockLoad mine =>
    simp only [at_pc] at stepped
    cases stepped
    refine disciplined.scheduler registered _ (fun q => by rw [at_pc]; rfl) ?_
    intro p mine' q slot unlocks
    cases unlocks
    rw [steady mine at_pc] at slot
    exact (Option.some.inj slot).symm
  | unlock mine q =>
    simp only [at_pc] at stepped
    cases stepped
    obtain rfl : q = mine := disciplined.back t mine q at_pc
    exact disciplined.frees (by rw [at_pc]; rfl)
  | next =>
    have some_size : ¬ s.size = 0 := by have := registered.index; omega
    simp only [at_pc, some_size, if_false] at stepped
    cases stepped
    exact disciplined.goes (by rw [at_pc]; rfl) (fun _ => rfl) (by simp)
  | store v =>
    simp only [at_pc] at stepped
    cases stepped
    exact disciplined.goes (by rw [at_pc]; rfl) (fun _ => rfl) (by simp)

omit [DecidableEq T] in
theorem Disciplined.loopStep (disciplined : Disciplined s) (stepped : loopStep s q = some s') :
    Disciplined s' := by
  unfold Distribute.loopStep at stepped
  -- a mutex that the loop has is no call's
  have mine (held : (s.loop q).holds = true) (t : T) : s.mutex q ≠ some (.caller t) := by
    rw [(disciplined.own q).mpr held]
    simp
  cases at_pc : s.loop q with
  | absent | loop a => simp [at_pc] at stepped
  | registe =>
    simp only [at_pc] at stepped
    split at stepped
    · cases stepped
      exact disciplined.enters (by rw [at_pc]; rfl)
    · cases stepped
  | schedulers | activeTasks | read | grow a | release a | sleep a | waiting a | awake a =>
    simp only [at_pc] at stepped
    cases stepped
    exact disciplined.enters (by rw [at_pc]; rfl)
  | lock a | relock a =>
    simp only [at_pc] at stepped
    split at stepped
    next free =>
      cases stepped
      exact disciplined.turns (fun t => by rw [free]; simp) (.inr ⟨rfl, rfl⟩)
    · cases stepped
  | wait a | unlock a =>
    simp only [at_pc] at stepped
    cases stepped
    exact disciplined.turns (mine (by rw [at_pc]; rfl)) (.inl ⟨rfl, rfl⟩)

theorem Disciplined.step {label : Label T S I} (disciplined : Disciplined s)
    (registered : Registered s) (steady : Steady s label) (stepped : step s label = some s') :
    Disciplined s' := by
  unfold Distribute.step at stepped
  rw [registered.running] at stepped
  cases label with
  | add t task =>
    simp only [Bool.false_eq_true, if_false] at stepped
    split at stepped
    next at_pc =>
      cases stepped
      exact disciplined.goes (by rw [at_pc]; rfl) (fun _ => rfl) (by simp)
    · cases stepped
  | caller t => exact disciplined.callerStep registered steady (by simpa using stepped)
  | begin q | rest q =>
    simp only [Bool.false_eq_true, if_false] at stepped
    split at stepped
    next at_pc =>
      cases stepped
      exact disciplined.enters (by rw [at_pc]; rfl)
    · cases stepped
  | run q => exact disciplined.loopStep (by simpa using stepped)

/-- A call that finds another scheduler is about to free a mutex that it does not have. -/
theorem not_disciplined_of_moved {label : Label T S I} (registered : Registered s)
    (moved : ¬ Steady s label) (stepped : step s label = some s') : ¬ Disciplined s' := by
  cases label with
  | add t task | begin q | rest q | run q => exact absurd trivial moved
  | caller t =>
    obtain ⟨mine, other⟩ := not_forall.mp moved
    obtain ⟨at_pc, differs⟩ := Classical.not_imp.mp other
    obtain ⟨q, slot, -⟩ := registered.slot
    unfold Distribute.step callerStep at stepped
    simp only [registered.running, at_pc, State.scheduler, slot, Bool.false_eq_true,
      if_false] at stepped
    cases stepped
    intro disciplined
    have same := disciplined.back t mine q (by simp [State.goto])
    exact differs (same ▸ slot)

omit [DecidableEq T] in
theorem initial_disciplined (first : S) : Disciplined (initial first : State T S I) where
  called q t := by simp [initial, AddPc.holds]
  own q := by
    by_cases same : q = first
    · subst same
      simp [initial, LoopPc.holds]
    · simp [initial, same, LoopPc.holds]
  back t mine q at_pc := by simp [initial] at at_pc

/-- Along any schedule, the mutex of every scheduler is held by the call that took it until that
call unlocks it, or by its own loop, if and only if each call that unlocks finds in `i`, when it
reads it for that, the scheduler whose mutex it has. -/
theorem wakes_iff (first : S) (schedule : List (Label T S I)) :
    (∀ s, (machine first).Visits (initial first) schedule s → Disciplined s) ↔
      ∀ s label, (machine first).Takes (initial first) schedule s label → Steady s label :=
  (machine first).safe_iff_steps_ok (fun s => Registered s ∧ Disciplined s) Steady
    (fun _ _ _ both steady stepped =>
      ⟨both.1.step stepped, both.2.step both.1 steady stepped⟩)
    (fun _ both => both.2)
    (fun _ _ _ both moved stepped => not_disciplined_of_moved both.1 moved stepped)
    ⟨initial_registered first, initial_disciplined first⟩ schedule

/-- While that is so, whoever has the mutex of a scheduler can go on. -/
theorem Disciplined.holder_goes_on (disciplined : Disciplined s) (registered : Registered s)
    (held : s.mutex q ≠ none) :
    (∃ t, (s.pc t).holds = some q ∧ (Distribute.step s (.caller t)).isSome) ∨
      ((s.loop q).holds = true ∧ (Distribute.step s (.run q)).isSome) := by
  obtain ⟨holder, mine⟩ := Option.ne_none_iff_exists'.mp held
  cases holder with
  | caller t =>
    have holds := (disciplined.called q t).mp mine
    refine .inl ⟨t, ?_⟩
    cases at_pc : s.pc t with
    | signalLoad mine | signal mine p | unlockLoad mine | unlock mine p =>
      refine ⟨by rwa [at_pc] at holds, ?_⟩
      simp [Distribute.step, registered.running, Distribute.callerStep, at_pc]
    | idle | list | push | test | flag | tryLoad | tryLock | next | store =>
      rw [at_pc] at holds
      cases holds
  | loop =>
    have holds := (disciplined.own q).mp mine
    refine .inr ?_
    cases at_pc : s.loop q with
    | sleep a | wait a | awake a | unlock a =>
      refine ⟨by rwa [at_pc] at holds, ?_⟩
      simp [Distribute.step, registered.running, Distribute.loopStep, at_pc]
    | absent | registe | schedulers | activeTasks | read | grow | release | loop | lock | waiting
    | relock =>
      rw [at_pc] at holds
      cases holds

/-- A second scheduler registers; a call takes the mutex of the first, another call moves `i`, and
the first call ends. Then the first scheduler finds no task. -/
def crossing : List (Label Bool Bool Nat) :=
  .begin true :: List.replicate 6 (.run true) ++
    .add false 7 :: List.replicate 6 (.caller false) ++
    .add true 8 :: List.replicate 8 (.caller true) ++
    List.replicate 6 (.caller false) ++ [.rest false]

/-- No call is under way, and the first scheduler waits for its own mutex for ever. -/
theorem crossing_blocks : ∃ s, (machine false).exec (initial false) crossing = some s ∧
    (∀ t, s.pc t = .idle) ∧ s.loop false = .lock 0 ∧ step s (.run false) = none := by
  refine ⟨_, rfl, fun t => ?_, rfl, rfl⟩
  cases t <;> rfl

end BRoutine.Distribute
