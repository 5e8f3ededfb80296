import BRoutine.Solo.Effect

/-!
# Every step keeps the routines filed

One lemma for each effect of a step, and from them that every state of every run is sound.
-/

namespace BRoutine.Solo

variable {s t : State} {place place' : Nat → Option Key} {r i : Nat}

/-- A routine in a file has been allocated. -/
theorem Sound.inside_born (sound : Sound s place) (inside : place r ≠ none) :
    r < s.nextRoutine := by
  by_contra beyond
  exact inside (sound.unborn r (Nat.not_lt.mp beyond))

/-! ### The first switch -/

theorem Sound.create (sound : Sound s place) (create : s.control = .create) :
    Sound s.started (Function.update place main (some .ready)) := by
  have control := sound.control
  simp only [AtControl, create] at control
  obtain ⟨creating, out, flag⟩ := control
  have apart : main ≠ loopRoutine := by decide
  refine ⟨?_, sound.thrown, sound.born, ?_, ?_, ?_, ?_, by simp, ?_, ?_⟩
  · exact content_pushBack s main ▸ sound.filed.put out
  · intro j beyond
    have other : j ≠ main := by
      have born := sound.born
      rintro rfl
      simp only [State.started, State.pushBack, main, loopRoutine] at born beyond
      omega
    rw [Function.update_of_ne other]
    exact sound.unborn j beyond
  · intro j
    -- `create` writes the contexts of the loop and of main alone
    by_cases isLoop : j = loopRoutine
    · subst isLoop; simp [State.started, sound.context]
    · by_cases isMain : j = main
      · subst isMain; simp [State.started, isLoop, sound.context]
      · simp [State.started, State.pushBack, isLoop, isMain, sound.context]
  · intro j
    by_cases isLoop : j = loopRoutine
    · subst isLoop; simp [State.started, sound.isMain]
    · by_cases isMain : j = main
      · subst isMain; simp [State.started, isLoop, sound.isMain]
      · simp [State.started, State.pushBack, isLoop, isMain, sound.isMain]
  · rw [Function.update_of_ne (Ne.symm apart)]
    exact sound.loop
  · intro j k placed file
    -- main is the only routine that has entered a file
    by_cases isMain : j = main
    · subst isMain
      constructor
      · constructor <;> simp [State.started, apart, creating.main, Routine.calloc]
      · right
        simp [State.started, apart, creating.main]
    · rw [Function.update_of_ne isMain] at placed
      have isLoop : j ≠ loopRoutine := (Filing.ne_of_placed sound.loop placed).symm
      apply (sound.resting j k placed file).congr
      · simp [State.started, State.pushBack, isMain, isLoop]
      · simp [State.started, State.pushBack, isMain]
  · exact ⟨⟨rfl, rfl, creating.index⟩, flag⟩

/-! ### Suspending and waking -/

/-- A routine that executes wakes others, or `Deal` does. -/
theorem Sound.refile (sound : Sound s place) (same : SameCode s t)
    (filed : Filing.Filed t.content place') (moved : Moved s place place')
    (running : (∃ r, s.control = .user r) ∨ s.control = .loop) : Sound t place' := by
  refine ⟨filed, same.thrown.trans sound.thrown, ?_, ?_, ?_, ?_, moved.out _ sound.loop,
    moved.notPooled, ?_, ?_⟩
  · rw [same.nextRoutine]; exact sound.born
  · intro i beyond
    rw [same.nextRoutine] at beyond
    exact moved.out i (sound.unborn i beyond)
  · rw [same.routine]; exact sound.context
  · rw [same.routine]; exact sound.isMain
  · intro i k placed notPooled
    exact same.resting (moved.rests i k placed notPooled)
  · have control := sound.control
    -- the code that executes is the same, and so is what it needs
    rcases running with ⟨r, user⟩ | loop
    · simp only [AtControl, user] at control
      simp only [AtControl, same.control, user]
      obtain ⟨executes, live, begun, out, flag⟩ := control
      refine ⟨same.executes executes, same.live live, ?_, moved.out r out, same.flag.trans flag⟩
      rw [same.routine]; exact begun
    · simp only [AtControl, loop] at control
      simp only [AtControl, same.control, loop]
      obtain ⟨loops, flag⟩ := control
      exact ⟨⟨same.occupy.trans loops.occupy, same.size.trans loops.size,
        same.index.trans loops.index⟩, same.flag.trans flag⟩

/-- The routine that executes has been put into a file and suspends itself. -/
theorem Sound.suspend {k : Key} (sound : Sound s place)
    (user : s.control = .user r) (same : SameCode s t) (moved : Moved s place place')
    (filed : Filing.Filed t.content (Function.update place' r (some k))) (file : k ≠ .pooled)
    (task : Nat) : Sound (t.away r (.user r) task) (Function.update place' r (some k)) := by
  have control := sound.control
  simp only [AtControl, user] at control
  obtain ⟨executes, live, begun, out, flag⟩ := control
  have context : ∀ r, (t.routine r).context = r := by rw [same.routine]; exact sound.context
  refine ⟨filed, same.thrown.trans sound.thrown, ?_, ?_, context, ?_, ?_, ?_, ?_, ?_⟩
  · simp only [State.away, same.nextRoutine]; exact sound.born
  · intro i beyond
    simp only [State.away, same.nextRoutine] at beyond
    have other : i ≠ r := by
      rintro rfl
      exact absurd executes.born (Nat.not_lt.mpr beyond)
    rw [Function.update_of_ne other]
    exact moved.out i (sound.unborn i beyond)
  · simp only [State.away, same.routine]; exact sound.isMain
  · rw [Function.update_of_ne (Ne.symm executes.other)]
    exact moved.out _ sound.loop
  · by_cases self : main = r
    · subst self; simpa using file
    · rw [Function.update_of_ne self]; exact moved.notPooled
  · intro i k' placed notPooled
    by_cases self : i = r
    · -- its context holds where it has just been left
      subst self
      refine ⟨(same.live live).congr rfl, .inr ⟨?_, Function.update_self ..⟩⟩
      simp only [State.away, same.routine]; exact begun
    · rw [Function.update_of_ne self] at placed
      exact (same.resting (moved.rests i k' placed notPooled)).congr rfl
        (Function.update_of_ne self ..)
  · refine ⟨⟨rfl, (same.executes executes).size, (same.executes executes).index⟩, ?_⟩
    simp only [State.away, same.flag, flag]
    simp

/-- A routine leaves its file for the ready queue. -/
theorem requeue (taken : Filing.Filed t.content (Function.update place i none)) :
    Filing.Filed (t.pushBack 0 i).content (Function.update place i (some .ready)) := by
  have put := taken.put (k := Key.ready) (Function.update_self ..)
  rwa [Function.update_idem, ← content_pushBack] at put

theorem Sound.yield (sound : Sound s place) (user : s.control = .user r) (task : Nat) :
    Sound ((s.pushBack 0 r).away r (.user r) task) (Function.update place r (some .ready)) := by
  obtain ⟨-, -, -, out, -⟩ := sound.executes user
  apply sound.suspend user (sameCode_pushBack s r) sound.unmoved _ (by simp)
  exact content_pushBack s r ▸ sound.filed.put out

theorem Sound.wait (sound : Sound s place) (user : s.control = .user r) (list task : Nat) :
    Sound (State.away { s with
        lists := Function.update s.lists list (s.lists list ++ [r]) } r (.user r) task)
      (Function.update place r (some (.waiting list))) := by
  obtain ⟨-, -, -, out, -⟩ := sound.executes user
  apply sound.suspend user (sameCode_lists s _) sound.unmoved _ (by simp)
  rw [content_lists]
  exact sound.filed.put out

theorem Sound.poll (sound : Sound s place) (user : s.control = .user r) (task : Nat) :
    Sound (State.away { s with polls := s.polls ++ [r] } r (.user r) task)
      (Function.update place r (some .polling)) := by
  obtain ⟨-, -, -, out, -⟩ := sound.executes user
  apply sound.suspend user (sameCode_polls s _) sound.unmoved _ (by simp)
  rw [content_polls]
  exact sound.filed.put out

theorem Sound.wake (sound : Sound s place) (user : s.control = .user r) {list w : Nat}
    {rest : List Nat} (head : s.lists list = w :: rest) :
    Sound (State.pushBack { s with lists := Function.update s.lists list rest } 0 w)
      (Function.update place w (some .ready)) := by
  have here : w ∈ s.content (.waiting list) := by
    rw [State.content, head]
    exact List.mem_cons_self
  have inside := (sound.filed.mem _ w).mp here
  have resting := sound.resting w _ inside (by simp)
  apply sound.refile ((sameCode_lists s _).trans (sameCode_pushBack _ w)) (requeue _)
    (sound.unmoved.ready resting (by simp [inside])) (.inl ⟨r, user⟩)
  rw [content_lists]
  exact sound.filed.takeHead head

theorem Sound.deal (sound : Sound s place) (loop : s.control = .loop) (polls : r ∈ s.polls) :
    Sound (State.pushBack { s with polls := s.polls.erase r } 0 r)
      (Function.update place r (some .ready)) := by
  have inside := (sound.filed.mem .polling r).mp polls
  have resting := sound.resting r _ inside (by simp)
  apply sound.refile ((sameCode_polls s _).trans (sameCode_pushBack _ r)) (requeue _)
    (sound.unmoved.ready resting (by simp [inside])) (.inr loop)
  rw [content_polls]
  exact sound.filed.erase polls

/-- The routine that is resumed goes before the one that resumes it. -/
theorem Sound.resume (sound : Sound s place) (user : s.control = .user r) (made : i ∈ s.made)
    (task : Nat) :
    Sound (State.away ((State.pushBack { s with made := s.made.erase i } 0 i).pushBack 0 r) r
        (.user r) task)
      (Function.update (Function.update place i (some .ready)) r (some .ready)) := by
  obtain ⟨-, -, -, out, -⟩ := sound.executes user
  have inside := (sound.filed.mem .made i).mp made
  have resting := sound.resting i _ inside (by simp)
  -- the resumed routine is in a file, and the one that executes in none
  have apart : r ≠ i := Filing.ne_of_placed out inside
  have code := (sameCode_made s (s.made.erase i)).trans (sameCode_pushBack _ i)
  have filed : Filing.Filed (State.pushBack { s with made := s.made.erase i } 0 i).content
      (Function.update place i (some .ready)) := by
    apply requeue
    rw [content_made]
    exact sound.filed.erase made
  apply sound.suspend user (code.trans (sameCode_pushBack _ r))
    (sound.unmoved.ready resting (by simp [inside])) _ (by simp)
  rw [content_pushBack]
  apply filed.put
  rw [Function.update_of_ne apart, out]

/-! ### Making and finishing -/

/-- `t` differs from `s` in nothing of the code but the routine `i` and its context. -/
structure SameBut (i : Nat) (s t : State) : Prop where
  routine : ∀ j, j ≠ i → t.routine j = s.routine j
  regs : ∀ j, j ≠ i → t.regs j = s.regs j
  context : (t.routine i).context = i
  nextRoutine : s.nextRoutine ≤ t.nextRoutine
  occupy : t.occupyRoutine = s.occupyRoutine
  pending : t.pendingRoutine = s.pendingRoutine
  size : t.size = s.size
  index : t.index = s.index
  thrown : t.thrown = s.thrown

theorem SameBut.trans {u : State} (first : SameBut i s t) (second : SameBut i t u) :
    SameBut i s u where
  routine j other := (second.routine j other).trans (first.routine j other)
  regs j other := (second.regs j other).trans (first.regs j other)
  context := second.context
  nextRoutine := first.nextRoutine.trans second.nextRoutine
  occupy := second.occupy.trans first.occupy
  pending := second.pending.trans first.pending
  size := second.size.trans first.size
  index := second.index.trans first.index
  thrown := second.thrown.trans first.thrown

theorem SameBut.live {j : Nat} (same : SameBut i s t) (other : j ≠ i) (live : Live s j) :
    Live t j :=
  live.congr (same.routine j other)

theorem SameBut.resting {j : Nat} (same : SameBut i s t) (other : j ≠ i)
    (resting : Resting s j) : Resting t j :=
  resting.congr (same.routine j other) (same.regs j other)

/-- What is left to show of a state in which one routine has been made, or has finished. -/
theorem Sound.reshape (sound : Sound s place) (same : SameBut i s t)
    (filed : Filing.Filed t.content place') (others : ∀ j, j ≠ i → place' j = place j)
    (isMain : (t.routine i).isMain = true ↔ i = main) (notLoop : i ≠ loopRoutine)
    (born : i < t.nextRoutine) (notPooled : i = main → place' i ≠ some .pooled)
    (resting : ∀ k, place' i = some k → k ≠ .pooled → Resting t i) (control : AtControl t place') :
    Sound t place' where
  filed := filed
  thrown := same.thrown.trans sound.thrown
  born := Nat.lt_of_lt_of_le sound.born same.nextRoutine
  unborn j beyond := by
    have other : j ≠ i := by
      rintro rfl
      exact absurd born (Nat.not_lt.mpr beyond)
    rw [others j other]
    exact sound.unborn j (same.nextRoutine.trans beyond)
  context j := by
    by_cases self : j = i
    · subst self; exact same.context
    · rw [same.routine j self]; exact sound.context j
  isMain j := by
    by_cases self : j = i
    · subst self; exact isMain
    · rw [same.routine j self]; exact sound.isMain j
  loop := by rw [others _ (Ne.symm notLoop)]; exact sound.loop
  notPooled := by
    -- only the routine `i` may have another file
    by_cases self : main = i
    · subst self; exact notPooled rfl
    · rw [others _ self]; exact sound.notPooled
  resting j k placed file := by
    by_cases self : j = i
    · subst self; exact resting k placed file
    · rw [others j self] at placed
      exact same.resting self (sound.resting j k placed file)
  control := control

/-- A routine that `New` can take. -/
structure Spare (s : State) (place : Nat → Option Key) (i : Nat) : Prop where
  notMain : i ≠ main
  notLoop : i ≠ loopRoutine
  place : place i = some .pooled ∨ place i = none ∧ s.nextRoutine ≤ i

theorem Sound.takeRoutine (sound : Sound s place) :
    Spare s place s.takeRoutine.1 ∧ SameBut s.takeRoutine.1 s s.takeRoutine.2 ∧
      s.takeRoutine.1 < s.takeRoutine.2.nextRoutine ∧
      Filing.Filed (Function.update s.content .pooled s.takeRoutine.2.routinePool)
        (Function.update place s.takeRoutine.1 none) := by
  -- from the pool, or a new block that no file can hold yet
  rcases takeRoutine_cases s with ⟨i, rest, pool, taken⟩ | taken
  · have here : i ∈ s.content .pooled := by
      rw [State.content, pool]
      exact List.mem_cons_self
    have inside := (sound.filed.mem _ _).mp here
    rw [taken]
    refine ⟨⟨?_, ?_, .inl inside⟩, ?_, sound.inside_born (by simp [inside]), ?_⟩
    · rintro (rfl : i = main)
      exact sound.notPooled inside
    · rintro (rfl : i = loopRoutine)
      rw [sound.loop] at inside
      cases inside
    · constructor <;> simp [sound.context]
    · exact sound.filed.takeHead pool
  · have out := sound.unborn s.nextRoutine (Nat.le_refl _)
    have born := sound.born
    rw [taken]
    refine ⟨⟨?_, Nat.ne_of_gt born, .inr ⟨out, Nat.le_refl _⟩⟩, ?_, Nat.lt_succ_self _, ?_⟩
    · intro isMain
      simp only [main, loopRoutine] at *
      omega
    · constructor <;> simp +contextual [State.modify, Routine.calloc]
    · have still : Function.update place s.nextRoutine none = place := by
        rw [← out, Function.update_eq_self]
      have same : Function.update s.content .pooled s.routinePool = s.content :=
        Function.update_eq_self Key.pooled s.content
      rw [still]
      exact same.symm ▸ sound.filed

/-- What the code that called `New` sees of any state it returns to. -/
theorem Sound.returns (sound : Sound s place) (user : s.control = .user r) (apart : r ≠ i)
    (notLoop : i ≠ loopRoutine) (same : SameBut i s t) (control : t.control = .user r)
    (flag : t.isPendingNeedDelete = s.isPendingNeedDelete) (placed : place' r = place r) :
    AtControl t place' := by
  obtain ⟨executes, live, begun, out, unset⟩ := sound.executes user
  simp only [AtControl, control]
  -- `New` touches neither the code that called it nor the loop
  refine ⟨⟨same.occupy.trans executes.occupy, same.pending.trans executes.pending, ?_,
    executes.other, ?_, ?_, same.size.trans executes.size, same.index.trans executes.index⟩,
    same.live apart live, ?_, placed.trans out, flag.trans unset⟩
  · exact Nat.lt_of_lt_of_le executes.born same.nextRoutine
  · rw [same.routine r apart]; exact executes.isProgress
  · rw [same.regs _ (Ne.symm notLoop)]; exact executes.loop
  · rw [same.routine r apart]; exact begun

theorem Spare.apart (spare : Spare s place i) (sound : Sound s place)
    (user : s.control = .user r) : r ≠ i := by
  obtain ⟨executes, -, -, out, -⟩ := sound.executes user
  rintro rfl
  rcases spare.place with inside | ⟨-, beyond⟩
  · rw [out] at inside
    cases inside
  · exact absurd executes.born (Nat.not_lt.mpr beyond)

theorem Sound.lost (sound : Sound s place) (user : s.control = .user r) {record : Routine}
    (itself : record.context = s.takeRoutine.1) :
    Sound (s.lost s.takeRoutine.1 record) (Function.update place s.takeRoutine.1 none) := by
  obtain ⟨spare, taken, born, filed⟩ := sound.takeRoutine
  have apart := spare.apart sound user
  have same : SameBut s.takeRoutine.1 s (s.lost s.takeRoutine.1 record) := by
    constructor <;> simp +contextual [State.lost, Routine.reset, itself, taken.nextRoutine]
  apply sound.reshape same _ (fun j other => Function.update_of_ne other _ _) _ spare.notLoop born
    (by simp) (by simp) (sound.returns user apart spare.notLoop same user rfl
      (Function.update_of_ne apart _ _))
  · exact content_pool s _ ▸ filed
  · simp [State.lost, Routine.reset, spare.notMain]

theorem Sound.made (sound : Sound s place) (user : s.control = .user r) (st : Nat) (w : State) :
    Sound (s.ready w s.takeRoutine.1 st) (Function.update place s.takeRoutine.1 (some .made)) := by
  obtain ⟨spare, taken, born, filed⟩ := sound.takeRoutine
  have apart := spare.apart sound user
  have same : SameBut s.takeRoutine.1 s (s.ready w s.takeRoutine.1 st) := by
    constructor <;> simp +contextual [State.ready, Routine.calloc, taken.nextRoutine]
  have made := filed.put (k := Key.made) (Function.update_self ..)
  rw [Function.update_idem] at made
  apply sound.reshape same _ (fun j other => Function.update_of_ne other _ _) _ spare.notLoop born
    (by simp) _ (sound.returns user apart spare.notLoop same user rfl
      (Function.update_of_ne apart _ _))
  · rw [← content_pool, ← content_made] at made
    exact made
  · simp [State.ready, Routine.calloc, spare.notMain]
  · intro k _ _
    constructor
    · constructor <;> simp [State.ready, Routine.calloc]
    · left
      simp [State.ready, Routine.calloc]

/-- The routine that executes has finished: it is in no file, or in the pool. -/
theorem Sound.finished {k : Option Key} (sound : Sound s place) (user : s.control = .user r)
    (same : SameBut r s t) (leave : t.control = .leave r) (isDone : (t.routine r).isDone = true)
    (isProgress : (t.routine r).isProgress = false)
    (isMain : (t.routine r).isMain = true ↔ r = main)
    (filed : Filing.Filed t.content (Function.update place r k))
    (pooled : k = none ∨ k = some .pooled ∧ r ≠ main)
    (doomed : t.isPendingNeedDelete = true → Doomed t r) :
    Sound t (Function.update place r k) := by
  obtain ⟨executes, -, -, -, -⟩ := sound.executes user
  have born : r < t.nextRoutine := Nat.lt_of_lt_of_le executes.born same.nextRoutine
  have loop : ∃ task, t.regs loopRoutine = some (.loop task) := by
    rw [same.regs _ (Ne.symm executes.other)]
    exact executes.loop
  refine sound.reshape same filed (fun j other => Function.update_of_ne other _ _) isMain
    executes.other born ?_ ?_ ?_
  · intro self
    rcases pooled with rfl | ⟨-, notMain⟩
    · simp
    · exact absurd self notMain
  · intro k' placed file
    rw [Function.update_self] at placed
    rcases pooled with rfl | ⟨rfl, -⟩
    · cases placed
    · cases placed
      exact absurd rfl file
  · simp only [AtControl, leave, Function.update_self]
    exact ⟨⟨same.occupy.trans executes.occupy, same.pending.trans executes.pending, born,
      executes.other, isProgress, loop, same.size.trans executes.size,
      same.index.trans executes.index⟩, isDone, pooled.imp_right And.left, doomed⟩

theorem Sound.recycled (sound : Sound s place) (user : s.control = .user r)
    (recycled : Recycled s r t) : ∃ place', Sound t place' := by
  obtain ⟨executes, live, -, out, flag⟩ := sound.executes user
  have still : Function.update place r none = place := by rw [← out, Function.update_eq_self]
  have isMain : ∀ {record : Routine}, Ended s r record → (record.isMain = true ↔ r = main) := by
    intro record ended
    rw [ended.isMain]
    exact sound.isMain r
  cases recycled with
  | main same ended =>
    -- main is only marked
    refine ⟨Function.update place r none, sound.finished user (k := none) ?_ rfl ?_ ?_ ?_ ?_
      (.inl rfl) (fun set => ?_)⟩
    · constructor <;> simp +contextual [ended.context, sound.context]
    · simp [ended.isDone]
    · simp [ended.isProgress, executes.isProgress]
    · simpa using isMain ended
    · rw [still]; exact sound.filed
    · rw [flag] at set
      cases set
  | full notMain ended held _ =>
    refine ⟨Function.update place r none, sound.finished user (k := none) ?_ rfl ?_ ?_ ?_ ?_
      (.inl rfl) (fun _ => ⟨rfl, ?_, notMain, executes.other, ?_⟩)⟩
    · constructor <;> simp +contextual [ended.context, sound.context]
    · simp [ended.isDone]
    · simp [ended.isProgress, executes.isProgress]
    · simpa using isMain ended
    · rw [still]; exact sound.filed
    · simp [ended.isDone]
    · simp [held]
  | pooled notMain ended _ _ =>
    refine ⟨Function.update place r (some .pooled), sound.finished user (k := some .pooled) ?_ rfl
      ?_ ?_ ?_ ?_ (.inr ⟨rfl, notMain⟩) (fun set => ?_)⟩
    · constructor <;> simp +contextual [ended.context, sound.context]
    · simp [ended.isDone]
    · simp [ended.isProgress, executes.isProgress]
    · simpa using isMain ended
    · have put := sound.filed.put (k := Key.pooled) out
      rw [← content_pool] at put
      exact put
    · rw [flag] at set
      cases set

/-! ### The loop -/

theorem Sound.leave (sound : Sound s place) (leave : s.control = .leave r) (task : Nat) :
    Sound (s.away r (.ended r) task) place := by
  have control := sound.control
  simp only [AtControl, leave] at control
  obtain ⟨executes, isDone, out, doomed⟩ := control
  refine ⟨sound.filed, sound.thrown, sound.born, sound.unborn, sound.context, sound.isMain,
    sound.loop, sound.notPooled, ?_, ?_⟩
  · intro i k placed file
    -- the routine that leaves rests nowhere, or in the pool
    have other : i ≠ r := by
      rintro rfl
      rcases out with out | out
      · rw [out] at placed
        cases placed
      · rw [out] at placed
        cases placed
        exact file rfl
    exact (sound.resting i k placed file).congr rfl (Function.update_of_ne other ..)
  · refine ⟨⟨rfl, executes.size, executes.index⟩, fun flag => ?_⟩
    obtain ⟨flagBy, -, notMain, notLoop, stack⟩ := doomed flag
    exact ⟨flagBy, isDone, notMain, notLoop, stack⟩

theorem Sound.turn (sound : Sound s place) (loop : s.control = .loop) {task : Nat}
    {rest : List Nat} (head : (s.activeTasks 0).items = task :: rest) :
    Sound (State.enter { s with
        activeTasks := Function.update s.activeTasks 0 ⟨rest, (s.activeTasks 0).itemCount - 1⟩
        switches := s.switches ++ [task] } task)
      (Function.update place task none) := by
  obtain ⟨loops, flag⟩ := sound.loops loop
  -- the head of the queue is where the filing says it is
  have inside : place task = some .ready := by
    rw [← sound.filed.mem, State.content, head]
    exact List.mem_cons_self
  have live := (sound.resting task _ inside (by simp)).live
  have notLoop : task ≠ loopRoutine := (Filing.ne_of_placed sound.loop inside).symm
  have filed := sound.filed.takeHead (k := Key.ready) head
  rw [← content_tasks s ⟨rest, (s.activeTasks 0).itemCount - 1⟩] at filed
  refine ⟨filed, sound.thrown, sound.born, ?_, ?_, ?_, ?_, ?_, ?_, ?_⟩
  · intro i beyond
    by_cases self : i = task
    · subst self; exact Function.update_self ..
    · rw [Function.update_of_ne self]; exact sound.unborn i beyond
  · intro i
    by_cases self : i = task
    · subst self; simp [State.enter, State.modify, sound.context]
    · simp [State.enter, State.modify, self, sound.context]
  · intro i
    by_cases self : i = task
    · subst self; simp [State.enter, State.modify, sound.isMain]
    · simp [State.enter, State.modify, self, sound.isMain]
  · rw [Function.update_of_ne (Ne.symm notLoop)]; exact sound.loop
  · by_cases self : main = task
    · subst self; simp
    · rw [Function.update_of_ne self]; exact sound.notPooled
  · intro i k placed file
    have other : i ≠ task := by
      rintro rfl
      simp at placed
    rw [Function.update_of_ne other] at placed
    -- the context of the loop is saved here, and the loop is in no file
    have notLoop' : i ≠ loopRoutine := (Filing.ne_of_placed sound.loop placed).symm
    exact (sound.resting i k placed file).congr (Function.update_of_ne other ..)
      (Function.update_of_ne notLoop' ..)
  · refine ⟨⟨rfl, rfl, sound.inside_born (by simp [inside]), notLoop, ?_, ⟨task, ?_⟩,
      loops.size, loops.index⟩, ⟨?_, ?_, ?_, ?_⟩, ?_, ?_, flag⟩
    · simp [State.enter, State.modify, live.isProgress]
    · simp [State.enter]
    · simp [State.enter, State.modify, live.func]
    · simp [State.enter, State.modify, live.isDone]
    · simp [State.enter, State.modify, live.isProgress]
    · simpa [State.enter, State.modify] using live.stack
    · simp [State.enter, State.modify]
    · simp

/-- `ProcessBegin` is at the top of its loop again. -/
theorem Sound.again {task : Nat} (sound : Sound s place) (back : s.control = .back task)
    (same : SameCode { s with
      control := .loop, isPendingNeedDelete := false, flagBy := t.flagBy } t)
    (content : t.content = s.content) : Sound t place := by
  have control := sound.control
  simp only [AtControl, back] at control
  obtain ⟨loops, -⟩ := control
  refine ⟨?_, same.thrown.trans sound.thrown, ?_, ?_, ?_, ?_, sound.loop, sound.notPooled, ?_, ?_⟩
  · rw [content]; exact sound.filed
  · rw [same.nextRoutine]; exact sound.born
  · rw [same.nextRoutine]; exact sound.unborn
  · rw [same.routine]; exact sound.context
  · rw [same.routine]; exact sound.isMain
  · exact fun i k placed file => same.resting ((sound.resting i k placed file).congr rfl rfl)
  · simp only [AtControl, same.control]
    exact ⟨⟨same.occupy.trans loops.occupy, same.size.trans loops.size,
      same.index.trans loops.index⟩, same.flag⟩

/-! ### Runs -/

theorem Sound.after (sound : Sound s place) {label : Label} (effect : Effect s label t) :
    ∃ place', Sound t place' := by
  cases effect with
  | create create => exact ⟨_, sound.create create⟩
  | lost user _ itself => exact ⟨_, sound.lost user itself⟩
  | made user _ => exact ⟨_, sound.made user _ _⟩
  | resume user _ made => exact ⟨_, sound.resume user made _⟩
  | yield user _ => exact ⟨_, sound.yield user _⟩
  | wait user _ => exact ⟨_, sound.wait user _ _⟩
  | poll user _ => exact ⟨_, sound.poll user _⟩
  | noWaiter _ _ => exact ⟨place, sound⟩
  | wake user head => exact ⟨_, sound.wake user head⟩
  | recycle user _ recycled => exact sound.recycled user recycled
  | leave leave _ => exact ⟨place, sound.leave leave _⟩
  | deal loop polls => exact ⟨_, sound.deal loop polls⟩
  | idle _ _ => exact ⟨place, sound⟩
  | turn loop head => exact ⟨_, sound.turn loop head⟩
  | back back flag =>
    exact ⟨place, sound.again back (by constructor <;> first | exact flag | rfl) rfl⟩
  | delete back flag doomed held =>
    exact ⟨place, sound.again back (by constructor <;> rfl) rfl⟩

theorem sound_of_reachable (reached : machine.Reachable s) : ∃ place, Sound s place := by
  apply reached.invariant fun s => ∃ place, Sound s place
  · rintro s rfl
    exact ⟨_, initial_sound⟩
  · rintro s label t ⟨place, sound⟩ - stepped
    exact sound.after (sound.effect stepped)

end BRoutine.Solo
