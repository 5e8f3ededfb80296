import BRoutine.Recycle.Sound

/-!
# Every calm step keeps the books

One lemma for each thing that a thread can do, and from them that no calm run clashes.
-/

namespace BRoutine.Recycle

variable {s t : State} {b : Books} {j k r i st : Nat} {p : Pc}

@[simp] theorem goto_pc (s : State) (k : Nat) (p : Pc) :
    (s.goto k p).pc = Function.update s.pc k p := rfl
@[simp] theorem goto_on (s : State) (k : Nat) (p : Pc) : (s.goto k p).on = s.on := rfl
@[simp] theorem goto_stack (s : State) (k : Nat) (p : Pc) : (s.goto k p).stack = s.stack := rfl
@[simp] theorem goto_regs (s : State) (k : Nat) (p : Pc) : (s.goto k p).regs = s.regs := rfl

theorem goto_other (s : State) (p : Pc) (other : j ≠ k) : (s.goto k p).pc j = s.pc j :=
  Function.update_of_ne other ..

/-! ### The files -/

theorem files_goto (s : State) (k : Nat) (p : Pc) :
    (s.goto k p).files = Function.update s.files (.making k) p.making.toList := by
  funext key
  cases key with
  | making j => by_cases self : j = k <;> simp [State.files, State.goto, self]
  | _ => simp [State.files, State.goto]

theorem files_goto_same (same : p.making = (s.pc k).making) : (s.goto k p).files = s.files := by
  rw [files_goto, same]
  exact Function.update_eq_self (Key.making k) s.files

/-! ### What others have -/

theorem Sound.making_place (sound : Sound s b) (making : (s.pc j).making = some i) :
    b.place i = some (.making j) := by
  rw [← sound.routines.mem, State.files, making]
  simp

/-- A routine that is being made by a thread, or is made, is no other thread's. -/
theorem Sound.alone (sound : Sound s b) (place : b.place i = some .made ∨
    b.place i = some (.making k) ∨ b.place i = some .pooled ∧
      ∀ j, (s.pc j).returnedRoutine = false) (other : j ≠ k) :
    (s.pc j).has ≠ some i ∧ (s.pc j).making ≠ some i := by
  constructor
  · intro has
    have placed := sound.has_place has
    rcases place with there | there | ⟨there, calm⟩
    · simp [there] at placed
    · simp [there] at placed
    · simp [there, calm] at placed
  · intro making
    have here := sound.making_place making
    rcases place with there | there | ⟨there, -⟩ <;> rw [here] at there <;> cases there
    exact other rfl

/-- A routine in the hands of a thread is no other thread's. -/
theorem Sound.alone_has (sound : Sound s b) (has : (s.pc k).has = some r) (other : j ≠ k) :
    (s.pc j).has ≠ some r ∧ (s.pc j).making ≠ some r := by
  constructor
  · exact fun yours => other (sound.unique j k r yours has)
  · intro making
    have here := sound.making_place making
    rcases sound.has_place has with there | there | ⟨there, -⟩ <;> rw [here] at there <;>
      cases there

theorem Sound.beyond_size (sound : Sound s b) (beyond : s.size ≤ j) :
    (s.pc j).returnedRoutine = false ∧ (s.pc j).returnedStack = false ∧ (s.pc j).has = none := by
  rw [sound.unregistered j beyond]
  exact ⟨rfl, rfl, rfl⟩

theorem Sound.inside_born (sound : Sound s b) (inside : b.place r ≠ none) :
    r < s.nextRoutine := by
  by_contra beyond
  exact inside (sound.unborn r (Nat.not_lt.mp beyond)).1

/-- Nobody executes a routine that is being made, or one that lies in the pool for good. -/
theorem Sound.not_inUse (sound : Sound s b) (place : b.place i = some (.making k) ∨
    b.place i = some .pooled ∧ ∀ j, (s.pc j).returnedRoutine = false) : s.inUse i = false := by
  rw [State.inUse, decide_eq_false_iff_not]
  rintro ⟨j, -, running⟩
  have placed := sound.executes_place running
  rcases place with making | ⟨pooled, out⟩
  · simp [making] at placed
  · simp [pooled, out] at placed

/-! ### Moves of a routine -/

theorem Knows.quiet {o : Pc} (knows : Knows s b k o) (quiet : o.Quiet p) : Knows s b k p := by
  cases quiet with
  | stays r => exact ⟨knows.1, .inl knows.2⟩
  | _ => exact knows

theorem Sound.quiet (sound : Sound s b) (inside : k < s.size) (quiet : (s.pc k).Quiet p)
    (routineNums : Int) (flags : Nat → Bool) (freed : List Nat) :
    Sound (({ s with
      stackPool := { s.stackPool with routineNums := routineNums }
      isPendingNeedDelete := flags
      freed := freed }).goto k p) b := by
  have knows : Knows s b k p := Knows.quiet (sound.hands k) quiet
  have same : p.has = (s.pc k).has ∧ p.making = (s.pc k).making := by
    generalize s.pc k = o at quiet
    cases quiet <;> exact ⟨rfl, rfl⟩
  refine sound.stay inside rfl (fun j other => goto_other _ _ other) rfl rfl rfl ?_ rfl rfl rfl rfl
    (files_goto_same same.2) rfl ?_
  · rw [goto_pc, Function.update_self]
    exact same.1
  · rw [At, goto_pc, Function.update_self]
    exact knows

theorem Sound.returns (sound : Sound s b) (inside : k < s.size) (at_pc : s.pc k = .recycle r)
    (held : s.stack r = some st) : Sound (s.goto k (.pushStack r st)) b := by
  have knows := sound.hands k
  rw [At, at_pc] at knows
  refine sound.stay inside rfl (fun j other => goto_other _ _ other) rfl rfl rfl ?_ rfl rfl rfl rfl
    (files_goto_same (by rw [at_pc]; rfl)) rfl ?_
  · rw [goto_pc, Function.update_self, at_pc]
    rfl
  · rw [At, goto_pc, Function.update_self]
    exact ⟨knows.1, knows.2, held⟩

/-- What every step of `k` owes when only the routine `x` is concerned. -/
theorem moves_goto {b' : Books} {x : Nat} (size : t.size = s.size) (pc : t.pc = s.pc)
    (ons : ∀ j, j ≠ k → t.on j = s.on j)
    (alone : ∀ j, j ≠ k → (s.pc j).has ≠ some x ∧ (s.pc j).making ≠ some x)
    (apart : ∀ r, r ≠ x → b'.place r = b.place r ∧ b'.owned r = b.owned r ∧
      t.stack r = s.stack r ∧ t.regs r = s.regs r)
    (hands : ∀ r, r ≠ x → (p.has = some r ↔ (s.pc k).has = some r))
    (nextRoutine : s.nextRoutine ≤ t.nextRoutine) : Moves s (t.goto k p) b b' k x where
  size := size
  pcs j other := by rw [goto_other _ _ other, pc]
  ons := ons
  alone := alone
  apart := apart
  hands r other := by rw [goto_pc, Function.update_self]; exact hands r other
  nextRoutine := nextRoutine

/-- A routine that is resumed goes from `made` to the ready queue. -/
theorem Sound.resume (sound : Sound s b) (inside : k < s.size) (at_pc : s.pc k = .user r)
    (made : i ∈ s.made) :
    Sound (({ s with made := s.made.erase i, published := s.published ++ [i] }).goto k (.publish r))
      { b with place := Function.update b.place i (some .published) } := by
  have knows := sound.hands k
  rw [At, at_pc] at knows
  have place := (sound.routines.mem .made i).mp made
  have other : r ≠ i := Filing.ne_of_placed knows.2 place
  have rests := sound.rests i (.inl place)
  have moved := (sound.routines.erase (k := .made) made).put (k := .published)
    (Function.update_self ..)
  rw [Function.update_idem] at moved
  refine sound.move (x := i) inside ?_ (fun _ _ _ _ _ _ home => home) sound.clashed ?_ sound.stacked
    ?_ (sound.inside_born (by simp [place])) (fun _ => rests) (by simp) sound.unmapped sound.sizes
  · refine moves_goto rfl rfl (fun _ _ => rfl) (fun j other => sound.alone (.inl place) other)
      (fun r other => ⟨Function.update_of_ne other .., rfl, rfl, rfl⟩) (fun r' _ => ?_)
      (Nat.le_refl _)
    rw [at_pc]
    rfl
  · convert moved using 1
    rw [files_goto_same (by rw [at_pc]; rfl)]
    funext key
    cases key <;> simp [State.files]
  · rw [At, goto_pc, Function.update_self]
    exact ⟨knows.1, (Function.update_of_ne other ..).trans knows.2⟩

/-- `bSwap` loads the registers of a routine that rests. -/
theorem Sound.enter (sound : Sound s b) (inside : k < s.size) (at_pc : s.pc k = .got r) :
    Sound (({ s with on := Function.update s.on k (s.regs r) }).goto k (.user r)) b := by
  have knows := sound.hands k
  rw [At, at_pc] at knows
  obtain ⟨-, place, stack, regs⟩ := knows
  have has : (s.pc k).has = some r := by rw [at_pc]; rfl
  refine sound.move (x := r) inside ?_ (fun _ _ _ _ _ _ home => home) sound.clashed ?_ sound.stacked
    ?_ (sound.born k r has) (by simp [place]) (sound.pooled r) sound.unmapped sound.sizes
  · refine moves_goto rfl rfl (fun j other => Function.update_of_ne other ..)
      (fun j other => sound.alone_has has other) (fun _ _ => ⟨rfl, rfl, rfl, rfl⟩) (fun r' _ => ?_)
      (Nat.le_refl _)
    rw [at_pc]
    rfl
  · rw [files_goto_same (by rw [at_pc]; rfl)]
    exact sound.routines
  · rw [At, goto_pc, Function.update_self]
    refine ⟨⟨stack, ?_⟩, place⟩
    simp [State.goto, regs]

/-! ### New -/

/-- `New` has got a routine, out of the pool or fresh. -/
theorem Sound.making {level : Int} {place : Nat → Option Key} (sound : Sound s b)
    (inside : k < s.size) (at_pc : s.pc k = .newRoutine r level)
    (code : t.size = s.size ∧ t.pc = s.pc ∧ t.on = s.on ∧ t.stack = s.stack ∧ t.regs = s.regs)
    (data : t.stackSize = s.stackSize ∧ t.nextStack = s.nextStack ∧ t.stackPool = s.stackPool ∧
      t.made = s.made ∧ t.published = s.published)
    (others : ∀ q, q ≠ i → place q = b.place q) (out : place i = none) (clashed : t.clashed = false)
    (alone : ∀ j, j ≠ k → (s.pc j).has ≠ some i ∧ (s.pc j).making ≠ some i)
    (apart : r ≠ i) (nextRoutine : s.nextRoutine ≤ t.nextRoutine) (born : i < t.nextRoutine)
    (owned : b.owned i = none)
    (files : Filing.Filed (Function.update s.files .pooled t.routinePool) place) :
    Sound (t.goto k (.newStack r i level))
      { b with place := Function.update place i (some (.making k)) } := by
  obtain ⟨size, pc, on, stack, regs⟩ := code
  obtain ⟨stackSize, nextStack, stackPool, made, published⟩ := data
  have knows := sound.hands k
  rw [At, at_pc] at knows
  have none : Function.update s.files .pooled t.routinePool (.making k) = [] := by
    simp [State.files, at_pc, Pc.making]
  -- the routine leaves the pool or is new, and is filed under the thread that makes it
  have put := files.put (k := .making k) out
  rw [none] at put
  refine sound.move (x := i) inside ?_ (fun _ _ _ _ _ _ home => home) clashed ?_ ?_ ?_ born
    (by simp) (by simp) ?_ ?_
  · refine moves_goto size pc (fun j _ => congrFun on j) alone (fun q other => ?_) (fun q _ => ?_)
      nextRoutine
    · exact ⟨(Function.update_of_ne other ..).trans (others q other), rfl, congrFun stack q,
        congrFun regs q⟩
    · rw [at_pc]
      rfl
  · convert put using 1
    rw [files_goto]
    funext key
    cases key with
    | making j => by_cases self : j = k <;> simp [State.files, self, pc, Pc.making]
    | _ => simp [State.files, made, published]
  · convert sound.stacked using 1
    funext home
    cases home <;> simp [State.stacksAt, State.goto, stackPool]
  · rw [At, goto_pc, Function.update_self]
    refine ⟨⟨?_, ?_⟩, ?_, owned⟩
    · rw [goto_stack, stack]; exact knows.1.1
    · rw [goto_on, on]; exact knows.1.2
    · exact (Function.update_of_ne apart ..).trans ((others r apart).trans knows.2)
  · intro st beyond
    exact sound.unmapped st (by rw [← nextStack]; exact beyond)
  · intro st
    exact stackSize ▸ sound.sizes st

/-- A routine in the pool is out of everybody's hands. -/
theorem Sound.popRoutine {level : Int} {rest : List Nat} (sound : Sound s b) (inside : k < s.size)
    (at_pc : s.pc k = .newRoutine r level) (head : s.routinePool = i :: rest)
    (calmly : calm s (.run k) = true) :
    Sound (({ s with
        routinePool := rest
        clashed := s.clashed || s.inUse i }).goto k (.newStack r i level))
      { b with
        place := Function.update (Function.update b.place i none) i (some (.making k)) } := by
  have knows := sound.hands k
  rw [At, at_pc] at knows
  have place : b.place i = some .pooled := by
    rw [← sound.routines.mem, State.files, head]
    exact List.mem_cons_self
  -- the calm step says so of the registered threads, and the others are in their loops
  have quiet : ∀ j < s.size, (s.pc j).returnedRoutine = false := by
    simpa [calm, at_pc, head] using calmly
  have out : ∀ j, (s.pc j).returnedRoutine = false := by
    intro j
    by_cases registered : j < s.size
    · exact quiet j registered
    · exact (sound.beyond_size (Nat.not_lt.mp registered)).1
  have free : s.inUse i = false := sound.not_inUse (k := k) (.inr ⟨place, out⟩)
  refine sound.making inside at_pc ⟨rfl, rfl, rfl, rfl, rfl⟩ ⟨rfl, rfl, rfl, rfl, rfl⟩
    (fun q other => Function.update_of_ne other ..) (Function.update_self ..) ?_
    (fun j other => sound.alone (.inr (.inr ⟨place, out⟩)) other) ?_ (Nat.le_refl _)
    (sound.inside_born (by simp [place])) (sound.pooled i place) ?_
  · simp [sound.clashed, free]
  · rintro rfl
    rw [knows.2] at place
    cases place
  · exact sound.routines.takeHead head

theorem Sound.allocate {level : Int} (sound : Sound s b) (inside : k < s.size)
    (at_pc : s.pc k = .newRoutine r level) :
    Sound (({ s with nextRoutine := s.nextRoutine + 1 }).goto k
        (.newStack r s.nextRoutine level))
      { b with place := Function.update b.place s.nextRoutine (some (.making k)) } := by
  obtain ⟨place, owned⟩ := sound.unborn s.nextRoutine (Nat.le_refl _)
  have has : (s.pc k).has = some r := by rw [at_pc]; rfl
  have same : Function.update s.files .pooled s.routinePool = s.files :=
    Function.update_eq_self Key.pooled s.files
  refine sound.making inside at_pc ⟨rfl, rfl, rfl, rfl, rfl⟩ ⟨rfl, rfl, rfl, rfl, rfl⟩
    (fun _ _ => rfl) place sound.clashed (fun j other => ⟨fun yours => ?_, fun making => ?_⟩) ?_
    (Nat.le_succ _) (Nat.lt_succ_self _) owned (same.symm ▸ sound.routines)
  · exact absurd (sound.born j _ yours) (Nat.lt_irrefl _)
  · rw [sound.making_place making] at place
    cases place
  · exact Nat.ne_of_lt (sound.born k r has)

/-- `New` has given the routine `i` the stack `st`, which was in no hands. -/
theorem Sound.given {level : Int} {home : Nat → Option Home} (sound : Sound s b)
    (inside : k < s.size) (at_pc : s.pc k = .newStack r i level)
    (code : t.size = s.size ∧ t.pc = s.pc ∧ t.on = s.on ∧ t.regs = s.regs ∧
      t.nextRoutine = s.nextRoutine)
    (files : t.made = s.made ∧ t.published = s.published ∧ t.routinePool = s.routinePool)
    (stack : t.stack = Function.update s.stack i (some st)) (clashed : t.clashed = false)
    (after : p = .newCount r i st ∨ p = .newInit r i st)
    (gave : ∀ j, j ≠ k → (s.pc j).returnedStack = true → ∀ st' l, s.on j = some st' →
      b.home st' = some (.pooled l) →
        Function.update home st (some (.held i)) st' = some (.pooled l))
    (stacked : Filing.Filed (t.stacksAt b.owned) home) (out : home st = none)
    (unmapped : ∀ st', t.nextStack ≤ st' → Function.update home st (some (.held i)) st' = none)
    (sizes : ∀ st', t.stackSize st' ∈ stackSizes) :
    Sound (t.goto k p) { b with
      owned := Function.update b.owned i (some st)
      home := Function.update home st (some (.held i)) } := by
  obtain ⟨size, pc, on, regs, nextRoutine⟩ := code
  obtain ⟨made, published, routinePool⟩ := files
  have knows := sound.hands k
  rw [At, at_pc] at knows
  obtain ⟨runs, free, empty⟩ := knows
  have making : (s.pc k).making = some i := by rw [at_pc]; rfl
  have place := sound.making_place making
  have apart : r ≠ i := Filing.ne_of_placed free place
  -- both ways on lead through the same hands
  have shape : p.making = (s.pc k).making ∧ p.has = (s.pc k).has := by
    rw [at_pc]
    rcases after with rfl | rfl <;> exact ⟨rfl, rfl⟩
  have put := stacked.put (k := .held i) out
  refine sound.move (x := i) inside ?_ gave clashed ?_ ?_ ?_ ?_ (by simp [place]) (by simp [place])
    unmapped sizes
  · refine moves_goto size pc (fun j _ => congrFun on j)
      (fun j other => sound.alone (.inr (.inl place)) other) (fun q other => ?_) (fun q _ => ?_)
      (Nat.le_of_eq nextRoutine.symm)
    · exact ⟨rfl, Function.update_of_ne other ..,
        by rw [stack]; exact Function.update_of_ne other .., congrFun regs q⟩
    · rw [shape.2]
  · convert sound.routines using 1
    rw [files_goto_same (by rw [pc]; exact shape.1)]
    funext key
    cases key <;> simp [State.files, pc, made, published, routinePool]
  · convert put using 1
    funext home
    cases home with
    | held q =>
      by_cases self : q = i
      · subst self; simp [State.stacksAt, empty]
      · simp [State.stacksAt, self]
    | pooled l => simp [State.stacksAt, State.goto]
  · have runs' : Runs (t.goto k p) { b with
        owned := Function.update b.owned i (some st)
        home := Function.update home st (some (.held i)) } k r := by
      constructor
      · simpa [stack, apart] using runs.1
      · simpa [on, apart] using runs.2
    have held : (t.goto k p).stack i = some st := by simp [stack]
    rw [At, goto_pc, Function.update_self]
    rcases after with rfl | rfl <;> exact ⟨runs', free, held, Function.update_self ..⟩
  · show i < t.nextRoutine
    rw [nextRoutine]
    exact sound.inside_born (by simp [place])

/-- A stack in the pool is nobody's. -/
theorem Sound.popStack {level : Int} {l : PoolList} {rest : List Nat} (sound : Sound s b)
    (inside : k < s.size) (at_pc : s.pc k = .newStack r i level) (found : popList level = some l)
    (head : s.stackPool.list l = st :: rest) (calmly : calm s (.run k) = true) :
    Sound (({ s with
        stackPool := { s.stackPool with list := Function.update s.stackPool.list l rest }
        stack := Function.update s.stack i (some st)
        clashed := s.clashed || s.stackInUse st }).goto k (.newCount r i st))
      { b with
        owned := Function.update b.owned i (some st)
        home := Function.update (Function.update b.home st none) st (some (.held i)) } := by
  have pooled : b.home st = some (.pooled l) := by
    rw [← sound.stacked.mem, State.stacksAt, head]
    exact List.mem_cons_self
  -- the same of the stacks: who has put one into the pool has left it
  have quiet : ∀ j < s.size, (s.pc j).returnedStack = false := by
    simpa [calm, at_pc, found, head] using calmly
  have out : ∀ j, (s.pc j).returnedStack = false := by
    intro j
    by_cases registered : j < s.size
    · exact quiet j registered
    · exact (sound.beyond_size (Nat.not_lt.mp registered)).2.1
  have free : s.stackInUse st = false := by
    rw [State.stackInUse, decide_eq_false_iff_not]
    rintro ⟨j, -, on⟩
    rcases sound.on_home on with ⟨q, -, held⟩ | ⟨returned, -⟩
    · rw [pooled] at held
      cases held
    · rw [out] at returned
      cases returned
  have here : s.stacksAt b.owned (.pooled l) = st :: rest := head
  have taken := sound.stacked.takeHead here
  refine sound.given inside at_pc ⟨rfl, rfl, rfl, rfl, rfl⟩ ⟨rfl, rfl, rfl⟩ rfl ?_ (.inl rfl) ?_ ?_
    (Function.update_self ..) ?_ sound.sizes
  · simp [sound.clashed, free]
  · intro j _ returned
    rw [out] at returned
    cases returned
  · convert taken using 1
    funext home
    cases home with
    | held q => simp [State.stacksAt]
    | pooled l' => by_cases self : l' = l <;> simp [State.stacksAt, self]
  · intro st' beyond
    have other : st' ≠ st := Filing.ne_of_placed (sound.unmapped st' beyond) pooled
    simpa [other] using sound.unmapped st' beyond

theorem Sound.map {level : Int} {size : Nat} (sound : Sound s b) (inside : k < s.size)
    (at_pc : s.pc k = .newStack r i level) (legal : size ∈ stackSizes) :
    Sound (({ s with
        stack := Function.update s.stack i (some s.nextStack)
        stackSize := Function.update s.stackSize s.nextStack size
        nextStack := s.nextStack + 1 }).goto k (.newInit r i s.nextStack))
      { b with
        owned := Function.update b.owned i (some s.nextStack)
        home := Function.update b.home s.nextStack (some (.held i)) } := by
  have fresh := sound.unmapped s.nextStack (Nat.le_refl _)
  refine sound.given inside at_pc ⟨rfl, rfl, rfl, rfl, rfl⟩ ⟨rfl, rfl, rfl⟩ rfl sound.clashed
    (.inr rfl) ?_ sound.stacked fresh ?_ ?_
  · intro j _ _ st l _ pooled
    have other : st ≠ s.nextStack := (Filing.ne_of_placed fresh pooled).symm
    rw [Function.update_of_ne other]
    exact pooled
  · intro st beyond
    have more : s.nextStack + 1 ≤ st := beyond
    rw [Function.update_of_ne (by omega)]
    exact sound.unmapped st (by omega)
  · intro st
    by_cases self : st = s.nextStack
    · subst self; simpa using legal
    · simpa [self] using sound.sizes st

/-- `bRoutineStack::New` throws, and the routine is in no file any more. -/
theorem Sound.throw {level : Int} (sound : Sound s b) (inside : k < s.size)
    (at_pc : s.pc k = .newStack r i level) :
    Sound (({ s with stack := Function.update s.stack i none }).goto k (.user r))
      { b with place := Function.update b.place i none } := by
  have knows := sound.hands k
  rw [At, at_pc] at knows
  obtain ⟨runs, free, empty⟩ := knows
  have making : (s.pc k).making = some i := by rw [at_pc]; rfl
  have place := sound.making_place making
  have apart : r ≠ i := Filing.ne_of_placed free place
  -- the record leaves the hands of `New` and goes nowhere
  have held : s.files (.making k) = [i] := by rw [State.files, making]; rfl
  have taken := sound.routines.takeHead held
  refine sound.move (x := i) inside ?_ (fun _ _ _ _ _ _ home => home) sound.clashed ?_ sound.stacked
    ?_ (sound.inside_born (by simp [place])) (by simp) (by simp) sound.unmapped sound.sizes
  · refine moves_goto rfl rfl (fun _ _ => rfl)
      (fun j other => sound.alone (.inr (.inl place)) other) (fun q other => ?_) (fun q _ => ?_)
      (Nat.le_refl _)
    · exact ⟨Function.update_of_ne other .., rfl, Function.update_of_ne other .., rfl⟩
    · rw [at_pc]
      rfl
  · convert taken using 1
    rw [files_goto]
    funext key
    cases key with
    | making j => by_cases self : j = k <;> simp [State.files, self, Pc.making]
    | _ => simp [State.files]
  · rw [At, goto_pc, Function.update_self]
    refine ⟨⟨?_, runs.2⟩, (Function.update_of_ne apart ..).trans free⟩
    exact (Function.update_of_ne apart ..).trans runs.1

/-- `context->init` writes the context of a routine that nobody has. -/
theorem Sound.init (sound : Sound s b) (inside : k < s.size) (at_pc : s.pc k = .newInit r i st) :
    Sound (({ s with
        regs := Function.update s.regs i (some st)
        made := s.made ++ [i]
        clashed := s.clashed || s.inUse i }).goto k (.user r))
      { b with place := Function.update b.place i (some .made) } := by
  have knows := sound.hands k
  rw [At, at_pc] at knows
  obtain ⟨runs, free, stack, owned⟩ := knows
  have making : (s.pc k).making = some i := by rw [at_pc]; rfl
  have place := sound.making_place making
  have apart : r ≠ i := Filing.ne_of_placed free place
  have unused : s.inUse i = false := sound.not_inUse (.inl place)
  have held : s.files (.making k) = [i] := by rw [State.files, making]; rfl
  -- the routine goes from the hands of `New` to the made ones
  have moved := (sound.routines.takeHead held).put (k := .made) (Function.update_self ..)
  rw [Function.update_idem] at moved
  refine sound.move (x := i) inside ?_ (fun _ _ _ _ _ _ home => home) ?_ ?_ sound.stacked
    ?_ (sound.inside_born (by simp [place])) (fun _ => ⟨?_, ?_⟩) (by simp) sound.unmapped
    sound.sizes
  · refine moves_goto rfl rfl (fun _ _ => rfl)
      (fun j other => sound.alone (.inr (.inl place)) other) (fun q other => ?_) (fun q _ => ?_)
      (Nat.le_refl _)
    · exact ⟨Function.update_of_ne other .., rfl, rfl, Function.update_of_ne other ..⟩
    · rw [at_pc]
      rfl
  · simp [State.goto, sound.clashed, unused]
  · convert moved using 1
    rw [files_goto]
    funext key
    cases key with
    | making j => by_cases self : j = k <;> simp [State.files, self, Pc.making]
    | _ => simp [State.files]
  · rw [At, goto_pc, Function.update_self]
    exact ⟨runs, (Function.update_of_ne apart ..).trans free⟩
  · exact stack.trans owned.symm
  · simp [owned]

/-! ### Leaving -/

/-- A step of the thread `k` at its own routine. -/
theorem Sound.own {b' : Books} (sound : Sound s b) (inside : k < s.size)
    (has : (s.pc k).has = some r) (keeps : p.has = some r ∨ p.has = none)
    (making : (s.pc k).making = none ∧ p.making = none)
    (code : t.size = s.size ∧ t.pc = s.pc ∧ t.nextRoutine = s.nextRoutine ∧
      t.nextStack = s.nextStack ∧ t.stackSize = s.stackSize ∧ t.clashed = s.clashed)
    (ons : ∀ j, j ≠ k → t.on j = s.on j)
    (apart : ∀ q, q ≠ r → b'.place q = b.place q ∧ b'.owned q = b.owned q ∧
      t.stack q = s.stack q ∧ t.regs q = s.regs q)
    (gave : ∀ j, j ≠ k → ∀ st l, s.on j = some st → b.home st = some (.pooled l) →
      b'.home st = some (.pooled l))
    (files : Filing.Filed t.files b'.place) (stacked : Filing.Filed (t.stacksAt b'.owned) b'.home)
    (mine : Knows t b' k p)
    (rests : b'.place r = some .published → p.has = none → Rests t b' r)
    (made : b'.place r ≠ some .made) (pooled : b'.place r = some .pooled → b'.owned r = none)
    (unmapped : ∀ st, s.nextStack ≤ st → b'.home st = none) : Sound (t.goto k p) b' := by
  obtain ⟨size, pc, nextRoutine, nextStack, stackSize, clashed⟩ := code
  refine sound.move (x := r) inside ?_ (fun j other _ => gave j other)
    (clashed.trans sound.clashed) ?_ stacked ?_ ?_ ?_ pooled ?_ ?_
  · refine moves_goto size pc ons (fun j other => sound.alone_has has other) apart
      (fun q other => ?_) (Nat.le_of_eq nextRoutine.symm)
    rw [has]
    -- the thread keeps the routine or lets go of it
    rcases keeps with same | none
    · rw [same]
    · simp [none, Ne.symm other]
  · rw [files_goto_same (by rw [pc, making.1, making.2])]
    exact files
  · rw [At, goto_pc, Function.update_self]
    exact mine
  · show r < t.nextRoutine
    rw [nextRoutine]
    exact sound.born k r has
  · rintro (here | ⟨here, left⟩)
    · exact absurd here made
    · rw [goto_pc, Function.update_self] at left
      exact rests here (keeps.resolve_left left)
  · intro st beyond
    exact unmapped st (nextStack ▸ beyond)
  · intro st
    exact stackSize ▸ sound.sizes st

theorem Sound.publish (sound : Sound s b) (inside : k < s.size) (at_pc : s.pc k = .publish r) :
    Sound (({ s with published := s.published ++ [r] }).goto k (.swap r false))
      { b with place := Function.update b.place r (some .published) } := by
  have knows := sound.hands k
  rw [At, at_pc] at knows
  have put := sound.routines.put (k := .published) knows.2
  refine sound.own (r := r) inside (by rw [at_pc]; rfl) (.inl rfl) ⟨by rw [at_pc]; rfl, rfl⟩
    ⟨rfl, rfl, rfl, rfl, rfl, rfl⟩ (fun _ _ => rfl)
    (fun q other => ⟨Function.update_of_ne other .., rfl, rfl, rfl⟩) (fun _ _ _ _ _ home => home) ?_
    sound.stacked ⟨knows.1, .inr (Function.update_self ..)⟩ (fun _ none => by cases none) (by simp)
    (by simp) sound.unmapped
  convert put using 1
  funext key
  cases key <;> simp [State.files]

/-- The stack goes into the pool while its routine executes on it. -/
theorem Sound.pushStack (sound : Sound s b) (inside : k < s.size)
    (at_pc : s.pc k = .pushStack r st) :
    ∃ b', Sound (({ s with
      stackPool := s.stackPool.keep (s.stackSize st) st }).goto k (.count r)) b' := by
  have knows := sound.hands k
  rw [At, at_pc] at knows
  obtain ⟨⟨stack, on⟩, place, held⟩ := knows
  have owned : b.owned r = some st := stack.symm.trans held
  have here : s.stacksAt b.owned (.held r) = [st] := by rw [State.stacksAt, owned]; rfl
  have home : b.home st = some (.held r) := by
    rw [← sound.stacked.mem, here]
    exact List.mem_singleton_self st
  obtain ⟨l, found⟩ := pushList_some (sound.sizes st)
  -- the stack goes from its routine to the pool
  have moved := (sound.stacked.takeHead here).put (k := .pooled l) (Function.update_self ..)
  rw [Function.update_idem] at moved
  refine ⟨{ b with
    owned := Function.update b.owned r none
    home := Function.update b.home st (some (.pooled l)) }, ?_⟩
  refine sound.own (r := r) inside (by rw [at_pc]; rfl) (.inl rfl) ⟨by rw [at_pc]; rfl, rfl⟩
    ⟨rfl, rfl, rfl, rfl, rfl, rfl⟩ (fun _ _ => rfl)
    (fun q other => ⟨rfl, Function.update_of_ne other .., rfl, rfl⟩) ?_ sound.routines ?_ ?_
    (fun _ none => by cases none) (by simp [place]) (by simp) ?_
  · intro j _ st' l' _ pooled
    have other : st' ≠ st := by
      rintro rfl
      rw [home] at pooled
      cases pooled
    simpa [other] using pooled
  · convert moved using 1
    funext key
    cases key with
    | held q => by_cases self : q = r <;> simp [State.stacksAt, self]
    | pooled l' => by_cases self : l' = l <;> simp [State.stacksAt, StackPool.keep, found, self]
  · exact ⟨⟨st, l, on.trans owned, Function.update_self ..⟩, place, Function.update_self ..⟩
  · intro st' beyond
    have other : st' ≠ st := Filing.ne_of_placed (sound.unmapped st' beyond) home
    simpa [other] using sound.unmapped st' beyond

theorem Sound.clear (sound : Sound s b) (inside : k < s.size) (at_pc : s.pc k = .clear r) :
    Sound (({ s with stack := Function.update s.stack r none }).goto k (.pushRoutine r)) b := by
  have knows := sound.hands k
  rw [At, at_pc] at knows
  obtain ⟨gave, place, owned⟩ := knows
  exact sound.own (r := r) inside (by rw [at_pc]; rfl) (.inl rfl) ⟨by rw [at_pc]; rfl, rfl⟩
    ⟨rfl, rfl, rfl, rfl, rfl, rfl⟩ (fun _ _ => rfl)
    (fun q other => ⟨rfl, rfl, Function.update_of_ne other .., rfl⟩) (fun _ _ _ _ _ home => home)
    sound.routines sound.stacked ⟨gave, place, owned⟩ (fun _ none => by cases none)
    (by simp [place])
    (by simp [place]) sound.unmapped

theorem Sound.pushRoutine (sound : Sound s b) (inside : k < s.size)
    (at_pc : s.pc k = .pushRoutine r) :
    Sound (({ s with routinePool := s.routinePool ++ [r] }).goto k (.swap r true))
      { b with place := Function.update b.place r (some .pooled) } := by
  have knows := sound.hands k
  rw [At, at_pc] at knows
  obtain ⟨gave, place, owned⟩ := knows
  have put := sound.routines.put (k := .pooled) place
  refine sound.own (r := r) inside (by rw [at_pc]; rfl) (.inl rfl) ⟨by rw [at_pc]; rfl, rfl⟩
    ⟨rfl, rfl, rfl, rfl, rfl, rfl⟩ (fun _ _ => rfl)
    (fun q other => ⟨Function.update_of_ne other .., rfl, rfl, rfl⟩) (fun _ _ _ _ _ home => home) ?_
    sound.stacked ⟨gave, Function.update_self ..⟩ (fun _ none => by cases none) (by simp)
    (fun _ => owned) sound.unmapped
  convert put using 1
  funext key
  cases key <;> simp [State.files]

/-- `bSwap` stores where the routine has been left. -/
theorem Sound.store {recycled : Bool} (sound : Sound s b) (inside : k < s.size)
    (at_pc : s.pc k = .swap r recycled) :
    Sound (({ s with regs := Function.update s.regs r (s.on k) }).goto k (.load r recycled)) b := by
  have knows := sound.hands k
  rw [At, at_pc] at knows
  have has : (s.pc k).has = some r := by rw [at_pc]; rfl
  have pooled := sound.pooled r
  have made : b.place r ≠ some .made := by
    have placed := sound.has_place has
    rintro here
    simp [here] at placed
  refine sound.own (r := r) inside has (.inl rfl) ⟨by rw [at_pc]; rfl, rfl⟩
    ⟨rfl, rfl, rfl, rfl, rfl, rfl⟩ (fun _ _ => rfl)
    (fun q other => ⟨rfl, rfl, rfl, Function.update_of_ne other ..⟩) (fun _ _ _ _ _ home => home)
    sound.routines sound.stacked ?_ (fun _ none => by cases none) made pooled sound.unmapped
  cases recycled with
  | false => exact ⟨knows.1, knows.2, (Function.update_self ..).trans knows.1.2⟩
  | true => exact knows

/-- `bSwap` loads the registers of the loop: nobody is on the stack of the routine any more. -/
theorem Sound.leave {recycled : Bool} (sound : Sound s b) (inside : k < s.size)
    (at_pc : s.pc k = .load r recycled) :
    Sound (({ s with on := Function.update s.on k none }).goto k (.back r)) b := by
  have knows := sound.hands k
  rw [At, at_pc] at knows
  have has : (s.pc k).has = some r := by rw [at_pc]; rfl
  have made : b.place r ≠ some .made := by
    have placed := sound.has_place has
    rintro here
    simp [here] at placed
  refine sound.own (r := r) inside has (.inr rfl) ⟨by rw [at_pc]; rfl, rfl⟩
    ⟨rfl, rfl, rfl, rfl, rfl, rfl⟩ (fun j other => Function.update_of_ne other ..)
    (fun q other => ⟨rfl, rfl, rfl, rfl⟩) (fun _ _ _ _ _ home => home)
    sound.routines sound.stacked (Function.update_self ..) ?_ made (sound.pooled r) sound.unmapped
  -- a routine in the pool is not published, so the other kind has been left
  intro published _
  cases recycled with
  | false => exact ⟨knows.1.1, knows.2.2⟩
  | true =>
    rw [knows.2] at published
    cases published

/-- The loop takes a task of a routine that nobody has. -/
theorem Sound.take (sound : Sound s b) (inside : k < s.size) (at_pc : s.pc k = .loop)
    (published : r ∈ s.published) (calmly : calm s (.take k r) = true) :
    Sound (({ s with published := s.published.erase r }).goto k (.got r))
      { b with place := Function.update b.place r none } := by
  have knows := sound.hands k
  rw [At, at_pc] at knows
  have place := (sound.routines.mem .published r).mp published
  -- the calm step says so of the registered threads
  have nobody : ∀ j, (s.pc j).has ≠ some r := by
    intro j
    by_cases registered : j < s.size
    · have free : ∀ j < s.size, (s.pc j).has ≠ some r := by simpa [calm] using calmly
      exact free j registered
    · rw [(sound.beyond_size (Nat.not_lt.mp registered)).2.2]
      simp
  obtain ⟨stack, regs⟩ := sound.rests r (.inr ⟨place, nobody⟩)
  have taken := sound.routines.erase (k := .published) published
  refine sound.move (x := r) inside ?_ (fun _ _ _ _ _ _ home => home) sound.clashed ?_ sound.stacked
    ?_ (sound.inside_born (by simp [place])) (by simp) (by simp) sound.unmapped sound.sizes
  · refine moves_goto rfl rfl (fun _ _ => rfl) (fun j other => ⟨nobody j, fun making => ?_⟩)
      (fun q other => ⟨Function.update_of_ne other .., rfl, rfl, rfl⟩) (fun q other => ?_)
      (Nat.le_refl _)
    · rw [sound.making_place making] at place
      cases place
    · rw [at_pc]
      simp [Pc.has, Pc.executes, Ne.symm other]
  · convert taken using 1
    rw [files_goto_same (by rw [at_pc]; rfl)]
    funext key
    cases key <;> simp [State.files]
  · rw [At, goto_pc, Function.update_self]
    exact ⟨knows, Function.update_self .., stack, regs⟩

end BRoutine.Recycle
