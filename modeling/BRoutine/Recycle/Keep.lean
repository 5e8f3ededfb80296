import BRoutine.Recycle.Pools
import BRoutine.Tally

/-!
# How many stacks are kept

`bUnSharedStackPool_t::push` refuses a stack when `RoutineNums` has reached
`Max_Keep_Routines_Thread`. It tests the number before it locks anything, and `++RoutineNums` and
`RoutineNums--` are outside the mutexes of the lists: other threads come in between. `pop` and
`push` are taken here one statement at a time, with the operations on the lists as in the pools
among threads. `stays_counted_iff` says when the number is right all the same, and `keeps_within`
how far the pool then goes past its bound. Both are about runs in which no `push` of a large stack
meets an operation on the list of the small ones: where they meet, stacks are lost.
-/

namespace BRoutine.Keep

open Monitor Nodes Pools Tally

/-- Where a thread is in `pop` and `push` of `bUnSharedStackPool_t`; a number is what the thread has
read. -/
inductive Pc (V : Type)
  | idle
  /-- at the switch of `pop` -/
  | pop (level : Int)
  /-- at the test of `push` -/
  | test (stackSize : Nat) (bst : V)
  /-- at the switch of `push` -/
  | keep (stackSize : Nat) (bst : V)
  /-- in an operation on a list -/
  | listing
  /-- at the load of `RoutineNums--` -/
  | decLoad (i : V)
  | decStore (i : V) (nums : Int)
  | popped (i : Option V)
  /-- at the load of `++RoutineNums` -/
  | incLoad
  | incStore (nums : Int)
  | pushed (ret : Int)
  deriving DecidableEq, Repr

/-- `kept` is not in the source: what has been put into each list and not been taken out, where an
operation counts from its unlock on. -/
structure State (T N V : Type) where
  lists : StackState T N V
  kept : PoolList → List V
  routineNums : Int
  pc : T → Pc V

/-- A call, the next step of a call, where `new` would give `address`, or a return. -/
inductive Label (T N V : Type)
  | pop (t : T) (level : Int)
  | push (t : T) (stackSize : Nat) (bst : V)
  | run (t : T) (address : N)
  | ret (t : T)

variable {T N V : Type}

/-- `bUnSharedStackPool_t::New`. -/
def start : State T N V := ⟨Monitor.start .empty, fun _ => [], 0, fun _ => .idle⟩

/-- Where a thread goes on when the operation on a list has returned. -/
def after : StackOp N V → Option V → Pc V
  | .pop _ _ _, none => .popped none
  | .pop _ _ _, some i => .decLoad i
  | .push _ _ _ _ _ _ _, _ => .incLoad

section Steps

variable [DecidableEq T] [DecidableEq N]

def State.goto (s : State T N V) (t : T) (pc : Pc V) : State T N V :=
  { s with pc := Function.update s.pc t pc }

/-- The call of an operation on a list. -/
def enter (s : State T N V) (t : T) (o : StackOp N V) : Option (State T N V) :=
  (Monitor.step stackPool s.lists (t, .call o)).map fun lists =>
    { s.goto t .listing with lists := lists }

/-- The next step of an operation on a list. -/
def list (s : State T N V) (t : T) : Option (State T N V) :=
  match s.lists.pc t with
  | .idle => none
  | .calling _ => (Monitor.step stackPool s.lists (t, .lock)).map fun lists =>
      { s with lists := lists }
  | .inside _ _ => (Monitor.step stackPool s.lists (t, .statement)).map fun lists =>
      { s with lists := lists }
  | .done o _ => (Monitor.step stackPool s.lists (t, .unlock)).map fun lists =>
      { s with
        lists := lists
        kept := Function.update s.kept o.object (perform (s.kept o.object) o.op).1 }
  | .returning o result => (Monitor.step stackPool s.lists (t, .ret)).map fun lists =>
      { s.goto t (after o result) with lists := lists }

def run (s : State T N V) (t : T) (address : N) : Option (State T N V) :=
  match s.pc t with
  | .pop level =>
    match known : popList level with
    | none => some (s.goto t (.popped none))
    | some list => enter s t (.pop level list known)
  | .test stackSize bst =>
    if s.routineNums ≥ maxKeepRoutinesThread then some (s.goto t (.pushed (-1)))
    else some (s.goto t (.keep stackSize bst))
  | .keep stackSize bst =>
    match known : pushList stackSize, locks : pushMutex stackSize with
    | some list, some mutex => enter s t (.push stackSize list mutex known locks bst address)
    | _, _ => some (s.goto t .incLoad)
  | .listing => list s t
  | .decLoad i => some (s.goto t (.decStore i s.routineNums))
  | .decStore i nums => some { s.goto t (.popped (some i)) with routineNums := nums - 1 }
  | .incLoad => some (s.goto t (.incStore s.routineNums))
  | .incStore nums => some { s.goto t (.pushed (nums + 1)) with routineNums := nums + 1 }
  | .idle | .popped _ | .pushed _ => none

def step (s : State T N V) : Label T N V → Option (State T N V)
  | .pop t level =>
    match s.pc t with
    | .idle => some (s.goto t (.pop level))
    | _ => none
  | .push t stackSize bst =>
    match s.pc t with
    | .idle => some (s.goto t (.test stackSize bst))
    | _ => none
  | .run t address => run s t address
  | .ret t =>
    match s.pc t with
    | .popped _ | .pushed _ => some (s.goto t .idle)
    | _ => none

def machine : Transition.Machine (State T N V) (Label T N V) where
  start := (· = start)
  step := step

end Steps

/-! ### What the number should be -/

/-- How many stacks the pool keeps. -/
def State.total (s : State T N V) : Int :=
  (s.kept .mini).length + (s.kept .medium).length + (s.kept .large).length

abbrev Point (N V : Type) := Pc V × Monitor.Pc (StackOp N V) (Line N V) (Option V)

/-- Where a thread is, in the pool and in a list. -/
def State.point (s : State T N V) (t : T) : Point N V := (s.pc t, s.lists.pc t)

/-- What a call still has to add to `RoutineNums`. -/
def owed : Point N V → ℤ
  | (.incLoad, _) | (.incStore _, _) => 1
  | (.decLoad _, _) | (.decStore _ _, _) => -1
  | (.listing, .returning (.push _ _ _ _ _ _ _) _) => 1
  | (.listing, .returning (.pop _ _ _) (some _)) => -1
  | _ => 0

/-- A `push` of a list. -/
def pushes : Monitor.Pc (StackOp N V) (Line N V) (Option V) → Bool
  | .calling (.push ..) | .inside (.push ..) _ => true
  | .done (.push ..) _ | .returning (.push ..) _ => true
  | _ => false

/-- A `push` that has passed the test and has not counted its stack. -/
def past : Point N V → ℤ
  | (.keep _ _, _) | (.incLoad, _) | (.incStore _, _) => 1
  | (.listing, p) => if pushes p then 1 else 0
  | _ => 0

/-- A thread that is to store `RoutineNums` has read what it still is, and `push` has got no stack
of a size that its switch does not list. -/
def FitsAt (routineNums : Int) : Pc V → Prop
  | .decStore _ nums | .incStore nums => nums = routineNums
  | .keep stackSize _ => (pushList stackSize).isSome
  | .idle | .pop _ | .test _ _ | .listing | .decLoad _ | .popped _ | .incLoad | .pushed _ => True

/-- Each update of `RoutineNums` finds at its store what it has loaded, and `push` gets no stack of
a size that its switch does not list. -/
def Fits (s : State T N V) : Label T N V → Prop
  | .run t _ => FitsAt s.routineNums (s.pc t)
  | .pop _ _ | .push _ _ _ | .ret _ => True

/-- The operation that a thread is to lock a list for. -/
def called : Monitor.Pc (StackOp N V) (Line N V) (Option V) → Option (StackOp N V)
  | .calling o => some o
  | .idle | .inside _ _ | .done _ _ | .returning _ _ => none

theorem past_le_one (point : Point N V) : past point ≤ 1 := by
  unfold past
  split
  next => decide
  next => decide
  next => decide
  next => split <;> decide
  next => decide

/-- What a call has to add has passed the test. -/
theorem owed_le_past (point : Point N V) : owed point ≤ past point := by
  obtain ⟨pc, p⟩ := point
  cases pc
  case listing =>
    cases p
    case returning o result => cases o <;> cases result <;> simp [owed, past, pushes]
    all_goals
      simp only [owed, past]
      split <;> decide
  all_goals simp [owed, past]

theorem neg_owed_le_one (point : Point N V) : -owed point ≤ 1 := by
  unfold owed
  split <;> decide

/-- A stack of which `push` has a list is pushed under some mutex. -/
theorem pushMutex_isSome {stackSize : Nat} {list : PoolList}
    (known : pushList stackSize = some list) : ∃ mutex, pushMutex stackSize = some mutex := by
  unfold pushList at known
  unfold pushMutex
  split_ifs at known ⊢ <;> exact ⟨_, rfl⟩

/-- A `push` of a large stack does not lock while another thread is inside the list of the small
ones under their own mutex, nor the other way round. -/
def Spared (s : State T N V) : Label T N V → Prop
  | .run t _ => ∀ o ∈ called (s.lists.pc t), ∀ u, ∀ o' ∈ (s.lists.pc u).work,
      o.object = o'.object → (o.mutex = .large ↔ o'.mutex = .large)
  | .pop _ _ | .push _ _ _ | .ret _ => True

instance (routineNums : Int) : (p : Pc V) → Decidable (FitsAt routineNums p)
  | .decStore _ _ | .incStore _ | .keep _ _ => inferInstanceAs (Decidable (_ = _))
  | .idle | .pop _ | .test _ _ | .listing | .decLoad _ | .popped _ | .incLoad | .pushed _ =>
    inferInstanceAs (Decidable True)

instance (s : State T N V) : (label : Label T N V) → Decidable (Fits s label)
  | .run _ _ => inferInstanceAs (Decidable (FitsAt _ _))
  | .pop _ _ | .push _ _ _ | .ret _ => inferInstanceAs (Decidable True)

instance [Fintype T] (s : State T N V) : (label : Label T N V) → Decidable (Spared s label)
  | .run t _ => inferInstanceAs (Decidable (∀ o ∈ called (s.lists.pc t), ∀ u,
      ∀ o' ∈ (s.lists.pc u).work, o.object = o'.object → (o.mutex = .large ↔ o'.mutex = .large)))
  | .pop _ _ | .push _ _ _ | .ret _ => inferInstanceAs (Decidable True)

/-! ### Steps -/

section Moves

variable [DecidableEq T] [DecidableEq N]

/-- The lists are what `kept` says, up to the operations that have not unlocked. -/
def Sound (s : State T N V) : Prop :=
  ∃ queues : Atomic T PoolList (StackOp N V) (Option V) (List V),
    Related stackPool Represents (fun values o => perform values o.op) s.lists queues ∧
      queues.object = s.kept

/-- A step of `t`, which gets to `point`, puts `kept` stacks into the lists and adds `nums` to
`RoutineNums`. -/
structure Move (s next : State T N V) (t : T) (point : Point N V) (kept nums : ℤ) : Prop where
  points : next.point = Function.update s.point t point
  total : next.total = s.total + kept
  nums : next.routineNums = s.routineNums + nums

variable {s next : State T N V} {t : T}

omit [DecidableEq N] in
theorem point_update (s : State T N V) (t : T) (pc : Pc V) (lists : StackState T N V)
    (p : Monitor.Pc (StackOp N V) (Line N V) (Option V))
    (moved : lists.pc = Function.update s.lists.pc t p) (kept : PoolList → List V)
    (nums : Int) :
    State.point ⟨lists, kept, nums, Function.update s.pc t pc⟩ =
      Function.update s.point t (pc, p) := by
  funext u
  by_cases same : u = t
  · subst same
    simp [State.point, moved]
  · simp [State.point, moved, same]

omit [DecidableEq N] in
/-- A step in the pool that leaves the lists. -/
theorem Move.write (s : State T N V) (t : T) (pc : Pc V) (nums : Int) :
    Move s { s.goto t pc with routineNums := nums } t (pc, s.lists.pc t) 0
      (nums - s.routineNums) where
  points := point_update s t pc s.lists _ (by simp) s.kept nums
  total := by simp [State.goto, State.total]
  nums := by simp

omit [DecidableEq N] in
/-- A step in the pool that leaves the lists and `RoutineNums`. -/
theorem Move.still (s : State T N V) (t : T) (pc : Pc V) :
    Move s (s.goto t pc) t (pc, s.lists.pc t) 0 0 := by
  have move := Move.write s t pc s.routineNums
  rwa [sub_self] at move

omit [DecidableEq N] in
/-- A step in a list that puts nothing in and takes nothing out. -/
theorem Move.walk (s : State T N V) (t : T) {pc : Pc V} (same : s.pc t = pc)
    {lists : StackState T N V} {p : Monitor.Pc (StackOp N V) (Line N V) (Option V)}
    (moved : lists.pc = Function.update s.lists.pc t p) :
    Move s { s with lists := lists } t (pc, p) 0 0 where
  points := by
    have unmoved : s.pc = Function.update s.pc t pc := by rw [← same, Function.update_eq_self]
    have points := point_update s t pc lists p moved s.kept s.routineNums
    rwa [← unmoved] at points
  total := by simp [State.total]
  nums := by simp

/-- The call of an operation on a list. -/
theorem Sound.enter {o : StackOp N V} (sound : Sound s) (stepped : enter s t o = some next) :
    Sound next ∧ Move s next t (.listing, .calling o) 0 0 := by
  obtain ⟨lists, called, rfl⟩ := Option.map_eq_some_iff.mp stepped
  rcases step_cases called with ⟨o', same, idle, rfl⟩ | ⟨_, same, -⟩ | ⟨_, _, same, -⟩ |
    ⟨_, _, same, -⟩ | ⟨_, _, same, -⟩
  · cases same
    obtain ⟨queues, related, kept⟩ := sound
    refine ⟨⟨_, related.outside (.calling o) (by simp [idle, Monitor.Pc.holds])
      (by simp [idle, Monitor.Pc.within]) (by simp [Monitor.Pc.within]), kept⟩, ?_, ?_, ?_⟩
    · exact point_update s t .listing _ _ rfl s.kept s.routineNums
    · simp [State.goto, State.total]
    · simp [State.goto]
  all_goals cases same

/-- The lock, in the list of which nobody is. -/
theorem Sound.lock {o : StackOp N V} {lists : StackState T N V} (sound : Sound s)
    (calling : s.lists.pc t = .calling o)
    (spared : ∀ u, ∀ o' ∈ (s.lists.pc u).work, o.object = o'.object →
      (o.mutex = .large ↔ o'.mutex = .large))
    (stepped : Monitor.step stackPool s.lists (t, .lock) = some lists) :
    Sound { s with lists := lists } ∧
      lists.pc = Function.update s.lists.pc t (.inside o (stackPool.entry o)) := by
  have matched : Pools.Spared s.lists (t, .lock) := by
    intro o₁ u o' at_pc work same
    rw [calling] at at_pc
    cases at_pc
    exact spared u o' work same
  rcases step_cases stepped with ⟨_, same, -⟩ | ⟨o', -, at_pc, free, legal, rfl⟩ |
    ⟨_, _, same, -⟩ | ⟨_, _, same, -⟩ | ⟨_, _, same, -⟩
  case inr.inl =>
    rw [calling] at at_pc
    cases at_pc
    obtain ⟨queues, related, kept⟩ := sound
    have nobody := related.alone_of_free
      (fun u o' work same => matched_of_spared matched o u o' calling work same) free
    exact ⟨⟨queues, related.lock stackPool_correct calling free legal nobody, kept⟩, rfl⟩
  all_goals cases same

/-- A statement of an operation, which does not go wrong. -/
theorem Sound.statement {o : StackOp N V} {line : Line N V} {lists : StackState T N V}
    (sound : Sound s) (inside : s.lists.pc t = .inside o line)
    (stepped : Monitor.step stackPool s.lists (t, .statement) = some lists) :
    Sound { s with lists := lists } ∧ ∃ p, lists.pc = Function.update s.lists.pc t p ∧
      pushes p = pushes (s.lists.pc t) ∧ owed (.listing, p) = 0 := by
  rcases step_cases stepped with ⟨_, same, -⟩ | ⟨_, same, -⟩ | ⟨o', line', -, at_pc, rfl⟩ |
    ⟨_, _, same, -⟩ | ⟨_, _, same, -⟩
  case inr.inr.inl =>
    rw [inside] at at_pc
    cases at_pc
    obtain ⟨queues, related, kept⟩ := sound
    have after := related.statement inside
    refine ⟨⟨queues, after, kept⟩, ?_⟩
    have running := after.running
    cases taken : stackPool.statement (s.lists.mem (stackPool.object o)) line with
    | crash => simp [taken, Monitor.State.take] at running
    | next mem line' =>
      refine ⟨.inside o line', rfl, ?_, rfl⟩
      rw [inside]
      cases o <;> rfl
    | done mem result =>
      refine ⟨.done o result, rfl, ?_, rfl⟩
      rw [inside]
      cases o <;> rfl
  all_goals cases same

/-- How many stacks there are when one list has changed. -/
def totalOf (kept : PoolList → List V) : ℤ :=
  (kept .mini).length + (kept .medium).length + (kept .large).length

omit [DecidableEq T] [DecidableEq N] in
theorem total_eq (s : State T N V) : s.total = totalOf s.kept := rfl

theorem totalOf_update (kept : PoolList → List V) (l : PoolList) (values : List V) :
    totalOf (Function.update kept l values) = totalOf kept + values.length - (kept l).length := by
  cases l <;> simp [totalOf] <;> omega

omit [DecidableEq N] in
/-- An operation counts for what its call still has to add. -/
theorem totalOf_perform (kept : PoolList → List V) (o : StackOp N V) :
    totalOf (Function.update kept o.object (perform (kept o.object) o.op).1) =
      totalOf kept + owed (.listing, .returning o (perform (kept o.object) o.op).2) := by
  rw [totalOf_update]
  cases o with
  | pop level l known =>
    cases front : kept l with
    | nil => simp [StackOp.object, StackOp.op, perform, owed, front]
    | cons v rest =>
      simp only [StackOp.object, StackOp.op, perform, owed, front, List.tail_cons, List.head?_cons,
        List.length_cons]
      omega
  | push stackSize l mutex known locks bst i =>
    simp only [StackOp.object, StackOp.op, perform, owed, List.length_append, List.length_singleton]
    omega

/-- The unlock, with which the operation counts. -/
theorem Sound.unlock {o : StackOp N V} {result : Option V} {lists : StackState T N V}
    (sound : Sound s) (done : s.lists.pc t = .done o result)
    (stepped : Monitor.step stackPool s.lists (t, .unlock) = some lists) :
    Sound { s with
      lists := lists
      kept := Function.update s.kept o.object (perform (s.kept o.object) o.op).1 } ∧
    lists.pc = Function.update s.lists.pc t (.returning o result) ∧
    result = (perform (s.kept o.object) o.op).2 := by
  rcases step_cases stepped with ⟨_, same, -⟩ | ⟨_, same, -⟩ | ⟨_, _, same, -⟩ |
    ⟨o', result', -, at_pc, rfl⟩ | ⟨_, _, same, -⟩
  case inr.inr.inr.inl =>
    rw [done] at at_pc
    cases at_pc
    obtain ⟨queues, related, kept⟩ := sound
    obtain ⟨same, after⟩ := related.unlock done
    rw [kept] at same after
    exact ⟨⟨_, after, rfl⟩, rfl, same⟩
  all_goals cases same

/-- The return from an operation. -/
theorem Sound.ret {o : StackOp N V} {result : Option V} {lists : StackState T N V} (sound : Sound s)
    (returning : s.lists.pc t = .returning o result)
    (stepped : Monitor.step stackPool s.lists (t, .ret) = some lists) :
    Sound { s.goto t (after o result) with lists := lists } ∧
      lists.pc = Function.update s.lists.pc t .idle := by
  rcases step_cases stepped with ⟨_, same, -⟩ | ⟨_, same, -⟩ | ⟨_, _, same, -⟩ | ⟨_, _, same, -⟩ |
    ⟨o', result', -, at_pc, rfl⟩
  case inr.inr.inr.inr =>
    obtain ⟨queues, related, kept⟩ := sound
    exact ⟨⟨_, related.outside .idle (by simp [returning, Monitor.Pc.holds])
      (by simp [returning, Monitor.Pc.within]) (by simp [Monitor.Pc.within]), kept⟩, rfl⟩
  all_goals cases same

/-- A step of an operation on a list: what it puts in it comes to owe. -/
theorem list_moves (sound : Sound s)
    (spared : ∀ o ∈ called (s.lists.pc t), ∀ u, ∀ o' ∈ (s.lists.pc u).work,
      o.object = o'.object → (o.mutex = .large ↔ o'.mutex = .large))
    (at_pc : s.pc t = .listing) (stepped : list s t = some next) :
    Sound next ∧ ∃ point kept, Move s next t point kept 0 ∧
      kept = owed point - owed (s.point t) ∧ past point = past (s.point t) := by
  unfold list at stepped
  split at stepped
  next => cases stepped
  next o calling =>
    obtain ⟨lists, locked, rfl⟩ := Option.map_eq_some_iff.mp stepped
    obtain ⟨sound', moved⟩ := sound.lock calling (spared o (by rw [calling]; rfl)) locked
    refine ⟨sound', _, 0, .walk s t at_pc moved, ?_, ?_⟩
    · rw [State.point, at_pc, calling]
      rfl
    · rw [State.point, at_pc, calling]
      cases o <;> rfl
  next o line inside =>
    obtain ⟨lists, stated, rfl⟩ := Option.map_eq_some_iff.mp stepped
    obtain ⟨sound', p, moved, pushes, owes⟩ := sound.statement inside stated
    refine ⟨sound', _, 0, .walk s t at_pc moved, ?_, ?_⟩
    · rw [State.point, at_pc, inside, owes]
      rfl
    · rw [State.point, at_pc, past, past, pushes]
  next o result done =>
    obtain ⟨lists, unlocked, rfl⟩ := Option.map_eq_some_iff.mp stepped
    obtain ⟨sound', moved, same⟩ := sound.unlock done unlocked
    have walk := Move.walk s t at_pc moved
    refine ⟨sound', _, owed (.listing, .returning o result),
      ⟨walk.points, ?_, walk.nums⟩, ?_, ?_⟩
    · rw [total_eq, total_eq, totalOf_perform, same]
    · rw [State.point, at_pc, done]
      exact (sub_zero _).symm
    · rw [State.point, at_pc, done]
      cases o <;> rfl
  next o result returning =>
    obtain ⟨lists, returned, rfl⟩ := Option.map_eq_some_iff.mp stepped
    obtain ⟨sound', moved⟩ := sound.ret returning returned
    refine ⟨sound', (after o result, .idle), 0, ⟨?_, ?_, ?_⟩, ?_, ?_⟩
    · exact point_update s t _ _ _ moved s.kept s.routineNums
    · simp [State.goto, State.total]
    · simp [State.goto]
    · rw [State.point, at_pc, returning]
      cases o <;> cases result <;> rfl
    · rw [State.point, at_pc, returning]
      cases o <;> cases result <;> rfl

omit [DecidableEq T] in
theorem start_sound : Sound (start : State T N V) :=
  ⟨.start [], start_related ⟨[], empty_holds⟩, rfl⟩

omit [DecidableEq T] in
/-- The lists in memory, where nobody is inside them. -/
theorem Sound.lists (sound : Sound s) :
    s.lists.crashed = false ∧ ∀ list, (∀ t, (s.lists.pc t).within stackPool list = false) →
      Represents (s.lists.mem list) (s.kept list) := by
  obtain ⟨queues, related, kept⟩ := sound
  exact ⟨related.running, kept ▸ related.quiet⟩

/-- What a step does: where it fits, what it puts into the lists it counts or comes to owe, and it
adds to the number what it owed, or it is a test that has found room. -/
def Balances (s : State T N V) (label : Label T N V) (next : State T N V) : Prop :=
  ∃ t point kept nums, Move s next t point kept nums ∧
    (Fits s label ↔ kept = nums + owed point - owed (s.point t)) ∧
    (Fits s label →
      nums + past point ≤ past (s.point t) ∨ next.routineNums < maxKeepRoutinesThread)

/-- A step in the pool that leaves the lists and the number balances if the thread owes the same
after it exactly where it fits. -/
theorem Sound.still {label : Label T N V} (sound : Sound s) {pc : Pc V} (at_pc : s.pc t = pc)
    (pc' : Pc V)
    (owes : Fits s label ↔ owed (pc', s.lists.pc t) = owed (pc, s.lists.pc t))
    (less : past (pc', s.lists.pc t) ≤ past (pc, s.lists.pc t)) :
    Sound (s.goto t pc') ∧ Balances s label (s.goto t pc') := by
  subst at_pc
  refine ⟨sound, t, _, 0, 0, .still s t pc', ?_, fun _ => .inl ?_⟩
  · rw [owes, State.point]
    omega
  · rwa [zero_add]

/-- The store of an update that adds `change`, which the thread has owed. -/
theorem Sound.store {label : Label T N V} (sound : Sound s) {pc : Pc V} (at_pc : s.pc t = pc)
    (pc' : Pc V) (nums change : Int) (fits : Fits s label ↔ nums = s.routineNums)
    (owes : owed (pc, s.lists.pc t) = change) (paid : owed (pc', s.lists.pc t) = 0)
    (less : change + past (pc', s.lists.pc t) ≤ past (pc, s.lists.pc t)) :
    Sound { s.goto t pc' with routineNums := nums + change } ∧
      Balances s label { s.goto t pc' with routineNums := nums + change } := by
  subst at_pc
  refine ⟨sound, t, _, 0, _, .write s t pc' (nums + change), ?_, fun fit => .inl ?_⟩
  · rw [fits, State.point, owes, paid]
    omega
  · rw [fits] at fit
    rw [State.point, fit]
    omega

/-- The next step of a call. -/
theorem run_balances {address : N} (sound : Sound s) (spared : Spared s (.run t address))
    (stepped : run s t address = some next) :
    Sound next ∧ Balances s (.run t address) next := by
  unfold run at stepped
  split at stepped
  next level at_pc =>
    split at stepped
    next =>
      cases stepped
      exact sound.still at_pc _ (by simp [Fits, FitsAt, at_pc, owed]) (by simp [past])
    next l known =>
      obtain ⟨sound', move⟩ := sound.enter stepped
      exact ⟨sound', t, _, 0, 0, move, by simp [Fits, FitsAt, State.point, at_pc, owed],
        by simp [State.point, at_pc, past, pushes]⟩
  next stackSize bst at_pc =>
    split at stepped
    next =>
      cases stepped
      exact sound.still at_pc _ (by simp [Fits, FitsAt, at_pc, owed]) (by simp [past])
    next room =>
      cases stepped
      refine ⟨sound, t, _, 0, 0, .still s t _,
        by simp [Fits, FitsAt, State.point, at_pc, owed], fun _ => .inr ?_⟩
      exact Int.not_le.mp room
  next stackSize bst at_pc =>
    split at stepped
    next l mutex known locks =>
      obtain ⟨sound', move⟩ := sound.enter stepped
      exact ⟨sound', t, _, 0, 0, move, by simp [Fits, FitsAt, State.point, at_pc, owed, known],
        by simp [State.point, at_pc, past, pushes]⟩
    next unlisted =>
      have unknown : pushList stackSize = none := by
        by_contra known
        obtain ⟨l, known⟩ := Option.ne_none_iff_exists'.mp known
        obtain ⟨mutex, locks⟩ := pushMutex_isSome known
        exact unlisted l mutex known locks
      cases stepped
      exact sound.still at_pc _ (by simp [Fits, FitsAt, at_pc, owed, unknown]) (by simp [past])
  next at_pc =>
    obtain ⟨sound', point, kept, move, owes, counts⟩ := list_moves sound spared at_pc stepped
    refine ⟨sound', t, point, kept, 0, move, ?_, fun _ => .inl (by omega)⟩
    simp only [Fits, FitsAt, at_pc, true_iff]
    omega
  next i at_pc =>
    cases stepped
    exact sound.still at_pc _ (by simp [Fits, FitsAt, at_pc, owed]) (by simp [past])
  next i nums at_pc =>
    cases stepped
    exact sound.store at_pc _ nums (-1) (by simp [Fits, FitsAt, at_pc]) rfl rfl (by simp [past])
  next at_pc =>
    cases stepped
    exact sound.still at_pc _ (by simp [Fits, FitsAt, at_pc, owed]) (by simp [past])
  next nums at_pc =>
    cases stepped
    exact sound.store at_pc _ nums 1 (by simp [Fits, FitsAt, at_pc]) rfl rfl (by simp [past])
  all_goals cases stepped

theorem step_balances {label : Label T N V} (sound : Sound s) (spared : Spared s label)
    (stepped : step s label = some next) : Sound next ∧ Balances s label next := by
  cases label with
  | run t address => exact run_balances sound spared stepped
  | pop t level =>
    simp only [step] at stepped
    split at stepped
    next idle =>
      cases stepped
      exact sound.still idle _ (by simp [Fits, owed]) (by simp [past])
    next => cases stepped
  | push t stackSize bst =>
    simp only [step] at stepped
    split at stepped
    next idle =>
      cases stepped
      exact sound.still idle _ (by simp [Fits, owed]) (by simp [past])
    next => cases stepped
  | ret t =>
    simp only [step] at stepped
    split at stepped
    next at_pc =>
      cases stepped
      exact sound.still at_pc _ (by simp [Fits, owed]) (by simp [past])
    next at_pc =>
      cases stepped
      exact sound.still at_pc _ (by simp [Fits, owed]) (by simp [past])
    next => cases stepped

end Moves

/-! ### The number and the lists -/

section Counts

variable [Fintype T]

/-- `RoutineNums` is the number of the stacks that are kept, up to the calls under way. -/
def Counted (s : State T N V) : Prop := s.total = s.routineNums + tally owed s.point

/-- What has passed the test leaves the number below the bound and one stack for each thread. -/
def Bounded (s : State T N V) : Prop :=
  s.routineNums + tally past s.point < maxKeepRoutinesThread + Fintype.card T

theorem start_counted : Counted (start : State T N V) := by
  have none : tally owed (start : State T N V).point = 0 := tally_eq_zero fun _ => rfl
  unfold Counted
  rw [none]
  rfl

theorem start_bounded : Bounded (start : State T N V) := by
  have none : tally past (start : State T N V).point = 0 := tally_eq_zero fun _ => rfl
  have number : (start : State T N V).routineNums = 0 := rfl
  unfold Bounded
  rw [none, number]
  simp only [maxKeepRoutinesThread]
  omega

variable [DecidableEq T] [DecidableEq N] {s next : State T N V} {label : Label T N V}

/-- The number stays right in exactly the steps that fit. -/
theorem counted_iff (sound : Sound s) (counted : Counted s) (spared : Spared s label)
    (stepped : step s label = some next) : Counted next ↔ Fits s label := by
  obtain ⟨-, t, point, kept, nums, move, fits, -⟩ := step_balances sound spared stepped
  unfold Counted at counted ⊢
  rw [fits, move.total, move.nums, move.points, tally_update]
  omega

theorem bounded_step (sound : Sound s) (bounded : Bounded s) (spared : Spared s label)
    (fits : Fits s label) (stepped : step s label = some next) : Bounded next := by
  obtain ⟨-, t, point, kept, nums, move, -, counts⟩ := step_balances sound spared stepped
  unfold Bounded at bounded ⊢
  rcases counts fits with counts | room
  · rw [move.nums, move.points, tally_update]
    omega
  · have most : tally past next.point ≤ Fintype.card T := tally_le_card past_le_one next.point
    omega

/-- For any number of threads, every order of their steps and every schedule in which no `push` of a
large stack meets an operation on the list of the small ones: no null or freed node is followed,
every list in memory is what has been put into it and not been taken out whenever nobody is inside
it, and `RoutineNums` is the number of stacks in the lists, up to the calls that are about to count
theirs, exactly when each of its updates finds at its store what it has loaded and `push` gets only
stacks of the sizes that its switch lists. -/
theorem stays_counted_iff (schedule : List (Label T N V))
    (spared : ∀ s label, machine.Takes start schedule s label → Spared s label) :
    (∀ s : State T N V, machine.Visits start schedule s → s.lists.crashed = false ∧
      ∀ list, (∀ t, (s.lists.pc t).within stackPool list = false) →
        Represents (s.lists.mem list) (s.kept list)) ∧
      ((∀ s : State T N V, machine.Visits start schedule s → Counted s) ↔
        ∀ s label, machine.Takes start schedule s label → Fits s label) := by
  refine ⟨fun s visits => ?_, ?_⟩
  · have sound : Sound s := by
      refine visits.invariant start_sound fun s label next takes sound stepped => ?_
      exact (step_balances sound (spared s label takes) stepped).1
    exact sound.lists
  · refine Transition.Machine.safe_iff_taken_ok (fun s => Sound s ∧ Counted s) _ schedule ?_
      (fun s steady => steady.2) ?_ ⟨start_sound, start_counted⟩
    · rintro s label next takes ⟨sound, counted⟩ fits stepped
      have spared := spared s label takes
      exact ⟨(step_balances sound spared stepped).1,
        (counted_iff sound counted spared stepped).mpr fits⟩
    · rintro s label next takes ⟨sound, counted⟩ misfit stepped counted'
      exact misfit ((counted_iff sound counted (spared s label takes) stepped).mp counted')

/-- One of two threads keeps a small stack, and the other gets it. -/
def handedBack : List (Label Bool Nat Nat) :=
  .push false 131072 7 :: List.replicate 13 (.run false 1) ++ .ret false :: .pop true 1 ::
    List.replicate 15 (.run true 2) ++ [.ret true]

theorem stays_counted_iff_handedBack :
    ∃ s, machine.exec start handedBack = some s ∧ Counted s := by
  obtain ⟨last, fits⟩ : ∃ last, machine.execWhile (fun s label => Spared s label ∧ Fits s label)
      start handedBack = some last := ⟨_, rfl⟩
  obtain ⟨s, ran⟩ : ∃ s, machine.exec start handedBack = some s := ⟨_, rfl⟩
  have taken (u) (label) (takes : machine.Takes start handedBack u label) :
      Spared u label ∧ Fits u label :=
    Transition.Machine.execWhile_takes (fun s label => Spared s label ∧ Fits s label) fits takes
  have counts := (stays_counted_iff handedBack fun u label takes => (taken u label takes).1).2
  exact ⟨s, ran, counts.mpr (fun u label takes => (taken u label takes).2) s
    ⟨handedBack, List.prefix_rfl, ran⟩⟩

/-- In every run in which no `push` of a large stack meets an operation on the list of the small
ones, each update of `RoutineNums` finds at its store what it has loaded and `push` gets only stacks
of the sizes that its switch lists: no null or freed node is followed, every list in memory is what
has been put into it and not been taken out whenever nobody is inside it, the pool keeps less than
`Max_Keep_Routines_Thread` stacks and one for each thread, and where a thread is to refuse a stack
fewer are missing than there are threads. -/
theorem keeps_within (s : State T N V) (t : T)
    (reached : machine.ReachableBy (fun s label => Spared s label ∧ Fits s label) s) :
    s.lists.crashed = false ∧
      (∀ list, (∀ u, (s.lists.pc u).within stackPool list = false) →
        Represents (s.lists.mem list) (s.kept list)) ∧
      s.total < maxKeepRoutinesThread + Fintype.card T ∧
      ∀ stackSize bst, s.pc t = .test stackSize bst → s.routineNums ≥ maxKeepRoutinesThread →
        maxKeepRoutinesThread < s.total + Fintype.card T := by
  obtain ⟨sound, counted, bounded⟩ : Sound s ∧ Counted s ∧ Bounded s := by
    refine reached.invariant (fun s => Sound s ∧ Counted s ∧ Bounded s) ?_ ?_
    · rintro _ rfl
      exact ⟨start_sound, start_counted, start_bounded⟩
    · rintro s label next ⟨sound, counted, bounded⟩ ⟨spared, fits⟩ stepped
      exact ⟨(step_balances sound spared stepped).1,
        (counted_iff sound counted spared stepped).mpr fits,
        bounded_step sound bounded spared fits stepped⟩
  obtain ⟨running, quiet⟩ := sound.lists
  have less : tally owed s.point ≤ tally past s.point := tally_mono owed_le_past s.point
  refine ⟨running, quiet, by unfold Counted at counted; unfold Bounded at bounded; omega, ?_⟩
  intro stackSize bst at_pc full
  -- the others may have popped stacks that they have not counted
  have popped : tally (fun point => -owed point) s.point < Fintype.card T :=
    tally_lt_card neg_owed_le_one (t := t) (by simp [State.point, at_pc, owed])
  have opposite : tally (fun point => -owed point) s.point = -tally owed s.point := by
    simp [tally]
  unfold Counted at counted
  omega

/-- One of two threads has put a small stack into its list and is about to count it. -/
theorem keeps_within_mini :
    ∃ s : State Bool Nat Nat, s.total = 1 ∧ s.routineNums = 0 ∧
      s.total < maxKeepRoutinesThread + 2 := by
  obtain ⟨s, ran, kept⟩ : ∃ s, machine.execWhile (fun s label => Spared s label ∧ Fits s label)
      start (handedBack.take 12) = some s ∧ s.total = 1 ∧ s.routineNums = 0 := ⟨_, rfl, rfl, rfl⟩
  have reached := Transition.Machine.execWhile_reachableBy _ (.start rfl) _ ran
  exact ⟨s, kept.1, kept.2, (keeps_within s true reached).2.2.1⟩

end Counts

end BRoutine.Keep
