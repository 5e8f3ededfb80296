import BRoutine.Pool
import BRoutine.Recycle.Nodes

/-!
# The pools among threads

`bRoutinePool_t`, with one mutex for its list, and the lists of `bUnSharedStackPool_t`, where a
large stack goes to the list of the small ones under the mutex of the large ones. Any number of
threads call them, one statement at a time. `routinePool_serves` and `stackPool_serves` say when
they are the queues they are meant to be: each call returns what the queue gives that takes the
calls whole, in the order in which they unlock.
-/

namespace BRoutine.Pools

open Monitor Nodes

variable {T N V : Type} [DecidableEq T] [DecidableEq N]

/-! ### `bRoutinePool_t` -/

/-- `push` and `pop` of `bRoutinePool_t`: one list, one mutex. -/
def routinePool : Code Unit Unit (Op N V) (NodeList N V) (Line N V) (Option V) :=
  behind (fun _ => ()) (fun _ => ()) id

instance (l : NodeList N V) (o : Op N V) : Decidable (routinePool.legal l o) :=
  inferInstanceAs (Decidable (l.legal o))

abbrev RoutineState (T N V : Type) :=
  Monitor.State T Unit Unit (Op N V) (NodeList N V) (Line N V) (Option V)

/-- What is pushed and popped, each in one step. -/
def routineQueue :
    Transition.Machine (Atomic T Unit (Op N V) (Option V) (List V)) (T × Deed (Op N V)) :=
  atomic routinePool perform []

theorem routinePool_correct :
    Correct (routinePool : Code Unit Unit (Op N V) _ _ _) Represents perform :=
  correct

/-- In every interleaving of any number of threads, no null or freed node is followed, every call
returns what a queue of routines returns that takes the calls of this interleaving one after
another, each when it unlocks, the list in memory is that queue whenever its mutex is free, and the
thread that holds the mutex can go on. -/
theorem routinePool_serves (schedule : List (T × Event (Op N V))) (s : RoutineState T N V)
    (ran : (machine routinePool .empty).exec (start .empty) schedule = some s) :
    ∃ s' : Atomic T Unit (Op N V) (Option V) (List V),
      routineQueue.exec (.start []) (schedule.filterMap deed) = some s' ∧
      s.crashed = false ∧ (∀ t, s'.pc t = (s.pc t).seen) ∧
      (s.mutex () = none → Represents (s.mem ()) (s'.object ())) ∧
      ∀ t, s.mutex () = some t →
        ∃ event next, Monitor.step routinePool s (t, event) = some next ∧ next.crashed = false := by
  obtain ⟨s', followed, related⟩ := exec_related routinePool_correct ⟨[], empty_holds⟩
    (fun u label _ => matched_of_one (fun _ _ _ => rfl) u label) ran
  refine ⟨s', followed, related.running, related.seen, fun free => related.quiet () fun t => ?_,
    fun t held => related.holder_goes_on held⟩
  apply related.alone_of_free (o := Op.pop) (fun _ _ _ _ => rfl) free

/-- One thread pushes a routine while another waits for the mutex to pop it. -/
def handOver : List (Bool × Event (Op Nat Nat)) :=
  [(false, .call (.push 7 1)), (false, .lock), (true, .call .pop)] ++
    List.replicate 6 (false, .statement) ++ [(false, .unlock), (true, .lock)] ++
    List.replicate 9 (true, .statement) ++ [(true, .unlock)]

/-- The second thread has popped what the first has pushed. -/
theorem routinePool_serves_handOver :
    ∃ s' : Atomic Bool Unit (Op Nat Nat) (Option Nat) (List Nat),
      routineQueue.exec (.start []) (handOver.filterMap deed) = some s' ∧
      s'.pc true = some (.pop, some (some 7)) := by
  obtain ⟨s, ran⟩ : ∃ s, (machine routinePool .empty).exec
      (start .empty : RoutineState Bool Nat Nat) handOver = some s := ⟨_, rfl⟩
  obtain ⟨s', followed, -, seen, -⟩ := routinePool_serves handOver s ran
  refine ⟨s', followed, ?_⟩
  rw [seen true]
  cases ran
  rfl

/-! ### `bUnSharedStackPool_t` -/

/-- The mutex that `push` locks for a stack of this size. -/
def pushMutex (stackSize : Nat) : Option PoolList :=
  if stackSize / 1024 = largeStackSize then some .large
  else if stackSize / 1024 = mediumStackSize then some .medium
  else if stackSize / 1024 = miniStackSize then some .mini
  else none

/-- `pop` of a level and `push` of a stack of a size for which the switch has a case. -/
inductive StackOp (N V : Type)
  | pop (level : Int) (list : PoolList) (known : popList level = some list)
  | push (stackSize : Nat) (list mutex : PoolList) (known : pushList stackSize = some list)
      (locks : pushMutex stackSize = some mutex) (bst : V) (i : N)

namespace StackOp

def object : StackOp N V → PoolList
  | pop _ list _ | push _ list _ _ _ _ _ => list

def mutex : StackOp N V → PoolList
  | pop _ list _ => list
  | push _ _ mutex _ _ _ _ => mutex

def op : StackOp N V → Op N V
  | pop .. => .pop
  | push _ _ _ _ _ bst i => .push bst i

omit [DecidableEq N] in
/-- A `push` of a stack other than a large one locks the mutex of its list. -/
theorem mutex_eq (o : StackOp N V) (small : o.mutex ≠ .large) : o.mutex = o.object := by
  cases o with
  | pop level list known => rfl
  | push stackSize list mutex known locks bst i =>
    have other : mutex ≠ .large := small
    show mutex = list
    unfold pushMutex at locks
    unfold pushList at known
    by_cases large : stackSize / 1024 = largeStackSize
    · rw [if_pos large] at locks
      cases locks
      exact absurd rfl other
    · rw [if_neg large] at locks known
      by_cases medium : stackSize / 1024 = mediumStackSize
      · rw [if_pos medium] at locks known
        exact Option.some.inj (locks.symm.trans known)
      · rw [if_neg medium] at locks known
        exact Option.some.inj (locks.symm.trans known)

end StackOp

def stackPool : Code PoolList PoolList (StackOp N V) (NodeList N V) (Line N V) (Option V) :=
  behind StackOp.object StackOp.mutex StackOp.op

abbrev StackState (T N V : Type) :=
  Monitor.State T PoolList PoolList (StackOp N V) (NodeList N V) (Line N V) (Option V)

instance (l : NodeList N V) (o : StackOp N V) : Decidable (stackPool.legal l o) :=
  inferInstanceAs (Decidable (l.legal o.op))

/-- The three lists, with each call in one step. -/
def stackQueues : Transition.Machine (Atomic T PoolList (StackOp N V) (Option V) (List V))
    (T × Deed (StackOp N V)) :=
  atomic stackPool (fun values o => perform values o.op) []

theorem stackPool_correct :
    Correct (stackPool : Code PoolList PoolList (StackOp N V) _ _ _) Represents
      fun values o => perform values o.op :=
  correct

/-- A `push` of a large stack does not lock while another thread is inside the list of the small
ones under their own mutex, nor the other way round. -/
def Spared (s : StackState T N V) :
    T × Event (StackOp N V) → Prop
  | (t, .lock) => ∀ o u o', s.pc t = .calling o → (s.pc u).work = some o' → o.object = o'.object →
      (o.mutex = .large ↔ o'.mutex = .large)
  | _ => True

omit [DecidableEq T] in
/-- Two operations on one list then lock the same mutex. -/
theorem matched_of_spared {s : StackState T N V} {label : T × Event (StackOp N V)}
    (spared : Spared s label) : Matched stackPool s label := by
  obtain ⟨t, event⟩ := label
  cases event with
  | lock =>
    intro o u o' calling work same
    have both := spared o u o' calling work same
    show o.mutex = o'.mutex
    by_cases large : o.mutex = .large
    · rw [large, both.mp large]
    · have same : o.object = o'.object := same
      rw [o.mutex_eq large, o'.mutex_eq fun other => large (both.mpr other), same]
  | call o | statement | unlock | ret => trivial

/-- In every interleaving in which no `push` of a large stack overlaps an operation on the list of
the small ones, no null or freed node is followed, every call returns what three queues return that
take the calls of this interleaving one after another, each when it unlocks, every list in memory is
its queue whenever nobody is inside it, and a thread that holds a mutex can go on. -/
theorem stackPool_serves (schedule : List (T × Event (StackOp N V))) (s : StackState T N V)
    (spared : ∀ u label, (machine stackPool .empty).Takes (start .empty) schedule u label →
      Spared u label)
    (ran : (machine stackPool .empty).exec (start .empty) schedule = some s) :
    ∃ s' : Atomic T PoolList (StackOp N V) (Option V) (List V),
      stackQueues.exec (.start []) (schedule.filterMap deed) = some s' ∧
      s.crashed = false ∧ (∀ t, s'.pc t = (s.pc t).seen) ∧
      (∀ list, (∀ t, (s.pc t).within stackPool list = false) →
        Represents (s.mem list) (s'.object list)) ∧
      ∀ mutex t, s.mutex mutex = some t →
        ∃ event next, Monitor.step stackPool s (t, event) = some next ∧ next.crashed = false := by
  obtain ⟨s', followed, related⟩ := exec_related stackPool_correct ⟨[], empty_holds⟩
    (fun u label takes => matched_of_spared (spared u label takes)) ran
  exact ⟨s', followed, related.running, related.seen, related.quiet,
    fun mutex t held => related.holder_goes_on held⟩

/-! ### Two stacks at once -/

/-- The `push` of a small stack and of a large one. -/
def pushMini : StackOp Nat Nat := .push (128 * 1024) .mini .mini rfl rfl 7 1

def pushLarge : StackOp Nat Nat := .push (4096 * 1024) .mini .large rfl rfl 8 2

/-- The small stack is pushed, and the thread with the large one calls next. -/
def oneByOne : List (Bool × Event (StackOp Nat Nat)) :=
  [(false, .call pushMini), (false, .lock)] ++ List.replicate 6 (false, .statement) ++
    [(false, .unlock), (true, .call pushLarge)]

/-- The only `lock` finds nobody inside a list. -/
theorem oneByOne_spared (u : StackState Bool Nat Nat) (label : Bool × Event (StackOp Nat Nat))
    (takes : (machine stackPool .empty).Takes (start .empty) oneByOne u label) :
    Spared u label := by
  rw [oneByOne, List.append_assoc, List.cons_append, List.cons_append,
    Transition.Machine.takes_cons rfl] at takes
  rcases takes with ⟨-, rfl⟩ | takes
  · trivial
  · rw [Transition.Machine.takes_cons rfl] at takes
    rcases takes with ⟨rfl, rfl⟩ | takes
    · intro o v o' _ work
      cases v <;> cases work
    · have listed := takes.mem
      simp only [List.mem_append, List.mem_replicate, List.mem_cons, List.not_mem_nil,
        or_false, List.nil_append] at listed
      rcases listed with ⟨-, rfl⟩ | rfl | rfl <;> trivial

theorem stackPool_serves_mini :
    ∃ (s : StackState Bool Nat Nat) (s' : Atomic Bool PoolList (StackOp Nat Nat) (Option Nat)
      (List Nat)), (machine stackPool .empty).exec (start .empty) oneByOne = some s ∧
      stackQueues.exec (.start []) (oneByOne.filterMap deed) = some s' ∧ s.crashed = false ∧
      Represents (s.mem .mini) (s'.object .mini) := by
  obtain ⟨s, ran⟩ : ∃ s, (machine stackPool .empty).exec
      (start .empty : StackState Bool Nat Nat) oneByOne = some s := ⟨_, rfl⟩
  obtain ⟨s', followed, running, -, lists, -⟩ := stackPool_serves oneByOne s oneByOne_spared ran
  refine ⟨s, s', ran, followed, running, lists .mini fun t => ?_⟩
  cases ran
  cases t <;> rfl

/-- Both find the list empty. -/
def overlapping : List (Bool × Event (StackOp Nat Nat)) :=
  [(false, .call pushMini), (true, .call pushLarge), (false, .lock), (true, .lock),
    (false, .statement), (false, .statement), (false, .statement),
    (true, .statement), (true, .statement), (true, .statement),
    (false, .statement), (false, .statement), (true, .statement), (true, .statement),
    (false, .statement), (true, .statement), (false, .unlock), (true, .unlock)]

/-- When the two overlap, the small stack is lost: the pool counts two and holds the large one. -/
theorem overlapping_loses : ∃ s : StackState Bool Nat Nat,
    (machine stackPool .empty).exec (start .empty) overlapping = some s ∧
      (s.mem .mini).size = 2 ∧ (s.mem .mini).head = some 2 ∧
      ∀ values, ¬ Represents (s.mem .mini) values := by
  refine ⟨_, rfl, rfl, rfl, ?_⟩
  rintro values ⟨entries, holds⟩
  have first := holds.linked.head_eq
  have chained := holds.linked.chained
  have size : 2 = entries.length := holds.size
  cases entries with
  | nil => cases first
  | cons n rest =>
    obtain rfl : 2 = n := Option.some.inj first
    -- nothing is linked behind the large stack
    have behind : none = rest.head? := chained.2.1
    have last : rest = [] := List.head?_eq_none_iff.mp behind.symm
    simp [last] at size

end BRoutine.Pools
