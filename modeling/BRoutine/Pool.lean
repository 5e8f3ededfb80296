import Mathlib.Logic.Function.Basic

/-!
# The pool of stacks

`bUnSharedStackPool_t` with the two switches that choose a list: `pop` by the stack level that is
asked for, `push` by the size of the stack that comes back.
-/

namespace BRoutine

def maxKeepRoutinesThread : Int := 1000

def miniStackSize : Nat := 128
def mediumStackSize : Nat := 1024
def largeStackSize : Nat := 4096

/-- The `StackSize` that `bRoutineStack::New` gives a stack; it throws for any other level. -/
def stackSizeOf (level : Int) : Option Nat :=
  if level = 1 then some (miniStackSize * 1024)
  else if level = 2 then some (mediumStackSize * 1024)
  else if level = 3 then some (largeStackSize * 1024)
  else none

/-- The three lists of the pool. -/
inductive PoolList where
  | mini
  | medium
  | large
  deriving DecidableEq, Repr

/-- The switch of `pop`. -/
def popList (level : Int) : Option PoolList :=
  if level = 1 then some .mini
  else if level = 2 then some .medium
  else if level = 3 then some .large
  else none

/-- The switch of `push`: a large stack goes to the list of the small ones. -/
def pushList (stackSize : Nat) : Option PoolList :=
  if stackSize / 1024 = largeStackSize then some .mini
  else if stackSize / 1024 = mediumStackSize then some .medium
  else if stackSize / 1024 = miniStackSize then some .mini
  else none

structure StackPool where
  list : PoolList → List Nat
  routineNums : Int

namespace StackPool

/-- `bUnSharedStackPool_t::New`. -/
def new : StackPool := ⟨fun _ => [], 0⟩

/-- `bUnSharedStackPool_t::pop`. -/
def pop (pool : StackPool) (level : Int) : Option (Nat × StackPool) :=
  match popList level with
  | none => none
  | some l =>
    match pool.list l with
    | [] => none
    | st :: rest => some (st, ⟨Function.update pool.list l rest, pool.routineNums - 1⟩)

/-- What `push` does with the lists. -/
def keep (pool : StackPool) (stackSize st : Nat) : StackPool :=
  match pushList stackSize with
  | none => pool
  | some l => { pool with list := Function.update pool.list l (pool.list l ++ [st]) }

/-- `bUnSharedStackPool_t::push` of a stack of `stackSize` bytes, nothing for its -1. -/
def push (pool : StackPool) (stackSize st : Nat) : Option StackPool :=
  if pool.routineNums ≥ maxKeepRoutinesThread then none
  else
    let pool := pool.keep stackSize st
    some { pool with routineNums := pool.routineNums + 1 }

end StackPool

/-! ### Every stack has a list -/

/-- The sizes that `bRoutineStack::New` gives. -/
def stackSizes : List Nat := [miniStackSize * 1024, mediumStackSize * 1024, largeStackSize * 1024]

theorem stackSizeOf_mem {level : Int} {size : Nat} (some : stackSizeOf level = some size) :
    size ∈ stackSizes := by
  simp only [stackSizeOf] at some
  split at some
  · cases some; decide
  · split at some
    · cases some; decide
    · split at some
      · cases some; decide
      · cases some

theorem pushList_some {size : Nat} (legal : size ∈ stackSizes) : ∃ l, pushList size = some l := by
  simp only [stackSizes, List.mem_cons, List.not_mem_nil, or_false] at legal
  rcases legal with rfl | rfl | rfl
  · exact ⟨.mini, by decide⟩
  · exact ⟨.medium, by decide⟩
  · exact ⟨.mini, by decide⟩

namespace StackPool

/-- `RoutineNums` is what is in the lists, and at most `Max_Keep_Routines_Thread`. -/
structure Counted (pool : StackPool) : Prop where
  total : pool.routineNums =
    (pool.list .mini).length + (pool.list .medium).length + (pool.list .large).length
  bound : pool.routineNums ≤ maxKeepRoutinesThread

variable {pool pool' : StackPool} {level : Int} {size st : Nat}

theorem pop_cases (popped : pool.pop level = some (st, pool')) :
    ∃ l rest, pool.list l = st :: rest ∧
      pool' = ⟨Function.update pool.list l rest, pool.routineNums - 1⟩ := by
  rw [pop] at popped
  split at popped
  · cases popped
  next l _ =>
    split at popped
    · cases popped
    next rest head =>
      cases popped
      exact ⟨l, rest, head, rfl⟩

theorem push_cases (legal : size ∈ stackSizes) (pushed : pool.push size st = some pool') :
    pool.routineNums < maxKeepRoutinesThread ∧ ∃ l,
      pool' = ⟨Function.update pool.list l (pool.list l ++ [st]), pool.routineNums + 1⟩ := by
  obtain ⟨l, found⟩ := pushList_some legal
  rw [push] at pushed
  split at pushed
  · cases pushed
  next room =>
    cases pushed
    refine ⟨Int.not_le.mp room, l, ?_⟩
    simp [keep, found]

theorem Counted.pop (counted : pool.Counted) (popped : pool.pop level = some (st, pool')) :
    pool'.Counted := by
  obtain ⟨total, bound⟩ := counted
  obtain ⟨l, rest, head, rfl⟩ := pop_cases popped
  cases l <;> constructor <;> simp [head] at total bound ⊢ <;> omega

theorem Counted.push (counted : pool.Counted) (legal : size ∈ stackSizes)
    (pushed : pool.push size st = some pool') : pool'.Counted := by
  obtain ⟨total, -⟩ := counted
  obtain ⟨room, l, rfl⟩ := push_cases legal pushed
  cases l <;> constructor <;> simp at total ⊢ <;> omega

end StackPool

end BRoutine
