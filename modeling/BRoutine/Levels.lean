import Mathlib.Data.List.Basic
import BRoutine.Pool
import BRoutine.Transition

/-!
# Levels of pooled stacks

`pop` chooses a list by level and `push` by size. For each level `owed` holds the stacks of that
level that `push` has accepted and `pop` has not returned, in the order of their arrival, which is
what `pop` owes to its callers. `serves_iff` says for which runs the two switches agree.
-/

namespace BRoutine.Levels

/-- The pool and what it owes for each level. -/
structure State where
  pool : StackPool
  owed : Int → List Nat

/-- Calls of the pool; a stack is known by its number. -/
inductive Call where
  | push (st : Nat)
  | pop (level : Int)
  deriving DecidableEq, Repr

def initial : State := ⟨.new, fun _ => []⟩

/-- A call, where `made` is the level for which `bRoutineStack::New` has made each stack. A stack
that it has refused to make is not pushed. -/
def step (made : Nat → Int) (s : State) : Call → Option State
  | .push st =>
    match stackSizeOf (made st) with
    | none => none
    | some size =>
      match s.pool.push size st with
      | none => some s
      | some pool =>
        some ⟨pool, Function.update s.owed (made st) (s.owed (made st) ++ [st])⟩
  | .pop level =>
    match s.pool.pop level with
    | none => some s
    | some (st, pool) =>
      some ⟨pool, Function.update s.owed (made st) ((s.owed (made st)).erase st)⟩

def machine (made : Nat → Int) : Transition.Machine State Call where
  start s := s = initial
  step := step made

/-- `pop` gives the stack of the level that has waited longest, and none only if there is none. -/
def Serves (s : State) : Prop :=
  ∀ level, (s.pool.pop level).map Prod.fst = (s.owed level).head?

/-- `push` turns large stacks away. -/
def NoLarge (made : Nat → Int) (s : State) : Call → Prop
  | .push st => made st = 3 → s.pool.routineNums ≥ maxKeepRoutinesThread
  | .pop _ => True

variable {made : Nat → Int} {s t : State}

/-! ### Lists and levels -/

/-- The level for which `pop` looks at a list. -/
def level : PoolList → Int
  | .mini => 1
  | .medium => 2
  | .large => 3

theorem level_injective {l l' : PoolList} (same : level l = level l') : l = l' := by
  cases l <;> cases l' <;> first | rfl | (simp [level] at same)

theorem popList_some_iff {n : Int} {l : PoolList} : popList n = some l ↔ n = level l := by
  constructor
  · intro found
    simp only [popList] at found
    split at found
    next one => cases found; exact one
    · split at found
      next two => cases found; exact two
      · split at found
        next three => cases found; exact three
        · cases found
  · rintro rfl
    cases l <;> rfl

/-- A stack that `bRoutineStack::New` has made is of one of the three levels, and `push` files it
with its level unless it is a large one. -/
theorem made_level {n : Int} {size : Nat} (legal : stackSizeOf n = some size) :
    ∃ l, n = level l ∧ pushList size = some (if l = .large then .mini else l) := by
  simp only [stackSizeOf] at legal
  split at legal
  next one => cases legal; exact ⟨.mini, one, by decide⟩
  · split at legal
    next two => cases legal; exact ⟨.medium, two, by decide⟩
    · split at legal
      next three => cases legal; exact ⟨.large, three, by decide⟩
      · cases legal

/-- As long as no large stack is accepted each list holds what is owed for its level. -/
structure Sorted (made : Nat → Int) (s : State) : Prop where
  lists : ∀ l, s.pool.list l = s.owed (level l)
  none_large : s.owed 3 = []
  levels : ∀ n st, st ∈ s.owed n → made st = n
  others : ∀ n, popList n = none → s.owed n = []

theorem Sorted.initial : Sorted made initial :=
  ⟨fun _ => rfl, rfl, fun _ _ member => absurd member List.not_mem_nil, fun _ _ => rfl⟩

theorem Sorted.serves (sorted : Sorted made s) : Serves s := by
  intro n
  cases found : popList n with
  | none => simp [StackPool.pop, found, sorted.others n found]
  | some l =>
    have same := sorted.lists l
    rw [← popList_some_iff.mp found] at same
    simp only [StackPool.pop, found, ← same]
    cases s.pool.list l <;> rfl

/-! ### Steps -/

theorem Sorted.push (sorted : Sorted made s) {st size : Nat} {pool : StackPool}
    (legal : stackSizeOf (made st) = some size) (pushed : s.pool.push size st = some pool)
    (small : made st ≠ 3) :
    Sorted made ⟨pool, Function.update s.owed (made st) (s.owed (made st) ++ [st])⟩ := by
  obtain ⟨l, is_level, filed⟩ := made_level legal
  -- a large stack is the one `push` files with another level
  have not_large : l ≠ .large := by
    rintro rfl
    exact small is_level
  rw [if_neg not_large] at filed
  rw [StackPool.push] at pushed
  split at pushed
  · cases pushed
  · cases pushed
    constructor
    · intro l'
      simp only [StackPool.keep, filed]
      by_cases same : l' = l
      · rw [same, ← is_level, Function.update_self, Function.update_self, is_level, sorted.lists]
      · have differs : level l' ≠ made st := fun eq => same (level_injective (eq.trans is_level))
        rw [Function.update_of_ne same, Function.update_of_ne differs, sorted.lists]
    · exact (Function.update_of_ne (Ne.symm small) _ _).trans sorted.none_large
    · intro n st' member
      by_cases same : n = made st
      · subst same
        simp only [Function.update_self, List.mem_append, List.mem_singleton] at member
        rcases member with old | rfl
        · exact sorted.levels _ st' old
        · rfl
      · simp only [Function.update_of_ne same] at member
        exact sorted.levels n st' member
    · intro n outside
      have differs : n ≠ made st := by
        rintro rfl
        rw [popList_some_iff.mpr is_level] at outside
        cases outside
      exact (Function.update_of_ne differs _ _).trans (sorted.others n outside)

theorem Sorted.pop (sorted : Sorted made s) {n : Int} {st : Nat} {pool : StackPool}
    (popped : s.pool.pop n = some (st, pool)) :
    Sorted made ⟨pool, Function.update s.owed (made st) ((s.owed (made st)).erase st)⟩ := by
  cases found : popList n with
  | none => simp [StackPool.pop, found] at popped
  | some l =>
    have is_level := popList_some_iff.mp found
    simp only [StackPool.pop, found] at popped
    split at popped
    · cases popped
    next rest head =>
      cases popped
      -- the stack that comes out is the first that the level is owed
      have owed : s.owed n = st :: rest := by rw [is_level, ← sorted.lists l, head]
      have of_level : made st = n := sorted.levels n st (by rw [owed]; exact List.mem_cons_self ..)
      rw [of_level, owed, List.erase_cons_head]
      constructor
      · intro l'
        by_cases same : l' = l
        · subst same
          simp only [is_level, Function.update_self]
        · have differs : level l' ≠ n := fun eq => same (level_injective (eq.trans is_level))
          simp only [Function.update_of_ne same, Function.update_of_ne differs, sorted.lists]
      · by_cases same : n = 3
        · rw [same, sorted.none_large] at owed
          cases owed
        · exact (Function.update_of_ne (Ne.symm same) _ _).trans sorted.none_large
      · intro n' st' member
        by_cases same : n' = n
        · subst same
          simp only [Function.update_self] at member
          exact sorted.levels n' st' (by rw [owed]; exact List.mem_cons_of_mem _ member)
        · simp only [Function.update_of_ne same] at member
          exact sorted.levels n' st' member
      · intro n' outside
        have differs : n' ≠ n := by
          rintro rfl
          rw [found] at outside
          cases outside
        exact (Function.update_of_ne differs _ _).trans (sorted.others n' outside)

theorem Sorted.step {c : Call} (sorted : Sorted made s) (small : NoLarge made s c)
    (stepped : Levels.step made s c = some t) : Sorted made t := by
  cases c with
  | push st =>
    cases legal : stackSizeOf (made st) with
    | none => simp [Levels.step, legal] at stepped
    | some size =>
      cases pushed : s.pool.push size st with
      | none =>
        simp only [Levels.step, legal, pushed, Option.some.injEq] at stepped
        rwa [← stepped]
      | some pool =>
        simp only [Levels.step, legal, pushed, Option.some.injEq] at stepped
        rw [← stepped]
        -- a large stack can only have been refused
        refine sorted.push legal pushed fun large => ?_
        have full := small large
        rw [StackPool.push, if_pos full] at pushed
        cases pushed
  | pop n =>
    cases popped : s.pool.pop n with
    | none =>
      simp only [Levels.step, popped, Option.some.injEq] at stepped
      rwa [← stepped]
    | some found =>
      simp only [Levels.step, popped, Option.some.injEq] at stepped
      rw [← stepped]
      exact sorted.pop popped

/-- A large stack that is accepted is owed and not in the list that `pop` looks at. -/
theorem Sorted.large_lost {c : Call} (sorted : Sorted made s) (large : ¬ NoLarge made s c)
    (stepped : Levels.step made s c = some t) : ¬ Serves t := by
  cases c with
  | pop n => exact absurd trivial large
  | push st =>
    obtain ⟨is_large, room⟩ := Classical.not_imp.mp large
    have legal : stackSizeOf (made st) = some (largeStackSize * 1024) := by rw [is_large]; rfl
    have filed : pushList (largeStackSize * 1024) = some .mini := by decide
    simp only [Levels.step, legal, StackPool.push, if_neg room, Option.some.injEq] at stepped
    intro serves
    have lost := serves 3
    rw [← stepped] at lost
    have empty : s.pool.list .large = [] := (sorted.lists .large).trans sorted.none_large
    simp [StackPool.pop, popList, StackPool.keep, filed, is_large, empty, sorted.none_large] at lost

/-! ### Runs -/

/-- `pop` gives every level what it is owed, in order, exactly as long as no large stack is
accepted. -/
theorem serves_iff (made : Nat → Int) (schedule : List Call) :
    (∀ t, (machine made).Visits initial schedule t → Serves t) ↔
      ∀ t c, (machine made).Takes initial schedule t c → NoLarge made t c :=
  (machine made).safe_iff_steps_ok (Sorted made) (NoLarge made)
    (fun _ _ _ sorted small stepped => sorted.step small stepped) (fun _ sorted => sorted.serves)
    (fun _ _ _ sorted large stepped => sorted.large_lost large stepped) .initial schedule

/-- One large stack is pushed into the new pool. -/
theorem large_not_served :
    ¬ ∀ (made : Nat → Int) (s : State), (machine made).Reachable s → Serves s := by
  intro serves
  have reached : (machine fun _ => 3).Reachable initial := .start rfl
  have served := serves _ _ (.step (a := .push 0) reached trivial rfl) 3
  simp [StackPool.pop, popList, StackPool.keep, pushList, largeStackSize, initial, StackPool.new]
    at served

end BRoutine.Levels
