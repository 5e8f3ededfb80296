import BRoutine.LockOrder

/-!
# The order of the queue mutexes

What `pushBack`, `popHead`, `Try2stealTask` and `pushAll2` do to the mutexes of the lists they
work on. Which of them they lock depends on `ItemCount`, which other threads change, so every
load of it may give any number. All four take `HeadMutex` before `TailMutex`, and those of a
private list last.
-/

namespace BRoutine.Locks

open LockOrder

/-- A `TaskItemsList` that threads share, or one that is private to the thread `t`. -/
inductive Lst (T Q : Type) where
  | shared (q : Q)
  | own (t : T) (k : Nat)
  deriving DecidableEq, Repr

inductive Mutex (T Q : Type) where
  | headMutex (list : Lst T Q)
  | tailMutex (list : Lst T Q)
  deriving DecidableEq, Repr

/-- The program points of `pushBack`, with the local variable `lockHead` where it is read. -/
inductive PushPc where
  /-- `retry`: `ItemCount.load() < 2` -/
  | load
  | lockHead
  | lockTail (lockHead : Bool)
  /-- `ItemCount.load() < 2 && !lockHead` -/
  | check (lockHead : Bool)
  /-- `pthread_mutex_unlock(TailMutex); goto retry` -/
  | retry
  | pushBackUnsafe (lockHead : Bool)
  | unlockHead
  | unlockTail
  | ret
  deriving DecidableEq, Repr

/-- The program points of `popHead`, with the local variable `lockTail` where it is read. -/
inductive PopPc where
  | load
  | lockHead
  /-- `ItemCount.load() < 2` -/
  | check
  | lockTail
  | popHeadUnsafe (lockTail : Bool)
  | unlockHead (lockTail : Bool)
  | unlockTail
  | ret
  deriving DecidableEq, Repr

/-- The program points of `Try2stealTask`. -/
inductive StealPc where
  | load
  | tryHead
  /-- `ItemCount.load() < 2` -/
  | check
  /-- `ItemCount.load() == 0` with `HeadMutex` locked -/
  | recheck
  | tryTail
  /-- `popHeadUnsafe` with both mutexes, and the `pushBackUnsafe` of a main -/
  | popLast
  | unlockTail
  /-- `popHeadUnsafe` with `HeadMutex`, and the `IsMain` of what it gives -/
  | pop
  | lockTail
  | pushBackUnsafe
  | unlockHeadFirst
  | unlockTailLast
  | unlockHead
  | ret
  deriving DecidableEq, Repr

/-- The program points of `pushAll2(i)`. -/
inductive MovePc where
  | lockHead
  | lockTail
  | lockHeadOfI
  | lockTailOfI
  /-- `(t = RemoveSelfFromOwnerlink(head)) != nullptr` and the body of the loop -/
  | move
  | unlockTailOfI
  | unlockHeadOfI
  | unlockTail
  | unlockHead
  | ret
  deriving DecidableEq, Repr

/-- Where a thread stands in one of the operations. `pushAll2` moves from a shared list to one
that is private to its caller. -/
inductive Pc (T Q : Type) where
  | pushBack (list : Lst T Q) (at_ : PushPc)
  | popHead (list : Lst T Q) (at_ : PopPc)
  | steal (activeTask : Lst T Q) (at_ : StealPc)
  | pushAll2 (list : Q) (t : T) (k : Nat) (at_ : MovePc)
  deriving DecidableEq, Repr

variable {T Q : Type}

def pushBack (list : Lst T Q) : PushPc → Instr (Mutex T Q) (Pc T Q) :=
  let goto p := Pc.pushBack list p
  fun
  | .load => .read fun itemCount => goto (if itemCount < 2 then .lockHead else .lockTail false)
  | .lockHead => .lock (.headMutex list) (goto (.lockTail true))
  | .lockTail lockHead => .lock (.tailMutex list) (goto (.check lockHead))
  | .check lockHead => .read fun itemCount =>
    goto (if itemCount < 2 ∧ lockHead = false then .retry else .pushBackUnsafe lockHead)
  | .retry => .unlock (.tailMutex list) (goto .load)
  | .pushBackUnsafe lockHead => .read fun _ =>
    goto (if lockHead then .unlockHead else .unlockTail)
  | .unlockHead => .unlock (.headMutex list) (goto .unlockTail)
  | .unlockTail => .unlock (.tailMutex list) (goto .ret)
  | .ret => .ret

def popHead (list : Lst T Q) : PopPc → Instr (Mutex T Q) (Pc T Q) :=
  let goto p := Pc.popHead list p
  fun
  | .load => .read fun itemCount => goto (if itemCount = 0 then .ret else .lockHead)
  | .lockHead => .lock (.headMutex list) (goto .check)
  | .check => .read fun itemCount =>
    goto (if itemCount < 2 then .lockTail else .popHeadUnsafe false)
  | .lockTail => .lock (.tailMutex list) (goto (.popHeadUnsafe true))
  | .popHeadUnsafe lockTail => .read fun _ => goto (.unlockHead lockTail)
  | .unlockHead lockTail =>
    .unlock (.headMutex list) (goto (if lockTail then .unlockTail else .ret))
  | .unlockTail => .unlock (.tailMutex list) (goto .ret)
  | .ret => .ret

/-- `Try2stealTask`. The number read by `pop` stands for `a->self->IsMain`. -/
def try2stealTask (activeTask : Lst T Q) : StealPc → Instr (Mutex T Q) (Pc T Q) :=
  let goto p := Pc.steal activeTask p
  fun
  | .load => .read fun itemCount => goto (if itemCount = 0 then .ret else .tryHead)
  | .tryHead => .tryLock (.headMutex activeTask) (goto .check) (goto .ret)
  | .check => .read fun itemCount => goto (if itemCount < 2 then .recheck else .pop)
  | .recheck => .read fun itemCount => goto (if itemCount = 0 then .unlockHead else .tryTail)
  | .tryTail => .tryLock (.tailMutex activeTask) (goto .popLast) (goto .unlockHead)
  | .popLast => .read fun _ => goto .unlockTail
  | .unlockTail => .unlock (.tailMutex activeTask) (goto .unlockHead)
  | .pop => .read fun isMain => goto (if isMain = 0 then .unlockHead else .lockTail)
  | .lockTail => .lock (.tailMutex activeTask) (goto .pushBackUnsafe)
  | .pushBackUnsafe => .read fun _ => goto .unlockHeadFirst
  | .unlockHeadFirst => .unlock (.headMutex activeTask) (goto .unlockTailLast)
  | .unlockTailLast => .unlock (.tailMutex activeTask) (goto .ret)
  | .unlockHead => .unlock (.headMutex activeTask) (goto .ret)
  | .ret => .ret

/-- `pushAll2`, with the guards unlocked in the reverse of the order in which they were made. -/
def pushAll2 (list : Q) (t : T) (k : Nat) : MovePc → Instr (Mutex T Q) (Pc T Q) :=
  let goto p := Pc.pushAll2 list t k p
  fun
  | .lockHead => .lock (.headMutex (.shared list)) (goto .lockTail)
  | .lockTail => .lock (.tailMutex (.shared list)) (goto .lockHeadOfI)
  | .lockHeadOfI => .lock (.headMutex (.own t k)) (goto .lockTailOfI)
  | .lockTailOfI => .lock (.tailMutex (.own t k)) (goto .move)
  | .move => .read fun item => goto (if item = 0 then .unlockTailOfI else .move)
  | .unlockTailOfI => .unlock (.tailMutex (.own t k)) (goto .unlockHeadOfI)
  | .unlockHeadOfI => .unlock (.headMutex (.own t k)) (goto .unlockTail)
  | .unlockTail => .unlock (.tailMutex (.shared list)) (goto .unlockHead)
  | .unlockHead => .unlock (.headMutex (.shared list)) (goto .ret)
  | .ret => .ret

def code : Pc T Q → Instr (Mutex T Q) (Pc T Q)
  | .pushBack list p => pushBack list p
  | .popHead list p => popHead list p
  | .steal activeTask p => try2stealTask activeTask p
  | .pushAll2 list t k p => pushAll2 list t k p

section machine

variable [DecidableEq T] [DecidableEq Q]

/-- A thread works on shared lists and on its private ones. -/
def Lst.usedBy (t : T) : Lst T Q → Bool
  | .shared _ => true
  | .own u _ => u = t

/-- The calls a thread may make. -/
def entry (t : T) : Pc T Q → Bool
  | .pushBack list .load => list.usedBy t
  | .popHead list .load => list.usedBy t
  | .steal activeTask .load => activeTask.usedBy t
  | .pushAll2 _ u _ .lockHead => u = t
  | _ => false

/-- Any number of threads on any number of lists. -/
def machine (T Q : Type) [DecidableEq T] [DecidableEq Q] :
    Transition.Machine (State T (Mutex T Q) (Pc T Q)) (Label T (Pc T Q)) :=
  LockOrder.machine code fun t p => entry t p = true

end machine

/-! ### What the operations hold -/

/-- The mutexes that `pushBack` holds at a point. -/
def pushHolds (list : Lst T Q) : PushPc → Set (Mutex T Q)
  | .load | .lockHead | .ret | .lockTail false => ∅
  | .lockTail true => {.headMutex list}
  | .check false | .pushBackUnsafe false | .retry | .unlockTail => {.tailMutex list}
  | .check true | .pushBackUnsafe true | .unlockHead => {.tailMutex list, .headMutex list}

def popHolds (list : Lst T Q) : PopPc → Set (Mutex T Q)
  | .load | .lockHead | .ret => ∅
  | .check | .lockTail | .popHeadUnsafe false | .unlockHead false => {.headMutex list}
  | .popHeadUnsafe true | .unlockHead true => {.tailMutex list, .headMutex list}
  | .unlockTail => {.tailMutex list}

def stealHolds (activeTask : Lst T Q) : StealPc → Set (Mutex T Q)
  | .load | .tryHead | .ret => ∅
  | .check | .recheck | .tryTail | .pop | .lockTail | .unlockHead => {.headMutex activeTask}
  | .popLast | .unlockTail | .pushBackUnsafe | .unlockHeadFirst =>
    {.tailMutex activeTask, .headMutex activeTask}
  | .unlockTailLast => {.tailMutex activeTask}

def moveHolds (list : Q) (t : T) (k : Nat) : MovePc → Set (Mutex T Q)
  | .lockHead | .ret => ∅
  | .lockTail | .unlockHead => {.headMutex (.shared list)}
  | .lockHeadOfI | .unlockTail => {.tailMutex (.shared list), .headMutex (.shared list)}
  | .lockTailOfI | .unlockHeadOfI =>
    {.headMutex (.own t k), .tailMutex (.shared list), .headMutex (.shared list)}
  | .move | .unlockTailOfI =>
    {.tailMutex (.own t k), .headMutex (.own t k), .tailMutex (.shared list),
      .headMutex (.shared list)}

def holds : Pc T Q → Set (Mutex T Q)
  | .pushBack list p => pushHolds list p
  | .popHead list p => popHolds list p
  | .steal activeTask p => stealHolds activeTask p
  | .pushAll2 list t k p => moveHolds list t k p

/-- The order in which mutexes are locked. -/
def rank : Mutex T Q → Nat
  | .headMutex (.shared _) => 0
  | .tailMutex (.shared _) => 1
  | .headMutex (.own _ _) => 2
  | .tailMutex (.own _ _) => 3

theorem rank_headMutex_lt (list : Lst T Q) : rank (.headMutex list) < rank (.tailMutex list) := by
  cases list <;> simp [rank]

theorem pushBack_follows (list : Lst T Q) (p : PushPc) :
    Follows holds rank (pushHolds list p) (pushBack list p) := by
  have order := rank_headMutex_lt list
  -- the only lock with a mutex held is that of `TailMutex`
  cases p with
  | load => intro itemCount; dsimp only; split <;> rfl
  | lockHead => simp [pushBack, Follows, holds, pushHolds]
  | lockTail lockHead =>
    cases lockHead with
    | false => simp [pushBack, Follows, holds, pushHolds]
    | true => simp [pushBack, Follows, holds, pushHolds, order]
  | check lockHead =>
    intro itemCount
    dsimp only
    split
    next gives_up => rw [gives_up.2]; rfl
    next => cases lockHead <;> rfl
  | retry => simp [pushBack, Follows, holds, pushHolds]
  | pushBackUnsafe lockHead => intro value; cases lockHead <;> rfl
  | unlockHead => simp [pushBack, Follows, holds, pushHolds]
  | unlockTail => simp [pushBack, Follows, holds, pushHolds]
  | ret => rfl

theorem popHead_follows (list : Lst T Q) (p : PopPc) :
    Follows holds rank (popHolds list p) (popHead list p) := by
  have order := rank_headMutex_lt list
  cases p with
  | load => intro itemCount; dsimp only; split <;> rfl
  | lockHead => simp [popHead, Follows, holds, popHolds]
  | check => intro itemCount; dsimp only; split <;> rfl
  | lockTail => simp [popHead, Follows, holds, popHolds, order]
  | popHeadUnsafe lockTail => intro value; cases lockTail <;> rfl
  | unlockHead lockTail => cases lockTail <;> simp [popHead, Follows, holds, popHolds]
  | unlockTail => simp [popHead, Follows, holds, popHolds]
  | ret => rfl

theorem try2stealTask_follows (activeTask : Lst T Q) (p : StealPc) :
    Follows holds rank (stealHolds activeTask p) (try2stealTask activeTask p) := by
  have order := rank_headMutex_lt activeTask
  -- `TailMutex` is waited for in the branch of a main only, and tried for in the other
  cases p with
  | load => intro itemCount; dsimp only; split <;> rfl
  | tryHead => simp [try2stealTask, Follows, holds, stealHolds]
  | check => intro itemCount; dsimp only; split <;> rfl
  | recheck => intro itemCount; dsimp only; split <;> rfl
  | tryTail => simp [try2stealTask, Follows, holds, stealHolds]
  | popLast => intro value; rfl
  | unlockTail => simp [try2stealTask, Follows, holds, stealHolds]
  | pop => intro isMain; dsimp only; split <;> rfl
  | lockTail => simp [try2stealTask, Follows, holds, stealHolds, order]
  | pushBackUnsafe => intro value; rfl
  | unlockHeadFirst => simp [try2stealTask, Follows, holds, stealHolds]
  | unlockTailLast => simp [try2stealTask, Follows, holds, stealHolds]
  | unlockHead => simp [try2stealTask, Follows, holds, stealHolds]
  | ret => rfl

theorem pushAll2_follows (list : Q) (t : T) (k : Nat) (p : MovePc) :
    Follows holds rank (moveHolds list t k p) (pushAll2 list t k p) := by
  cases p with
  | move => intro item; dsimp only; split <;> rfl
  | ret => rfl
  -- the private list comes after the shared one
  | lockHead | lockTail | lockHeadOfI | lockTailOfI =>
    simp [pushAll2, Follows, holds, moveHolds, rank]
  | unlockTailOfI | unlockHeadOfI | unlockTail | unlockHead =>
    simp [pushAll2, Follows, holds, moveHolds]

section machine

variable [DecidableEq T] [DecidableEq Q]

omit [DecidableEq Q] in
theorem entry_holds {t : T} {p : Pc T Q} (calls : entry t p = true) : holds p = ∅ := by
  unfold entry at calls
  split at calls
  · rfl
  · rfl
  · rfl
  · rfl
  · cases calls

omit [DecidableEq Q] in
theorem code_ordered :
    Ordered (T := T) code (fun t (p : Pc T Q) => entry t p = true) holds rank where
  entry _ _ calls := entry_holds calls
  follows p := by
    cases p with
    | pushBack list p => exact pushBack_follows list p
    | popHead list p => exact popHead_follows list p
    | steal activeTask p => exact try2stealTask_follows activeTask p
    | pushAll2 list t k p => exact pushAll2_follows list t k p

/-- In every interleaving, whatever the loads of `ItemCount` give: no threads wait in a cycle for
mutexes that the next one holds, none locks or tries a mutex that it holds, and one whose
operation returns, or that runs none, holds no mutex. -/
theorem never_deadlocks {s : State T (Mutex T Q) (Pc T Q)}
    (reached : (machine T Q).Reachable s) :
    (∀ t, ¬ Relation.TransGen (Waits code s) t t) ∧
    (∀ t m, Takes code s t m → s.holder m ≠ some t) ∧
    ∀ t, (∀ p, s.pc t = some p → code p = .ret) → ∀ m, s.holder m ≠ some t := by
  have held := reached_held code_ordered reached
  refine ⟨?_, ?_, ?_⟩
  · intro t
    exact no_cycle code_ordered held t
  · intro t m takes
    exact not_holder_of_takes code_ordered held takes
  · intro t returns
    exact released code_ordered held returns

/-- A thread in `popHead` waits for the `HeadMutex` that another one has locked in `pushBack`. -/
theorem never_deadlocks_waiting : ∃ s, (machine Bool Unit).exec initial
      [.call false (.pushBack (.shared ()) .load), .run false 0, .run false 0,
        .call true (.popHead (.shared ()) .load), .run true 1] = some s ∧
    Waits code s true false ∧ ¬ Relation.TransGen (Waits code s) true true := by
  have ran : (machine Bool Unit).exec initial
      [.call false (.pushBack (.shared ()) .load), .run false 0, .run false 0,
        .call true (.popHead (.shared ()) .load), .run true 1] = some _ := rfl
  have reached := Transition.Machine.exec_reachable (.start rfl) ran
  exact ⟨_, ran, ⟨_, _, _, rfl, rfl, rfl⟩, (never_deadlocks reached).1 true⟩

/-- As long as one of finitely many threads is in an operation, one of them can go on. -/
theorem someone_runs [Finite T] {s : State T (Mutex T Q) (Pc T Q)}
    (reached : (machine T Q).Reachable s) {t : T} (runs : s.pc t ≠ none) :
    ∃ u, ∀ value, ((machine T Q).step s (.run u value)).isSome := by
  obtain ⟨u, p, at_, moves⟩ := someone_moves code_ordered (reached_held code_ordered reached) runs
  refine ⟨u, fun value => ?_⟩
  simpa [machine, LockOrder.machine, step, at_] using moves value

end machine

end BRoutine.Locks
