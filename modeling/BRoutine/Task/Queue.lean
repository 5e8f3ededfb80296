import Mathlib.Logic.Function.Basic
import BRoutine.Transition

/-!
# The two mutexes of TaskItemsList

`TaskItemsList::pushBack` and `popHead` of `b_task.cc`, with `pushBackUnsafe`, `popHeadUnsafe` and
`RemoveSelfFromOwnerlink`, run by any number of threads on one list. A step is one lock or unlock
of a mutex, one load or update of `ItemCount`, or one read or write of `head`, `tail`, `next`,
`prev` or `owner`; a program point is named after the statement that is about to run.

A call of `pushBack` is given an item that is not in use: a fresh `TaskItem` or one that a
`popHead` has returned.
-/

namespace BRoutine.TwoLock

/-- The program points of `pushBack(i)` and of the `pushBackUnsafe(i)` in it. -/
inductive PushPc (I : Type) where
  /-- `retry`: `ItemCount.load() < 2` -/
  | load
  | lockHead
  | lockTail
  /-- `ItemCount.load() < 2 && !lockHead` -/
  | check
  /-- `pthread_mutex_unlock(TailMutex); goto retry` -/
  | retry
  | inc
  | testHead
  | testTail
  | setHead
  /-- `tail = i` on the empty list -/
  | setTail
  /-- the `tail` of `tail->next = i` -/
  | readTail
  | setNext (tail : Option I)
  /-- the `tail` of `i->prev = tail` -/
  | rereadTail
  | setPrev (tail : Option I)
  /-- `tail = i` behind the old tail -/
  | moveTail
  | clearNext
  | setOwner
  | unlockHead
  | unlockTail
  deriving DecidableEq, Repr

/-- The program points of `RemoveSelfFromOwnerlink` past `i->owner->head == i`, for an item that
is not the head. -/
inductive InnerPc (I : Type) where
  | isTail
  /-- the `i->prev` of `i->owner->tail = i->prev` -/
  | readPrev
  | setTail (prev : Option I)
  /-- the `i->prev` of `i->prev->next = nullptr` -/
  | rereadPrev
  | clearPrevNext (prev : Option I)
  | clearPrev
  | clearOwner
  /-- `p = i->prev` of an item that is not the tail either -/
  | readP
  | readN (p : Option I)
  | dropOwner (p n : Option I)
  | setNext (p n : Option I)
  | setPrev (p n : Option I)
  | clearNext
  | dropPrev
  deriving DecidableEq, Repr

/-- The program points of `popHead()`, of the `popHeadUnsafe()` in it and of its
`RemoveSelfFromOwnerlink(head)`, where `i` is the item read from `head`. -/
inductive PopPc (I : Type) where
  /-- `ItemCount.load() == 0` -/
  | load
  | lockHead
  /-- `ItemCount.load() < 2` -/
  | check
  | lockTail
  /-- `ItemCount.load() == 0` in `popHeadUnsafe` -/
  | count
  | testTail
  | testHead
  | dec
  | readHead
  | testOwner (i : I)
  | isHead (i : I)
  | isTail (i : I)
  | clearHead (i : I)
  | clearTail (i : I)
  /-- the `i->next` of `i->next->prev = NULL` -/
  | readNext (i : I)
  | clearPrev (i : I) (next : Option I)
  /-- the `i->next` of `i->owner->head = i->next` -/
  | rereadNext (i : I)
  | setHead (i : I) (next : Option I)
  | clearNext (i : I)
  | clearOwner (i : I)
  | inner (i : I) (at_ : InnerPc I)
  | unlockHead (result : Option I)
  | unlockTail (result : Option I)
  | ret (result : Option I)
  deriving DecidableEq, Repr

/-- Where a thread stands, with the local variable `lockHead` or `lockTail` of its call. -/
inductive Pc (I : Type) where
  | idle
  | push (i : I) (lockHead : Bool) (at_ : PushPc I)
  | pop (lockTail : Bool) (at_ : PopPc I)
  deriving DecidableEq, Repr

/-- The fields of the list and of its items; `owner` tells whether the item points back to the
list. -/
structure Mem (I : Type) where
  head : Option I
  tail : Option I
  next : I → Option I
  prev : I → Option I
  owner : I → Bool
  /-- `std::atomic_uint32_t ItemCount` -/
  itemCount : Nat

/-- The memory, the mutexes with their holders and the program points. `linked` and `left` are
the items in the order in which they were linked at the tail and taken out of the links; an item
is `busy` from its `pushBack` until a `popHead` returns it, and `twice` records that an item
was returned when it was not busy. -/
structure State (T I : Type) where
  mem : Mem I
  headMutex : Option T
  tailMutex : Option T
  pc : T → Pc I
  crashed : Bool
  linked : List I
  left : List I
  busy : I → Bool
  twice : Bool

/-- A thread calls `pushBack(i)` or `popHead()`, or runs the next step of its call. -/
inductive Label (T I : Type) where
  | pushBack (t : T) (i : I)
  | popHead (t : T)
  | run (t : T)
  deriving DecidableEq, Repr

variable {T I : Type} [DecidableEq T] [DecidableEq I]

namespace State

/-- The thread `t` moves on. -/
def goto (s : State T I) (t : T) (p : Pc I) : State T I :=
  { s with pc := Function.update s.pc t p }

/-- The thread `t` writes to the memory and moves on. -/
def write (s : State T I) (m : Mem I) (t : T) (p : Pc I) : State T I := { s with mem := m }.goto t p

/-- A null pointer is dereferenced. -/
def crash (s : State T I) : State T I := { s with crashed := true }

end State

/-- `TaskItemsList::New`, with items from `TaskItem::New`. -/
def initial : State T I where
  mem := ⟨none, none, fun _ => none, fun _ => none, fun _ => false, 0⟩
  headMutex := none
  tailMutex := none
  pc := fun _ => .idle
  crashed := false
  linked := []
  left := []
  busy := fun _ => false
  twice := false

namespace Mem

/-- `++ItemCount` on 32 bits. -/
def inc (m : Mem I) : Mem I := { m with itemCount := (m.itemCount + 1) % 4294967296 }

/-- `--ItemCount` on 32 bits. -/
def dec (m : Mem I) : Mem I :=
  { m with itemCount := if m.itemCount = 0 then 4294967295 else m.itemCount - 1 }

def setNext (m : Mem I) (i : I) (next : Option I) : Mem I :=
  { m with next := Function.update m.next i next }

def setPrev (m : Mem I) (i : I) (prev : Option I) : Mem I :=
  { m with prev := Function.update m.prev i prev }

def setOwner (m : Mem I) (i : I) (owner : Bool) : Mem I :=
  { m with owner := Function.update m.owner i owner }

end Mem

/-- A step of `pushBack(i)` by `t`. -/
def pushStep (s : State T I) (t : T) (i : I) (lockHead : Bool) (at_ : PushPc I) :
    Option (State T I) :=
  let goto p := some (s.goto t (.push i lockHead p))
  let write m p := some (s.write m t (.push i lockHead p))
  match at_ with
  | .load => goto (if s.mem.itemCount < 2 then .lockHead else .lockTail)
  | .lockHead =>
    if s.headMutex = none then
      some ({ s with headMutex := some t }.goto t (.push i true .lockTail)) else none
  | .lockTail =>
    if s.tailMutex = none then
      some ({ s with tailMutex := some t }.goto t (.push i lockHead .check)) else none
  | .check => goto (if s.mem.itemCount < 2 ∧ lockHead = false then .retry else .inc)
  | .retry => some ({ s with tailMutex := none }.goto t (.push i lockHead .load))
  | .inc => write s.mem.inc .testHead
  | .testHead => goto (if s.mem.head = none then .testTail else .readTail)
  | .testTail => goto (if s.mem.tail = none then .setHead else .readTail)
  | .setHead => write { s.mem with head := some i } .setTail
  | .setTail =>
    some ({ s with linked := s.linked ++ [i] }.write { s.mem with tail := some i } t
      (.push i lockHead .setOwner))
  | .readTail => goto (.setNext s.mem.tail)
  | .setNext none => some s.crash
  | .setNext (some tail) => write (s.mem.setNext tail (some i)) .rereadTail
  | .rereadTail => goto (.setPrev s.mem.tail)
  | .setPrev tail => write (s.mem.setPrev i tail) .moveTail
  | .moveTail =>
    some ({ s with linked := s.linked ++ [i] }.write { s.mem with tail := some i } t
      (.push i lockHead .clearNext))
  | .clearNext => write (s.mem.setNext i none) .setOwner
  | .setOwner => write (s.mem.setOwner i true) (if lockHead then .unlockHead else .unlockTail)
  | .unlockHead => some ({ s with headMutex := none }.goto t (.push i lockHead .unlockTail))
  | .unlockTail => some ({ s with tailMutex := none }.goto t .idle)

/-- A step of `RemoveSelfFromOwnerlink(i)` by `t` when `i` is not the head. -/
def innerStep (s : State T I) (t : T) (lockTail : Bool) (i : I) (at_ : InnerPc I) :
    Option (State T I) :=
  let goto p := some (s.goto t (.pop lockTail (.inner i p)))
  let write m p := some (s.write m t (.pop lockTail (.inner i p)))
  let done m := some (s.write m t (.pop lockTail (.unlockHead (some i))))
  match at_ with
  | .isTail =>
    if s.mem.owner i = false then some s.crash else
    goto (if s.mem.tail = some i then .readPrev else .readP)
  | .readPrev => goto (.setTail (s.mem.prev i))
  | .setTail prev =>
    if s.mem.owner i = false then some s.crash else
    some ({ s with left := s.left ++ [i] }.write { s.mem with tail := prev } t
      (.pop lockTail (.inner i .rereadPrev)))
  | .rereadPrev => goto (.clearPrevNext (s.mem.prev i))
  | .clearPrevNext none => some s.crash
  | .clearPrevNext (some prev) => write (s.mem.setNext prev none) .clearPrev
  | .clearPrev => write (s.mem.setPrev i none) .clearOwner
  | .clearOwner => done (s.mem.setOwner i false)
  | .readP => goto (.readN (s.mem.prev i))
  | .readN p => goto (.dropOwner p (s.mem.next i))
  | .dropOwner p n => write (s.mem.setOwner i false) (.setNext p n)
  | .setNext none _ => some s.crash
  | .setNext (some p) n =>
    some ({ s with left := s.left ++ [i] }.write (s.mem.setNext p n) t
      (.pop lockTail (.inner i (.setPrev (some p) n))))
  | .setPrev _ none => some s.crash
  | .setPrev p (some n) => write (s.mem.setPrev n p) .clearNext
  | .clearNext => write (s.mem.setNext i none) .dropPrev
  | .dropPrev => done (s.mem.setPrev i none)

/-- A step of `popHead()` by `t`. -/
def popStep (s : State T I) (t : T) (lockTail : Bool) (at_ : PopPc I) : Option (State T I) :=
  let goto p := some (s.goto t (.pop lockTail p))
  let write m p := some (s.write m t (.pop lockTail p))
  match at_ with
  | .load => goto (if s.mem.itemCount = 0 then .ret none else .lockHead)
  | .lockHead =>
    if s.headMutex = none then
      some ({ s with headMutex := some t }.goto t (.pop lockTail .check)) else none
  | .check => goto (if s.mem.itemCount < 2 then .lockTail else .count)
  | .lockTail =>
    if s.tailMutex = none then
      some ({ s with tailMutex := some t }.goto t (.pop true .count)) else none
  | .count => goto (if s.mem.itemCount = 0 then .unlockHead none else .testTail)
  | .testTail => goto (if s.mem.tail = none then .unlockHead none else .testHead)
  | .testHead => goto (if s.mem.head = none then .unlockHead none else .dec)
  | .dec => write s.mem.dec .readHead
  | .readHead =>
    match s.mem.head with
    | none => goto (.unlockHead none)
    | some i => goto (.testOwner i)
  | .testOwner i => goto (if s.mem.owner i = false then .unlockHead none else .isHead i)
  | .isHead i =>
    if s.mem.owner i = false then some s.crash else
    goto (if s.mem.head = some i then .isTail i else .inner i .isTail)
  | .isTail i =>
    if s.mem.owner i = false then some s.crash else
    goto (if s.mem.tail = some i then .clearHead i else .readNext i)
  | .clearHead i =>
    if s.mem.owner i = false then some s.crash else
    some ({ s with left := s.left ++ [i] }.write { s.mem with head := none } t
      (.pop lockTail (.clearTail i)))
  | .clearTail i =>
    if s.mem.owner i = false then some s.crash else
    write { s.mem with tail := none } (.clearNext i)
  | .readNext i => goto (.clearPrev i (s.mem.next i))
  | .clearPrev _ none => some s.crash
  | .clearPrev i (some next) => write (s.mem.setPrev next none) (.rereadNext i)
  | .rereadNext i => goto (.setHead i (s.mem.next i))
  | .setHead i next =>
    if s.mem.owner i = false then some s.crash else
    some ({ s with left := s.left ++ [i] }.write { s.mem with head := next } t
      (.pop lockTail (.clearNext i)))
  | .clearNext i => write (s.mem.setNext i none) (.clearOwner i)
  | .clearOwner i => write (s.mem.setOwner i false) (.unlockHead (some i))
  | .inner i at_ => innerStep s t lockTail i at_
  | .unlockHead result =>
    some ({ s with headMutex := none }.goto t
      (.pop lockTail (if lockTail then .unlockTail result else .ret result)))
  | .unlockTail result => some ({ s with tailMutex := none }.goto t (.pop lockTail (.ret result)))
  | .ret none => some (s.goto t .idle)
  | .ret (some i) =>
    some ({ s with busy := Function.update s.busy i false, twice := s.twice || !s.busy i }.goto t
      .idle)

/-- No thread moves after a null pointer was dereferenced. -/
def step (s : State T I) (label : Label T I) : Option (State T I) :=
  if s.crashed then none else
  match label with
  | .pushBack t i =>
    if s.pc t = .idle ∧ s.busy i = false then
      some ({ s with busy := Function.update s.busy i true }.goto t (.push i false .load)) else none
  | .popHead t => if s.pc t = .idle then some (s.goto t (.pop false .load)) else none
  | .run t =>
    match s.pc t with
    | .idle => none
    | .push i lockHead at_ => pushStep s t i lockHead at_
    | .pop lockTail at_ => popStep s t lockTail at_

def machine (T I : Type) [DecidableEq T] [DecidableEq I] :
    Transition.Machine (State T I) (Label T I) where
  start s := s = initial
  step := step

end BRoutine.TwoLock
