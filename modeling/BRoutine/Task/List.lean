import Mathlib.Data.List.Basic

/-!
# The contents of a TaskItemsList

A `TaskItemsList` of `b_task.hh` seen from its links: the items from `head` to `tail`, and the
counter that the operations keep beside them. `ItemCount` is data of its own because not every
operation that unlinks an item counts it.
-/

namespace BRoutine

structure TaskItemsList (α : Type) where
  items : List α
  itemCount : Nat
  deriving Repr

namespace TaskItemsList

variable {α : Type}

/-- `TaskItemsList::New`. -/
def new : TaskItemsList α := ⟨[], 0⟩

def pushBackUnsafe (list : TaskItemsList α) (i : α) : TaskItemsList α :=
  ⟨list.items ++ [i], list.itemCount + 1⟩

/-- The loop of `pushAll2` on the items of `this`: each is unlinked from the head and counted
off, and pushed to the back of `i`. -/
def pushAll2Loop : List α → Nat → TaskItemsList α → Nat × TaskItemsList α
  | [], itemCount, i => (itemCount, i)
  | t :: rest, itemCount, i => pushAll2Loop rest (itemCount - 1) (i.pushBackUnsafe t)

/-- `this->pushAll2(i)`: the list it empties and the list it fills. -/
def pushAll2 (list i : TaskItemsList α) : TaskItemsList α × TaskItemsList α :=
  let (itemCount, filled) := pushAll2Loop list.items list.itemCount i
  (⟨[], itemCount⟩, filled)

/-- `RemoveSelfFromOwnerlink` of the first item that satisfies `p`: it is unlinked and
`ItemCount` stays. -/
def removeSelf (list : TaskItemsList α) (p : α → Bool) : TaskItemsList α :=
  { list with items := list.items.eraseP p }

/-- `popHead` when no other thread works on the list. -/
def popHead (list : TaskItemsList α) : Option (α × TaskItemsList α) :=
  if list.itemCount = 0 then none else
  match list.items with
  | [] => none
  | t :: rest => some (t, ⟨rest, list.itemCount - 1⟩)

/-- The tasks that `while ((task = list->popHead()) != nullptr)` sees, on the items of `list`. -/
def popAllLoop : List α → Nat → List α
  | [], _ => []
  | _ :: _, 0 => []
  | t :: rest, itemCount + 1 => t :: popAllLoop rest itemCount

def popAll (list : TaskItemsList α) : List α := popAllLoop list.items list.itemCount

@[simp] theorem new_items : (new : TaskItemsList α).items = [] := rfl
@[simp] theorem pushBackUnsafe_items (list : TaskItemsList α) (i : α) :
    (list.pushBackUnsafe i).items = list.items ++ [i] := rfl
@[simp] theorem removeSelf_items (list : TaskItemsList α) (p : α → Bool) :
    (list.removeSelf p).items = list.items.eraseP p := rfl

theorem pushAll2Loop_items (items : List α) (itemCount : Nat) (i : TaskItemsList α) :
    (pushAll2Loop items itemCount i).2.items = i.items ++ items := by
  induction items generalizing itemCount i with
  | nil => simp [pushAll2Loop]
  | cons t rest ih => simp [pushAll2Loop, ih]

@[simp] theorem pushAll2_emptied (list i : TaskItemsList α) : (list.pushAll2 i).1.items = [] := rfl
@[simp] theorem pushAll2_filled (list i : TaskItemsList α) :
    (list.pushAll2 i).2.items = i.items ++ list.items :=
  pushAll2Loop_items _ _ _

theorem pushAll2Loop_counts {items : List α} {itemCount : Nat} {i : TaskItemsList α}
    (counted : i.itemCount = i.items.length) :
    (pushAll2Loop items itemCount i).2.itemCount =
      (pushAll2Loop items itemCount i).2.items.length := by
  induction items generalizing itemCount i with
  | nil => exact counted
  | cons t rest ih =>
    apply ih
    simp [pushBackUnsafe, counted]

/-- Pushed to by `pushAll2` only, a fresh list keeps an exact `ItemCount`. -/
theorem pushAll2_counts {list i : TaskItemsList α} (counted : i.itemCount = i.items.length) :
    (list.pushAll2 i).2.itemCount = (list.pushAll2 i).2.items.length :=
  pushAll2Loop_counts counted

/-- One turn of the loop pops the head. -/
theorem popAll_popHead (list : TaskItemsList α) :
    list.popAll = match list.popHead with
      | none => []
      | some (t, rest) => t :: rest.popAll := by
  obtain ⟨items, itemCount⟩ := list
  cases items <;> cases itemCount <;> simp [popHead, popAll, popAllLoop]

theorem popAllLoop_of_le {items : List α} {itemCount : Nat} (enough : items.length ≤ itemCount) :
    popAllLoop items itemCount = items := by
  induction items generalizing itemCount with
  | nil => rfl
  | cons t rest ih =>
    cases itemCount with
    | zero => simp at enough
    | succ itemCount => rw [popAllLoop, ih (by simpa using enough)]

/-- With an exact `ItemCount` the loop sees every item, from head to tail. -/
theorem popAll_eq {list : TaskItemsList α} (counted : list.itemCount = list.items.length) :
    list.popAll = list.items :=
  popAllLoop_of_le (Nat.le_of_eq counted.symm)

end TaskItemsList

end BRoutine
