import BRoutine.Task.PushAll
import BRoutine.Transition
import Mathlib.Data.List.Perm.Subperm

/-!
# The shape of a TaskItemsList

The memory of any number of task items and lists with `TaskItem::New`, `TaskItemsList::New`, the
operations that link and unlink items and `TaskItemsList::Delete`. `keeps_shape` says that the
links always form lists and what each operation does to them.
-/

namespace BRoutine.Shape

open Steal Intrusive

variable {I Q : Type} [DecidableEq I] [DecidableEq Q]

/-- The links and counts, the items and lists that are allocated, and the items that `free` was
called with. -/
structure Memory (I Q : Type) where
  heap : Heap I Q
  items : List I
  lists : List Q
  freed : List I

inductive Op (I Q : Type) where
  | newItem (i : I)
  | newList (q : Q)
  | pushBackUnsafe (q : Q) (i : I)
  | popHeadUnsafe (q : Q)
  | removeSelfFromOwnerlink (i : I)
  | pushAll2 (this i : Q)
  | delete (q : Q)

/-- Nothing is allocated. -/
def Memory.initial : Memory I Q where
  heap := ⟨fun _ => none, fun _ => none, fun _ => none, fun _ => none, fun _ => none, fun _ => 0⟩
  items := []
  lists := []
  freed := []

namespace Memory

/-- `TaskItem::New` with the address that `calloc` gives. -/
def newItem (m : Memory I Q) (i : I) : Memory I Q :=
  { m with
    heap := { m.heap with
      next := Function.update m.heap.next i none
      prev := Function.update m.heap.prev i none
      owner := Function.update m.heap.owner i none }
    items := i :: m.items }

/-- `TaskItemsList::New`. -/
def newList (m : Memory I Q) (q : Q) : Memory I Q :=
  { m with
    heap := { m.heap with
      head := Function.update m.heap.head q none
      tail := Function.update m.heap.tail q none
      itemCount := Function.update m.heap.itemCount q 0#32 }
    lists := q :: m.lists }

/-- `TaskItem::Delete`: `free` of an item that is allocated, or of null. -/
def deleteItem (m : Memory I Q) : Option I → Option (Memory I Q)
  | none => some m
  | some i =>
    if i ∈ m.items then some { m with items := m.items.erase i, freed := m.freed ++ [i] } else none

/-- The loop of `TaskItemsList::Delete`, at most `fuel` times. -/
def deleteLoop (self : Q) : Nat → Memory I Q → Option (Memory I Q)
  | 0, _ => none
  | fuel + 1, m =>
    match m.heap.removeSelfFromOwnerlink (m.heap.tail self) with
    | none => none
    | some (none, heap) => some { m with heap := heap }
    | some (some t, heap) =>
      (deleteItem { m with heap := heap } (some t)).bind (deleteLoop self fuel)

/-- `TaskItemsList::Delete`. -/
def delete (m : Memory I Q) (self : Q) : Option (Memory I Q) :=
  ((deleteLoop self (m.items.length + 1) m).bind fun m => m.deleteItem (m.heap.head self)).map
    fun (m : Memory I Q) => { m with lists := m.lists.erase self }

/-- What an operation returns and leaves. Nothing if it follows a null pointer, frees what is not
allocated or does not end. -/
def perform (m : Memory I Q) : Op I Q → Option (Option I × Memory I Q)
  | .newItem i => some (some i, m.newItem i)
  | .newList q => some (none, m.newList q)
  | .pushBackUnsafe q i =>
    (m.heap.pushBackUnsafe q i).map fun heap => (none, { m with heap := heap })
  | .popHeadUnsafe q => (m.heap.popHeadUnsafe q).map fun (t, heap) => (t, { m with heap := heap })
  | .removeSelfFromOwnerlink i =>
    (m.heap.removeSelfFromOwnerlink (some i)).map fun (t, heap) => (t, { m with heap := heap })
  | .pushAll2 this i =>
    (Heap.pushAll2Loop this i (m.items.length + 1) m.heap).map fun heap =>
      (none, { m with heap := heap })
  | .delete q => (m.delete q).map fun m => (none, m)

/-- When an operation may be called: `calloc` gives an address that is free, an item that is put
in is detached, one that is taken out is linked. -/
def Enabled (m : Memory I Q) : Op I Q → Prop
  | .newItem i => i ∉ m.items
  | .newList q => q ∉ m.lists
  | .pushBackUnsafe q i => q ∈ m.lists ∧ i ∈ m.items ∧ m.heap.owner i = none
  | .popHeadUnsafe q => q ∈ m.lists ∧ m.heap.itemCount q ≠ 0#32
  | .removeSelfFromOwnerlink i => i ∈ m.items ∧ m.heap.owner i ≠ none
  | .pushAll2 this i => this ∈ m.lists ∧ i ∈ m.lists ∧ this ≠ i
  | .delete q => q ∈ m.lists

instance (m : Memory I Q) : (op : Op I Q) → Decidable (m.Enabled op)
  | .newItem _ | .newList _ => inferInstanceAs (Decidable (_ ∉ _))
  | .pushBackUnsafe _ _ => inferInstanceAs (Decidable (_ ∧ _))
  | .popHeadUnsafe _ => inferInstanceAs (Decidable (_ ∧ _))
  | .removeSelfFromOwnerlink _ => inferInstanceAs (Decidable (_ ∧ _))
  | .pushAll2 _ _ => inferInstanceAs (Decidable (_ ∧ _))
  | .delete _ => inferInstanceAs (Decidable (_ ∈ _))

end Memory

/-- Any sequence of operations. -/
def machine (I Q : Type) [DecidableEq I] [DecidableEq Q] :
    Transition.Machine (Memory I Q) (Op I Q) where
  start m := m = .initial
  step m op := if m.Enabled op then (m.perform op).map Prod.snd else none

/-! ### What the operations are for -/

namespace Op

variable (content : Q → List I)

/-- The contents of the lists after an operation. -/
def apply : Op I Q → Q → List I
  | newItem _ => content
  | newList q | delete q => Function.update content q []
  | pushBackUnsafe q i => Function.update content q (content q ++ [i])
  | popHeadUnsafe q => Function.update content q (content q).tail
  | removeSelfFromOwnerlink i => fun q => (content q).erase i
  | pushAll2 this i =>
    Function.update (Function.update content i (content i ++ content this)) this []

/-- What an operation returns. -/
def result : Op I Q → Option I
  | newItem i | removeSelfFromOwnerlink i => some i
  | popHeadUnsafe q => (content q).head?
  | newList _ | pushBackUnsafe _ _ | pushAll2 _ _ | delete _ => none

/-- The counts of the lists after an operation. -/
def counts (count : Q → BitVec 32) : Op I Q → Q → BitVec 32
  | newItem _ | removeSelfFromOwnerlink _ | delete _ => count
  | newList q => Function.update count q 0#32
  | pushBackUnsafe q _ => Function.update count q (count q + 1#32)
  | popHeadUnsafe q =>
    if content q = [] then count else Function.update count q (count q - 1#32)
  | pushAll2 this i => Heap.countedOver count this i (content this).length

/-- The items that an operation frees. -/
def frees : Op I Q → List I
  | delete q => (content q).reverse
  | _ => []

end Op

/-- The shape of the lists, with what is linked in each of them from head to tail. -/
structure Shaped (m : Memory I Q) (content : Q → List I) : Prop where
  linked : ∀ q ∈ m.lists, Linked m.heap.next m.heap.prev (m.heap.head q) (m.heap.tail q) (content q)
  null : ∀ q ∈ m.lists, m.heap.head q = none ↔ m.heap.tail q = none
  inverse : ∀ x ∈ m.items, ∀ y ∈ m.items, m.heap.next x = some y ↔ m.heap.prev y = some x
  head_prev : ∀ q ∈ m.lists, ∀ x, m.heap.head q = some x → m.heap.prev x = none
  tail_next : ∀ q ∈ m.lists, ∀ x, m.heap.tail q = some x → m.heap.next x = none
  owner : ∀ x ∈ m.items, ∀ q, m.heap.owner x = some q ↔ x ∈ content q
  detached : ∀ x ∈ m.items, (∀ q, x ∉ content q) → m.heap.Loose x
  apart : ∀ x q q', x ∈ content q → x ∈ content q' → q = q'
  allocated : ∀ q, ∀ x ∈ content q, q ∈ m.lists ∧ x ∈ m.items

/-! ### The invariant -/

/-- All lists are linked, items that are in none are loose, and only what is allocated is used. -/
structure Sound (m : Memory I Q) (content : Q → List I) : Prop where
  shaped : m.heap.Shaped content
  loose : ∀ x ∈ m.items, (∀ q, x ∉ content q) → m.heap.Loose x
  allocated : ∀ q, ∀ x ∈ content q, q ∈ m.lists ∧ x ∈ m.items
  nodup : m.items.Nodup

variable {m : Memory I Q} {content : Q → List I} {q : Q} {x : I}

omit [DecidableEq I] [DecidableEq Q] in
theorem initial_sound : Sound (.initial : Memory I Q) fun _ => [] where
  shaped := ⟨fun _ => .nil, fun _ _ => by simp [Memory.initial]⟩
  loose := fun _ member => by cases member
  allocated := fun _ _ member => by cases member
  nodup := .nil

omit [DecidableEq I] [DecidableEq Q] in
theorem Sound.short (sound : Sound m content) (q : Q) :
    (content q).length < m.items.length + 1 := by
  have within : content q ⊆ m.items := fun x member => (sound.allocated q x member).2
  exact Nat.lt_succ_of_le
    ((sound.shaped.linked q).nodup.subperm within).length_le

omit [DecidableEq I] [DecidableEq Q] in
theorem Sound.absent (sound : Sound m content) (free : x ∉ m.items) (q : Q) : x ∉ content q :=
  fun member => free (sound.allocated q x member).2

omit [DecidableEq I] [DecidableEq Q] in
theorem Sound.detached (sound : Sound m content) (member : x ∈ m.items)
    (free : m.heap.owner x = none) : m.heap.Loose x :=
  sound.loose x member (sound.shaped.not_mem free)

/-! ### Each operation -/

omit [DecidableEq Q] in
theorem Sound.newItem (sound : Sound m content) (free : x ∉ m.items) :
    Sound (m.newItem x) content := by
  have absent := sound.absent free
  refine ⟨⟨fun q => ?_, fun y q => ?_⟩, fun y member outside => ?_, fun q y member => ?_, ?_⟩
  · -- the new item is none of those in the list
    have other : ∀ y ∈ content q, y ≠ x := fun y member same => absent q (same ▸ member)
    exact (sound.shaped.linked q).congr
      (fun y member => Function.update_of_ne (other y member) ..)
      fun y member => Function.update_of_ne (other y member) ..
  · -- `calloc` has cleared the fields of the new item
    by_cases same : y = x
    · subst same
      simp only [Memory.newItem, Function.update_self]
      exact iff_of_false (fun owned => by cases owned) (absent q)
    · simp only [Memory.newItem, Function.update_of_ne same]
      exact sound.shaped.filed y q
  · by_cases same : y = x
    · subst same
      exact ⟨Function.update_self .., Function.update_self .., Function.update_self ..⟩
    · have loose := sound.loose y ((List.mem_cons.mp member).resolve_left same) outside
      exact ⟨(Function.update_of_ne same ..).trans loose.next,
        (Function.update_of_ne same ..).trans loose.prev,
        (Function.update_of_ne same ..).trans loose.owner⟩
  · obtain ⟨list, item⟩ := sound.allocated q y member
    exact ⟨list, List.mem_cons_of_mem x item⟩
  · exact List.nodup_cons.mpr ⟨free, sound.nodup⟩

omit [DecidableEq I] in
theorem Sound.newList (sound : Sound m content) (free : q ∉ m.lists) :
    Sound (m.newList q) (Function.update content q []) := by
  have empty : content q = [] := List.eq_nil_iff_forall_not_mem.mpr
    fun x member => free (sound.allocated q x member).1
  have same : Function.update content q [] = content := by rw [← empty, Function.update_eq_self]
  rw [same]
  refine ⟨⟨fun q' => ?_, sound.shaped.filed⟩, fun x member outside => ?_, fun q' x member => ?_,
    sound.nodup⟩
  · by_cases here : q' = q
    · subst here
      simp only [Memory.newList, Function.update_self, empty]
      exact .nil
    · simp only [Memory.newList, Function.update_of_ne here]
      exact sound.shaped.linked q'
  · have loose := sound.loose x member outside
    exact ⟨loose.next, loose.prev, loose.owner⟩
  · obtain ⟨list, item⟩ := sound.allocated q' x member
    exact ⟨List.mem_cons_of_mem q list, item⟩

theorem Sound.pushBackUnsafe (sound : Sound m content) (list : q ∈ m.lists) (item : x ∈ m.items)
    (free : m.heap.owner x = none) :
    ∃ heap, m.heap.pushBackUnsafe q x = some heap ∧
      Sound { m with heap := heap } (Function.update content q (content q ++ [x])) ∧
      heap.itemCount = Function.update m.heap.itemCount q (m.heap.itemCount q + 1#32) := by
  obtain ⟨heap, pushed, shaped, count, others⟩ := sound.shaped.push (sound.detached item free) q
  refine ⟨heap, pushed, ⟨shaped, fun y member outside => ?_, fun q' y member => ?_, sound.nodup⟩,
    count⟩
  · have before : ∀ q', y ∉ content q' := fun q' inside =>
      outside q' (Heap.mem_pushed.mpr (.inl inside))
    have other : y ≠ x := fun same => outside q (Heap.mem_pushed.mpr (.inr ⟨rfl, same⟩))
    exact others y other (sound.loose y member before)
  · rcases Heap.mem_pushed.mp member with old | ⟨rfl, rfl⟩
    · exact sound.allocated q' y old
    · exact ⟨list, item⟩

/-- What is left when one item has been taken out of its list. -/
theorem Sound.without (sound : Sound m content) {front back : List I}
    (items : content q = front ++ x :: back) {heap : Heap I Q}
    (shaped : heap.Shaped (Function.update content q (front ++ back))) (gone : heap.Loose x)
    (others : ∀ y, m.heap.Loose y → heap.Loose y) :
    Sound { m with heap := heap } (Function.update content q (front ++ back)) := by
  refine ⟨shaped, fun y member outside => ?_, fun q' y member => ?_, sound.nodup⟩
  · by_cases same : y = x
    · exact same ▸ gone
    · exact others y (sound.loose y member fun q' inside =>
        outside q' ((sound.shaped.mem_without items).mpr ⟨inside, same⟩))
  · exact sound.allocated q' y ((sound.shaped.mem_without items).mp member).1

theorem Sound.popHeadUnsafe (sound : Sound m content) (counts : m.heap.itemCount q ≠ 0#32) :
    ∃ heap, m.heap.popHeadUnsafe q = some ((content q).head?, heap) ∧
      Sound { m with heap := heap } (Function.update content q (content q).tail) ∧
      heap.itemCount = (Op.popHeadUnsafe q).counts content m.heap.itemCount := by
  rw [Op.counts]
  cases items : content q with
  | nil =>
    refine ⟨m.heap, sound.shaped.pop_nil items, ?_, (if_pos rfl).symm⟩
    rw [List.tail_nil, ← items, Function.update_eq_self]
    exact sound
  | cons x xs =>
    obtain ⟨heap, popped, shaped, gone, count, others⟩ := sound.shaped.pop items counts
    have split : content q = [] ++ x :: xs := items
    refine ⟨heap, popped, sound.without split shaped gone others, ?_⟩
    rw [count, if_neg (List.cons_ne_nil x xs)]

/-- In a list without duplicates an item is taken out from where it is. -/
theorem erase_eq (shaped : m.heap.Shaped content) {front back : List I}
    (items : content q = front ++ x :: back) :
    (fun q' => (content q').erase x) = Function.update content q (front ++ back) := by
  have nodup := (shaped.linked q).nodup
  funext q'
  by_cases same : q' = q
  · subst same
    rw [items] at nodup
    have fresh : x ∉ front := fun member => (List.nodup_cons.mp (List.nodup_middle.mp nodup)).1
      (List.mem_append_left back member)
    rw [Function.update_self, items, List.erase_append_right _ fresh, List.erase_cons_head]
  · rw [Function.update_of_ne same]
    refine List.erase_of_not_mem fun member => same (shaped.filed.unique member ?_)
    rw [items]
    exact List.mem_append_right front List.mem_cons_self

theorem Sound.removeSelf (sound : Sound m content) (linked : m.heap.owner x ≠ none) :
    ∃ heap, m.heap.removeSelfFromOwnerlink (some x) = some (some x, heap) ∧
      (Sound { m with heap := heap } fun q => (content q).erase x) ∧
      heap.itemCount = m.heap.itemCount := by
  obtain ⟨q, owns⟩ := Option.ne_none_iff_exists'.mp linked
  obtain ⟨front, back, items⟩ := List.append_of_mem ((sound.shaped.filed x q).mp owns)
  obtain ⟨heap, removed, shaped, gone, count, others⟩ := sound.shaped.remove items
  refine ⟨heap, removed, ?_, count⟩
  rw [erase_eq sound.shaped items]
  exact sound.without items shaped gone others

theorem Sound.pushAll2 (sound : Sound m content) {this i : Q} (differs : this ≠ i)
    (list : i ∈ m.lists) :
    ∃ heap, Heap.pushAll2Loop this i (m.items.length + 1) m.heap = some heap ∧
      Sound { m with heap := heap } (Heap.movedAll content this i) ∧
      heap.itemCount = Heap.countedOver m.heap.itemCount this i (content this).length := by
  obtain ⟨heap, moved, shaped, count, others⟩ := sound.shaped.pushAll2 differs (sound.short this)
  refine ⟨heap, moved, ⟨shaped, fun y member outside => ?_, fun q y member => ?_, sound.nodup⟩,
    count⟩
  · refine others y (sound.loose y member fun q inside => ?_)
    by_cases here : q = this
    · exact outside i ((Heap.mem_movedAll differs).mpr ⟨differs.symm, .inr ⟨rfl, here ▸ inside⟩⟩)
    · exact outside q ((Heap.mem_movedAll differs).mpr ⟨here, .inl inside⟩)
  · obtain ⟨-, old | ⟨rfl, other⟩⟩ := (Heap.mem_movedAll differs).mp member
    · exact sound.allocated q y old
    · exact ⟨list, (sound.allocated this y other).2⟩

omit [DecidableEq Q] in
/-- An item that is linked nowhere is freed. -/
theorem Sound.deleteItem (sound : Sound m content) (member : x ∈ m.items)
    (outside : ∀ q, x ∉ content q) :
    ∃ m', m.deleteItem (some x) = some m' ∧ Sound m' content ∧ m'.heap = m.heap ∧
      m'.lists = m.lists ∧ m'.freed = m.freed ++ [x] ∧
      ∀ y, y ∈ m'.items ↔ y ∈ m.items ∧ y ≠ x := by
  have left : ∀ y, y ∈ m.items.erase x ↔ y ∈ m.items ∧ y ≠ x := by
    intro y
    rw [sound.nodup.mem_erase_iff, and_comm]
  refine ⟨_, if_pos member, ⟨sound.shaped, fun y there => ?_, fun q y inside => ?_,
    sound.nodup.erase x⟩, rfl, rfl, rfl, left⟩
  · exact sound.loose y ((left y).mp there).1
  · obtain ⟨list, item⟩ := sound.allocated q y inside
    exact ⟨list, (left y).mpr ⟨item, fun same => outside q (same ▸ inside)⟩⟩

/-- The loop of `TaskItemsList::Delete` frees the items from the last to the first. -/
theorem Sound.deleteLoop (sound : Sound m content) {fuel : Nat}
    (enough : (content q).length < fuel) :
    ∃ m', Memory.deleteLoop q fuel m = some m' ∧ Sound m' (Function.update content q []) ∧
      m'.lists = m.lists ∧ m'.heap.itemCount = m.heap.itemCount ∧
      m'.freed = m.freed ++ (content q).reverse ∧
      ∀ y, y ∈ m'.items ↔ y ∈ m.items ∧ y ∉ content q := by
  -- each turn takes the tail out and frees it
  induction fuel generalizing m content with
  | zero => cases enough
  | succ fuel ih =>
    have tail := (sound.shaped.linked q).tail_eq
    obtain items | ⟨front, x, items⟩ := List.eq_nil_or_concat' (content q)
    · rw [items] at tail
      refine ⟨m, ?_, ?_, rfl, rfl, ?_, fun y => ?_⟩
      · rw [Memory.deleteLoop, tail]
        rfl
      · rw [← items, Function.update_eq_self]
        exact sound
      · simp [items]
      · simp [items]
    · rw [items, List.getLast?_concat] at tail
      obtain ⟨heap, removed, shaped, gone, count, others⟩ := sound.shaped.remove items
      -- unlinked first, so that nothing points to it when it is freed
      have sound₁ := sound.without items shaped gone others
      rw [List.append_nil] at sound₁ shaped
      have mine : x ∈ content q := by simp [items]
      obtain ⟨m₂, freed, sound₂, same, lists, log, left⟩ :=
        sound₁.deleteItem (sound.allocated q x mine).2 (shaped.not_mem gone.owner ·)
      have rest : Function.update content q front q = front := Function.update_self ..
      obtain ⟨m', ended, sound', lists', count', log', left'⟩ := @ih m₂ _ sound₂ (by
        rw [rest]
        rw [items, List.length_append] at enough
        exact Nat.lt_of_succ_lt_succ enough)
      rw [rest] at log' left'
      rw [Function.update_idem] at sound'
      refine ⟨m', ?_, sound', lists'.trans lists, ?_, ?_, fun y => ?_⟩
      · rw [Memory.deleteLoop, tail, removed]
        exact Option.bind_eq_some_iff.mpr ⟨m₂, freed, ended⟩
      · rw [count', same]
        exact count
      · rw [log', log, items]
        simp
      · rw [left', left, items]
        simp only [List.mem_append, List.mem_singleton]
        tauto

theorem Sound.delete (sound : Sound m content) (q : Q) :
    ∃ m', m.delete q = some m' ∧ Sound m' (Function.update content q []) ∧
      m'.heap.itemCount = m.heap.itemCount ∧ m'.lists = m.lists.erase q ∧
      m'.freed = m.freed ++ (content q).reverse ∧
      ∀ y, y ∈ m'.items ↔ y ∈ m.items ∧ y ∉ content q := by
  obtain ⟨m₁, looped, sound₁, lists, count, freed, left⟩ := sound.deleteLoop (sound.short q)
  have head : m₁.heap.head q = none := by
    rw [(sound₁.shaped.linked q).head_eq, Function.update_self]
    rfl
  refine ⟨{ m₁ with lists := m₁.lists.erase q }, ?_, ⟨sound₁.shaped, sound₁.loose,
    fun q' y inside => ?_, sound₁.nodup⟩, count, by rw [← lists], freed, left⟩
  · rw [Memory.delete, looped, Option.bind_some, head]
    rfl
  · obtain ⟨list, item⟩ := sound₁.allocated q' y inside
    have other : q' ≠ q := by
      rintro rfl
      rw [Function.update_self] at inside
      cases inside
    exact ⟨(List.mem_erase_of_ne other).mpr list, item⟩

/-- An operation does not fail, returns and leaves what it is for, and frees what it is for. -/
structure Performs (m : Memory I Q) (content : Q → List I) (op : Op I Q) (m' : Memory I Q) :
    Prop where
  performed : m.perform op = some (op.result content, m')
  freed : m'.freed = m.freed ++ op.frees content
  items : ∀ x, x ∈ m'.items ↔ (x ∈ m.items ∨ op = .newItem x) ∧ x ∉ op.frees content
  lists : ∀ q ∈ m.lists, op ≠ .delete q → q ∈ m'.lists

theorem Sound.performs (sound : Sound m content) {op : Op I Q} (enabled : m.Enabled op) :
    ∃ m', Performs m content op m' ∧ Sound m' (op.apply content) ∧
      m'.heap.itemCount = op.counts content m.heap.itemCount := by
  -- each operation has its lemma; here they are put in one form
  cases op with
  | newItem x =>
    refine ⟨m.newItem x, ⟨rfl, (List.append_nil _).symm, fun y => ?_, fun _ list _ => list⟩,
      sound.newItem enabled, rfl⟩
    simp [Memory.newItem, Op.frees, or_comm, eq_comm]
  | newList q =>
    exact ⟨m.newList q, ⟨rfl, (List.append_nil _).symm, by simp [Memory.newList, Op.frees],
      fun _ list _ => List.mem_cons_of_mem q list⟩, sound.newList enabled, rfl⟩
  | pushBackUnsafe q x =>
    obtain ⟨heap, pushed, sound', count⟩ := sound.pushBackUnsafe enabled.1 enabled.2.1 enabled.2.2
    refine ⟨{ m with heap := heap }, ⟨?_, (List.append_nil _).symm, by simp [Op.frees],
      fun _ list _ => list⟩, sound', count⟩
    rw [Memory.perform, pushed]
    rfl
  | popHeadUnsafe q =>
    obtain ⟨heap, popped, sound', count⟩ := sound.popHeadUnsafe enabled.2
    refine ⟨{ m with heap := heap }, ⟨?_, (List.append_nil _).symm, by simp [Op.frees],
      fun _ list _ => list⟩, sound', count⟩
    rw [Memory.perform, popped]
    rfl
  | removeSelfFromOwnerlink x =>
    obtain ⟨heap, removed, sound', count⟩ := sound.removeSelf enabled.2
    refine ⟨{ m with heap := heap }, ⟨?_, (List.append_nil _).symm, by simp [Op.frees],
      fun _ list _ => list⟩, sound', count⟩
    rw [Memory.perform, removed]
    rfl
  | pushAll2 this i =>
    obtain ⟨heap, moved, sound', count⟩ := sound.pushAll2 enabled.2.2 enabled.2.1
    refine ⟨{ m with heap := heap }, ⟨?_, (List.append_nil _).symm, by simp [Op.frees],
      fun _ list _ => list⟩, sound', count⟩
    rw [Memory.perform, moved]
    rfl
  | delete q =>
    obtain ⟨m', deleted, sound', count, lists, freed, left⟩ := sound.delete q
    refine ⟨m', ⟨?_, freed, fun x => ?_, fun q' list other => ?_⟩, sound', count⟩
    · rw [Memory.perform, deleted]
      rfl
    · simp [left, Op.frees]
    · have differs : q' ≠ q := by
        rintro rfl
        exact other rfl
      rw [lists]
      exact (List.mem_erase_of_ne differs).mpr list

/-- An operation that has been performed. -/
theorem Sound.after (sound : Sound m content) {m' : Memory I Q} (op : Op I Q)
    (enabled : m.Enabled op) (performed : (m.perform op).map Prod.snd = some m') :
    Sound m' (op.apply content) ∧ m'.heap.itemCount = op.counts content m.heap.itemCount ∧
      Performs m content op m' := by
  obtain ⟨m₁, performs, sound', counts⟩ := sound.performs enabled
  rw [performs.performed] at performed
  cases performed
  exact ⟨sound', counts, performs⟩

omit [DecidableEq I] [DecidableEq Q] in
theorem Sound.toShaped (sound : Sound m content) : Shaped m content where
  linked q _ := sound.shaped.linked q
  null q _ := by
    have linked := sound.shaped.linked q
    rw [linked.head_eq, linked.tail_eq, List.head?_eq_none_iff, List.getLast?_eq_none_iff]
  inverse x member y member' := by
    -- an item with a neighbour is in a list, and so is the neighbour
    constructor
    · intro forth
      obtain ⟨q, inside⟩ : ∃ q, x ∈ content q := by
        by_contra outside
        have free := (sound.loose x member (not_exists.mp outside)).next
        rw [forth] at free
        cases free
      have chained := (sound.shaped.linked q).chained
      exact (chained.inverse (by simp) inside (chained.next_mem inside forth)).mp forth
    · intro back
      obtain ⟨q, inside⟩ : ∃ q, y ∈ content q := by
        by_contra outside
        have free := (sound.loose y member' (not_exists.mp outside)).prev
        rw [back] at free
        cases free
      have chained := (sound.shaped.linked q).chained
      have inside' := (chained.prev_mem inside back).resolve_left (by simp)
      exact (chained.inverse (by simp) inside' inside).mpr back
  head_prev q _ x first := (sound.shaped.linked q).head_prev first
  tail_next q _ x last := (sound.shaped.linked q).tail_next last
  owner x _ q := sound.shaped.filed x q
  detached := sound.loose
  apart x q q' here there := sound.shaped.filed.unique here there
  allocated := sound.allocated

/-- The lists stay in shape in every run. -/
theorem reachable_sound (reached : (machine I Q).Reachable m) : ∃ content, Sound m content := by
  refine Transition.Machine.ReachableBy.invariant (fun m => ∃ content, Sound m content) ?_ ?_
    reached
  · rintro m rfl
    exact ⟨_, initial_sound⟩
  · rintro m op m' ⟨content, sound⟩ - stepped
    simp only [machine] at stepped
    split at stepped
    next enabled => exact ⟨_, (sound.after op enabled stepped).1⟩
    · cases stepped

/-- In every run the links form the lists, and every operation that may be called does to them
what it is for. -/
theorem keeps_shape (reached : (machine I Q).Reachable m) :
    ∃ content, Shaped m content ∧ ∀ op, m.Enabled op →
      ∃ m', Performs m content op m' ∧ Shaped m' (op.apply content) := by
  obtain ⟨content, sound⟩ := reachable_sound reached
  refine ⟨content, sound.toShaped, fun op enabled => ?_⟩
  obtain ⟨m', performs, sound', -⟩ := sound.performs enabled
  exact ⟨m', performs, sound'.toShaped⟩

/-- Three items in a list, of which the middle one is taken out. -/
def threeItems : List (Op Nat Nat) :=
  [.newList 0, .newItem 1, .newItem 2, .newItem 3, .pushBackUnsafe 0 1, .pushBackUnsafe 0 2,
    .pushBackUnsafe 0 3, .removeSelfFromOwnerlink 2]

theorem keeps_shape_threeItems :
    ∃ m, (machine Nat Nat).exec .initial threeItems = some m ∧
      ∃ content, Shaped m content ∧ ∀ op, m.Enabled op →
        ∃ m', Performs m content op m' ∧ Shaped m' (op.apply content) := by
  obtain ⟨m, ran⟩ : ∃ m, (machine Nat Nat).exec .initial threeItems = some m := ⟨_, rfl⟩
  exact ⟨m, ran, keeps_shape (Transition.Machine.exec_reachable (.start rfl) ran)⟩

end BRoutine.Shape
