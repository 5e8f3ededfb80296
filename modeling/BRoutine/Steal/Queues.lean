import BRoutine.Intrusive

/-!
# Task queues in memory

The task items of `b_task.hh` with their links and the queues they are linked in, and the functions
that take an item out and put one in. A null pointer that is dereferenced gives nothing.
`WellFormed` ties the memory to the items of each queue from head to tail.
-/

namespace BRoutine.Steal

open Intrusive

variable {I Q : Type}

/-- The links of the items `I` and the fields of the queues `Q`. -/
structure Heap (I Q : Type) where
  next : I → Option I
  prev : I → Option I
  owner : I → Option Q
  head : Q → Option I
  tail : Q → Option I
  itemCount : Q → BitVec 32

namespace Heap

section

variable [DecidableEq I] [DecidableEq Q]

/-- `RemoveSelfFromOwnerlink`: the pointer it returns and the memory after it. -/
def removeSelfFromOwnerlink (h : Heap I Q) (item : Option I) : Option (Option I × Heap I Q) :=
  match item with
  | none => some (none, h)
  | some i =>
    match h.owner i with
    | none => some (none, h)
    | some q =>
      if h.head q = some i then
        if some i = h.tail q then
          some (some i, { h with
            head := Function.update h.head q none
            tail := Function.update h.tail q none
            next := Function.update h.next i none
            owner := Function.update h.owner i none })
        else
          match h.next i with
          | none => none
          | some n =>
            some (some i, { h with
              prev := Function.update h.prev n none
              head := Function.update h.head q (some n)
              next := Function.update h.next i none
              owner := Function.update h.owner i none })
      else if some i = h.tail q then
        match h.prev i with
        | none => none
        | some p =>
          some (some i, { h with
            tail := Function.update h.tail q (some p)
            next := Function.update h.next p none
            prev := Function.update h.prev i none
            owner := Function.update h.owner i none })
      else
        match h.prev i, h.next i with
        | some p, some n =>
          some (some i, { h with
            next := Function.update (Function.update h.next p (some n)) i none
            prev := Function.update (Function.update h.prev n (some p)) i none
            owner := Function.update h.owner i none })
        | _, _ => none

/-- `popHeadUnsafe`. -/
def popHeadUnsafe (h : Heap I Q) (q : Q) : Option (Option I × Heap I Q) :=
  if h.itemCount q = 0#32 ∨ h.tail q = none ∨ h.head q = none then some (none, h)
  else
    removeSelfFromOwnerlink
      { h with itemCount := Function.update h.itemCount q (h.itemCount q - 1#32) } (h.head q)

/-- `pushBackUnsafe` of an item that is not null. -/
def pushBackUnsafe (h : Heap I Q) (q : Q) (i : I) : Option (Heap I Q) :=
  let counted := Function.update h.itemCount q (h.itemCount q + 1#32)
  if h.head q = none ∧ h.tail q = none then
    some { h with
      itemCount := counted
      head := Function.update h.head q (some i)
      tail := Function.update h.tail q (some i)
      owner := Function.update h.owner i (some q) }
  else
    match h.tail q with
    | none => none
    | some t =>
      some { h with
        itemCount := counted
        next := Function.update (Function.update h.next t (some i)) i none
        prev := Function.update h.prev i (some t)
        tail := Function.update h.tail q (some i)
        owner := Function.update h.owner i (some q) }

end

/-- Every queue `q` is linked from head to tail through `content q` and owns its items. -/
structure Shaped (h : Heap I Q) (content : Q → List I) : Prop where
  linked : ∀ q, Linked h.next h.prev (h.head q) (h.tail q) (content q)
  filed : Filed h.owner content

/-- Every queue `q` is linked from head to tail through `content q`, and counts it. -/
structure WellFormed (h : Heap I Q) (content : Q → List I) : Prop where
  linked : ∀ q, Linked h.next h.prev (h.head q) (h.tail q) (content q)
  filed : Filed h.owner content
  counted : ∀ q, h.itemCount q = BitVec.ofNat 32 (content q).length

/-- An item that is linked nowhere. -/
structure Loose (h : Heap I Q) (i : I) : Prop where
  next : h.next i = none
  prev : h.prev i = none
  owner : h.owner i = none

variable {h : Heap I Q} {content : Q → List I} {q : Q} {x : I} {xs : List I}

theorem WellFormed.shaped (formed : h.WellFormed content) : h.Shaped content :=
  ⟨formed.linked, formed.filed⟩

/-- Nothing that is linked somewhere is loose. -/
theorem Shaped.not_mem (shaped : h.Shaped content) (free : h.owner x = none) (q : Q) :
    x ∉ content q := by
  intro member
  rw [(shaped.filed x q).mpr member] at free
  cases free

theorem ofNat_succ_sub (n : Nat) : BitVec.ofNat 32 (n + 1) - 1#32 = BitVec.ofNat 32 n := by
  rw [BitVec.ofNat_add, BitVec.add_sub_cancel]

/-- A queue that counts something has a first item. -/
theorem WellFormed.first (formed : h.WellFormed content) (counts : h.itemCount q ≠ 0#32) :
    ∃ x xs, content q = x :: xs := by
  cases items : content q with
  | nil =>
    rw [formed.counted q, items] at counts
    exact absurd rfl counts
  | cons x xs => exact ⟨x, xs, rfl⟩

variable [DecidableEq I] [DecidableEq Q]

omit [DecidableEq I] in
/-- The count of a queue that has changed together with its items. -/
theorem counted_update (counted : ∀ q, h.itemCount q = BitVec.ofNat 32 (content q).length)
    {n : BitVec 32} (same : n = BitVec.ofNat 32 xs.length) (q' : Q) :
    Function.update h.itemCount q n q' =
      BitVec.ofNat 32 (Function.update content q xs q').length := by
  by_cases here : q' = q
  · rw [here, Function.update_self, Function.update_self, same]
  · rw [Function.update_of_ne here, Function.update_of_ne here, counted q']

/-! ### Taking an item out -/

/-- The memory `h'` after `x` has been taken out of `q` from between `front` and `back`. -/
structure Unlinks (h h' : Heap I Q) (q : Q) (front : List I) (x : I) (back : List I) : Prop where
  owner : h'.owner = Function.update h.owner x none
  head : h'.head = Function.update h.head q (front ++ back).head?
  tail : h'.tail = Function.update h.tail q (front ++ back).getLast?
  itemCount : h'.itemCount = h.itemCount
  next_self : h'.next x = none
  prev_self : h'.prev x = none
  forth : ∀ y, y ≠ x → h'.next y = if h.prev x = some y then h.next x else h.next y
  backward : ∀ y, y ≠ x → h'.prev y = if h.next x = some y then h.prev x else h.prev y

/-- The only item of a queue. -/
theorem removeSelf_only (owns : h.owner x = some q) (head : h.head q = some x)
    (tail : h.tail q = some x) :
    h.removeSelfFromOwnerlink (some x) = some (some x, { h with
      head := Function.update h.head q none
      tail := Function.update h.tail q none
      next := Function.update h.next x none
      owner := Function.update h.owner x none }) := by
  simp only [removeSelfFromOwnerlink, owns, head, tail, if_true]

/-- The first of several items. -/
theorem removeSelf_first {n : I} (owns : h.owner x = some q) (head : h.head q = some x)
    (tail : h.tail q ≠ some x) (next : h.next x = some n) :
    h.removeSelfFromOwnerlink (some x) = some (some x, { h with
      prev := Function.update h.prev n none
      head := Function.update h.head q (some n)
      next := Function.update h.next x none
      owner := Function.update h.owner x none }) := by
  simp only [removeSelfFromOwnerlink, owns, head, tail.symm, next, if_true, if_false]

/-- The last of several items. -/
theorem removeSelf_last {p : I} (owns : h.owner x = some q) (head : h.head q ≠ some x)
    (tail : h.tail q = some x) (prev : h.prev x = some p) :
    h.removeSelfFromOwnerlink (some x) = some (some x, { h with
      tail := Function.update h.tail q (some p)
      next := Function.update h.next p none
      prev := Function.update h.prev x none
      owner := Function.update h.owner x none }) := by
  simp only [removeSelfFromOwnerlink, owns, head, tail, prev, if_true, if_false]

/-- An item between two others. -/
theorem removeSelf_inner {p n : I} (owns : h.owner x = some q) (head : h.head q ≠ some x)
    (tail : h.tail q ≠ some x) (prev : h.prev x = some p) (next : h.next x = some n) :
    h.removeSelfFromOwnerlink (some x) = some (some x, { h with
      next := Function.update (Function.update h.next p (some n)) x none
      prev := Function.update (Function.update h.prev n (some p)) x none
      owner := Function.update h.owner x none }) := by
  simp only [removeSelfFromOwnerlink, owns, head, tail.symm, prev, next, if_false]

omit [DecidableEq Q] in
theorem update_eq_ite (f : I → Option I) (p y : I) (b : Option I) :
    Function.update f p b y = if some p = some y then b else f y := by
  rw [Function.update_apply]
  exact if_congr (by rw [Option.some.injEq, eq_comm]) rfl rfl

/-- Where `x` is linked in `q`, between `front` and `back`. -/
structure Located (h : Heap I Q) (q : Q) (front : List I) (x : I) (back : List I) : Prop where
  owner : h.owner x = some q
  head : h.head q = (front ++ x :: back).head?
  tail : h.tail q = (front ++ x :: back).getLast?
  prev : h.prev x = front.getLast?
  next : h.next x = back.head?
  fresh : x ∉ front ++ back

omit [DecidableEq I] [DecidableEq Q] in
theorem Shaped.located (shaped : h.Shaped content) {front back : List I}
    (items : content q = front ++ x :: back) : Located h q front x back := by
  have linked := shaped.linked q
  rw [items] at linked
  obtain ⟨prev, next⟩ := linked.chained.at
  exact {
    owner := (shaped.filed x q).mpr (by simp [items])
    head := linked.head_eq
    tail := linked.tail_eq
    prev := prev.trans (Option.or_none ..)
    next := next
    fresh := (List.nodup_cons.mp (List.nodup_middle.mp linked.nodup)).1 }

variable {front back : List I}

omit [DecidableEq I] [DecidableEq Q] in
/-- An item with another one in front of it is not the head. -/
theorem Located.not_head {p : I} (located : Located h q (front ++ [p]) x back) :
    h.head q = (front ++ [p]).head? ∧ h.head q ≠ some x := by
  have same : h.head q = (front ++ [p]).head? := by
    rw [located.head]
    cases front <;> rfl
  refine ⟨same, fun first => located.fresh ?_⟩
  exact List.mem_append_left back (List.mem_of_head? (same.symm.trans first))

omit [DecidableEq I] [DecidableEq Q] in
/-- An item with another one behind it is not the tail. -/
theorem Located.not_tail {n : I} (located : Located h q front x (n :: back)) :
    h.tail q = (front ++ n :: back).getLast? ∧ h.tail q ≠ some x := by
  have same : h.tail q = (front ++ n :: back).getLast? := by
    rw [located.tail, List.getLast?_append_cons, List.getLast?_append_cons,
      List.getLast?_cons_cons]
  refine ⟨same, fun last => located.fresh ?_⟩
  exact List.mem_of_getLast? (same.symm.trans last)

theorem Located.unlinks_only (located : Located h q [] x []) :
    ∃ h', h.removeSelfFromOwnerlink (some x) = some (some x, h') ∧ Unlinks h h' q [] x [] := by
  have next : h.next x = none := located.next
  have prev : h.prev x = none := located.prev
  refine ⟨_, removeSelf_only located.owner located.head located.tail, ⟨rfl, rfl, rfl, rfl,
    Function.update_self .., prev, fun y differs => ?_, fun y _ => ?_⟩⟩
  · rw [prev]
    exact Function.update_of_ne differs ..
  · rw [next]
    rfl

theorem Located.unlinks_first {n : I} (located : Located h q [] x (n :: back)) :
    ∃ h', h.removeSelfFromOwnerlink (some x) = some (some x, h') ∧
      Unlinks h h' q [] x (n :: back) := by
  obtain ⟨tail, tail_differs⟩ := located.not_tail
  have next : h.next x = some n := located.next
  have prev : h.prev x = none := located.prev
  have differs : x ≠ n := fun same => located.fresh (by simp [same])
  refine ⟨_, removeSelf_first located.owner located.head tail_differs next, ⟨rfl, rfl, ?_, rfl,
    Function.update_self .., ?_, fun y other => ?_, fun y _ => ?_⟩⟩
  · rw [← tail]
    exact (Function.update_eq_self ..).symm
  · exact (Function.update_of_ne differs ..).trans prev
  · rw [prev]
    exact Function.update_of_ne other ..
  · -- only the next item had `x` in front of it
    rw [next, prev]
    exact update_eq_ite ..

theorem Located.unlinks_last {p : I} (located : Located h q (front ++ [p]) x []) :
    ∃ h', h.removeSelfFromOwnerlink (some x) = some (some x, h') ∧
      Unlinks h h' q (front ++ [p]) x [] := by
  obtain ⟨head, head_differs⟩ := located.not_head
  have next : h.next x = none := located.next
  have prev : h.prev x = some p := located.prev.trans List.getLast?_concat
  have tail : h.tail q = some x := located.tail.trans List.getLast?_concat
  have differs : x ≠ p := fun same => located.fresh (by simp [same])
  refine ⟨_, removeSelf_last located.owner head_differs tail prev, ⟨rfl, ?_, ?_, rfl, ?_,
    Function.update_self .., fun y _ => ?_, fun y other => ?_⟩⟩
  · rw [List.append_nil, ← head]
    exact (Function.update_eq_self ..).symm
  · rw [List.append_nil, List.getLast?_concat]
  · exact (Function.update_of_ne differs ..).trans next
  · -- only the item before had `x` behind it
    rw [prev, next]
    exact update_eq_ite ..
  · rw [next]
    exact Function.update_of_ne other ..

theorem Located.unlinks_inner {p n : I} (located : Located h q (front ++ [p]) x (n :: back)) :
    ∃ h', h.removeSelfFromOwnerlink (some x) = some (some x, h') ∧
      Unlinks h h' q (front ++ [p]) x (n :: back) := by
  obtain ⟨head, head_differs⟩ := located.not_head
  obtain ⟨tail, tail_differs⟩ := located.not_tail
  have next : h.next x = some n := located.next
  have prev : h.prev x = some p := located.prev.trans List.getLast?_concat
  refine ⟨_, removeSelf_inner located.owner head_differs tail_differs prev next, ⟨rfl, ?_, ?_,
    rfl, Function.update_self .., Function.update_self .., fun y other => ?_,
    fun y other => ?_⟩⟩
  · have same : (front ++ [p] ++ n :: back).head? = h.head q := by
      rw [head]
      cases front <;> rfl
    rw [same]
    exact (Function.update_eq_self ..).symm
  · rw [← tail]
    exact (Function.update_eq_self ..).symm
  · rw [prev, next]
    exact (Function.update_of_ne other ..).trans (update_eq_ite ..)
  · rw [prev, next]
    exact (Function.update_of_ne other ..).trans (update_eq_ite ..)

/-- `removeSelfFromOwnerlink` of an item that is linked somewhere. -/
theorem Shaped.unlinks (shaped : h.Shaped content) (items : content q = front ++ x :: back) :
    ∃ h', h.removeSelfFromOwnerlink (some x) = some (some x, h') ∧
      Unlinks h h' q front x back := by
  have located := shaped.located items
  -- the four branches of the source: alone, head, tail, or neither
  obtain rfl | ⟨front, p, rfl⟩ := List.eq_nil_or_concat' front
  · cases back with
    | nil => exact located.unlinks_only
    | cons n back => exact located.unlinks_first
  · cases back with
    | nil => exact located.unlinks_last
    | cons n back => exact located.unlinks_inner

/-- Taking an item out leaves the other items as they are, and it is loose itself. -/
theorem Unlinks.shaped {h' : Heap I Q} {front back : List I}
    (unlinks : Unlinks h h' q front x back) (shaped : h.Shaped content)
    (items : content q = front ++ x :: back) :
    h'.Shaped (Function.update content q (front ++ back)) ∧ h'.Loose x ∧
      ∀ y, h.Loose y → h'.Loose y := by
  have linked := shaped.linked q
  rw [items] at linked
  have fresh : x ∉ front ++ back := (List.nodup_cons.mp (List.nodup_middle.mp linked.nodup)).1
  have mine : x ∈ content q := by simp [items]
  -- the neighbours of `x` are in its queue
  have neighbours : ∀ y, h.prev x = some y ∨ h.next x = some y → y ∈ content q := by
    intro y near
    rcases near with back | forth
    · exact ((shaped.linked q).chained.prev_mem mine back).resolve_left (by simp)
    · exact (shaped.linked q).chained.next_mem mine forth
  have others : ∀ y, y ∉ content q → h'.next y = h.next y ∧ h'.prev y = h.prev y := by
    intro y outside
    have differs : y ≠ x := fun same => outside (same ▸ mine)
    exact ⟨(unlinks.forth y differs).trans (if_neg fun near => outside (neighbours y (.inl near))),
      (unlinks.backward y differs).trans (if_neg fun near => outside (neighbours y (.inr near)))⟩
  refine ⟨⟨fun q' => ?_, ?_⟩, ⟨unlinks.next_self, unlinks.prev_self, ?_⟩, fun y loose => ?_⟩
  · by_cases same : q' = q
    · subst same
      rw [Function.update_self]
      refine linked.remove unlinks.forth unlinks.backward ?_ ?_
      · rw [unlinks.head, Function.update_self]
      · rw [unlinks.tail, Function.update_self]
    · rw [Function.update_of_ne same, unlinks.head, unlinks.tail, Function.update_of_ne same,
        Function.update_of_ne same]
      have outside : ∀ y ∈ content q', y ∉ content q := fun y there here =>
        same (shaped.filed.unique there here)
      exact (shaped.linked q').congr (fun y member => (others y (outside y member)).1)
        fun y member => (others y (outside y member)).2
  · rw [unlinks.owner]
    exact shaped.filed.remove items fresh
  · rw [unlinks.owner, Function.update_self]
  · have outside := shaped.not_mem loose.owner q
    have differs : y ≠ x := fun same => outside (same ▸ mine)
    exact ⟨(others y outside).1.trans loose.next, (others y outside).2.trans loose.prev, by
      rw [unlinks.owner, Function.update_of_ne differs, loose.owner]⟩

omit [DecidableEq I] in
/-- The lists without `x` have all the other items. -/
theorem Shaped.mem_without (shaped : h.Shaped content) {front back : List I}
    (items : content q = front ++ x :: back) {y : I} {q' : Q} :
    y ∈ Function.update content q (front ++ back) q' ↔ y ∈ content q' ∧ y ≠ x := by
  have linked := shaped.linked q
  rw [items] at linked
  have fresh : x ∉ front ++ back := (List.nodup_cons.mp (List.nodup_middle.mp linked.nodup)).1
  by_cases same : q' = q
  · subst same
    rw [Function.update_self, items]
    by_cases self : y = x
    · simp [self] at fresh ⊢
      exact fresh
    · simp [self]
  · rw [Function.update_of_ne same]
    refine ⟨fun member => ⟨member, ?_⟩, And.left⟩
    rintro rfl
    exact same (shaped.filed.unique member (by simp [items]))

omit [DecidableEq I] in
theorem mem_pushed {y : I} {q' : Q} :
    y ∈ Function.update content q (content q ++ [x]) q' ↔ y ∈ content q' ∨ q' = q ∧ y = x := by
  by_cases same : q' = q
  · subst same
    simp
  · simp [same]

/-- `removeSelfFromOwnerlink` takes an item out, wherever it is linked. -/
theorem Shaped.remove (shaped : h.Shaped content) {front back : List I}
    (items : content q = front ++ x :: back) :
    ∃ h', h.removeSelfFromOwnerlink (some x) = some (some x, h') ∧
      h'.Shaped (Function.update content q (front ++ back)) ∧ h'.Loose x ∧
      h'.itemCount = h.itemCount ∧ ∀ y, h.Loose y → h'.Loose y := by
  obtain ⟨h', removed, unlinks⟩ := shaped.unlinks items
  obtain ⟨shaped', loose, others⟩ := unlinks.shaped shaped items
  exact ⟨h', removed, shaped', loose, unlinks.itemCount, others⟩

/-- `popHeadUnsafe` takes the first item out. -/
theorem Shaped.pop (shaped : h.Shaped content) (items : content q = x :: xs)
    (counts : h.itemCount q ≠ 0#32) :
    ∃ h', h.popHeadUnsafe q = some (some x, h') ∧ h'.Shaped (Function.update content q xs) ∧
      h'.Loose x ∧ h'.itemCount = Function.update h.itemCount q (h.itemCount q - 1#32) ∧
      ∀ y, h.Loose y → h'.Loose y := by
  have linked := shaped.linked q
  rw [items] at linked
  have head : h.head q = some x := linked.head_eq
  have filled : h.tail q ≠ none := by
    rw [linked.tail_eq, List.getLast?_cons]
    exact Option.some_ne_none _
  -- the count is not what `removeSelfFromOwnerlink` looks at
  let counted := { h with itemCount := Function.update h.itemCount q (h.itemCount q - 1#32) }
  have shapedCounted : counted.Shaped content := ⟨shaped.linked, shaped.filed⟩
  obtain ⟨h', removed, shaped', loose, count, others⟩ :=
    shapedCounted.remove (show content q = [] ++ x :: xs from items)
  refine ⟨h', ?_, shaped', loose, count, fun y free => others y ⟨free.next, free.prev, free.owner⟩⟩
  simp only [popHeadUnsafe, counts, head, filled, false_or, reduceCtorEq, if_false]
  exact removed

/-- `popHeadUnsafe` of a queue that is empty, whatever it counts. -/
theorem Shaped.pop_nil (shaped : h.Shaped content) (items : content q = []) :
    h.popHeadUnsafe q = some (none, h) := by
  have head := (shaped.linked q).head_eq
  rw [items] at head
  exact if_pos (.inr (.inr head))

/-- `popHeadUnsafe` takes the first item out and leaves the others as they are. -/
theorem WellFormed.pop (formed : h.WellFormed content) (items : content q = x :: xs)
    (counts : h.itemCount q ≠ 0#32) :
    ∃ h', h.popHeadUnsafe q = some (some x, h') ∧
      h'.WellFormed (Function.update content q xs) ∧ h'.Loose x ∧
      h'.itemCount = Function.update h.itemCount q (h.itemCount q - 1#32) := by
  obtain ⟨h', popped, shaped, loose, count, -⟩ := formed.shaped.pop items counts
  have one_less : h.itemCount q - 1#32 = BitVec.ofNat 32 xs.length := by
    rw [formed.counted q, items]
    exact ofNat_succ_sub xs.length
  refine ⟨h', popped, ⟨shaped.linked, shaped.filed, fun q' => ?_⟩, loose, count⟩
  rw [count]
  exact counted_update formed.counted one_less q'

/-! ### Putting an item in -/

/-- `pushBackUnsafe` links an item that is linked nowhere at the end. -/
theorem Shaped.push (shaped : h.Shaped content) (loose : h.Loose x) (q : Q) :
    ∃ h', h.pushBackUnsafe q x = some h' ∧
      h'.Shaped (Function.update content q (content q ++ [x])) ∧
      h'.itemCount = Function.update h.itemCount q (h.itemCount q + 1#32) ∧
      ∀ y, y ≠ x → h.Loose y → h'.Loose y := by
  obtain ⟨linked, filed⟩ := id shaped
  have mine := linked q
  have nowhere := shaped.not_mem loose.owner
  have taken := filed.take loose.owner (q := q)
  cases tail : h.tail q with
  | none =>
    have empty : content q = [] := by
      rw [tail] at mine
      exact List.getLast?_eq_none_iff.mp mine.tail_eq.symm
    have head : h.head q = none := by rw [mine.head_eq, empty]; rfl
    have pushed : h.pushBackUnsafe q x = some { h with
        itemCount := Function.update h.itemCount q (h.itemCount q + 1#32)
        head := Function.update h.head q (some x)
        tail := Function.update h.tail q (some x)
        owner := Function.update h.owner x (some q) } := by
      simp only [pushBackUnsafe, head, tail, and_self, if_true]
    refine ⟨_, pushed, ⟨fun q' => ?_, taken⟩, rfl, fun y differs free => ?_⟩
    · by_cases same : q' = q
      · subst same
        simp only [Function.update_self, empty, List.nil_append]
        exact .single loose.next loose.prev
      · simp only [Function.update_of_ne same]
        exact linked q'
    · exact ⟨free.next, free.prev, (Function.update_of_ne differs ..).trans free.owner⟩
  | some t =>
    have pushed : h.pushBackUnsafe q x = some { h with
        itemCount := Function.update h.itemCount q (h.itemCount q + 1#32)
        next := Function.update (Function.update h.next t (some x)) x none
        prev := Function.update h.prev x (some t)
        tail := Function.update h.tail q (some x)
        owner := Function.update h.owner x (some q) } := by
      simp only [pushBackUnsafe, tail, reduceCtorEq, and_false, if_false]
    rw [tail] at mine
    have last : t ∈ content q := List.mem_of_getLast? mine.tail_eq.symm
    refine ⟨_, pushed, ⟨fun q' => ?_, taken⟩, rfl, fun y differs free => ?_⟩
    · by_cases same : q' = q
      · subst same
        simp only [Function.update_self]
        exact mine.push (nowhere q')
      · simp only [Function.update_of_ne same]
        -- the last item of `q` is in no other queue
        refine (linked q').congr (fun z member => ?_) fun z member => ?_
        · have not_x : z ≠ x := fun eq => nowhere q' (eq ▸ member)
          have not_t : z ≠ t := by
            rintro rfl
            exact same (filed.unique member last)
          rw [Function.update_of_ne not_x, Function.update_of_ne not_t]
        · have not_x : z ≠ x := fun eq => nowhere q' (eq ▸ member)
          exact Function.update_of_ne not_x ..
    · have not_t : y ≠ t := fun same => shaped.not_mem free.owner q (same ▸ last)
      exact ⟨by simp only [Function.update_of_ne differs, Function.update_of_ne not_t, free.next],
        (Function.update_of_ne differs ..).trans free.prev,
        (Function.update_of_ne differs ..).trans free.owner⟩

/-- `pushBackUnsafe` keeps the count of a queue. -/
theorem WellFormed.push (formed : h.WellFormed content) (loose : h.Loose x) (q : Q) :
    ∃ h', h.pushBackUnsafe q x = some h' ∧
      h'.WellFormed (Function.update content q (content q ++ [x])) ∧
      h'.itemCount = Function.update h.itemCount q (h.itemCount q + 1#32) := by
  obtain ⟨h', pushed, shaped, count, -⟩ := formed.shaped.push loose q
  have one_more : h.itemCount q + 1#32 = BitVec.ofNat 32 (content q ++ [x]).length := by
    rw [formed.counted q, List.length_append, BitVec.ofNat_add]
    rfl
  refine ⟨h', pushed, ⟨shaped.linked, shaped.filed, fun q' => ?_⟩, count⟩
  rw [count]
  exact counted_update formed.counted one_more q'

end Heap

end BRoutine.Steal
