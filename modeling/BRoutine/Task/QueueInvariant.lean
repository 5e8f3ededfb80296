import Mathlib.Data.List.Chain
import BRoutine.Custody
import BRoutine.Task.Queue

/-!
# What the two mutexes protect

The invariant of `pushBack` and `popHead` on one list. `TailMutex` covers the end of the list and
`HeadMutex` its front, so a `pushBack` that holds only the first and a `popHead` that holds only the
second work at the same time. The list of linked items is a parameter of the invariant; what the
memory looks like beside it depends on how far the thread that holds `TailMutex` is with an
item and on what the thread that holds `HeadMutex` has taken out.
-/

namespace BRoutine.TwoLock

open Custody

variable {T I : Type}

/-! ### Program points -/

/-- How far the thread with `TailMutex` is with its item. -/
inductive Back (I : Type) where
  /-- no item on the way -/
  | quiet
  /-- `ItemCount` includes an item and the list is not looked at yet -/
  | counted
  /-- `head` was null -/
  | empty
  /-- `head` and `tail` were null -/
  | filling
  /-- `head` is the item and `tail` is still null -/
  | headed (i : I)
  /-- `head` or `tail` was not null -/
  | behind
  /-- the `next` of the tail is the item and `tail` is not -/
  | nexted (i : I)
  /-- the item is the tail and its `owner` is not set -/
  | linked (i : I)
  deriving DecidableEq, Repr

/-- How far the thread with `HeadMutex` is with the first item. -/
inductive Front (I : Type) where
  /-- every item counted is linked -/
  | quiet
  /-- an item is counted off and still linked -/
  | claimed
  /-- the item is out of the links and still the tail -/
  | dying (i : I)
  /-- the item is out of the links and still has its `next` -/
  | dirty (i : I)
  deriving DecidableEq, Repr

/-- Items counted in `ItemCount` and not linked. -/
def Back.pending : Back I → Nat
  | .quiet | .linked _ => 0
  | _ => 1

/-- Items linked and not counted in `ItemCount` any more. -/
def Front.claims : Front I → Nat
  | .claimed => 1
  | _ => 0

/-- What `tail` is beside the last linked item. -/
def Front.dies : Front I → Option I
  | .dying i => some i
  | _ => none

/-- The list is about to get its first item. -/
def Back.fills : Back I → Bool
  | .filling | .headed _ => true
  | _ => false

def PushPc.holdsTail : PushPc I → Bool
  | .load | .lockHead | .lockTail => false
  | _ => true

def PopPc.holdsHead : PopPc I → Bool
  | .load | .lockHead | .unlockTail _ | .ret _ => false
  | _ => true

def PopPc.holdsTail (lockTail : Bool) : PopPc I → Bool
  | .unlockTail _ => true
  | .ret _ => false
  | _ => lockTail

def Pc.holdsHead : Pc I → Bool
  | .idle => false
  | .push _ _ .unlockTail => false
  | .push _ lockHead _ => lockHead
  | .pop _ at_ => at_.holdsHead

def Pc.holdsTail : Pc I → Bool
  | .idle => false
  | .push _ _ at_ => at_.holdsTail
  | .pop lockTail at_ => at_.holdsTail lockTail

def PushPc.back (i : I) : PushPc I → Back I
  | .testHead => .counted
  | .testTail => .empty
  | .setHead => .filling
  | .setTail => .headed i
  | .readTail | .setNext _ => .behind
  | .rereadTail | .setPrev _ | .moveTail => .nexted i
  | .clearNext | .setOwner => .linked i
  | _ => .quiet

def Pc.back : Pc I → Back I
  | .push i _ at_ => at_.back i
  | _ => .quiet

def PopPc.front : PopPc I → Front I
  | .readHead | .testOwner _ | .isHead _ | .isTail _ | .clearHead _ | .readNext _ | .clearPrev _ _
  | .rereadNext _ | .setHead _ _ => .claimed
  | .clearTail i => .dying i
  | .clearNext i => .dirty i
  | _ => .quiet

def Pc.front : Pc I → Front I
  | .pop _ at_ => at_.front
  | _ => .quiet

/-- A `popHead` without `TailMutex` has found that its item is the tail. -/
def Pc.empties : Pc I → Bool
  | .pop false (.clearHead _) | .pop false (.clearTail _) => true
  | _ => false

/-- A `pushBack` without `HeadMutex` has found an item and not moved the tail. -/
def Pc.appends : Pc I → Bool
  | .push _ false .readTail | .push _ false (.setNext _) | .push _ false .rereadTail
  | .push _ false (.setPrev _) | .push _ false .moveTail => true
  | _ => false

/-- One thread empties the list while another links an item behind the tail it found. -/
def State.collides (s : State T I) : Bool :=
  match s.headMutex, s.tailMutex with
  | some t, some u => (s.pc t).empties && (s.pc u).appends
  | _, _ => false

def PushPc.token (i : I) : PushPc I → Option I
  | .clearNext | .setOwner | .unlockHead | .unlockTail => none
  | _ => some i

def PopPc.token : PopPc I → Option I
  | .clearTail i | .clearNext i | .clearOwner i => some i
  | .unlockHead result | .unlockTail result | .ret result => result
  | _ => none

/-- The item at hand: not linked yet, or out of the links and not returned yet. -/
def Pc.token : Pc I → Option I
  | .idle => none
  | .push i _ at_ => at_.token i
  | .pop _ at_ => at_.token

/-- What the thread at a program point of `pushBack` knows about the linked items `L`. -/
def PushPc.Knows (i : I) (lockHead : Bool) (L : List I) : PushPc I → Prop
  | .inc => lockHead = false → L ≠ []
  | .testTail | .setHead | .setTail => L = []
  | .readTail | .rereadTail | .setPrev _ | .moveTail => L ≠ []
  | .setNext tail => ∃ last, tail = some last ∧ L.getLast? = some last
  | .clearNext | .setOwner => L.getLast? = some i
  | .unlockHead => lockHead = true
  | _ => True

/-- Without `TailMutex` a `popHead` relies on two items, one of which may be pending. -/
def Enough (lockTail : Bool) (L : List I) (pending : Nat) : Prop :=
  lockTail = false → 2 ≤ L.length + pending

/-- What the thread at a program point of `popHead` knows about the linked items and about the
thread with `TailMutex`. -/
def PopPc.Knows (lockTail : Bool) (L : List I) (back : Back I) : PopPc I → Prop
  | .load | .lockHead | .check | .lockTail => lockTail = false
  | .count | .testTail => Enough lockTail L back.pending
  | .testHead | .dec | .readHead => Enough lockTail L back.pending ∧ L ≠ []
  | .testOwner i | .isHead i | .isTail i => Enough lockTail L back.pending ∧ L.head? = some i
  | .clearHead i => L = [i] ∧ (lockTail = false → back = .counted)
  | .clearTail _ => L = [] ∧ (lockTail = false → back = .counted ∨ back = .empty)
  | .readNext i | .rereadNext i => L.head? = some i ∧ 2 ≤ L.length
  | .clearPrev i next | .setHead i next => ∃ n rest, next = some n ∧ L = i :: n :: rest
  | .inner _ _ => False
  | _ => True

def Pc.Knows (L : List I) (back : Back I) : Pc I → Prop
  | .idle => True
  | .push i lockHead at_ => at_.Knows i lockHead L
  | .pop lockTail at_ => at_.Knows lockTail L back

/-- A thread without a mutex knows nothing that a step of another thread could change. -/
theorem Pc.knows_free {p : Pc I} (head : p.holdsHead = false) (tail : p.holdsTail = false)
    (L : List I) (back : Back I) : p.Knows L back := by
  cases p with
  | idle => trivial
  | push i lockHead at_ => cases at_ <;> trivial
  | pop lockTail at_ =>
    cases at_ with
    | load | lockHead => exact tail
    | _ => trivial

/-- What a thread without `TailMutex` knows survives a `pushBack`, unless it empties the list. -/
theorem Pc.knows_of_push {p : Pc I} (tail : p.holdsTail = false) {L L' : List I}
    {back back' : Back I} (longer : L <+: L')
    (grows : L.length + back.pending ≤ L'.length + back'.pending)
    (empties : p.empties = true → p.Knows L' back') (knows : p.Knows L back) :
    p.Knows L' back' := by
  obtain ⟨added, rfl⟩ := longer
  cases p with
  | idle => trivial
  | push i lockHead at_ => cases at_ <;> trivial
  | pop lockTail at_ =>
    have enough : Enough lockTail L back.pending → Enough lockTail (L ++ added) back'.pending := by
      intro enough without
      exact (enough without).trans grows
    -- a push changes nothing at the head
    have front : ∀ i, L.head? = some i → (L ++ added).head? = some i := by
      intro i first
      rw [List.head?_append, first, Option.some_or]
    cases at_ with
    | load | lockHead | check | lockTail => exact knows
    | count | testTail => exact enough knows
    | testHead | dec | readHead => exact ⟨enough knows.1, by simp [knows.2]⟩
    | testOwner i | isHead i | isTail i => exact ⟨enough knows.1, front i knows.2⟩
    | clearHead i | clearTail i =>
      -- a thread that empties the list has the tail mutex, so nobody pushes
      cases tail
      exact empties rfl
    | readNext i | rereadNext i =>
      refine ⟨front i knows.1, knows.2.trans ?_⟩
      rw [List.length_append]
      omega
    | clearPrev i next | setHead i next =>
      obtain ⟨n, rest, same, rfl⟩ := knows
      exact ⟨n, rest ++ added, same, rfl⟩
    | inner i at_ => exact knows.elim
    | _ => trivial

/-- What a thread without `HeadMutex` knows survives a `popHead` that leaves an item. -/
theorem Pc.knows_of_pop {p : Pc I} (head : p.holdsHead = false) {L L' : List I} {back : Back I}
    (shorter : L' <:+ L) (left : L' ≠ []) (knows : p.Knows L back) : p.Knows L' back := by
  obtain ⟨gone, rfl⟩ := shorter
  have last : (gone ++ L').getLast? = L'.getLast? := List.getLast?_append_of_ne_nil _ left
  cases p with
  | idle => trivial
  | push i lockHead at_ =>
    cases at_ with
    | inc => exact fun _ => left
    | testTail | setHead | setTail => exact absurd (List.append_eq_nil_iff.mp knows).2 left
    | readTail | rereadTail | setPrev tail | moveTail => exact left
    | setNext tail =>
      obtain ⟨a, same, is_last⟩ := knows
      exact ⟨a, same, last ▸ is_last⟩
    | clearNext | setOwner => exact last.symm.trans knows
    | unlockHead => exact knows
    | _ => trivial
  | pop lockTail at_ =>
    cases at_ with
    | load | lockHead => exact knows
    | _ => trivial

/-! ### The invariant -/

def Back.head (L : List I) : Back I → Option I
  | .headed i => some i
  | _ => L.head?

/-- The `next` of the last linked item. -/
def Back.hanging : Back I → Option I
  | .nexted i => some i
  | _ => none

/-- The memory beside the linked items `L`. -/
structure Layout (m : Mem I) (L : List I) (back : Back I) (front : Front I) : Prop where
  head : m.head = back.head L
  tail : m.tail = front.dies.or L.getLast?
  chain : L.IsChain fun a b => m.next a = some b
  last : ∀ a, L.getLast? = some a → m.next a = back.hanging
  outside : ∀ a, a ∉ L → front ≠ .dirty a → m.next a = none
  owner : ∀ a ∈ L, back ≠ .linked a → m.owner a = true
  dying_owner : ∀ a, front = .dying a → m.owner a = true
  filled : back.fills = true → front.dies = none
  count : (m.itemCount + front.claims) % 4294967296 = (L.length + back.pending) % 4294967296
  small : m.itemCount < 4294967296

namespace State

def back (s : State T I) : Back I := atHolder Pc.back .quiet s.pc s.tailMutex
def front (s : State T I) : Front I := atHolder Pc.front .quiet s.pc s.headMutex

end State

/-- The items from head to tail are `L`. -/
structure Inv (s : State T I) (L : List I) : Prop where
  running : s.crashed = false
  once : s.twice = false
  history : s.linked = s.left ++ L
  heads : Owned Pc.holdsHead s.pc s.headMutex
  tails : Owned Pc.holdsTail s.pc s.tailMutex
  kept : Kept Pc.token s.busy s.pc L
  layout : Layout s.mem L s.back s.front
  knows : ∀ t, (s.pc t).Knows L s.back

theorem initial_inv : Inv (initial : State T I) [] where
  running := rfl
  once := rfl
  history := rfl
  heads := by intro t; simp [initial, Pc.holdsHead]
  tails := by intro t; simp [initial, Pc.holdsTail]
  kept := by constructor <;> simp [initial, Pc.token]
  layout := by
    constructor <;>
      simp [initial, State.back, State.front, Back.head, Back.pending, Back.fills, Front.dies,
        Front.claims]
  knows := fun _ => trivial

/-! ### Steps -/

/-- What the program point holds and how it leaves the list. -/
def Pc.outline (p : Pc I) : Bool × Bool × Option I × Back I × Front I :=
  (p.holdsHead, p.holdsTail, p.token, p.back, p.front)

section Steps

variable {s : State T I} {L : List I} {t : T} {o p : Pc I}

theorem Inv.holdsHead_iff (inv : Inv s L) (at_pc : s.pc t = o) :
    s.headMutex = some t ↔ o.holdsHead = true := by
  rw [inv.heads t, at_pc]

theorem Inv.holdsTail_iff (inv : Inv s L) (at_pc : s.pc t = o) :
    s.tailMutex = some t ↔ o.holdsTail = true := by
  rw [inv.tails t, at_pc]

theorem Inv.others_free_head (inv : Inv s L) (at_pc : s.pc t = o) (head : o.holdsHead = true)
    {u : T} (other : u ≠ t) : (s.pc u).holdsHead = false := by
  by_contra inside
  have mine := (inv.holdsHead_iff at_pc).mpr head
  have yours := (inv.heads u).mpr (by simpa using inside)
  exact other (Option.some.inj (yours.symm.trans mine))

theorem Inv.others_free_tail (inv : Inv s L) (at_pc : s.pc t = o) (tail : o.holdsTail = true)
    {u : T} (other : u ≠ t) : (s.pc u).holdsTail = false := by
  by_contra inside
  have mine := (inv.holdsTail_iff at_pc).mpr tail
  have yours := (inv.tails u).mpr (by simpa using inside)
  exact other (Option.some.inj (yours.symm.trans mine))

theorem Inv.back_eq (inv : Inv s L) (at_pc : s.pc t = o) (tail : o.holdsTail = true) :
    s.back = o.back := by
  rw [State.back, (inv.holdsTail_iff at_pc).mpr tail, atHolder_some, at_pc]

theorem Inv.front_eq (inv : Inv s L) (at_pc : s.pc t = o) (head : o.holdsHead = true) :
    s.front = o.front := by
  rw [State.front, (inv.holdsHead_iff at_pc).mpr head, atHolder_some, at_pc]

/-- What happens at the back is up to a thread that stands by what it knows. -/
theorem Inv.back_known (inv : Inv s L) (busy : s.back ≠ .quiet) :
    ∃ u, s.tailMutex = some u ∧ (s.pc u).back = s.back ∧ (s.pc u).Knows L s.back := by
  cases holder : s.tailMutex with
  | none => exact absurd (by rw [State.back, holder, atHolder_none]) busy
  | some u => exact ⟨u, rfl, by rw [State.back, holder, atHolder_some], inv.knows u⟩

theorem Inv.front_known (inv : Inv s L) (busy : s.front ≠ .quiet) :
    ∃ u, s.headMutex = some u ∧ (s.pc u).front = s.front ∧ (s.pc u).Knows L s.back := by
  cases holder : s.headMutex with
  | none => exact absurd (by rw [State.front, holder, atHolder_none]) busy
  | some u => exact ⟨u, rfl, by rw [State.front, holder, atHolder_some], inv.knows u⟩

/-- A claimed item is linked. -/
theorem Pc.nonempty_of_claimed {p : Pc I} {back : Back I} (claimed : p.front = .claimed)
    (knows : p.Knows L back) : L ≠ [] := by
  cases p with
  | idle => cases claimed
  | push i lockHead at_ => cases claimed
  | pop lockTail at_ =>
    cases at_ with
    | readHead => exact knows.2
    | testOwner i | isHead i | isTail i =>
      rintro rfl
      exact absurd knows.2 (by simp)
    | clearHead i => simp [knows.1]
    | readNext i | rereadNext i =>
      rintro rfl
      exact absurd knows.1 (by simp)
    | clearPrev i next | setHead i next =>
      obtain ⟨n, rest, -, rfl⟩ := knows
      simp
    | _ => cases claimed

/-- A `pushBack` that finds two items counted finds one linked. -/
theorem Inv.nonempty_of_count (inv : Inv s L) (quiet : s.back = .quiet)
    (counted : 2 ≤ s.mem.itemCount) : L ≠ [] := by
  by_cases claimed : s.front = .claimed
  · obtain ⟨u, -, same, knows⟩ := inv.front_known (by simp [claimed])
    exact Pc.nonempty_of_claimed (same.trans claimed) knows
  · rintro rfl
    have exact_count : s.front.claims = 0 := by
      cases front : s.front with
      | claimed => exact absurd front claimed
      | _ => rfl
    have count := inv.layout.count
    have small := inv.layout.small
    rw [quiet, exact_count] at count
    simp only [Back.pending, List.length_nil] at count
    omega

theorem Inv.back_empty (inv : Inv s L) {i : I}
    (alone : s.back = .empty ∨ s.back = .filling ∨ s.back = .headed i) : L = [] := by
  obtain ⟨u, -, same, knows⟩ := inv.back_known (by rcases alone with h | h | h <;> simp [h])
  rw [← same] at alone
  cases pc : s.pc u with
  | push j lockHead at_ =>
    rw [pc] at knows alone
    cases at_ with
    | testTail | setHead | setTail => exact knows
    | _ => simp [Pc.back, PushPc.back] at alone
  | _ => simp [pc, Pc.back] at alone

theorem Inv.front_empty (inv : Inv s L) {i : I} (dying : s.front = .dying i) : L = [] := by
  obtain ⟨u, -, same, knows⟩ := inv.front_known (by simp [dying])
  rw [dying] at same
  cases pc : s.pc u with
  | pop lockTail at_ =>
    rw [pc] at knows same
    cases at_ with
    | clearTail j => exact knows.1
    | _ => cases same
  | _ => simp [pc, Pc.front] at same

theorem Inv.last_of_linked (inv : Inv s L) {i : I} (linked : s.back = .linked i) :
    L.getLast? = some i := by
  obtain ⟨u, -, same, knows⟩ := inv.back_known (by simp [linked])
  rw [linked] at same
  cases pc : s.pc u with
  | push j lockHead at_ =>
    rw [pc] at knows same
    cases at_ with
    | clearNext | setOwner =>
      cases same
      exact knows
    | _ => cases same
  | _ => simp [pc, Pc.back] at same

theorem Inv.head_eq (inv : Inv s L) (nonempty : L ≠ []) : s.mem.head = L.head? := by
  rw [inv.layout.head]
  cases back : s.back with
  | headed i => exact absurd (inv.back_empty (.inr (.inr back))) nonempty
  | _ => rfl

theorem Inv.tail_eq (inv : Inv s L) (nonempty : L ≠ []) : s.mem.tail = L.getLast? := by
  rw [inv.layout.tail]
  cases front : s.front with
  | dying i => exact absurd (inv.front_empty front) nonempty
  | _ => rfl

variable [DecidableEq T]

theorem Inv.knows_update (inv : Inv s L) (knows : p.Knows L s.back) (u : T) :
    (Function.update s.pc t p u).Knows L s.back := by
  by_cases same : u = t
  · subst same
    rw [Function.update_self]
    exact knows
  · rw [Function.update_of_ne same]
    exact inv.knows u

/-- A step that changes no mutex. -/
theorem Inv.advance (inv : Inv s L) (at_pc : s.pc t = o) {m : Mem I} {L' linked left : List I}
    {back : Back I} {front : Front I}
    (head : p.holdsHead = o.holdsHead) (tail : p.holdsTail = o.holdsTail)
    (history : linked = left ++ L') (kept : Kept Pc.token s.busy (Function.update s.pc t p) L')
    (back_eq : atHolder Pc.back .quiet (Function.update s.pc t p) s.tailMutex = back)
    (front_eq : atHolder Pc.front .quiet (Function.update s.pc t p) s.headMutex = front)
    (layout : Layout m L' back front) (mine : p.Knows L' back)
    (others : ∀ u, u ≠ t → (s.pc u).Knows L' back) :
    Inv ({ s with linked := linked, left := left }.write m t p) L' where
  running := inv.running
  once := inv.once
  history := history
  heads := inv.heads.move (by rw [at_pc, head])
  tails := inv.tails.move (by rw [at_pc, tail])
  kept := kept
  layout := by subst back_eq front_eq; exact layout
  knows := by
    subst back_eq
    intro u
    show (Function.update s.pc t p u).Knows L' _
    by_cases same : u = t
    · subst same
      rw [Function.update_self]
      exact mine
    · rw [Function.update_of_ne same]
      exact others u same

/-- A step that only reads. -/
theorem Inv.move (inv : Inv s L) (at_pc : s.pc t = o) (like : p.outline = o.outline)
    (knows : p.Knows L s.back) : Inv (s.goto t p) L := by
  simp only [Pc.outline, Prod.mk.injEq] at like
  obtain ⟨head, tail, token, back, front⟩ := like
  exact inv.advance at_pc head tail inv.history
    (inv.kept.move (by rw [at_pc, token]))
    (atHolder_same _ (by rw [at_pc, back]))
    (atHolder_same _ (by rw [at_pc, front]))
    inv.layout knows (fun u _ => inv.knows u)

/-- A step of the thread with `TailMutex` at the end of the list. -/
theorem Inv.stepTail (inv : Inv s L) (at_pc : s.pc t = o) {m : Mem I} {L' linked : List I}
    (holds : o.holdsTail = true)
    (like : p.outline = (o.holdsHead, o.holdsTail, p.token, p.back, o.front))
    (history : linked = s.left ++ L')
    (kept : Kept Pc.token s.busy (Function.update s.pc t p) L')
    (longer : L <+: L') (grows : L.length + o.back.pending ≤ L'.length + p.back.pending)
    (layout : Layout m L' p.back s.front) (mine : p.Knows L' p.back)
    (empties : ∀ u, u ≠ t → (s.pc u).empties = true → (s.pc u).Knows L' p.back) :
    Inv ({ s with linked := linked }.write m t p) L' := by
  simp only [Pc.outline, Prod.mk.injEq] at like
  obtain ⟨head, tail, -, -, front⟩ := like
  refine inv.advance at_pc head tail history kept ?_ ?_ layout mine ?_
  · exact atHolder_self ((inv.holdsTail_iff at_pc).mpr holds)
  · exact atHolder_same _ (by rw [at_pc, front])
  · intro u other
    rw [← inv.back_eq at_pc holds] at grows
    exact Pc.knows_of_push (inv.others_free_tail at_pc holds other) longer grows
      (empties u other) (inv.knows u)

/-- A write of the thread with `HeadMutex`. -/
theorem Inv.stepHead (inv : Inv s L) (at_pc : s.pc t = o) {m : Mem I} {L' left : List I}
    (holds : o.holdsHead = true)
    (like : p.outline = (o.holdsHead, o.holdsTail, p.token, o.back, p.front))
    (history : s.linked = left ++ L') (kept : Kept Pc.token s.busy (Function.update s.pc t p) L')
    (layout : Layout m L' s.back p.front) (mine : p.Knows L' s.back)
    (others : ∀ u, u ≠ t → (s.pc u).holdsTail = true → (s.pc u).Knows L' s.back) :
    Inv ({ s with left := left }.write m t p) L' := by
  simp only [Pc.outline, Prod.mk.injEq] at like
  obtain ⟨head, tail, -, back, -⟩ := like
  refine inv.advance at_pc head tail history kept ?_ ?_ layout mine ?_
  · exact atHolder_same _ (by rw [at_pc, back])
  · exact atHolder_self ((inv.holdsHead_iff at_pc).mpr holds)
  · intro u other
    by_cases tails : (s.pc u).holdsTail = true
    · exact others u other tails
    · exact Pc.knows_free (inv.others_free_head at_pc holds other) (by simpa using tails) L' _

/-- A step that leaves the memory alone: it locks or unlocks, or an item changes hands with the
caller. -/
theorem Inv.exchange (inv : Inv s L) {headMutex tailMutex : Option T} {busy : I → Bool}
    {twice : Bool} (once : twice = false)
    (heads : Owned Pc.holdsHead (Function.update s.pc t p) headMutex)
    (tails : Owned Pc.holdsTail (Function.update s.pc t p) tailMutex)
    (kept : Kept Pc.token busy (Function.update s.pc t p) L)
    (back : atHolder Pc.back .quiet (Function.update s.pc t p) tailMutex = s.back)
    (front : atHolder Pc.front .quiet (Function.update s.pc t p) headMutex = s.front)
    (knows : p.Knows L s.back) :
    Inv ({ s with
      headMutex := headMutex, tailMutex := tailMutex, busy := busy, twice := twice }.goto t p) L
      where
  running := inv.running
  once := once
  history := inv.history
  heads := heads
  tails := tails
  kept := kept
  layout := by
    have layout := inv.layout
    rw [← back, ← front] at layout
    exact layout
  knows := by
    intro u
    have stands := inv.knows_update (t := t) knows u
    rw [← back] at stands
    exact stands

/-- A step at the boundary of a call, where an item changes hands with the caller. -/
theorem Inv.handOver (inv : Inv s L) (at_pc : s.pc t = o) {busy : I → Bool} {twice : Bool}
    (like : p.outline = (o.holdsHead, o.holdsTail, p.token, o.back, o.front))
    (once : twice = false) (kept : Kept Pc.token busy (Function.update s.pc t p) L)
    (knows : p.Knows L s.back) :
    Inv ({ s with busy := busy, twice := twice }.goto t p) L := by
  simp only [Pc.outline, Prod.mk.injEq] at like
  obtain ⟨head, tail, -, back, front⟩ := like
  refine inv.exchange once ?_ ?_ kept ?_ ?_ knows
  · exact inv.heads.move (by rw [at_pc, head])
  · exact inv.tails.move (by rw [at_pc, tail])
  · exact atHolder_same _ (by rw [at_pc, back])
  · exact atHolder_same _ (by rw [at_pc, front])

/-- The step takes a free `HeadMutex`. -/
theorem Inv.lockHead (inv : Inv s L) (at_pc : s.pc t = o) (free : s.headMutex = none)
    (like : p.outline = (true, o.holdsTail, o.token, o.back, .quiet))
    (knows : p.Knows L s.back) : Inv ({ s with headMutex := some t }.goto t p) L := by
  simp only [Pc.outline, Prod.mk.injEq] at like
  obtain ⟨held, tail, token, back, front⟩ := like
  refine inv.exchange inv.once ?_ ?_ ?_ ?_ ?_ knows
  · exact (free ▸ inv.heads).lock held
  · exact inv.tails.move (by rw [at_pc, tail])
  · exact inv.kept.move (by rw [at_pc, token])
  · exact atHolder_same _ (by rw [at_pc, back])
  · rw [atHolder_some, Function.update_self, front, State.front, free, atHolder_none]

/-- The step takes a free `TailMutex`. -/
theorem Inv.lockTail (inv : Inv s L) (at_pc : s.pc t = o) (free : s.tailMutex = none)
    (like : p.outline = (o.holdsHead, true, o.token, .quiet, o.front))
    (knows : p.Knows L s.back) : Inv ({ s with tailMutex := some t }.goto t p) L := by
  simp only [Pc.outline, Prod.mk.injEq] at like
  obtain ⟨head, held, token, back, front⟩ := like
  refine inv.exchange inv.once ?_ ?_ ?_ ?_ ?_ knows
  · exact inv.heads.move (by rw [at_pc, head])
  · exact (free ▸ inv.tails).lock held
  · exact inv.kept.move (by rw [at_pc, token])
  · rw [atHolder_some, Function.update_self, back, State.back, free, atHolder_none]
  · exact atHolder_same _ (by rw [at_pc, front])

/-- The step gives `HeadMutex` back. -/
theorem Inv.unlockHead (inv : Inv s L) (at_pc : s.pc t = o) (held : o.holdsHead = true)
    (quiet : o.front = .quiet)
    (like : p.outline = (false, o.holdsTail, o.token, o.back, p.front))
    (knows : p.Knows L s.back) : Inv ({ s with headMutex := none }.goto t p) L := by
  simp only [Pc.outline, Prod.mk.injEq] at like
  obtain ⟨released, tail, token, back, -⟩ := like
  refine inv.exchange inv.once ?_ ?_ ?_ ?_ ?_ knows
  · exact inv.heads.unlock (by rw [at_pc, held]) released
  · exact inv.tails.move (by rw [at_pc, tail])
  · exact inv.kept.move (by rw [at_pc, token])
  · exact atHolder_same _ (by rw [at_pc, back])
  · rw [atHolder_none, inv.front_eq at_pc held, quiet]

/-- The step gives `TailMutex` back. -/
theorem Inv.unlockTail (inv : Inv s L) (at_pc : s.pc t = o) (held : o.holdsTail = true)
    (quiet : o.back = .quiet)
    (like : p.outline = (o.holdsHead, false, o.token, p.back, o.front))
    (knows : p.Knows L .quiet) : Inv ({ s with tailMutex := none }.goto t p) L := by
  simp only [Pc.outline, Prod.mk.injEq] at like
  obtain ⟨head, released, token, -, front⟩ := like
  have back := (inv.back_eq at_pc held).trans quiet
  refine inv.exchange inv.once ?_ ?_ ?_ ?_ ?_ (back ▸ knows)
  · exact inv.heads.move (by rw [at_pc, head])
  · exact inv.tails.unlock (by rw [at_pc, held]) released
  · exact inv.kept.move (by rw [at_pc, token])
  · rw [atHolder_none, back]
  · exact atHolder_same _ (by rw [at_pc, front])

end Steps

end BRoutine.TwoLock
