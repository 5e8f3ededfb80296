import Mathlib.Algebra.Group.Nat.Defs
import BRoutine.Task.Shape

/-!
# ItemCount and the linked items

`pushBack`, `popHead` and `pushAll2` count what they link and unlink, `RemoveSelfFromOwnerlink_Save`
does not. `counts_iff` says which runs keep `ItemCount` equal to the number of linked items.
-/

namespace BRoutine.Count

open Steal Intrusive
open Shape (Memory Sound)

variable {I Q : Type} [DecidableEq I] [DecidableEq Q]

/-- The operations that take the locks of their lists, and the two that make items and lists. -/
inductive Op (I Q : Type) where
  | newItem (i : I)
  | newList (q : Q)
  | pushBack (q : Q) (i : I)
  | popHead (q : Q)
  | pushAll2 (this i : Q)
  | removeSelfFromOwnerlinkSave (i : I)

/-- What an operation returns and leaves when no other runs beside it. Nothing if it follows a null
pointer, as `RemoveSelfFromOwnerlink_Save` does at `i->owner->HeadMutex` for an item without
owner. -/
def perform (m : Memory I Q) : Op I Q → Option (Option I × Memory I Q)
  | .newItem i => m.perform (.newItem i)
  | .newList q => m.perform (.newList q)
  | .pushBack q i => m.perform (.pushBackUnsafe q i)
  | .popHead q =>
    if m.heap.itemCount q = 0#32 then some (none, m) else m.perform (.popHeadUnsafe q)
  | .pushAll2 this i => m.perform (.pushAll2 this i)
  | .removeSelfFromOwnerlinkSave i =>
    (m.heap.owner i).bind fun _ => m.perform (.removeSelfFromOwnerlink i)

/-- When an operation may be called. -/
def Enabled (m : Memory I Q) : Op I Q → Prop
  | .newItem i => m.Enabled (.newItem i)
  | .newList q => m.Enabled (.newList q)
  | .pushBack q i => m.Enabled (.pushBackUnsafe q i)
  | .popHead q => q ∈ m.lists
  | .pushAll2 this i => m.Enabled (.pushAll2 this i)
  | .removeSelfFromOwnerlinkSave i => m.Enabled (.removeSelfFromOwnerlink i)

instance (m : Memory I Q) : (op : Op I Q) → Decidable (Enabled m op)
  | .newItem i => inferInstanceAs (Decidable (m.Enabled (.newItem i)))
  | .newList q => inferInstanceAs (Decidable (m.Enabled (.newList q)))
  | .pushBack q i => inferInstanceAs (Decidable (m.Enabled (.pushBackUnsafe q i)))
  | .popHead _ => inferInstanceAs (Decidable (_ ∈ _))
  | .pushAll2 this i => inferInstanceAs (Decidable (m.Enabled (.pushAll2 this i)))
  | .removeSelfFromOwnerlinkSave i =>
    inferInstanceAs (Decidable (m.Enabled (.removeSelfFromOwnerlink i)))

/-- Any sequence of operations. -/
def machine (I Q : Type) [DecidableEq I] [DecidableEq Q] :
    Transition.Machine (Memory I Q) (Op I Q) where
  start m := m = .initial
  step m op := if Enabled m op then (perform m op).map Prod.snd else none

/-- `ItemCount` is the number of items that are linked from head to tail. -/
def Counts (m : Memory I Q) : Prop :=
  ∀ q ∈ m.lists, ∃ items, Linked m.heap.next m.heap.prev (m.heap.head q) (m.heap.tail q) items ∧
    (m.heap.itemCount q).toNat = items.length

/-- Nothing is unlinked without being counted, and no count reaches `2 ^ 32`. -/
def Spared (m : Memory I Q) : Op I Q → Prop
  | .removeSelfFromOwnerlinkSave _ => False
  | .pushBack q _ => (m.heap.itemCount q).toNat + 1 < 2 ^ 32
  | .pushAll2 this i => (m.heap.itemCount i).toNat + (m.heap.itemCount this).toNat < 2 ^ 32
  | .newItem _ | .newList _ | .popHead _ => True

/-- The lists are in shape and each count is the number of its items. -/
structure Exact (m : Memory I Q) (content : Q → List I) : Prop where
  sound : Sound m content
  counted : ∀ q, (m.heap.itemCount q).toNat = (content q).length

variable {m m' : Memory I Q} {content : Q → List I}

omit [DecidableEq I] [DecidableEq Q] in
theorem Exact.counts (kept : Exact m content) : Counts m :=
  fun q _ => ⟨content q, kept.sound.shaped.linked q, kept.counted q⟩

omit [DecidableEq I] [DecidableEq Q] in
/-- What a list has linked is its content. -/
theorem Counts.length (counts : Counts m) (sound : Sound m content) {q : Q} (list : q ∈ m.lists) :
    (m.heap.itemCount q).toNat = (content q).length := by
  obtain ⟨items, linked, counted⟩ := counts q list
  rw [counted, linked.unique (sound.shaped.linked q)]

omit [DecidableEq I] [DecidableEq Q] in
theorem initial_exact : Exact (.initial : Memory I Q) fun _ => [] :=
  ⟨Shape.initial_sound, fun _ => rfl⟩

/-! ### One operation -/

omit [DecidableEq I] in
/-- A count that has changed together with its list. -/
theorem counted_update {count : Q → BitVec 32} (counted : ∀ q, (count q).toNat = (content q).length)
    {q : Q} {n : BitVec 32} {items : List I} (same : n.toNat = items.length) (q' : Q) :
    (Function.update count q n q').toNat = (Function.update content q items q').length := by
  by_cases here : q' = q
  · rw [here, Function.update_self, Function.update_self, same]
  · rw [Function.update_of_ne here, Function.update_of_ne here, counted q']

/-- The operations that count keep the counts exact as long as they fit. -/
theorem Exact.step (kept : Exact m content) {op : Op I Q} (spared : Spared m op)
    (stepped : (machine I Q).step m op = some m') : ∃ content', Exact m' content' := by
  obtain ⟨sound, counted⟩ := kept
  simp only [machine] at stepped
  split at stepped
  next enabled =>
    cases op with
    | newItem i =>
      obtain ⟨sound', counts, -⟩ := sound.after (.newItem i) enabled stepped
      exact ⟨content, sound', fun q => by rw [counts]; exact counted q⟩
    | newList q =>
      obtain ⟨sound', counts, -⟩ := sound.after (.newList q) enabled stepped
      refine ⟨_, sound', ?_⟩
      rw [counts]
      exact counted_update counted rfl
    | pushBack q i =>
      obtain ⟨sound', counts, -⟩ := sound.after (.pushBackUnsafe q i) enabled stepped
      refine ⟨_, sound', ?_⟩
      rw [counts]
      refine counted_update counted ?_
      rw [List.length_append, ← counted q, BitVec.toNat_add]
      exact Nat.mod_eq_of_lt spared
    | popHead q =>
      rw [perform] at stepped
      split at stepped
      · cases stepped
        exact ⟨content, sound, counted⟩
      next some =>
        -- a count that is not 0 is that of a list with a first item
        have positive : (m.heap.itemCount q).toNat ≠ 0 := fun zero =>
          some (BitVec.eq_of_toNat_eq zero)
        have filled : content q ≠ [] := fun empty => positive (by rw [counted q, empty]; rfl)
        obtain ⟨sound', counts, -⟩ := sound.after (.popHeadUnsafe q) ⟨enabled, some⟩ stepped
        refine ⟨_, sound', ?_⟩
        rw [counts, Shape.Op.counts, if_neg filled]
        refine counted_update counted ?_
        rw [List.length_tail, ← counted q]
        bv_omega
    | pushAll2 this i =>
      obtain ⟨sound', counts, -⟩ := sound.after (.pushAll2 this i) enabled stepped
      -- each turn of the loop takes one off, so the count of `this` ends at 0
      have length : BitVec.ofNat 32 (content this).length = m.heap.itemCount this := by
        rw [← counted this, BitVec.ofNat_toNat, BitVec.setWidth_eq]
      refine ⟨Heap.movedAll content this i, sound', fun q => ?_⟩
      rw [counts, Shape.Op.counts, Heap.countedOver, length, BitVec.sub_self, Heap.movedAll]
      by_cases there : q = i
      · subst there
        rw [Function.update_self, Function.update_of_ne enabled.2.2.symm, Function.update_self,
          List.length_append, ← counted q, ← counted this, BitVec.toNat_add]
        exact Nat.mod_eq_of_lt spared
      · rw [Function.update_of_ne there]
        by_cases here : q = this
        · rw [here, Function.update_self, Function.update_self]
          rfl
        · rw [Function.update_of_ne here, Function.update_of_ne here, Function.update_of_ne there]
          exact counted q
    | removeSelfFromOwnerlinkSave i => exact absurd spared id
  · cases stepped

omit [DecidableEq I] [DecidableEq Q] in
/-- No count says `2 ^ 32` or more. -/
theorem Counts.length_lt (counts : Counts m) (sound : Sound m content) {q : Q}
    (list : q ∈ m.lists) : (content q).length < 2 ^ 32 := by
  rw [← counts.length sound list]
  exact (m.heap.itemCount q).isLt

/-- Any other operation leaves a count that is wrong. -/
theorem Exact.sharp (kept : Exact m content) {op : Op I Q} (forbidden : ¬ Spared m op)
    (stepped : (machine I Q).step m op = some m') : ¬ Counts m' := by
  obtain ⟨sound, counted⟩ := kept
  intro counts'
  simp only [machine] at stepped
  split at stepped
  next enabled =>
    cases op with
    | pushBack q i =>
      obtain ⟨sound', -, performs⟩ := sound.after (.pushBackUnsafe q i) enabled stepped
      have list := performs.lists q enabled.1 (by simp)
      have small := counts'.length_lt sound' list
      rw [Shape.Op.apply, Function.update_self, List.length_append, ← counted q] at small
      exact forbidden small
    | pushAll2 this i =>
      obtain ⟨sound', -, performs⟩ := sound.after (.pushAll2 this i) enabled stepped
      have list := performs.lists i enabled.2.1 (by simp)
      have small := counts'.length_lt sound' list
      rw [Shape.Op.apply, Function.update_of_ne enabled.2.2.symm, Function.update_self,
        List.length_append, ← counted i, ← counted this] at small
      exact forbidden small
    | removeSelfFromOwnerlinkSave x =>
      obtain ⟨q, owns⟩ := Option.ne_none_iff_exists'.mp enabled.2
      rw [perform, owns, Option.bind_some] at stepped
      obtain ⟨sound', same, performs⟩ := sound.after (.removeSelfFromOwnerlink x) enabled stepped
      have member : x ∈ content q := (sound.shaped.filed x q).mp owns
      have list := performs.lists q (sound.allocated q x member).1 (by simp)
      -- the count is that of the list with the item
      have length := counts'.length sound' list
      rw [same, Shape.Op.counts, Shape.Op.apply, counted q, List.length_erase_of_mem member]
        at length
      have positive := List.length_pos_of_mem member
      omega
    | newItem _ | newList _ | popHead _ => exact forbidden trivial
  · cases stepped

/-- A run keeps every `ItemCount` equal to the number of linked items exactly where it never
unlinks an item with `RemoveSelfFromOwnerlink_Save` and no count reaches `2 ^ 32`. -/
theorem counts_iff (schedule : List (Op I Q)) :
    (∀ m, (machine I Q).Visits .initial schedule m → Counts m) ↔
      ∀ m op, (machine I Q).Takes .initial schedule m op → Spared m op := by
  refine Transition.Machine.safe_iff_steps_ok (fun m => ∃ content, Exact m content) Spared
    ?_ ?_ ?_ ⟨_, initial_exact⟩ schedule
  · rintro m op m' ⟨content, kept⟩ spared stepped
    exact kept.step spared stepped
  · rintro m ⟨content, kept⟩
    exact kept.counts
  · rintro m op m' ⟨content, kept⟩ forbidden stepped
    exact kept.sharp forbidden stepped

omit [DecidableEq I] [DecidableEq Q] in
/-- With the right count `pushBack` and `popHead` take both locks exactly where there are less than
two items. -/
theorem Counts.both_locks (counts : Counts m) {q : Q} (list : q ∈ m.lists) :
    ∃ items, Linked m.heap.next m.heap.prev (m.heap.head q) (m.heap.tail q) items ∧
      (m.heap.itemCount q < 2#32 ↔ items.length < 2) := by
  obtain ⟨items, linked, counted⟩ := counts q list
  refine ⟨items, linked, ?_⟩
  rw [BitVec.lt_def, counted]
  rfl

/-- Two tasks in a bucket, of which one is taken out as `timeWait` and `pollPerpare` do. -/
def takenOut : List (Op Nat Nat) :=
  [.newList 0, .newItem 1, .newItem 2, .pushBack 0 1, .pushBack 0 2, .removeSelfFromOwnerlinkSave 1]

/-- The bucket counts two items and has one, so `popHead` would take one lock only. -/
theorem counts_fails_takenOut :
    ∃ m, (machine Nat Nat).exec .initial takenOut = some m ∧ m.heap.itemCount 0 = 2#32 ∧
      m.heap.head 0 = some 2 ∧ m.heap.tail 0 = some 2 ∧ ¬ Counts m := by
  obtain ⟨m, ran⟩ : ∃ m, (machine Nat Nat).exec .initial takenOut = some m := ⟨_, rfl⟩
  refine ⟨m, ran, ?_⟩
  cases ran
  refine ⟨rfl, rfl, rfl, fun counts => ?_⟩
  obtain ⟨items, linked, counted⟩ := counts 0 (by decide)
  have one : items = [2] := linked.unique ⟨rfl, rfl, ⟨rfl, rfl, trivial⟩, List.nodup_singleton 2⟩
  rw [one] at counted
  cases counted

end BRoutine.Count
