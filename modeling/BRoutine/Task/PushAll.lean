import BRoutine.Steal.Queues

/-!
# pushAll2 in memory

`pushAll2` moves the items of one queue to the end of another, one turn of its loop for each. The
loop has a number of turns after which it is given up; `Shaped.pushAll2` says that one more than
there are items is enough.
-/

namespace BRoutine.Steal.Heap

open Intrusive

variable {I Q : Type} [DecidableEq I] [DecidableEq Q]

/-- The loop of `this->pushAll2(i)`, at most `fuel` times. -/
def pushAll2Loop (this i : Q) : Nat → Heap I Q → Option (Heap I Q)
  | 0, _ => none
  | fuel + 1, h =>
    match h.removeSelfFromOwnerlink (h.head this) with
    | none => none
    | some (none, h) => some h
    | some (some t, h) =>
      let counted := Function.update h.itemCount this (h.itemCount this - 1#32)
      (pushBackUnsafe { h with itemCount := counted } i t).bind (pushAll2Loop this i fuel)

/-- The lists after everything of `this` has been moved behind what is in `i`. -/
def movedAll (content : Q → List I) (this i : Q) : Q → List I :=
  Function.update (Function.update content i (content i ++ content this)) this []

omit [DecidableEq I] in
theorem movedAll_nil {content : Q → List I} {this : Q} (i : Q) (empty : content this = []) :
    movedAll content this i = content := by
  funext q
  by_cases here : q = this
  · rw [here, movedAll, Function.update_self, empty]
  · rw [movedAll, Function.update_of_ne here, empty, List.append_nil, Function.update_eq_self]

omit [DecidableEq I] in
/-- Moving the first item and then the others. -/
theorem movedAll_cons {content : Q → List I} {this i : Q} (differs : this ≠ i) {x : I}
    {xs : List I} (items : content this = x :: xs) :
    movedAll (Function.update (Function.update content this xs) i (content i ++ [x])) this i =
      movedAll content this i := by
  funext q
  by_cases here : q = this
  · rw [here, movedAll, movedAll, Function.update_self, Function.update_self]
  · simp only [movedAll, Function.update_of_ne here]
    by_cases there : q = i
    · subst there
      simp only [Function.update_self, Function.update_of_ne differs, items, List.append_assoc,
        List.singleton_append]
    · simp only [Function.update_of_ne there, Function.update_of_ne here]

omit [DecidableEq I] in
theorem mem_movedAll {content : Q → List I} {this i : Q} (differs : this ≠ i) {x : I} {q : Q} :
    x ∈ movedAll content this i q ↔
      q ≠ this ∧ (x ∈ content q ∨ q = i ∧ x ∈ content this) := by
  by_cases here : q = this
  · simp [here, movedAll]
  · rw [movedAll, Function.update_of_ne here]
    by_cases there : q = i
    · subst there
      simp [differs.symm]
    · simp [here, there]

/-- The counts after `n` items have been counted over from `this` to `i`. -/
def countedOver (count : Q → BitVec 32) (this i : Q) (n : Nat) : Q → BitVec 32 :=
  Function.update (Function.update count this (count this - BitVec.ofNat 32 n)) i
    (count i + BitVec.ofNat 32 n)

theorem countedOver_zero (count : Q → BitVec 32) (this i : Q) :
    countedOver count this i 0 = count := by
  simp [countedOver]

theorem countedOver_succ (count : Q → BitVec 32) {this i : Q} (differs : this ≠ i) (n : Nat) :
    let off := Function.update count this (count this - 1#32)
    countedOver (Function.update off i (off i + 1#32)) this i n =
      countedOver count this i (n + 1) := by
  have split : BitVec.ofNat 32 (n + 1) = BitVec.ofNat 32 n + 1#32 := BitVec.ofNat_add ..
  funext q
  simp only [countedOver, Function.update_self, Function.update_of_ne differs,
    Function.update_of_ne differs.symm, split]
  by_cases there : q = i
  · rw [there, Function.update_self, Function.update_self]
    ac_rfl
  · rw [Function.update_of_ne there, Function.update_of_ne there]
    by_cases here : q = this
    · rw [here, Function.update_self, Function.update_self]
      bv_omega
    · simp only [Function.update_of_ne here, Function.update_of_ne there]

variable {h : Heap I Q} {content : Q → List I} {this i : Q}

/-- `pushAll2` moves all items in order and counts them over. -/
theorem Shaped.pushAll2 (shaped : h.Shaped content) (differs : this ≠ i) {fuel : Nat}
    (enough : (content this).length < fuel) :
    ∃ h', pushAll2Loop this i fuel h = some h' ∧ h'.Shaped (movedAll content this i) ∧
      h'.itemCount = countedOver h.itemCount this i (content this).length ∧
      ∀ y, h.Loose y → h'.Loose y := by
  induction fuel generalizing h content with
  | zero => cases enough
  | succ fuel ih =>
    have head := (shaped.linked this).head_eq
    cases items : content this with
    | nil =>
      rw [items] at head
      refine ⟨h, ?_, ?_, ?_, fun y loose => loose⟩
      · rw [pushAll2Loop, head]
        rfl
      · rw [movedAll_nil i items]
        exact shaped
      · exact (countedOver_zero ..).symm
    | cons x xs =>
      rw [items] at head enough
      obtain ⟨h₁, removed, shaped₁, loose₁, count₁, others₁⟩ :=
        shaped.remove (show content this = [] ++ x :: xs from items)
      let counted := { h₁ with
        itemCount := Function.update h₁.itemCount this (h₁.itemCount this - 1#32) }
      have shapedCounted : counted.Shaped (Function.update content this xs) :=
        ⟨shaped₁.linked, shaped₁.filed⟩
      obtain ⟨h₂, pushed, shaped₂, count₂, others₂⟩ :=
        shapedCounted.push ⟨loose₁.next, loose₁.prev, loose₁.owner⟩ i
      rw [Function.update_of_ne differs.symm] at shaped₂
      -- one item less is left in `this`
      have left : Function.update (Function.update content this xs) i (content i ++ [x]) this =
          xs := by
        rw [Function.update_of_ne differs, Function.update_self]
      obtain ⟨h', ended, shaped', count', others'⟩ :=
        @ih h₂ _ shaped₂ (by rw [left]; exact Nat.lt_of_succ_lt_succ enough)
      refine ⟨h', ?_, ?_, ?_, fun y loose => others' y ?_⟩
      · rw [pushAll2Loop, head]
        simp only [List.head?_cons, removed]
        exact Option.bind_eq_some_iff.mpr ⟨h₂, pushed, ended⟩
      · rw [← movedAll_cons differs items]
        exact shaped'
      · rw [count', left, count₂, List.length_cons, ← countedOver_succ _ differs]
        simp only [counted, count₁]
      · have owns : h.owner x = some this := (shaped.filed x this).mpr (by simp [items])
        have other : y ≠ x := by
          rintro rfl
          rw [loose.owner] at owns
          cases owns
        have free := others₁ y loose
        exact others₂ y other ⟨free.next, free.prev, free.owner⟩

end BRoutine.Steal.Heap
