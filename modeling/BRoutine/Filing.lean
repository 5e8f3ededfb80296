import Mathlib.Data.List.Nodup
import Mathlib.Data.List.Perm.Basic
import Mathlib.Logic.Function.Basic

/-!
# Items in files

Items that are kept in lists, at most one item in one place: a file is a list for each key, and
`place` says of an item the key of the file that holds it, `none` for an item outside. An item is
put into a file from outside and taken out of it again.
-/

namespace Filing

variable {K I : Type*}

/-- Every item is in the file of its place, once, and in no other. -/
structure Filed (content : K → List I) (place : I → Option K) : Prop where
  mem : ∀ k i, i ∈ content k ↔ place i = some k
  nodup : ∀ k, (content k).Nodup

variable {content : K → List I} {place : I → Option K}

theorem Filed.empty : Filed (fun _ => [] : K → List I) fun _ => none where
  mem := by simp
  nodup := by simp

theorem Filed.unique (filed : Filed content place) {k k' : K} {i : I} (here : i ∈ content k)
    (there : i ∈ content k') : k = k' := by
  rw [filed.mem] at here there
  rw [here] at there
  exact Option.some.inj there

theorem Filed.not_mem (filed : Filed content place) {i : I} (outside : place i = none) (k : K) :
    i ∉ content k := by
  rw [filed.mem, outside]
  simp

/-- An item outside is none that has a place. -/
theorem ne_of_placed {k : K} {i j : I} (outside : place i = none) (inside : place j = some k) :
    i ≠ j := by
  rintro rfl
  rw [outside] at inside
  cases inside

section Moves
variable [DecidableEq K] [DecidableEq I] {k : K} {i : I}

/-- An item from outside is put at the end of a file. -/
theorem Filed.put (filed : Filed content place) (outside : place i = none) :
    Filed (Function.update content k (content k ++ [i])) (Function.update place i (some k)) := by
  have absent := filed.not_mem outside
  constructor
  · intro k' j
    by_cases same : k' = k
    · subst same
      rw [Function.update_self, List.mem_append, List.mem_singleton, filed.mem]
      by_cases self : j = i
      · subst self; simp
      · simp [self]
    · rw [Function.update_of_ne same, filed.mem]
      by_cases self : j = i
      · subst self; simp [outside, Ne.symm same]
      · rw [Function.update_of_ne self]
  · intro k'
    by_cases same : k' = k
    · subst same
      rw [Function.update_self, List.nodup_append]
      refine ⟨filed.nodup k', List.nodup_singleton i, ?_⟩
      rintro j member j' last rfl
      rw [List.mem_singleton] at last
      exact absent k' (last ▸ member)
    · rw [Function.update_of_ne same]
      exact filed.nodup k'

/-- An item is taken out of its file. -/
theorem Filed.take (filed : Filed content place) (inside : i ∈ content k) {rest : List I}
    (left : (content k).Perm (i :: rest)) :
    Filed (Function.update content k rest) (Function.update place i none) := by
  have nodup := left.nodup_iff.mp (filed.nodup k)
  obtain ⟨gone, nodup⟩ := List.nodup_cons.mp nodup
  have here : place i = some k := (filed.mem k i).mp inside
  constructor
  · intro k' j
    by_cases same : k' = k
    · subst same
      rw [Function.update_self]
      by_cases self : j = i
      · subst self; simp [gone]
      · rw [Function.update_of_ne self, ← filed.mem, left.mem_iff]
        simp [self]
    · rw [Function.update_of_ne same]
      by_cases self : j = i
      · subst self; simp [filed.mem, here, Ne.symm same]
      · rw [Function.update_of_ne self, filed.mem]
  · intro k'
    by_cases same : k' = k
    · subst same
      rw [Function.update_self]
      exact nodup
    · rw [Function.update_of_ne same]
      exact filed.nodup k'

/-- The first item is taken out of a file. -/
theorem Filed.takeHead (filed : Filed content place) {rest : List I}
    (head : content k = i :: rest) :
    Filed (Function.update content k rest) (Function.update place i none) :=
  filed.take (by rw [head]; exact List.mem_cons_self) (by rw [head])

theorem Filed.erase (filed : Filed content place) (inside : i ∈ content k) :
    Filed (Function.update content k ((content k).erase i)) (Function.update place i none) :=
  filed.take inside (List.perm_cons_erase inside)

/-- An item goes from one file to the end of another. -/
theorem Filed.handOver (filed : Filed content place) {k' : K} (other : k' ≠ k)
    (inside : i ∈ content k) {rest : List I} (left : (content k).Perm (i :: rest)) :
    Filed (Function.update (Function.update content k rest) k' (content k' ++ [i]))
      (Function.update place i (some k')) := by
  have moved := (filed.take inside left).put (k := k') (i := i) (Function.update_self ..)
  rwa [Function.update_of_ne other, Function.update_idem] at moved

omit [DecidableEq I] in
/-- The items of a file in another order. -/
theorem Filed.reorder (filed : Filed content place) {items : List I}
    (same : (content k).Perm items) : Filed (Function.update content k items) place where
  mem := by
    intro k' j
    by_cases here : k' = k
    · subst here
      rw [Function.update_self, ← same.mem_iff, filed.mem]
    · rw [Function.update_of_ne here, filed.mem]
  nodup := by
    intro k'
    by_cases here : k' = k
    · subst here
      rw [Function.update_self]
      exact same.nodup_iff.mp (filed.nodup k')
    · rw [Function.update_of_ne here]
      exact filed.nodup k'

omit [DecidableEq I] in
/-- All items of a file are put at the end of another. -/
theorem Filed.pour (filed : Filed content place) {k' : K} (other : k ≠ k') :
    Filed (Function.update (Function.update content k []) k' (content k' ++ content k))
      fun i => if place i = some k then some k' else place i where
  mem := by
    intro q j
    by_cases last : q = k'
    · subst last
      rw [Function.update_self, List.mem_append, filed.mem, filed.mem]
      by_cases moved : place j = some k
      · simp [moved]
      · simp [moved]
    · rw [Function.update_of_ne last]
      by_cases first : q = k
      · subst first
        by_cases moved : place j = some q
        · simp [moved, Ne.symm other]
        · simp [moved]
      · rw [Function.update_of_ne first, filed.mem]
        by_cases moved : place j = some k
        · simp [moved, Ne.symm first, Ne.symm last]
        · simp [moved]
  nodup := by
    intro q
    by_cases last : q = k'
    · subst last
      rw [Function.update_self, List.nodup_append]
      refine ⟨filed.nodup q, filed.nodup k, ?_⟩
      rintro j here j' there rfl
      exact other (filed.unique there here)
    · rw [Function.update_of_ne last]
      by_cases first : q = k
      · subst first
        rw [Function.update_self]
        exact List.nodup_nil
      · rw [Function.update_of_ne first]
        exact filed.nodup q

end Moves

end Filing
