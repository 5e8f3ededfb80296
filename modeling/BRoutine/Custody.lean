import Mathlib.Data.List.Nodup
import Mathlib.Logic.Function.Basic

/-!
# Custody among concurrent threads

Two pieces of bookkeeping for threads that move between program points. A mutex names the one
thread whose program point says that it holds it, and what that thread is doing can be read off
the mutex. An item that circulates is either stored in a list or in the hands of one thread.
-/

namespace Custody

variable {T P I β : Type*}

/-- The mutex names a thread exactly when the program point of the thread holds it. -/
def Owned (holds : P → Bool) (pc : T → P) (mutex : Option T) : Prop :=
  ∀ t, mutex = some t ↔ holds (pc t) = true

/-- What `f` says of the program point of the holder, `free` when there is none. -/
def atHolder (f : P → β) (free : β) (pc : T → P) : Option T → β
  | none => free
  | some t => f (pc t)

@[simp] theorem atHolder_none (f : P → β) (free : β) (pc : T → P) :
    atHolder f free pc none = free := rfl
@[simp] theorem atHolder_some (f : P → β) (free : β) (pc : T → P) (t : T) :
    atHolder f free pc (some t) = f (pc t) := rfl

/-- Each busy item is stored or in the hands of one thread, and an item at hand is not stored. -/
structure Kept (token : P → Option I) (busy : I → Bool) (pc : T → P) (stored : List I) : Prop where
  nodup : stored.Nodup
  stored_busy : ∀ i ∈ stored, busy i = true
  token_busy : ∀ t i, token (pc t) = some i → busy i = true
  apart : ∀ t i, token (pc t) = some i → i ∉ stored
  unique : ∀ t u i, token (pc t) = some i → token (pc u) = some i → t = u
  conserved : ∀ i, busy i = true → i ∈ stored ∨ ∃ t, token (pc t) = some i

section Moves

variable [DecidableEq T] {pc : T → P} {t : T} {p : P}

theorem atHolder_self {f : P → β} {free : β} {mutex : Option T} (mine : mutex = some t) :
    atHolder f free (Function.update pc t p) mutex = f p := by
  subst mine
  simp

theorem atHolder_other {f : P → β} {free : β} {mutex : Option T} (other : mutex ≠ some t) :
    atHolder f free (Function.update pc t p) mutex = atHolder f free pc mutex := by
  cases mutex with
  | none => rfl
  | some u =>
    have differs : u ≠ t := fun same => other (by rw [same])
    simp [differs]

/-- A move that `f` does not see. -/
theorem atHolder_same {f : P → β} {free : β} (mutex : Option T) (same : f p = f (pc t)) :
    atHolder f free (Function.update pc t p) mutex = atHolder f free pc mutex := by
  by_cases mine : mutex = some t
  · rw [atHolder_self mine, mine, atHolder_some, same]
  · exact atHolder_other mine

/-- A move that `f` does not see leaves what it says of every thread. -/
theorem update_same {f : P → β} (same : f p = f (pc t)) (u : T) :
    f (Function.update pc t p u) = f (pc u) := by
  by_cases mine : u = t
  · subst mine
    rw [Function.update_self, same]
  · rw [Function.update_of_ne mine]

theorem Owned.move {holds : P → Bool} {mutex : Option T} (owned : Owned holds pc mutex)
    (same : holds p = holds (pc t)) : Owned holds (Function.update pc t p) mutex := by
  intro u
  rw [update_same same]
  exact owned u

theorem Owned.lock {holds : P → Bool} (owned : Owned holds pc none) (held : holds p = true) :
    Owned holds (Function.update pc t p) (some t) := by
  intro u
  by_cases mine : u = t
  · subst mine
    simp [held]
  · have free : ¬ holds (pc u) = true := fun inside => by simpa using (owned u).mpr inside
    simp [Function.update_of_ne mine, free, Ne.symm mine]

theorem Owned.unlock {holds : P → Bool} {mutex : Option T} (owned : Owned holds pc mutex)
    (held : holds (pc t) = true) (released : holds p = false) :
    Owned holds (Function.update pc t p) none := by
  intro u
  by_cases mine : u = t
  · subst mine
    simp [released]
  · have holder : mutex = some t := (owned t).mpr held
    have free : ¬ holds (pc u) = true := by
      intro inside
      have : some u = some t := ((owned u).mpr inside).symm.trans holder
      exact mine (Option.some.inj this)
    simp [Function.update_of_ne mine, free]

variable {token : P → Option I} {busy : I → Bool} {stored : List I}

theorem Kept.move (kept : Kept token busy pc stored) (same : token p = token (pc t)) :
    Kept token busy (Function.update pc t p) stored := by
  have tokens := update_same same
  constructor
  · exact kept.nodup
  · exact kept.stored_busy
  · intro u i at_hand
    exact kept.token_busy u i (tokens u ▸ at_hand)
  · intro u i at_hand
    exact kept.apart u i (tokens u ▸ at_hand)
  · intro u v i mine yours
    exact kept.unique u v i (tokens u ▸ mine) (tokens v ▸ yours)
  · intro i taken
    simpa only [tokens] using kept.conserved i taken

/-- What is at hand after `t` has received `i`. -/
theorem at_hand_of_received {i j : I} {u : T} (received : token p = some i)
    (at_hand : token (Function.update pc t p u) = some j) :
    (u = t ∧ j = i) ∨ (u ≠ t ∧ token (pc u) = some j) := by
  by_cases mine : u = t
  · subst mine
    rw [Function.update_self, received] at at_hand
    exact .inl ⟨rfl, (Option.some.inj at_hand).symm⟩
  · rw [Function.update_of_ne mine] at at_hand
    exact .inr ⟨mine, at_hand⟩

/-- What is at hand after `t` has given its item away. -/
theorem at_hand_of_given {j : I} {u : T} (given : token p = none)
    (at_hand : token (Function.update pc t p u) = some j) : u ≠ t ∧ token (pc u) = some j := by
  by_cases mine : u = t
  · subst mine
    rw [Function.update_self, given] at at_hand
    cases at_hand
  · rw [Function.update_of_ne mine] at at_hand
    exact ⟨mine, at_hand⟩

/-- The thread stores its item at the end of the list. -/
theorem Kept.store (kept : Kept token busy pc stored) {i : I} (held : token (pc t) = some i)
    (given : token p = none) :
    Kept token busy (Function.update pc t p) (stored ++ [i]) := by
  constructor
  · refine List.Nodup.append kept.nodup (List.nodup_singleton i) ?_
    intro j inside last
    rw [List.mem_singleton] at last
    subst last
    exact kept.apart t j held inside
  · intro j inside
    rw [List.mem_append, List.mem_singleton] at inside
    rcases inside with inside | rfl
    · exact kept.stored_busy j inside
    · exact kept.token_busy t j held
  · intro u j at_hand
    exact kept.token_busy u j (at_hand_of_given given at_hand).2
  · intro u j at_hand inside
    obtain ⟨other, held'⟩ := at_hand_of_given given at_hand
    rw [List.mem_append, List.mem_singleton] at inside
    rcases inside with inside | rfl
    · exact kept.apart u j held' inside
    · -- it would have been in two hands
      exact other (kept.unique u t j held' held)
  · intro u v j mine yours
    exact kept.unique u v j (at_hand_of_given given mine).2
      (at_hand_of_given given yours).2
  · intro j taken
    rw [List.mem_append, List.mem_singleton]
    rcases kept.conserved j taken with inside | ⟨u, held'⟩
    · exact .inl (.inl inside)
    · by_cases mine : u = t
      · subst mine
        rw [held] at held'
        exact .inl (.inr (Option.some.inj held').symm)
      · exact .inr ⟨u, by rw [Function.update_of_ne mine, held']⟩

/-- The thread takes the first stored item. -/
theorem Kept.take {i : I} (kept : Kept token busy pc (i :: stored)) (idle : token (pc t) = none)
    (received : token p = some i) : Kept token busy (Function.update pc t p) stored := by
  obtain ⟨fresh, nodup⟩ := List.nodup_cons.mp kept.nodup
  constructor
  · exact nodup
  · intro j inside
    exact kept.stored_busy j (List.mem_cons_of_mem i inside)
  · intro u j at_hand
    rcases at_hand_of_received received at_hand with ⟨-, rfl⟩ | ⟨-, held⟩
    · exact kept.stored_busy j List.mem_cons_self
    · exact kept.token_busy u j held
  · intro u j at_hand
    rcases at_hand_of_received received at_hand with ⟨-, rfl⟩ | ⟨-, held⟩
    · exact fresh
    · exact fun inside => kept.apart u j held (List.mem_cons_of_mem i inside)
  · intro u v j mine yours
    -- the item received was stored, so no thread had it
    rcases at_hand_of_received received mine with ⟨rfl, rfl⟩ | ⟨-, held⟩
    · rcases at_hand_of_received received yours with ⟨rfl, -⟩ | ⟨-, held⟩
      · rfl
      · exact absurd List.mem_cons_self (kept.apart v j held)
    · rcases at_hand_of_received received yours with ⟨-, rfl⟩ | ⟨-, held'⟩
      · exact absurd List.mem_cons_self (kept.apart u j held)
      · exact kept.unique u v j held held'
  · intro j taken
    rcases kept.conserved j taken with inside | ⟨u, held⟩
    · rcases List.mem_cons.mp inside with rfl | inside
      · exact .inr ⟨t, by rw [Function.update_self, received]⟩
      · exact .inl inside
    · have other : u ≠ t := by
        rintro rfl
        rw [idle] at held
        cases held
      exact .inr ⟨u, by rw [Function.update_of_ne other, held]⟩

variable [DecidableEq I]

/-- An idle thread receives an item that is not busy. -/
theorem Kept.receive (kept : Kept token busy pc stored) {i : I} (fresh : busy i = false)
    (idle : token (pc t) = none) (received : token p = some i) :
    Kept token (Function.update busy i true) (Function.update pc t p) stored := by
  -- every item in hands or in store is busy
  have not_fresh : ∀ j, busy j = true → j ≠ i := by
    rintro j taken rfl
    rw [fresh] at taken
    cases taken
  constructor
  · exact kept.nodup
  · intro j inside
    have taken := kept.stored_busy j inside
    rw [Function.update_of_ne (not_fresh j taken)]
    exact taken
  · intro u j at_hand
    rcases at_hand_of_received received at_hand with ⟨-, rfl⟩ | ⟨-, held⟩
    · exact Function.update_self ..
    · have taken := kept.token_busy u j held
      rw [Function.update_of_ne (not_fresh j taken)]
      exact taken
  · intro u j at_hand
    rcases at_hand_of_received received at_hand with ⟨-, rfl⟩ | ⟨-, held⟩
    · intro inside
      exact not_fresh j (kept.stored_busy j inside) rfl
    · exact kept.apart u j held
  · intro u v j mine yours
    rcases at_hand_of_received received mine with ⟨rfl, rfl⟩ | ⟨-, held⟩
    · rcases at_hand_of_received received yours with ⟨rfl, -⟩ | ⟨-, held⟩
      · rfl
      · exact absurd rfl (not_fresh j (kept.token_busy v j held))
    · rcases at_hand_of_received received yours with ⟨-, rfl⟩ | ⟨-, held'⟩
      · exact absurd rfl (not_fresh j (kept.token_busy u j held))
      · exact kept.unique u v j held held'
  · intro j taken
    by_cases new : j = i
    · subst new
      exact .inr ⟨t, by rw [Function.update_self, received]⟩
    · rw [Function.update_of_ne new] at taken
      refine (kept.conserved j taken).imp_right ?_
      rintro ⟨u, held⟩
      have other : u ≠ t := by
        rintro rfl
        rw [idle] at held
        cases held
      exact ⟨u, by rw [Function.update_of_ne other, held]⟩

/-- The thread gives up its item, which is no longer busy. -/
theorem Kept.surrender (kept : Kept token busy pc stored) {i : I} (held : token (pc t) = some i)
    (given : token p = none) :
    Kept token (Function.update busy i false) (Function.update pc t p) stored := by
  have apart_i : ∀ j, j ≠ i → Function.update busy i false j = busy j := fun j other =>
    Function.update_of_ne other ..
  constructor
  · exact kept.nodup
  · intro j inside
    -- a stored item is in no hands
    have other : j ≠ i := by rintro rfl; exact kept.apart t j held inside
    rw [apart_i j other]
    exact kept.stored_busy j inside
  · intro u j at_hand
    obtain ⟨other, held'⟩ := at_hand_of_given given at_hand
    have differs : j ≠ i := by rintro rfl; exact other (kept.unique u t j held' held)
    rw [apart_i j differs]
    exact kept.token_busy u j held'
  · intro u j at_hand
    exact kept.apart u j (at_hand_of_given given at_hand).2
  · intro u v j mine yours
    exact kept.unique u v j (at_hand_of_given given mine).2
      (at_hand_of_given given yours).2
  · intro j taken
    by_cases gone : j = i
    · subst gone
      simp at taken
    · rw [apart_i j gone] at taken
      refine (kept.conserved j taken).imp_right ?_
      rintro ⟨u, held'⟩
      have other : u ≠ t := by
        rintro rfl
        rw [held] at held'
        exact gone (Option.some.inj held').symm
      exact ⟨u, by rw [Function.update_of_ne other, held']⟩

end Moves

end Custody
