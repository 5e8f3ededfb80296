import Mathlib.Data.Fintype.Card
import Mathlib.Data.Set.Insert
import Mathlib.Logic.Relation
import Mathlib.Order.Basic
import BRoutine.Transition

/-!
# Locks taken in order

Threads run programs that lock, try to lock and unlock mutexes, in any interleaving. A program
that is `Ordered` says at each of its points which mutexes it holds there, and it waits for a
mutex only above all of these. No such threads wait for each other in a cycle, and what a
program holds where it returns is nothing.
-/

namespace LockOrder

/-- What a program does at a point, and the point after it. -/
inductive Instr (M P : Type*) where
  | lock (m : M) (next : P)
  | tryLock (m : M) (taken busy : P)
  | unlock (m : M) (next : P)
  /-- Anything that does not touch a mutex, with a number that it reads. -/
  | read (next : Nat → P)
  | ret

/-- The holder of each mutex, and where each thread is in the program it runs. -/
structure State (T M P : Type*) where
  holder : M → Option T
  pc : T → Option P

/-- An idle thread starts a program, or a thread runs its next step, where `value` is read. -/
inductive Label (T P : Type*) where
  | call (t : T) (p : P)
  | run (t : T) (value : Nat)

variable {T M P : Type*}

/-- No thread runs a program. -/
def initial : State T M P where
  holder := fun _ => none
  pc := fun _ => none

section steps

variable [DecidableEq T] [DecidableEq M]

namespace State

def goto (s : State T M P) (t : T) (p : P) : State T M P :=
  { s with pc := Function.update s.pc t (some p) }

def take (s : State T M P) (t : T) (m : M) : State T M P :=
  { s with holder := Function.update s.holder m (some t) }

def release (s : State T M P) (m : M) : State T M P :=
  { s with holder := Function.update s.holder m none }

def leave (s : State T M P) (t : T) : State T M P :=
  { s with pc := Function.update s.pc t none }

end State

/-- `t` runs an instruction. A thread that locks a mutex waits as long as somebody holds it. -/
def exec (s : State T M P) (t : T) (value : Nat) : Instr M P → Option (State T M P)
  | .lock m next => if s.holder m = none then some ((s.take t m).goto t next) else none
  | .tryLock m taken busy =>
    some (if s.holder m = none then (s.take t m).goto t taken else s.goto t busy)
  | .unlock m next => some ((s.release m).goto t next)
  | .read next => some (s.goto t (next value))
  | .ret => some (s.leave t)

/-- A thread starts at the points that `entry` gives it. -/
def step (code : P → Instr M P) (entry : T → P → Prop) [∀ t p, Decidable (entry t p)]
    (s : State T M P) : Label T P → Option (State T M P)
  | .call t p => if s.pc t = none ∧ entry t p then some (s.goto t p) else none
  | .run t value => (s.pc t).bind fun p => exec s t value (code p)

def machine (code : P → Instr M P) (entry : T → P → Prop) [∀ t p, Decidable (entry t p)] :
    Transition.Machine (State T M P) (Label T P) where
  start s := s = initial
  step := step code entry

end steps

/-! ### The order -/

variable {R : Type*} [Preorder R]

/-- What a program may do at a point where it holds `held`: it tries for no mutex that it holds,
waits only above those it holds, unlocks what it holds, and returns with nothing held. -/
def Follows (holds : P → Set M) (rank : M → R) (held : Set M) : Instr M P → Prop
  | .lock m next => (∀ h ∈ held, rank h < rank m) ∧ holds next = insert m held
  | .tryLock m taken busy => m ∉ held ∧ holds taken = insert m held ∧ holds busy = held
  | .unlock m next => m ∈ held ∧ holds next = held \ {m}
  | .read next => ∀ value, holds (next value) = held
  | .ret => held = ∅

/-- Every point follows the order of `rank` with the mutexes of `holds`. -/
structure Ordered (code : P → Instr M P) (entry : T → P → Prop) (holds : P → Set M)
    (rank : M → R) : Prop where
  entry : ∀ t p, entry t p → holds p = ∅
  follows : ∀ p, Follows holds rank (holds p) (code p)

/-- `t` waits for a mutex that `u` holds. -/
def Waits (code : P → Instr M P) (s : State T M P) (t u : T) : Prop :=
  ∃ p m next, s.pc t = some p ∧ code p = .lock m next ∧ s.holder m = some u

/-- `t` locks the mutex `m` next, or tries to. -/
def Takes (code : P → Instr M P) (s : State T M P) (t : T) (m : M) : Prop :=
  ∃ p, s.pc t = some p ∧
    ((∃ next, code p = .lock m next) ∨ ∃ taken busy, code p = .tryLock m taken busy)

/-- A thread holds the mutexes of the point at which it is, and no others. -/
structure Held (holds : P → Set M) (s : State T M P) : Prop where
  holder : ∀ m t, s.holder m = some t ↔ ∃ p, s.pc t = some p ∧ m ∈ holds p

theorem initial_held (holds : P → Set M) : Held holds (initial : State T M P) where
  holder := by simp [initial]

variable {code : P → Instr M P} {entry : T → P → Prop} {holds : P → Set M} {rank : M → R}
  {s : State T M P}

section steps

variable [DecidableEq T] [DecidableEq M]

omit [DecidableEq M] in
/-- A thread moves to a point that holds the same. -/
theorem Held.goto (held : Held holds s) {t : T} {p : P}
    (same : ∀ m, m ∈ holds p ↔ s.holder m = some t) : Held holds (s.goto t p) := by
  constructor
  intro m u
  by_cases self : u = t
  · subst self
    simp [State.goto, same m]
  · simp [State.goto, self, held.holder m u]

/-- A free mutex is taken by a thread that moves to a point where it holds it. -/
theorem Held.take (held : Held holds s) {t : T} {m : M} {p q : P} (free : s.holder m = none)
    (at_ : s.pc t = some p) (more : holds q = insert m (holds p)) :
    Held holds ((s.take t m).goto t q) := by
  constructor
  intro m' u
  by_cases self : u = t
  · subst self
    by_cases same : m' = m
    · simp [State.goto, State.take, same, more]
    · simp [State.goto, State.take, same, more, held.holder m' u, at_]
  · -- the other threads hold what they held, and not the free mutex
    by_cases same : m' = m
    · have none_holds := (held.holder m u).not.mp (by simp [free])
      subst same
      simpa [State.goto, State.take, self, Ne.symm self] using none_holds
    · simp [State.goto, State.take, self, same, held.holder m' u]

/-- A thread unlocks a mutex that it holds and moves to a point where it does not. -/
theorem Held.release (held : Held holds s) {t : T} {m : M} {p q : P} (at_ : s.pc t = some p)
    (mine : m ∈ holds p) (less : holds q = holds p \ {m}) :
    Held holds ((s.release m).goto t q) := by
  have holds_it : s.holder m = some t := (held.holder m t).mpr ⟨p, at_, mine⟩
  constructor
  intro m' u
  by_cases self : u = t
  · subst self
    by_cases same : m' = m
    · simp [State.goto, State.release, same, less]
    · simp [State.goto, State.release, same, less, held.holder m' u, at_]
  · by_cases same : m' = m
    · have not_theirs := (held.holder m u).not.mp (by simp [holds_it, Ne.symm self])
      subst same
      simpa [State.goto, State.release, self] using not_theirs
    · simp [State.goto, State.release, self, same, held.holder m' u]

omit [DecidableEq M] in
/-- A thread that holds nothing leaves its program. -/
theorem Held.leave (held : Held holds s) {t : T} {p : P} (at_ : s.pc t = some p)
    (nothing : holds p = ∅) : Held holds (s.leave t) := by
  constructor
  intro m u
  by_cases self : u = t
  · subst self
    have free : s.holder m ≠ some u := by
      rw [Ne, held.holder m u]
      simp [at_, nothing]
    simpa [State.leave] using free
  · simp [State.leave, self, held.holder m u]

/-- One instruction of a program that follows the order. -/
theorem Held.exec (held : Held holds s) {t : T} {p : P} (at_ : s.pc t = some p) {value : Nat}
    {instr : Instr M P} (follows : Follows holds rank (holds p) instr) {next : State T M P}
    (stepped : exec s t value instr = some next) : Held holds next := by
  have here : ∀ m, m ∈ holds p ↔ s.holder m = some t := by
    intro m
    simp [held.holder m t, at_]
  -- what the thread holds changes with a lock, a trylock that succeeds and an unlock
  cases instr with
  | lock m q =>
    simp only [LockOrder.exec] at stepped
    split at stepped
    next free => cases stepped; exact held.take free at_ follows.2
    next => cases stepped
  | tryLock m taken busy =>
    obtain ⟨-, when_taken, when_busy⟩ := follows
    cases stepped
    split
    next free => exact held.take free at_ when_taken
    next => exact held.goto (by rw [when_busy]; exact here)
  | unlock m q =>
    cases stepped
    exact held.release at_ follows.1 follows.2
  | read next =>
    cases stepped
    exact held.goto (by rw [follows value]; exact here)
  | ret =>
    cases stepped
    exact held.leave at_ follows

section reached

variable [∀ t p, Decidable (entry t p)] (ordered : Ordered code entry holds rank)

include ordered

theorem step_held (held : Held holds s) {label : Label T P} {next : State T M P}
    (stepped : step code entry s label = some next) : Held holds next := by
  cases label with
  | call t p =>
    simp only [step] at stepped
    split at stepped
    next allowed =>
      cases stepped
      -- a program starts with nothing held, and an idle thread holds nothing
      apply held.goto
      intro m
      simp [ordered.entry t p allowed.2, held.holder m t, allowed.1]
    next => cases stepped
  | run t value =>
    obtain ⟨p, at_, stepped⟩ := Option.bind_eq_some_iff.mp stepped
    exact held.exec at_ (ordered.follows p) stepped

theorem reached_held (reached : (machine code entry).Reachable s) : Held holds s :=
  reached.invariant (Held holds)
    (fun _ starts => by cases starts; exact initial_held holds)
    (fun _ _ _ held _ stepped => step_held ordered held stepped)

end reached

end steps

/-! ### No deadlock -/

variable (ordered : Ordered code entry holds rank) (held : Held holds s)

include ordered held

/-- The mutex that a thread waits for is below the one that its holder waits for. -/
theorem rank_lt_of_waits {u : T} {q next : P} {m m' : M} (theirs : s.holder m = some u)
    (at_ : s.pc u = some q) (wants : code q = .lock m' next) : rank m < rank m' := by
  obtain ⟨q', same, member⟩ := (held.holder m u).mp theirs
  cases at_.symm.trans same
  have follows := ordered.follows q
  rw [wants] at follows
  exact follows.1 m member

/-- Along a chain of waiting threads the mutexes that they wait for go up. -/
theorem rank_lt_of_chain {t u : T} (chain : Relation.TransGen (Waits code s) t u) :
    ∀ p m next q m' next', s.pc t = some p → code p = .lock m next → s.pc u = some q →
      code q = .lock m' next' → rank m < rank m' := by
  -- induction on the chain, from its first thread on
  induction chain with
  | single waits =>
    intro p m next q m' next' at_ wants at_' wants'
    obtain ⟨p', n, after, at_p', wants_n, theirs⟩ := waits
    cases at_.symm.trans at_p'
    cases wants.symm.trans wants_n
    exact rank_lt_of_waits ordered held theirs at_' wants'
  | tail _ waits ih =>
    intro p m next q m' next' at_ wants at_' wants'
    obtain ⟨p', n, after, at_p', wants_n, theirs⟩ := waits
    -- up to the last thread but one, and from there to the last
    calc rank m < rank n := ih p m next p' n after at_ wants at_p' wants_n
      _ < rank m' := rank_lt_of_waits ordered held theirs at_' wants'

/-- Threads never wait for each other in a cycle. -/
theorem no_cycle (t : T) : ¬ Relation.TransGen (Waits code s) t t := by
  intro cycle
  obtain ⟨u, waits, -⟩ := Relation.TransGen.head'_iff.mp cycle
  obtain ⟨p, m, next, at_, wants, -⟩ := waits
  -- the first mutex of the cycle would be below itself
  exact lt_irrefl _ (rank_lt_of_chain ordered held cycle p m next p m next at_ wants at_ wants)

/-- No thread locks a mutex that it holds, or tries to. -/
theorem not_holder_of_takes {t : T} {m : M} (takes : Takes code s t m) :
    s.holder m ≠ some t := by
  intro mine
  obtain ⟨p, at_, instr⟩ := takes
  obtain ⟨p', same, member⟩ := (held.holder m t).mp mine
  cases at_.symm.trans same
  have follows := ordered.follows p
  rcases instr with ⟨next, wants⟩ | ⟨taken, busy, tries⟩
  · rw [wants] at follows
    exact lt_irrefl _ (follows.1 m member)
  · rw [tries] at follows
    exact follows.1 member

/-- Where a program returns, and where none runs, nothing is held. -/
theorem released {t : T} (returns : ∀ p, s.pc t = some p → code p = .ret) (m : M) :
    s.holder m ≠ some t := by
  intro mine
  obtain ⟨p, at_, member⟩ := (held.holder m t).mp mine
  have follows := ordered.follows p
  rw [returns p at_] at follows
  have nothing : holds p = ∅ := follows
  simp [nothing] at member

/-- As long as one of finitely many threads runs a program, one of them can take its next step. -/
theorem someone_moves [Finite T] [DecidableEq T] [DecidableEq M] {t : T}
    (runs : s.pc t ≠ none) : ∃ u p, s.pc u = some p ∧
      ∀ value, (exec s u value (code p)).isSome := by
  let behind (u t : T) : Prop := Relation.TransGen (Waits code s) t u
  have : Std.Irrefl behind := ⟨no_cycle ordered held⟩
  have : IsTrans T behind := ⟨fun _ _ _ first second => second.trans first⟩
  -- the chain of waiting threads from `t` on ends
  induction t using (Finite.wellFounded_of_trans_of_irrefl behind).induction with
  | _ t ih =>
    obtain ⟨p, at_⟩ := Option.ne_none_iff_exists'.mp runs
    -- follow the waiting threads to one that does not wait
    by_cases waits : ∃ u, Waits code s t u
    · obtain ⟨u, waits⟩ := waits
      obtain ⟨_, m, _, _, _, theirs⟩ := id waits
      obtain ⟨q, at_u, _⟩ := (held.holder m u).mp theirs
      exact ih u (.single waits) (by simp [at_u])
    · refine ⟨t, p, at_, fun value => ?_⟩
      cases instr : code p with
      | lock m next =>
        have free : s.holder m = none := by
          rw [Option.eq_none_iff_forall_ne_some]
          exact fun u theirs => waits ⟨u, p, m, next, at_, instr, theirs⟩
        simp [exec, free]
      | tryLock m taken busy => rfl
      | unlock m next => rfl
      | read next => rfl
      | ret => rfl

end LockOrder
