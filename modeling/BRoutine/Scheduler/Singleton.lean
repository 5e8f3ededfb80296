import BRoutine.Custody
import BRoutine.Transition

/-!
# One environment

`bRoutineEnv::get` and `init` test `__bRoutineEnv` without a lock and once more with it. Any number
of threads call them for the first time. The one that makes the environment stores it before
`CreatMutProcessEnv`, which goes on to call `get` itself, suspends main and lets `ProcessBegin`
register the scheduler of that thread, all with the lock in hand. `one_env` says what every caller
gets.
-/

namespace BRoutine.Env

open Custody

/-- `get` and `init`; the part from `newGet` to `spawn` is `CreatMutProcessEnv`. -/
inductive Pc (E : Type)
  | idle
  /-- at the test of `get` -/
  | get
  /-- at the first test of `init` -/
  | test (n : Nat)
  | lock (n : Nat)
  /-- at the second test of `init` -/
  | retest (n : Nat)
  /-- `InitializeBRoutineEnv` has returned, about to store its result -/
  | assign (e : E)
  /-- at the test of `get` in `bRoutine::New` -/
  | newGet
  /-- at the `SwapContext` that suspends main -/
  | swap
  /-- at the test of `get` in `ProcessBegin` on the same thread -/
  | loopGet
  | registe
  /-- the loop is to switch back to main -/
  | back
  /-- at the condition of the loop that starts threads -/
  | spawn (i : Nat)
  | unlock
  /-- about to lock the mutex that it has -/
  | blocked
  /-- at the last line of `get`, or of `init`; `locked` says whether the call has had the lock -/
  | ret (locked : Bool)
  | returned (e : Option E) (locked : Bool)
  deriving DecidableEq, Repr

/-- `arrays` is the length of `schedulers` and `ActiveTasks` of an environment, `made` has the
environments that `InitializeBRoutineEnv` has returned. -/
structure State (T E : Type) where
  env : Option E
  arrays : E → Nat
  size : E → Nat
  made : List E
  started : Nat
  mutex : Option T
  pc : T → Pc E

inductive Label (T E : Type)
  | get (t : T)
  | init (t : T) (n : Nat)
  /-- `InitializeBRoutineEnv` returns `e` -/
  | make (t : T) (e : E)
  /-- the next step of a call -/
  | run (t : T)

variable {T E : Type}

def start : State T E := ⟨none, fun _ => 0, fun _ => 0, [], 0, none, fun _ => .idle⟩

def defaultProcess : Nat := 1

section Steps

variable [DecidableEq T]

def State.goto (s : State T E) (t : T) (pc : Pc E) : State T E :=
  { s with pc := Function.update s.pc t pc }

@[simp] theorem goto_env (s : State T E) (t : T) (pc : Pc E) : (s.goto t pc).env = s.env := rfl
@[simp] theorem goto_size (s : State T E) (t : T) (pc : Pc E) : (s.goto t pc).size = s.size := rfl
@[simp] theorem goto_made (s : State T E) (t : T) (pc : Pc E) : (s.goto t pc).made = s.made := rfl
@[simp] theorem goto_pc (s : State T E) (t : T) (pc : Pc E) :
    (s.goto t pc).pc = Function.update s.pc t pc := rfl
@[simp] theorem goto_mutex (s : State T E) (t : T) (pc : Pc E) :
    (s.goto t pc).mutex = s.mutex := rfl

/-- A call of `get` within the call that has the lock: `init` would lock again. -/
def State.nested (s : State T E) (t : T) (pc : Pc E) : State T E :=
  s.goto t (if s.env = none then .blocked else pc)

variable [DecidableEq E]

def run (s : State T E) (t : T) : Option (State T E) :=
  match s.pc t with
  | .get => some (s.goto t (if s.env = none then .test defaultProcess else .ret false))
  | .test n => some (s.goto t (if s.env = none then .lock n else .ret false))
  | .lock n =>
    if s.mutex = none then some { s.goto t (.retest n) with mutex := some t } else none
  | .retest _ => if s.env = none then none else some (s.goto t .unlock)
  | .assign e => some { s.goto t .newGet with env := some e }
  | .newGet => some (s.nested t .swap)
  | .swap => some (s.goto t .loopGet)
  | .loopGet => some (s.nested t .registe)
  | .registe => s.env.map fun e =>
      { s.goto t .back with size := Function.update s.size e (s.size e + 1) }
  | .back => some (s.goto t (.spawn 1))
  | .spawn i => s.env.map fun e =>
      if i < s.size e then { s.goto t (.spawn (i + 1)) with started := s.started + 1 }
      else s.goto t .unlock
  | .unlock => some { s.goto t (.ret true) with mutex := none }
  | .ret locked => some (s.goto t (.returned s.env locked))
  | .returned _ _ => some (s.goto t .idle)
  | .idle | .blocked => none

def step (s : State T E) : Label T E → Option (State T E)
  | .get t => if s.pc t = .idle then some (s.goto t .get) else none
  | .init t n => if s.pc t = .idle then some (s.goto t (.test n)) else none
  | .make t e =>
    match s.pc t with
    | .retest n =>
      if s.env = none ∧ e ∉ s.made then some { s.goto t (.assign e) with
        arrays := Function.update s.arrays e n
        made := s.made ++ [e] }
      else none
    | _ => none
  | .run t => run s t

def machine : Transition.Machine (State T E) (Label T E) where
  start := (· = start)
  step := step

end Steps

/-! ### What holds at each point -/

def Pc.holds : Pc E → Bool
  | .retest _ | .assign _ | .newGet | .swap | .loopGet | .registe | .back | .spawn _ | .unlock
  | .blocked => true
  | .idle | .get | .test _ | .lock _ | .ret _ | .returned _ _ => false

/-- The environment is there, and the scheduler of its thread has registered. -/
def Ready (s : State T E) : Prop := ∃ e, s.env = some e ∧ s.size e = 1

/-- There is no environment, or a whole one. -/
def Settled (s : State T E) : Prop := s.made = s.env.toList ∧ (s.env ≠ none → Ready s)

/-- What the call that has the lock has done. -/
def Stage (s : State T E) : Pc E → Prop
  | .retest _ => Settled s
  | .assign e => s.env = none ∧ s.made = [e] ∧ s.size e = 0
  | .newGet | .swap | .loopGet | .registe => ∃ e, s.env = some e ∧ s.made = [e] ∧ s.size e = 0
  | .back | .spawn _ | .unlock => s.made = s.env.toList ∧ Ready s
  | .blocked => False
  | .idle | .get | .test _ | .lock _ | .ret _ | .returned _ _ => True

/-- What a call that returns has seen. -/
def Seen (s : State T E) : Pc E → Prop
  | .ret locked => s.env ≠ none ∧ (locked = true → Ready s)
  | .returned e locked => e = s.env ∧ s.env ≠ none ∧ (locked = true → Ready s)
  | .idle | .get | .test _ | .lock _ | .retest _ | .assign _ | .newGet | .swap | .loopGet
  | .registe | .back | .spawn _ | .unlock | .blocked => True

structure Inv (s : State T E) : Prop where
  owned : Owned Pc.holds s.pc s.mutex
  stage : atHolder (Stage s) (Settled s) s.pc s.mutex
  seen : ∀ t, Seen s (s.pc t)
  fresh : ∀ e, e ∉ s.made → s.size e = 0

/-! ### Steps -/

section Keeps

theorem start_inv : Inv (start : State T E) where
  owned t := by simp [start, Pc.holds]
  stage := ⟨rfl, fun some => absurd rfl some⟩
  seen _ := trivial
  fresh _ _ := rfl

theorem Seen.mono {s s' : State T E} {p : Pc E} (seen : Seen s p)
    (env : s.env ≠ none → s'.env = s.env) (ready : Ready s → Ready s') : Seen s' p := by
  cases p with
  | ret locked =>
    obtain ⟨there, whole⟩ := seen
    exact ⟨by rw [env there]; exact there, fun had => ready (whole had)⟩
  | returned e locked =>
    obtain ⟨same, there, whole⟩ := seen
    exact ⟨by rw [env there]; exact same, by rw [env there]; exact there,
      fun had => ready (whole had)⟩
  | _ => trivial

variable [DecidableEq T] {s s' : State T E} {t : T} {p : Pc E}

theorem Inv.step (inv : Inv s) (pc : s'.pc = Function.update s.pc t p)
    (owned : Owned Pc.holds s'.pc s'.mutex)
    (stage : atHolder (Stage s') (Settled s') s'.pc s'.mutex) (mine : Seen s' p)
    (env : s.env ≠ none → s'.env = s.env) (ready : Ready s → Ready s')
    (fresh : ∀ e, e ∉ s'.made → s'.size e = 0) : Inv s' := by
  refine ⟨owned, stage, fun u => ?_, fresh⟩
  by_cases moved : u = t
  · rw [pc, moved, Function.update_self]
    exact mine
  · rw [pc, Function.update_of_ne moved]
    exact (inv.seen u).mono env ready

/-- A step of a call without the lock. -/
theorem Inv.outside (inv : Inv s) (before : (s.pc t).holds = false) (after : p.holds = false)
    (seen : Seen s p) : Inv (s.goto t p) := by
  refine inv.step rfl (inv.owned.move (after.trans before.symm)) ?_ seen (fun _ => rfl) id inv.fresh
  have stage := inv.stage
  have away : s.mutex ≠ some t := fun mine => by
    rw [(inv.owned t).mp mine] at before
    cases before
  have same : atHolder (Stage s) (Settled s) (Function.update s.pc t p) s.mutex =
      atHolder (Stage s) (Settled s) s.pc s.mutex := atHolder_other away
  exact same ▸ stage

omit [DecidableEq T] in
/-- What the call with the lock has done. -/
theorem Inv.at_stage (inv : Inv s) (inside : (s.pc t).holds = true) : Stage s (s.pc t) := by
  have stage := inv.stage
  rw [(inv.owned t).mpr inside] at stage
  exact stage

/-- A step of the call that has the lock and keeps it. -/
theorem Inv.inside (inv : Inv s) (before : (s.pc t).holds = true) (after : p.holds = true)
    (pc : s'.pc = Function.update s.pc t p) (mutex : s'.mutex = s.mutex) (stage : Stage s' p)
    (env : s.env ≠ none → s'.env = s.env) (ready : Ready s → Ready s')
    (fresh : ∀ e, e ∉ s'.made → s'.size e = 0) : Inv s' := by
  refine inv.step pc ?_ ?_ ?_ env ready fresh
  · rw [pc, mutex]
    exact inv.owned.move (after.trans before.symm)
  · rw [pc, mutex]
    exact (atHolder_self ((inv.owned t).mpr before)).symm ▸ stage
  · cases p <;> trivial

theorem Inv.lock (inv : Inv s) (n : Nat) (free : s.mutex = none) :
    Inv { s.goto t (.retest n) with mutex := some t } := by
  have owned := inv.owned
  have stage := inv.stage
  rw [free] at owned stage
  refine inv.step rfl (owned.lock rfl) ?_ trivial (fun _ => rfl) id inv.fresh
  have held : atHolder (Stage s) (Settled s) (Function.update s.pc t (.retest n)) (some t) =
      Stage s (.retest n) := atHolder_self rfl
  exact held.symm ▸ stage

theorem Inv.unlock (inv : Inv s) (at_pc : s.pc t = .unlock) :
    Inv { s.goto t (.ret true) with mutex := none } := by
  have inside : (s.pc t).holds = true := by rw [at_pc]; rfl
  have stage := inv.at_stage inside
  rw [at_pc] at stage
  obtain ⟨made, ready⟩ := stage
  have there : s.env ≠ none := by
    obtain ⟨e, env, -⟩ := ready
    simp [env]
  exact inv.step rfl (inv.owned.unlock inside rfl) ⟨made, fun _ => ready⟩
    ⟨there, fun _ => ready⟩ (fun _ => rfl) id inv.fresh

/-- `get` within `CreatMutProcessEnv` finds the environment. -/
theorem Inv.nested (inv : Inv s) {e : E} (before : (s.pc t).holds = true) (after : p.holds = true)
    (env : s.env = some e) (stage : Stage s p) : Inv (s.nested t p) := by
  have found : s.nested t p = s.goto t p := by simp [State.nested, env]
  rw [found]
  exact inv.inside before after rfl rfl stage (fun _ => rfl) id inv.fresh

variable [DecidableEq E]

theorem run_inv (inv : Inv s) (ran : run s t = some s') : Inv s' := by
  have inside (held : (s.pc t).holds = true) := inv.at_stage held
  unfold run at ran
  cases at_pc : s.pc t with
  | idle | blocked =>
    rw [at_pc] at ran
    cases ran
  | get =>
    rw [at_pc] at ran
    cases ran
    by_cases none : s.env = none
    · simp only [none, if_true]
      exact inv.outside (by rw [at_pc]; rfl) rfl trivial
    · simp only [none, if_false]
      exact inv.outside (by rw [at_pc]; rfl) rfl ⟨none, by simp⟩
  | test n =>
    rw [at_pc] at ran
    cases ran
    by_cases none : s.env = none
    · simp only [none, if_true]
      exact inv.outside (by rw [at_pc]; rfl) rfl trivial
    · simp only [none, if_false]
      exact inv.outside (by rw [at_pc]; rfl) rfl ⟨none, by simp⟩
  | lock n =>
    simp only [at_pc] at ran
    split at ran
    next free =>
      cases ran
      exact inv.lock n free
    next => cases ran
  | retest n =>
    have held : (s.pc t).holds = true := by rw [at_pc]; rfl
    have stage := inside held
    rw [at_pc] at stage
    simp only [at_pc] at ran
    split at ran
    next => cases ran
    next there =>
      cases ran
      exact inv.inside held rfl rfl rfl ⟨stage.1, stage.2 there⟩ (fun _ => rfl) id inv.fresh
  | assign e =>
    have held : (s.pc t).holds = true := by rw [at_pc]; rfl
    have stage := inside held
    rw [at_pc] at stage
    obtain ⟨none, made, size⟩ := stage
    rw [at_pc] at ran
    cases ran
    refine inv.inside held rfl rfl rfl ⟨e, rfl, made, size⟩ (fun there => absurd none there) ?_
      inv.fresh
    rintro ⟨e', env, -⟩
    rw [none] at env
    cases env
  | newGet =>
    have held : (s.pc t).holds = true := by rw [at_pc]; rfl
    have stage := inside held
    rw [at_pc] at stage
    have stage' := stage
    obtain ⟨e, env, -⟩ := stage
    rw [at_pc] at ran
    cases ran
    exact inv.nested held rfl env stage'
  | swap =>
    have held : (s.pc t).holds = true := by rw [at_pc]; rfl
    have stage := inside held
    rw [at_pc] at stage ran
    cases ran
    exact inv.inside held rfl rfl rfl stage (fun _ => rfl) id inv.fresh
  | loopGet =>
    have held : (s.pc t).holds = true := by rw [at_pc]; rfl
    have stage := inside held
    rw [at_pc] at stage
    have stage' := stage
    obtain ⟨e, env, -⟩ := stage
    rw [at_pc] at ran
    cases ran
    exact inv.nested held rfl env stage'
  | registe =>
    have held : (s.pc t).holds = true := by rw [at_pc]; rfl
    have stage := inside held
    rw [at_pc] at stage
    obtain ⟨e, env, made, size⟩ := stage
    simp only [at_pc, env, Option.map_some, Option.some.injEq] at ran
    subst ran
    -- the first scheduler of the environment
    have ready : Ready { s.goto t .back with
        size := Function.update s.size e (s.size e + 1) } := ⟨e, env, by simp [size]⟩
    refine inv.inside held rfl rfl rfl ⟨?_, ready⟩ (fun _ => rfl) (fun _ => ready) fun e' new => ?_
    · simp [made, env]
    · have other : e' ≠ e := by
        rintro rfl
        exact new (by simp [made])
      simpa [other] using inv.fresh e' new
  | back =>
    have held : (s.pc t).holds = true := by rw [at_pc]; rfl
    have stage := inside held
    rw [at_pc] at stage ran
    cases ran
    exact inv.inside held rfl rfl rfl stage (fun _ => rfl) id inv.fresh
  | spawn i =>
    have held : (s.pc t).holds = true := by rw [at_pc]; rfl
    have stage := inside held
    rw [at_pc] at stage
    obtain ⟨e, env, -⟩ := stage.2
    simp only [at_pc, env, Option.map_some, Option.some.injEq] at ran
    subst ran
    split
    · exact inv.inside held rfl rfl rfl stage (fun _ => rfl) id inv.fresh
    · exact inv.inside held rfl rfl rfl stage (fun _ => rfl) id inv.fresh
  | unlock =>
    rw [at_pc] at ran
    cases ran
    exact inv.unlock at_pc
  | ret locked =>
    have seen := inv.seen t
    rw [at_pc] at ran seen
    cases ran
    exact inv.outside (by rw [at_pc]; rfl) rfl ⟨rfl, seen⟩
  | returned e locked =>
    rw [at_pc] at ran
    cases ran
    exact inv.outside (by rw [at_pc]; rfl) rfl trivial

theorem step_inv {label : Label T E} (inv : Inv s) (stepped : step s label = some s') : Inv s' := by
  cases label with
  | get t =>
    simp only [step] at stepped
    split at stepped
    next idle =>
      cases stepped
      exact inv.outside (by rw [idle]; rfl) rfl trivial
    next => cases stepped
  | init t n =>
    simp only [step] at stepped
    split at stepped
    next idle =>
      cases stepped
      exact inv.outside (by rw [idle]; rfl) rfl trivial
    next => cases stepped
  | make t e =>
    simp only [step] at stepped
    split at stepped
    next n at_pc =>
      split at stepped
      next new =>
        cases stepped
        have held : (s.pc t).holds = true := by rw [at_pc]; rfl
        have stage := inv.at_stage held
        rw [at_pc] at stage
        obtain ⟨none, fresh⟩ := new
        refine inv.inside held rfl rfl rfl ⟨none, ?_, inv.fresh e fresh⟩ (fun _ => rfl) id
          fun e' absent => inv.fresh e' fun old => absent (by simp [old])
        simp [stage.1, none]
      next => cases stepped
    next => cases stepped
  | run t => exact run_inv inv stepped

theorem reached_inv (reached : machine.Reachable s) : Inv s := by
  refine reached.invariant Inv ?_ fun _ _ _ inv _ stepped => step_inv inv stepped
  rintro _ rfl
  exact start_inv

/-- The call that has the lock gets on. -/
theorem Inv.goes_on [Nonempty E] (inv : Inv s) (held : s.mutex = some t) :
    ∃ label next, Env.step s label = some next ∧ next.pc t ≠ s.pc t := by
  have inside : (s.pc t).holds = true := (inv.owned t).mp held
  have stage := inv.at_stage inside
  -- a step of `t` that does not need more than a state to go to
  have goes {next : State T E} {p : Pc E} (ran : Env.run s t = some next)
      (pc : next.pc = Function.update s.pc t p) (other : p ≠ s.pc t) :
      ∃ label next, Env.step s label = some next ∧ next.pc t ≠ s.pc t := by
    refine ⟨.run t, next, ran, ?_⟩
    rw [pc, Function.update_self]
    exact other
  cases at_pc : s.pc t with
  | retest n =>
    rw [at_pc] at stage
    by_cases none : s.env = none
    · obtain ⟨e⟩ := ‹Nonempty E›
      have nothing : s.made = [] := by simp [stage.1, none]
      refine ⟨.make t e, { s.goto t (.assign e) with
        arrays := Function.update s.arrays e n
        made := s.made ++ [e] }, ?_, by simp⟩
      simp only [Env.step, at_pc]
      exact if_pos ⟨none, by simp [nothing]⟩
    · rw [← at_pc]
      exact goes (p := .unlock) (by simp only [Env.run, at_pc]; exact if_neg none) rfl
        (by simp [at_pc])
  | assign e | swap | back | unlock =>
    rw [← at_pc]
    exact goes (by simp only [Env.run, at_pc]; rfl) rfl (by simp [at_pc])
  | newGet =>
    rw [at_pc] at stage
    obtain ⟨e, env, -⟩ := stage
    rw [← at_pc]
    exact goes (p := .swap) (by simp only [Env.run, at_pc]; rfl) (by simp [State.nested, env])
      (by simp [at_pc])
  | loopGet =>
    rw [at_pc] at stage
    obtain ⟨e, env, -⟩ := stage
    rw [← at_pc]
    exact goes (p := .registe) (by simp only [Env.run, at_pc]; rfl) (by simp [State.nested, env])
      (by simp [at_pc])
  | registe =>
    rw [at_pc] at stage
    obtain ⟨e, env, -⟩ := stage
    rw [← at_pc]
    exact goes (p := .back) (by simp only [Env.run, at_pc, env]; rfl) rfl (by simp [at_pc])
  | spawn i =>
    rw [at_pc] at stage
    obtain ⟨e, env, -⟩ := stage.2
    rw [← at_pc]
    by_cases more : i < s.size e
    · exact goes (p := .spawn (i + 1))
        (by simp only [Env.run, at_pc, env, Option.map_some, more]; rfl) rfl (by simp [at_pc])
    · exact goes (p := .unlock)
        (by simp only [Env.run, at_pc, env, Option.map_some, more]; rfl) rfl (by simp [at_pc])
  | blocked =>
    rw [at_pc] at stage
    exact stage.elim
  | idle | get | test | lock | ret | returned =>
    rw [at_pc] at inside
    cases inside

/-- In every interleaving of any number of first and later calls of `get` and `init`: at most one
environment is made; no call locks the mutex that it has, and the one that has it can go on; what a
call returns is the environment, and its first scheduler has registered if the call has waited for
the lock. -/
theorem one_env [Nonempty E] (s : State T E) (reached : machine.Reachable s) :
    s.made.length ≤ 1 ∧ (∀ t, s.pc t ≠ .blocked) ∧
      (∀ t, s.mutex = some t → ∃ label next, step s label = some next ∧ next.pc t ≠ s.pc t) ∧
      ∀ t e locked, s.pc t = .returned e locked →
        e = s.env ∧ s.env ≠ none ∧ (locked = true → Ready s) := by
  have inv := reached_inv reached
  refine ⟨?_, fun t at_pc => ?_, fun t held => inv.goes_on held, fun t e locked at_pc => ?_⟩
  · have few : s.env.toList.length ≤ 1 := by cases s.env <;> simp
    have stage := inv.stage
    cases held : s.mutex with
    | none =>
      rw [held] at stage
      exact stage.1 ▸ few
    | some t =>
      rw [held] at stage
      simp only [atHolder_some] at stage
      have inside := (inv.owned t).mp held
      cases at_pc : s.pc t with
      | retest =>
        rw [at_pc] at stage
        exact stage.1 ▸ few
      | assign e =>
        rw [at_pc] at stage
        simp [stage.2.1]
      | newGet | swap | loopGet | registe =>
        rw [at_pc] at stage
        obtain ⟨e, -, made, -⟩ := stage
        simp [made]
      | back | spawn | unlock =>
        rw [at_pc] at stage
        exact stage.1 ▸ few
      | blocked =>
        rw [at_pc] at stage
        exact stage.elim
      | idle | get | test | lock | ret | returned =>
        rw [at_pc] at inside
        cases inside
  · have stage := inv.at_stage (t := t) (by rw [at_pc]; rfl)
    rw [at_pc] at stage
    exact stage
  · have seen := inv.seen t
    rw [at_pc] at seen
    exact seen

/-- The steps in which the first thread makes the environment, up to its store. -/
def stored : List (Label Bool Nat) :=
  [.init false 4, .run false, .run false, .make false 7, .run false]

/-- While the first thread goes on, the second gets an environment that has no scheduler yet. -/
theorem one_env_early :
    ∃ s : State Bool Nat,
      machine.exec start (stored ++ [.get true, .run true, .run true]) = some s ∧
      s.pc true = .returned (some 7) false ∧ s.env = some 7 ∧ s.size 7 = 0 ∧
      s.made.length ≤ 1 := by
  have ran : (machine.exec (start : State Bool Nat)
      (stored ++ [.get true, .run true, .run true])).map
        (fun s => (s.pc true, s.env, s.size 7)) =
      some (.returned (some 7) false, some 7, 0) := by decide +kernel
  obtain ⟨s, ran, same⟩ := Option.map_eq_some_iff.mp ran
  obtain ⟨pc, same⟩ := Prod.mk.inj same
  obtain ⟨env, size⟩ := Prod.mk.inj same
  exact ⟨s, ran, pc, env, size,
    (one_env s (Transition.Machine.exec_reachable (.start rfl) ran)).1⟩

end Keeps

end BRoutine.Env
