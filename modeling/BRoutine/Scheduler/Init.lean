import Mathlib.Data.Fintype.Card
import BRoutine.Custody
import BRoutine.Transition

/-!
# bRoutineEnv::init

`CreatMutProcessEnv` of `b_routine_env.cc` on the main thread, and `ProcessBegin` of each thread
up to its loop. Main suspends once, the loop routine of its own thread registers and switches
back, and then the loop of `CreatMutProcessEnv` starts a thread for each index below `size`. But
`size` counts the schedulers that have registered, so the loop waits for the threads that it is
to start. `bringsUp_iff` shows that it starts none.

Thread 0 is the loop routine on the main thread, thread `t` the one that the `t`-th
`pthread_create` starts. A scheduler and its `ActivetaskItems` are named by their thread.
-/

namespace BRoutine.Init

/-- `CreatMutProcessEnv`. -/
inductive Spawner where
  /-- at its call of `SwapContext` -/
  | swap
  /-- suspended there, with the task of main in the queue of thread 0 -/
  | suspended
  /-- at the condition of the loop -/
  | test (i : Nat)
  /-- in the body of the loop -/
  | create (i : Nat)
  | ended
  deriving DecidableEq, Repr

/-- `ProcessBegin` up to its loop, with the steps of `registe`. -/
inductive Pc where
  | absent
  /-- about to lock the mutex of `registe` -/
  | registe
  /-- about to write `schedulers[size]` -/
  | schedulers
  /-- about to write `ActiveTasks[size]` -/
  | activeTasks
  /-- at `int a = size` -/
  | read
  /-- at `size += 1` -/
  | grow (a : Nat)
  /-- about to unlock and to return `a` -/
  | unlock (a : Nat)
  /-- in the loop, with `a` as `ID` -/
  | loop (a : Nat)
  deriving DecidableEq, Repr

/-- `written` has the indices at which the two arrays were written. -/
structure State where
  spawner : Spawner
  created : Nat
  pc : Nat → Pc
  mutex : Option Nat
  size : Nat
  schedulers : Nat → Option Nat
  activeTasks : Nat → Option Nat
  written : List Nat

inductive Label where
  /-- the next step of `CreatMutProcessEnv` -/
  | spawn
  /-- the loop on thread 0 takes the task of main and switches to it -/
  | back
  /-- the next step of the thread `t` -/
  | run (t : Nat)
  deriving DecidableEq, Repr

def initial : State where
  spawner := .swap
  created := 0
  pc := fun _ => .absent
  mutex := none
  size := 0
  schedulers := fun _ => none
  activeTasks := fun _ => none
  written := []

def State.goto (s : State) (t : Nat) (p : Pc) : State :=
  { s with pc := Function.update s.pc t p }

/-- `CreatMutProcessEnv`; `SwapContext` goes to `ProcessBegin` on the same thread. -/
def spawn (s : State) : Option State :=
  match s.spawner with
  | .swap => some ({ s with spawner := .suspended }.goto 0 .registe)
  | .suspended => none
  | .test i => some { s with spawner := if i < s.size then .create i else .ended }
  | .create i => some ({ s with
      spawner := .test (i + 1)
      created := s.created + 1 }.goto (s.created + 1) .registe)
  | .ended => none

/-- `registe` on the thread `t`. -/
def run (s : State) (t : Nat) : Option State :=
  match s.pc t with
  | .absent => none
  | .registe =>
    if s.mutex = none then some ({ s with mutex := some t }.goto t .schedulers) else none
  | .schedulers => some ({ s with
      schedulers := Function.update s.schedulers s.size (some t)
      written := s.written ++ [s.size] }.goto t .activeTasks)
  | .activeTasks => some ({ s with
      activeTasks := Function.update s.activeTasks s.size (some t)
      written := s.written ++ [s.size] }.goto t .read)
  | .read => some (s.goto t (.grow s.size))
  | .grow a => some ({ s with size := s.size + 1 }.goto t (.unlock a))
  | .unlock a => some ({ s with mutex := none }.goto t (.loop a))
  | .loop _ => none

def step (s : State) : Label → Option State
  | .spawn => spawn s
  | .back =>
    match s.spawner, s.pc 0 with
    | .suspended, .loop _ => some { s with spawner := .test 1 }
    | _, _ => none
  | .run t => run s t

def machine : Transition.Machine State Label where
  start s := s = initial
  step := step

/-- `Scheduler->ID`, once it is assigned. -/
def State.id (s : State) (t : Nat) : Option Nat :=
  match s.pc t with
  | .loop a => some a
  | _ => none

/-- `init(n)` ends with `n - 1` threads started, the registrations give out 0 to n - 1, each to
one thread whose scheduler and tasks stand at that index, and no write is outside the arrays. -/
structure BringsUp (n : Nat) : Prop where
  ends : ∃ bound, ∀ schedule s, machine.exec initial schedule = some s →
    schedule.length ≤ bound ∧ ((∀ label, step s label = none) → s.spawner = .ended)
  started : ∀ s, machine.Reachable s → s.spawner = .ended → s.created = n - 1
  ids : ∀ s, machine.Reachable s → s.spawner = .ended → (∀ t ≤ s.created, s.id t ≠ none) →
    (∀ t ≤ s.created, ∃ k < n, s.id t = some k) ∧
    ∀ k < n, ∃ t ≤ s.created, (∀ u, s.id u = some k ↔ u = t) ∧
      s.schedulers k = some t ∧ s.activeTasks k = some t
  inside : ∀ s, machine.Reachable s → ∀ k ∈ s.written, k < n

/-! ### Registration -/

/-- Who is inside `registe`. -/
def Pc.holds : Pc → Bool
  | .schedulers | .activeTasks | .read | .grow _ | .unlock _ => true
  | _ => false

/-- The index a thread has got, once `size` is past it. -/
def Pc.given : Pc → Option Nat
  | .unlock a | .loop a => some a
  | _ => none

/-- Whether a thread has written `schedulers[size]`. -/
def Pc.first : Pc → Bool
  | .activeTasks | .read | .grow _ => true
  | _ => false

/-- Whether a thread has written `ActiveTasks[size]` too. -/
def Pc.second : Pc → Bool
  | .read | .grow _ => true
  | _ => false

/-- The value of `size` that a thread has read. -/
def Pc.seen : Pc → Option Nat
  | .grow a => some a
  | _ => none

/-- The arrays up to `size` name the threads that have registered, each at the index it got. -/
structure Enrolled (s : State) : Prop where
  owned : Custody.Owned Pc.holds s.pc s.mutex
  present : ∀ t, s.pc t ≠ .absent → t ≤ s.created
  given : ∀ t a, (s.pc t).given = some a →
    a < s.size ∧ s.schedulers a = some t ∧ s.activeTasks a = some t
  cover : ∀ k < s.size, ∃ t, (s.pc t).given = some k
  first : ∀ t, (s.pc t).first = true → s.schedulers s.size = some t
  second : ∀ t, (s.pc t).second = true → s.activeTasks s.size = some t
  seen : ∀ t a, (s.pc t).seen = some a → a = s.size
  written : ∀ k ∈ s.written, k < s.size ∨ k = s.size ∧ ∃ t, (s.pc t).first = true

theorem initial_enrolled : Enrolled initial := by
  constructor <;> simp [initial, Custody.Owned, Pc.holds, Pc.given, Pc.first, Pc.second, Pc.seen]

variable {s t : State} {u : Nat}

theorem Enrolled.alone (enrolled : Enrolled s) (inside : (s.pc u).holds = true) {v : Nat}
    (other : v ≠ u) : (s.pc v).holds = false := by
  by_contra held
  have mine := (enrolled.owned u).mpr inside
  have yours := (enrolled.owned v).mpr (by simpa using held)
  rw [mine] at yours
  exact other (Option.some.inj yours).symm

/-- Nobody but the holder is at a point inside `registe`. -/
theorem Enrolled.others (enrolled : Enrolled s) (inside : (s.pc u).holds = true) {v : Nat}
    (other : v ≠ u) : (s.pc v).first = false ∧ (s.pc v).second = false ∧ (s.pc v).seen = none := by
  have outside := enrolled.alone inside other
  cases at_pc : s.pc v with
  | absent => exact ⟨rfl, rfl, rfl⟩
  | registe => exact ⟨rfl, rfl, rfl⟩
  | loop a => exact ⟨rfl, rfl, rfl⟩
  | _ => rw [at_pc] at outside; cases outside

/-- A step that writes to neither array: it starts a thread, locks, unlocks or reads `size`. -/
theorem Enrolled.move (enrolled : Enrolled s) {p : Pc} {mutex : Option Nat} {spawner : Spawner}
    {created : Nat} (owned : Custody.Owned Pc.holds (Function.update s.pc u p) mutex)
    (started : u ≤ created) (more : s.created ≤ created) (given : p.given = (s.pc u).given)
    (first : p.first = (s.pc u).first) (second : p.second = (s.pc u).second)
    (seen : ∀ a, p.seen = some a → a = s.size) : Enrolled ({ s with
      spawner := spawner
      created := created
      mutex := mutex }.goto u p) where
  owned := owned
  present v present := by
    by_cases self : v = u
    · subst self; exact started
    · exact Nat.le_trans (enrolled.present v (by simpa [State.goto, self] using present)) more
  given v a got := enrolled.given v a ((Custody.update_same given v).symm.trans got)
  cover k below := by
    obtain ⟨v, got⟩ := enrolled.cover k below
    exact ⟨v, (Custody.update_same given v).trans got⟩
  first v wrote := enrolled.first v ((Custody.update_same first v).symm.trans wrote)
  second v wrote := enrolled.second v ((Custody.update_same second v).symm.trans wrote)
  seen v a read := by
    by_cases self : v = u
    · subst self; exact seen a (by simpa [State.goto] using read)
    · exact enrolled.seen v a (by simpa [State.goto, self] using read)
  written k member := by
    refine (enrolled.written k member).imp_right fun ⟨last, v, wrote⟩ => ⟨last, v, ?_⟩
    exact (Custody.update_same first v).trans wrote

/-- The arrays are written at `size`, which is nobody's index yet. -/
theorem Enrolled.write (enrolled : Enrolled s) (inside : (s.pc u).holds = true) {p : Pc}
    {schedulers activeTasks : Nat → Option Nat} (held : p.holds = true)
    (given : p.given = (s.pc u).given) (first : p.first = true) (seen : p.seen = none)
    (named : schedulers s.size = some u) (both : p.second = true → activeTasks s.size = some u)
    (kept : ∀ k < s.size, schedulers k = s.schedulers k ∧ activeTasks k = s.activeTasks k) :
    Enrolled ({ s with
      schedulers := schedulers
      activeTasks := activeTasks
      written := s.written ++ [s.size] }.goto u p) where
  owned := enrolled.owned.move (held.trans inside.symm)
  present v started := by
    by_cases self : v = u
    · subst self
      apply enrolled.present v
      intro absent
      rw [absent] at inside
      cases inside
    · apply enrolled.present v
      simpa [State.goto, self] using started
  given v a got := by
    obtain ⟨below, old⟩ := enrolled.given v a ((Custody.update_same given v).symm.trans got)
    obtain ⟨same, same'⟩ := kept a below
    exact ⟨below, same.trans old.1, same'.trans old.2⟩
  cover k below := by
    obtain ⟨v, got⟩ := enrolled.cover k below
    exact ⟨v, (Custody.update_same given v).trans got⟩
  first v wrote := by
    by_cases self : v = u
    · subst self; exact named
    · simp [State.goto, self, (enrolled.others inside self).1] at wrote
  second v wrote := by
    by_cases self : v = u
    · subst self; exact both (by simpa [State.goto] using wrote)
    · simp [State.goto, self, (enrolled.others inside self).2.1] at wrote
  seen v a read := by
    by_cases self : v = u
    · subst self; simp [State.goto, seen] at read
    · simp [State.goto, self, (enrolled.others inside self).2.2] at read
  written k member := by
    -- whoever has written is still at a point past its write
    have here : ∃ v, (Function.update s.pc u p v).first = true :=
      ⟨u, by rw [Function.update_self]; exact first⟩
    rcases List.mem_append.mp member with old | new
    · exact (enrolled.written k old).imp_right fun ⟨last, _⟩ => ⟨last, here⟩
    · exact .inr ⟨List.mem_singleton.mp new, here⟩

/-- With both arrays written, `size` can move past the index. -/
theorem Enrolled.grow (enrolled : Enrolled s) {a : Nat} (at_pc : s.pc u = .grow a) :
    Enrolled ({ s with size := s.size + 1 }.goto u (.unlock a)) := by
  have inside : (s.pc u).holds = true := by rw [at_pc]; rfl
  -- the index it has read is `size`, which nobody else can have moved
  have last : a = s.size := enrolled.seen u a (by rw [at_pc]; rfl)
  subst last
  have scheduler := enrolled.first u (by rw [at_pc]; rfl)
  have task := enrolled.second u (by rw [at_pc]; rfl)
  constructor
  · exact enrolled.owned.move inside.symm
  · intro v started
    by_cases self : v = u
    · subst self; exact enrolled.present v (by simp [at_pc])
    · apply enrolled.present v
      simpa [State.goto, self] using started
  · intro v a got
    by_cases self : v = u
    · subst self
      obtain rfl : s.size = a := by simpa [State.goto, Pc.given] using got
      exact ⟨Nat.lt_succ_self _, scheduler, task⟩
    · obtain ⟨below, old⟩ := enrolled.given v a (by simpa [State.goto, self] using got)
      exact ⟨Nat.lt_succ_of_lt below, old⟩
  · intro k below
    -- the new index is its own, the others have been given before
    by_cases new : k = s.size
    · exact ⟨u, by simp [State.goto, Pc.given, new]⟩
    · have older : k < s.size := Nat.lt_of_le_of_ne (Nat.le_of_lt_succ below) new
      obtain ⟨v, got⟩ := enrolled.cover k older
      have self : v ≠ u := by
        rintro rfl
        rw [at_pc] at got
        cases got
      exact ⟨v, by simpa [State.goto, self] using got⟩
  · intro v wrote
    by_cases self : v = u
    · subst self; simp [State.goto, Pc.first] at wrote
    · simp [State.goto, self, (enrolled.others inside self).1] at wrote
  · intro v wrote
    by_cases self : v = u
    · subst self; simp [State.goto, Pc.second] at wrote
    · simp [State.goto, self, (enrolled.others inside self).2.1] at wrote
  · intro v a read
    by_cases self : v = u
    · subst self; simp [State.goto, Pc.seen] at read
    · simp [State.goto, self, (enrolled.others inside self).2.2] at read
  · intro k member
    left
    rcases enrolled.written k member with below | ⟨rfl, -⟩
    · exact Nat.lt_succ_of_lt below
    · exact Nat.lt_succ_self _

theorem Enrolled.run (enrolled : Enrolled s) (stepped : run s u = some t) : Enrolled t := by
  -- the writes of `registe` are all made with the mutex
  have owned := enrolled.owned
  have started := enrolled.present u
  unfold Init.run at stepped
  cases at_pc : s.pc u with
  | absent => simp [at_pc] at stepped
  | registe =>
    rw [at_pc] at stepped
    simp only at stepped
    split at stepped
    next free =>
      cases stepped
      rw [free] at owned
      exact enrolled.move (owned.lock rfl) (started (by simp [at_pc])) (Nat.le_refl _)
        (by rw [at_pc]; rfl) (by rw [at_pc]; rfl) (by rw [at_pc]; rfl) (fun _ read => by cases read)
    · cases stepped
  | schedulers =>
    rw [at_pc] at stepped
    cases stepped
    refine enrolled.write (by rw [at_pc]; rfl) rfl (by rw [at_pc]; rfl) rfl rfl
      (Function.update_self ..) (fun both => by cases both) fun k below => ⟨?_, rfl⟩
    exact Function.update_of_ne (Nat.ne_of_lt below) ..
  | activeTasks =>
    rw [at_pc] at stepped
    cases stepped
    refine enrolled.write (by rw [at_pc]; rfl) rfl (by rw [at_pc]; rfl) rfl rfl
      (enrolled.first u (by rw [at_pc]; rfl)) (fun _ => Function.update_self ..)
      fun k below => ⟨rfl, ?_⟩
    exact Function.update_of_ne (Nat.ne_of_lt below) ..
  | read =>
    rw [at_pc] at stepped
    cases stepped
    have inside : (s.pc u).holds = true := by rw [at_pc]; rfl
    exact enrolled.move (owned.move inside.symm) (started (by simp [at_pc])) (Nat.le_refl _)
      (by rw [at_pc]; rfl) (by rw [at_pc]; rfl) (by rw [at_pc]; rfl)
      fun _ read => (Option.some.inj read).symm
  | grow a =>
    rw [at_pc] at stepped
    cases stepped
    exact enrolled.grow at_pc
  | unlock a =>
    rw [at_pc] at stepped
    cases stepped
    exact enrolled.move (owned.unlock (by rw [at_pc]; rfl) rfl) (started (by simp [at_pc]))
      (Nat.le_refl _) (by rw [at_pc]; rfl) (by rw [at_pc]; rfl) (by rw [at_pc]; rfl)
      (fun _ read => by cases read)
  | loop a => simp [at_pc] at stepped

theorem Enrolled.present_of_given (enrolled : Enrolled s) {k : Nat}
    (got : (s.pc u).given = some k) : u ≤ s.created := by
  apply enrolled.present u
  intro absent
  rw [absent] at got
  cases got

theorem Enrolled.unique (enrolled : Enrolled s) {v k : Nat} (got : (s.pc u).given = some k)
    (got' : (s.pc v).given = some k) : u = v := by
  have mine := (enrolled.given u k got).2.1
  rw [(enrolled.given v k got').2.1] at mine
  exact (Option.some.inj mine).symm

/-- Each index below `size` was given to another one of the threads that were started. -/
theorem Enrolled.owners (enrolled : Enrolled s) :
    ∃ owner : Fin s.size → Fin (s.created + 1), Function.Injective owner ∧
      ∀ k, (s.pc (owner k)).given = some k.val := by
  choose owner got using fun k : Fin s.size => enrolled.cover k k.isLt
  refine ⟨fun k => ⟨owner k, Nat.lt_succ_of_le (enrolled.present_of_given (got k))⟩, ?_, got⟩
  intro k k' same
  have value : (some k.val : Option Nat) = some k'.val := by
    rw [← got k, ← got k', Fin.mk.inj same]
  exact Fin.ext (Option.some.inj value)

theorem Enrolled.size_le (enrolled : Enrolled s) : s.size ≤ s.created + 1 := by
  obtain ⟨owner, injective, -⟩ := enrolled.owners
  simpa using Fintype.card_le_of_injective owner injective

/-- While a thread is writing, not all have registered. -/
theorem Enrolled.size_lt (enrolled : Enrolled s) (writing : (s.pc u).first = true) :
    s.size < s.created + 1 := by
  obtain ⟨owner, injective, got⟩ := enrolled.owners
  have started : u ≤ s.created := by
    apply enrolled.present u
    intro absent
    rw [absent] at writing
    cases writing
  have missed : (⟨u, Nat.lt_succ_of_le started⟩ : Fin (s.created + 1)) ∉ Set.range owner := by
    rintro ⟨k, same⟩
    have mine := got k
    rw [same] at mine
    cases at_pc : s.pc u with
    | unlock a => rw [at_pc] at writing; cases writing
    | loop a => rw [at_pc] at writing; cases writing
    | _ => rw [at_pc] at mine; cases mine
  simpa using Fintype.card_lt_of_injective_of_notMem owner injective missed

theorem Enrolled.inside (enrolled : Enrolled s) {k : Nat} (member : k ∈ s.written) :
    k < s.created + 1 := by
  rcases enrolled.written k member with below | ⟨rfl, v, writing⟩
  · exact Nat.lt_of_lt_of_le below enrolled.size_le
  · exact enrolled.size_lt writing

theorem id_given {k : Nat} (registered : s.id u = some k) : (s.pc u).given = some k := by
  unfold State.id at registered
  cases at_pc : s.pc u with
  | loop a => rw [at_pc] at registered; exact registered
  | _ => rw [at_pc] at registered; cases registered

/-- Once all have registered, the ids are those up to the number of threads that were started,
each given to one thread whose scheduler and tasks stand there. -/
theorem Enrolled.ids (enrolled : Enrolled s) (all : ∀ v ≤ s.created, s.id v ≠ none) :
    (∀ v ≤ s.created, ∃ k < s.created + 1, s.id v = some k) ∧
    ∀ k < s.created + 1, ∃ v ≤ s.created, (∀ u, s.id u = some k ↔ u = v) ∧
      s.schedulers k = some v ∧ s.activeTasks k = some v := by
  have registered : ∀ v ≤ s.created, ∃ k, s.id v = some k := fun v started =>
    Option.ne_none_iff_exists'.mp (all v started)
  choose k named using fun v : Fin (s.created + 1) =>
    registered v (Nat.le_of_lt_succ v.isLt)
  have below : ∀ v, k v < s.size := fun v => (enrolled.given v _ (id_given (named v))).1
  -- as many indices as threads
  have full : s.created + 1 ≤ s.size := by
    have injective : Function.Injective fun v => (⟨k v, below v⟩ : Fin s.size) := by
      intro v v' same
      have got := id_given (named v)
      rw [Fin.mk.inj same] at got
      exact Fin.ext (enrolled.unique got (id_given (named v')))
    simpa using Fintype.card_le_of_injective _ injective
  constructor
  · intro v started
    obtain ⟨k, got⟩ := registered v started
    exact ⟨k, Nat.lt_of_lt_of_le (enrolled.given v k (id_given got)).1 enrolled.size_le, got⟩
  · intro k small
    obtain ⟨v, got⟩ := enrolled.cover k (Nat.lt_of_lt_of_le small full)
    have started := enrolled.present_of_given got
    have mine : s.id v = some k := by
      obtain ⟨k', registered⟩ := registered v started
      rw [registered, ← got, id_given registered]
    refine ⟨v, started, fun u => ⟨fun yours => ?_, fun same => same ▸ mine⟩,
      (enrolled.given v k got).2⟩
    exact enrolled.unique (id_given yours) got

/-! ### Bringing up -/

/-- Up to the end of the loop main is alone: nobody else registers, so `size` is 1 at the test. -/
structure Lone (s : State) : Prop where
  enrolled : Enrolled s
  created : s.created = 0
  stage : match s.spawner with
    | .swap => s.pc 0 = .absent
    | .suspended => s.pc 0 ≠ .absent
    | .test i => 0 < i ∧ ∃ a, s.pc 0 = .loop a
    | .create _ => False
    | .ended => True

theorem initial_lone : Lone initial := ⟨initial_enrolled, rfl, rfl⟩

def Spawner.rank : Spawner → Nat
  | .swap => 10
  | .suspended => 2
  | .test _ => 1
  | _ => 0

def Pc.rank : Pc → Nat
  | .registe => 6
  | .schedulers => 5
  | .activeTasks => 4
  | .read => 3
  | .grow _ => 2
  | .unlock _ => 1
  | _ => 0

/-- An upper bound of the steps that are left. -/
def State.rank (s : State) : Nat := s.spawner.rank + (s.pc 0).rank

theorem Lone.spawn (lone : Lone s) (stepped : spawn s = some t) :
    Lone t ∧ t.rank < s.rank := by
  have stage := lone.stage
  unfold Init.spawn at stepped
  cases at_spawn : s.spawner with
  | swap =>
    rw [at_spawn] at stepped stage
    cases stepped
    have owned := lone.enrolled.owned.move (p := .registe) (by rw [stage]; rfl)
    refine ⟨⟨lone.enrolled.move owned (Nat.zero_le _) (Nat.le_refl _) (by rw [stage]; rfl)
      (by rw [stage]; rfl) (by rw [stage]; rfl) (fun _ read => by cases read), lone.created, ?_⟩,
      ?_⟩
    · simp [State.goto]
    · simp [State.rank, State.goto, at_spawn, stage, Spawner.rank, Pc.rank]
  | suspended => simp [at_spawn] at stepped
  | test i =>
    rw [at_spawn] at stepped stage
    cases stepped
    -- at most the scheduler of thread 0 has registered
    have few : ¬ i < s.size := by
      have := lone.enrolled.size_le
      rw [lone.created] at this
      omega
    obtain ⟨owned, present, given, cover, first, second, seen, written⟩ := lone.enrolled
    rw [if_neg few]
    refine ⟨⟨⟨owned, present, given, cover, first, second, seen, written⟩, lone.created,
      trivial⟩, ?_⟩
    simp [State.rank, at_spawn, Spawner.rank]
  | create i =>
    rw [at_spawn] at stage
    exact stage.elim
  | ended => simp [at_spawn] at stepped

theorem Lone.back (lone : Lone s) (stepped : step s .back = some t) :
    Lone t ∧ t.rank < s.rank := by
  simp only [step] at stepped
  split at stepped
  next a at_spawn at_pc =>
    cases stepped
    obtain ⟨owned, present, given, cover, first, second, seen, written⟩ := lone.enrolled
    refine ⟨⟨⟨owned, present, given, cover, first, second, seen, written⟩, lone.created,
      Nat.one_pos, a, at_pc⟩, ?_⟩
    simp [State.rank, at_spawn, Spawner.rank]
  · cases stepped

theorem run_rank (stepped : run s 0 = some t) :
    t.rank < s.rank ∧ t.spawner = s.spawner ∧ t.created = s.created ∧ t.pc 0 ≠ .absent := by
  unfold Init.run at stepped
  cases at_pc : s.pc 0 with
  | absent => simp [at_pc] at stepped
  | registe =>
    rw [at_pc] at stepped
    simp only at stepped
    split at stepped
    · cases stepped
      simp [State.rank, State.goto, at_pc, Pc.rank]
    · cases stepped
  | loop a => simp [at_pc] at stepped
  | _ =>
    rw [at_pc] at stepped
    cases stepped
    simp [State.rank, State.goto, at_pc, Pc.rank]

/-- The only thread is the one that `init` has started. -/
theorem Lone.zero (lone : Lone s) (present : s.pc u ≠ .absent) : u = 0 := by
  have started := lone.enrolled.present u present
  rw [lone.created] at started
  exact Nat.le_zero.mp started

theorem Lone.run (lone : Lone s) (stepped : run s u = some t) : Lone t ∧ t.rank < s.rank := by
  have present : s.pc u ≠ .absent := by
    intro absent
    simp [Init.run, absent] at stepped
  obtain rfl := lone.zero present
  obtain ⟨less, spawner, created, started⟩ := run_rank stepped
  refine ⟨⟨lone.enrolled.run stepped, created.trans lone.created, ?_⟩, less⟩
  have stage := lone.stage
  rw [spawner]
  -- a step of the thread is possible while main is suspended, or after the end
  cases at_spawn : s.spawner with
  | swap => rw [at_spawn] at stage; exact absurd stage present
  | suspended => exact started
  | test i =>
    rw [at_spawn] at stage
    obtain ⟨-, a, at_pc⟩ := stage
    simp [Init.run, at_pc] at stepped
  | create i => rw [at_spawn] at stage; exact stage.elim
  | ended => trivial

theorem Lone.step {label : Label} (lone : Lone s) (stepped : step s label = some t) :
    Lone t ∧ t.rank < s.rank := by
  cases label with
  | spawn => exact lone.spawn stepped
  | back => exact lone.back stepped
  | run u => exact lone.run stepped

theorem reachable_lone (reached : machine.Reachable s) : Lone s := by
  refine reached.invariant Lone ?_ fun _ _ _ lone _ stepped => (lone.step stepped).1
  rintro _ rfl
  exact initial_lone

theorem exec_rank {schedule : List Label} (lone : Lone s)
    (ran : machine.exec s schedule = some t) : schedule.length + t.rank ≤ s.rank := by
  induction schedule generalizing s with
  | nil =>
    cases ran
    simp
  | cons label rest ih =>
    obtain ⟨r, stepped, rest_ran⟩ := Option.bind_eq_some_iff.mp ran
    obtain ⟨next, less⟩ := lone.step stepped
    have tail := ih next rest_ran
    rw [List.length_cons]
    omega

/-- Until `CreatMutProcessEnv` has ended, it or thread 0 can go on. -/
theorem Lone.goes_on (lone : Lone s) (running : s.spawner ≠ .ended) :
    ∃ label, (Init.step s label).isSome := by
  have stage := lone.stage
  cases at_spawn : s.spawner with
  | swap => exact ⟨.spawn, by simp [Init.step, Init.spawn, at_spawn]⟩
  | suspended =>
    rw [at_spawn] at stage
    cases at_pc : s.pc 0 with
    | absent => exact absurd at_pc stage
    | registe =>
      -- the mutex is free: the only thread is not inside
      have free : s.mutex = none := by
        by_contra taken
        obtain ⟨v, held⟩ := Option.ne_none_iff_exists'.mp taken
        have inside := (lone.enrolled.owned v).mp held
        have present : s.pc v ≠ .absent := by
          intro absent
          rw [absent] at inside
          cases inside
        obtain rfl := lone.zero present
        rw [at_pc] at inside
        cases inside
      exact ⟨.run 0, by simp [Init.step, Init.run, at_pc, free]⟩
    | loop a => exact ⟨.back, by simp [Init.step, at_spawn, at_pc]⟩
    | _ => exact ⟨.run 0, by simp [Init.step, Init.run, at_pc]⟩
  | test i => exact ⟨.spawn, by simp [Init.step, Init.spawn, at_spawn]⟩
  | create i => rw [at_spawn] at stage; exact stage.elim
  | ended => exact absurd at_spawn running

/-- The schedule on which `init` comes to its end. -/
def bringUp : List Label :=
  [.spawn, .run 0, .run 0, .run 0, .run 0, .run 0, .run 0, .back, .spawn]

theorem bringUp_ends : ∃ s, machine.Reachable s ∧ s.spawner = .ended := by
  have ended : (machine.exec initial bringUp).map (·.spawner) = some .ended := by decide +kernel
  obtain ⟨s, ran, spawner⟩ := Option.map_eq_some_iff.mp ended
  exact ⟨s, Transition.Machine.exec_reachable (.start rfl) ran, spawner⟩

/-- The loop ends with no thread started, whatever `n` was. -/
theorem BringsUp.one {n : Nat} (bringsUp : BringsUp n) : n - 1 = 0 := by
  obtain ⟨s, reached, ended⟩ := bringUp_ends
  rw [← bringsUp.started s reached ended]
  exact (reachable_lone reached).created

/-- `init(n)` brings up `n` schedulers for `n = 1` only. -/
theorem bringsUp_iff (n : Nat) (positive : 0 < n) : BringsUp n ↔ n = 1 := by
  constructor
  · intro bringsUp
    have none := bringsUp.one
    omega
  · rintro rfl
    constructor
    · refine ⟨initial.rank, fun schedule s ran => ⟨?_, fun stuck => ?_⟩⟩
      · have := exec_rank initial_lone ran
        omega
      · by_contra running
        have reached := Transition.Machine.exec_reachable (m := machine) (.start rfl) ran
        obtain ⟨label, on⟩ := (reachable_lone reached).goes_on running
        rw [stuck label] at on
        cases on
    · intro s reached _
      exact (reachable_lone reached).created
    · intro s reached _ all
      have lone := reachable_lone reached
      have ids := lone.enrolled.ids all
      rw [lone.created] at ids ⊢
      exact ids
    · intro s reached k member
      have lone := reachable_lone reached
      have inside := lone.enrolled.inside member
      rwa [lone.created] at inside

theorem bringsUp_one : BringsUp 1 := (bringsUp_iff 1 Nat.one_pos).mpr rfl

/-- `init(2)` leaves main with one scheduler. -/
theorem bringsUp_fails : ¬ ∀ n, 0 < n → BringsUp n := by
  intro always
  exact absurd (always 2 Nat.two_pos).one (by decide)

end BRoutine.Init
