import BRoutine.Scheduler.Model

/-!
# Taking a routine that has left

From the moment a scheduler takes a task off its queue until the stores of the `bSwap` with which
the routine leaves again, the routine is in the hands of that scheduler. When every task taken is
one of a routine that no scheduler has in its hands, schedulers never meet: each routine is in
one pair of hands, and whatever `bSwap` loads has been stored.
-/

namespace BRoutine.Scheduler

/-- The routine that the scheduler `k` has in its hands: it has taken a task of it, it runs it, or
the routine is being left and its registers are not stored yet. -/
def State.has (s : State) (k : Nat) : Option Routine :=
  match s.pc k with
  | .got r => some r
  | .swap | .store =>
    -- the two pointers hold this routine and the loop
    if (s.occupyRoutine k).isProgress then s.pendingRoutine k else some (s.occupyRoutine k)
  | _ => if (s.occupyRoutine k).isProgress then none else some (s.occupyRoutine k)

/-- A task taken off a ready queue is one of a routine that no scheduler has in its hands. -/
def takesLeft (s : State) : Label → Bool
  | .run k =>
    match s.pc k, s.activeTasks k with
    | .take, r :: _ | .scan _, r :: _ => decide (∀ j < s.size, s.has j ≠ some r)
    | _, _ => true
  | _ => true

/-- The registers that the scheduler `k` is going to load are stored, at each program point. -/
def Tidy (s : State) (k : Nat) : Prop :=
  match s.pc k with
  | .got r => s.occupyRoutine k = .loop k ∧ r.isProgress = false ∧ s.saved r = true
  | .swap =>
    (s.occupyRoutine k = .loop k ∧ ∃ r, s.pendingRoutine k = some r ∧ r.isProgress = false ∧
      s.saved r = true) ∨
    ((s.occupyRoutine k).isProgress = false ∧ s.pendingRoutine k = some (.loop k) ∧
      s.saved (.loop k) = true)
  | .store =>
    ((s.occupyRoutine k).isProgress = false ∧ s.saved (s.occupyRoutine k) = true ∧
      s.pendingRoutine k = some (.loop k)) ∨
    (s.occupyRoutine k = .loop k ∧ s.saved (.loop k) = true ∧
      ∃ r, s.pendingRoutine k = some r ∧ r.isProgress = false)
  | .load =>
    s.saved (s.occupyRoutine k) = true ∧
      (s.occupyRoutine k = .loop k ∨ (s.occupyRoutine k).isProgress = false ∧
        s.pendingRoutine k = some (.loop k) ∧ s.saved (.loop k) = true)
  | .user | .add _ .user | .add _ .swap =>
    (s.occupyRoutine k).isProgress = false ∧ s.pendingRoutine k = some (.loop k) ∧
      s.saved (.loop k) = true
  | .top | .take | .scan _ | .add _ .deal => s.occupyRoutine k = .loop k

/-- Each routine is in one pair of hands at most, and one in none is saved. -/
structure Orderly (s : State) : Prop where
  early : s.early = false
  tidy : ∀ k, Tidy s k
  unregistered : ∀ k, s.size ≤ k → s.pc k = .top
  queues : ∀ k, ∀ r ∈ s.activeTasks k, r.isProgress = false
  unique : ∀ j k r, s.has j = some r → s.has k = some r → j = k
  free : ∀ r, r.isProgress = false → (∀ k, s.has k ≠ some r) → s.saved r = true

@[simp] theorem loop_isProgress (k : Nat) : (Routine.loop k).isProgress = true := rfl

theorem has_of_loop {s : State} {k : Nat} (inside : (s.pc k).inLoop = true)
    (free : ∀ r, s.pc k ≠ .got r) (loop : s.occupyRoutine k = .loop k) : s.has k = none := by
  cases pc : s.pc k with
  | got r => exact absurd pc (free r)
  | add tasks back => simp [State.has, pc, loop]
  | top | take | scan id => simp [State.has, pc, loop]
  | user | swap | store | load => rw [pc] at inside; cases inside

theorem has_of_code {s : State} {k : Nat} (inside : (s.pc k).inCode = true ∨ s.pc k = .swap)
    (user : (s.occupyRoutine k).isProgress = false) : s.has k = some (s.occupyRoutine k) := by
  cases pc : s.pc k with
  | user | swap | add tasks back => simp [State.has, pc, user]
  | got r | top | take | scan id | store | load => rw [pc] at inside; simp [Pc.inCode] at inside

theorem tidy_of_loop {s : State} {k : Nat} (inside : (s.pc k).inLoop = true)
    (free : ∀ r, s.pc k ≠ .got r) : Tidy s k ↔ s.occupyRoutine k = .loop k := by
  unfold Tidy
  split
  next r pc => exact absurd pc (free r)
  all_goals first | rfl | simp_all [Pc.inLoop]

theorem tidy_of_code {s : State} {k : Nat} (inside : (s.pc k).inCode = true) :
    Tidy s k ↔ (s.occupyRoutine k).isProgress = false ∧ s.pendingRoutine k = some (.loop k) ∧
      s.saved (.loop k) = true := by
  unfold Tidy
  split
  all_goals first | rfl | simp_all [Pc.inCode]

/-- What a scheduler has in its hands is not a loop. -/
theorem has_ne_loop {s : State} {j : Nat} {r : Routine} (tidy : Tidy s j)
    (hands : s.has j = some r) (k : Nat) : r ≠ .loop k := by
  rintro rfl
  unfold State.has at hands
  -- at each point that has something in hands it is an ordinary routine
  split at hands
  next q at_pc =>
    simp only [Tidy, at_pc] at tidy
    obtain rfl : q = .loop k := Option.some.inj hands
    cases tidy.2.1
  next at_pc =>
    simp only [Tidy, at_pc] at tidy
    rcases tidy with ⟨home, q, next, user, -⟩ | ⟨user, -, -⟩
    · rw [home, if_pos (loop_isProgress j), next] at hands
      obtain rfl : q = .loop k := Option.some.inj hands
      cases user
    · rw [user, if_neg (by simp), Option.some.injEq] at hands
      rw [hands] at user
      cases user
  next at_pc =>
    simp only [Tidy, at_pc] at tidy
    rcases tidy with ⟨user, -, -⟩ | ⟨home, -, q, leaves, user⟩
    · rw [user, if_neg (by simp), Option.some.injEq] at hands
      rw [hands] at user
      cases user
    · rw [home, if_pos (loop_isProgress j), leaves] at hands
      obtain rfl : q = .loop k := Option.some.inj hands
      cases user
  next =>
    split at hands
    · cases hands
    next user =>
      rw [Option.some.inj hands] at user
      exact user rfl

/-! ### Frames -/

theorem has_congr {s t : State} {j : Nat} (pc : t.pc j = s.pc j)
    (occupy : t.occupyRoutine j = s.occupyRoutine j)
    (pending : t.pendingRoutine j = s.pendingRoutine j) : t.has j = s.has j := by
  unfold State.has
  rw [pc, occupy, pending]

/-- Another scheduler stays tidy while nothing that it is going to load becomes out of date. -/
theorem Tidy.congr {s t : State} {j : Nat} (tidy : Tidy s j) (pc : t.pc j = s.pc j)
    (occupy : t.occupyRoutine j = s.occupyRoutine j)
    (pending : t.pendingRoutine j = s.pendingRoutine j)
    (keeps : ∀ r, s.has j = some r ∨ r = .loop j → s.saved r = true → t.saved r = true) :
    Tidy t j := by
  -- the loop of a scheduler is its own, so what is saved for it stays
  have loop := keeps (.loop j) (.inr rfl)
  unfold Tidy at tidy ⊢
  rw [pc, occupy, pending]
  split at tidy
  next r at_pc => exact ⟨tidy.1, tidy.2.1, keeps r (.inl (by simp [State.has, at_pc])) tidy.2.2⟩
  next at_pc =>
    rcases tidy with ⟨home, r, next, user, saved⟩ | ⟨user, home, saved⟩
    · have hands : s.has j = some r := by simp [State.has, at_pc, home, Routine.isProgress, next]
      exact .inl ⟨home, r, next, user, keeps r (.inl hands) saved⟩
    · exact .inr ⟨user, home, loop saved⟩
  next at_pc =>
    rcases tidy with ⟨user, saved, home⟩ | ⟨home, saved, r, left, user⟩
    · have hands : s.has j = some (s.occupyRoutine j) := by simp [State.has, at_pc, user]
      exact .inl ⟨user, keeps _ (.inl hands) saved, home⟩
    · exact .inr ⟨home, loop saved, r, left, user⟩
  next at_pc =>
    obtain ⟨saved, home | ⟨user, home, loop_saved⟩⟩ := tidy
    · rw [home] at saved ⊢
      exact ⟨loop saved, .inl rfl⟩
    · have hands : s.has j = some (s.occupyRoutine j) := by simp [State.has, at_pc, user]
      exact ⟨keeps _ (.inl hands) saved, .inr ⟨user, home, loop loop_saved⟩⟩
  next => exact ⟨tidy.1, tidy.2.1, loop tidy.2.2⟩
  next => exact ⟨tidy.1, tidy.2.1, loop tidy.2.2⟩
  next => exact ⟨tidy.1, tidy.2.1, loop tidy.2.2⟩
  all_goals exact tidy

/-- A step of the scheduler `k`, with what it owes to the others. -/
theorem Orderly.step {s t : State} {k : Nat} (orderly : Orderly s) (inside : k < s.size)
    (size : t.size = s.size)
    (others : ∀ j, j ≠ k → t.pc j = s.pc j ∧ t.occupyRoutine j = s.occupyRoutine j ∧
      t.pendingRoutine j = s.pendingRoutine j)
    (early : t.early = false) (mine : Tidy t k)
    (queues : ∀ j, ∀ r ∈ t.activeTasks j, r.isProgress = false)
    (keeps : ∀ j, j ≠ k → ∀ r, s.has j = some r ∨ r = .loop j →
      s.saved r = true → t.saved r = true)
    (alone : ∀ r, t.has k = some r → ∀ j, j ≠ k → s.has j ≠ some r)
    (free : ∀ r, r.isProgress = false → t.has k ≠ some r → (∀ j, j ≠ k → s.has j ≠ some r) →
      t.saved r = true) :
    Orderly t := by
  -- the other schedulers have what they had
  have same : ∀ j, j ≠ k → t.has j = s.has j := by
    intro j other
    obtain ⟨pc, occupy, pending⟩ := others j other
    exact has_congr pc occupy pending
  refine ⟨early, ?_, ?_, queues, ?_, ?_⟩
  · intro j
    by_cases here : j = k
    · rw [here]
      exact mine
    · obtain ⟨pc, occupy, pending⟩ := others j here
      exact (orderly.tidy j).congr pc occupy pending (keeps j here)
  · intro j outside
    rw [size] at outside
    rw [(others j (by omega)).1]
    exact orderly.unregistered j outside
  · intro i j r first second
    by_cases here : i = k
    · subst here
      -- a routine the moving scheduler gets is on no other one
      by_cases also : j = i
      · exact also.symm
      · rw [same j also] at second
        exact absurd second (alone r first j also)
    · by_cases there : j = k
      · subst there
        rw [same i here] at first
        exact absurd first (alone r second i here)
      · rw [same i here] at first
        rw [same j there] at second
        exact orderly.unique i j r first second
  · intro r user nobody
    refine free r user (nobody k) fun j other => ?_
    rw [← same j other]
    exact nobody j

/-- In no hands, seen from the scheduler `k`. -/
theorem nobody_of_others {s : State} {k : Nat} {r : Routine} (mine : s.has k ≠ some r)
    (others : ∀ j, j ≠ k → s.has j ≠ some r) (j : Nat) : s.has j ≠ some r := by
  by_cases here : j = k
  · rw [here]
    exact mine
  · exact others j here

/-- A step that leaves the contexts and what `k` has in its hands as they are. -/
theorem Orderly.keep {s t : State} {k : Nat} (orderly : Orderly s) (inside : k < s.size)
    (size : t.size = s.size)
    (others : ∀ j, j ≠ k → t.pc j = s.pc j ∧ t.occupyRoutine j = s.occupyRoutine j ∧
      t.pendingRoutine j = s.pendingRoutine j)
    (early : t.early = s.early) (saved : t.saved = s.saved) (mine : Tidy t k)
    (queues : ∀ j, ∀ r ∈ t.activeTasks j, r.isProgress = false)
    (hands : t.has k = s.has k) : Orderly t := by
  refine orderly.step inside size others (early.trans orderly.early) mine queues ?_ ?_ ?_
  · intro j _ r _ before
    rw [saved]
    exact before
  · intro r mine j other yours
    rw [hands] at mine
    exact other (orderly.unique j k r yours mine)
  · intro r user mine nobody
    rw [saved]
    rw [hands] at mine
    exact orderly.free r user (nobody_of_others mine nobody)

/-! ### Steps -/

theorem Orderly.addTask_queues {s : State} (orderly : Orderly s) (r : Routine) (j : Nat) :
    ∀ q ∈ (s.addTask r).activeTasks j, q.isProgress = false := by
  intro q member
  rcases mem_addTask member with before | ⟨-, rfl, user⟩
  · exact orderly.queues j q before
  · exact user

theorem Orderly.stolen_queues {s : State} (orderly : Orderly s) (k id : Nat) (locked : Bool)
    (j : Nat) : ∀ q ∈ (s.stolen k id locked).activeTasks j, q.isProgress = false := by
  intro q member
  rcases mem_stolen member with before | ⟨-, taken⟩
  · exact orderly.queues j q before
  · exact orderly.queues id q ((try2stealTask_subset rfl).2 q taken)

theorem goto_others (s : State) {k : Nat} {p : Pc} (j : Nat) (other : j ≠ k) :
    (s.goto k p).pc j = s.pc j ∧ (s.goto k p).occupyRoutine j = s.occupyRoutine j ∧
      (s.goto k p).pendingRoutine j = s.pendingRoutine j :=
  ⟨by simp [other], rfl, rfl⟩

/-- Registers that are stored stay so while another routine goes on. -/
theorem still_saved {saved : Routine → Bool} {r q : Routine} (other : q ≠ r)
    (before : saved q = true) : Function.update saved r false q = true := by
  rw [Function.update_of_ne other]
  exact before

section Acts

variable {s : State} {k : Nat}

theorem Orderly.quiet (orderly : Orderly s) (inside : k < s.size) (lists : Nat → List Routine)
    (polls : List Routine) (dealLock : Bool) {p : Pc} (stays : p.Stays (s.pc k)) :
    Orderly (({ s with lists := lists, polls := polls, dealLock := dealLock }).goto k p) := by
  have tidy := orderly.tidy k
  have others := goto_others { s with lists := lists, polls := polls, dealLock := dealLock }
    (k := k) (p := p)
  rcases stays with ⟨before, after, free⟩ | ⟨before, after⟩
  · -- in the loop
    have home := (tidy_of_loop before fun r => (free r).1).mp tidy
    have still : ∀ r, p ≠ .got r := fun r => (free r).2
    refine orderly.keep inside rfl others rfl rfl ?_ orderly.queues ?_
    · exact (tidy_of_loop (by simpa using after) (by simpa using still)).mpr home
    · rw [has_of_loop before (fun r => (free r).1) home]
      exact has_of_loop (by simpa using after) (by simpa using still) home
  · -- in the code of a routine
    obtain ⟨user, home, saved⟩ := (tidy_of_code before).mp tidy
    refine orderly.keep inside rfl others rfl rfl ?_ orderly.queues ?_
    · rcases after with after | rfl
      · exact (tidy_of_code (by simpa using after)).mpr ⟨user, home, saved⟩
      · simp only [Tidy, goto_pc, Function.update_self]
        exact .inr ⟨user, home, saved⟩
    · rw [has_of_code (.inl before) user]
      exact has_of_code (by simpa using after) user

/-- Nobody has the routine of a task that may be taken. -/
theorem Orderly.nobody_has (orderly : Orderly s) {r : Routine} {rest : List Routine}
    (at_pc : s.pc k = .take ∨ ∃ id, s.pc k = .scan id) (front : s.activeTasks k = r :: rest)
    (left : takesLeft s (.run k)) (j : Nat) : s.has j ≠ some r := by
  by_cases registered : j < s.size
  · have all_left : ∀ j < s.size, s.has j ≠ some r := by
      rcases at_pc with here | ⟨id, here⟩ <;>
        simpa only [takesLeft, here, front, decide_eq_true_eq] using left
    exact all_left j registered
  · have top := orderly.unregistered j (by omega)
    have away := orderly.tidy j
    simp only [Tidy, top] at away
    simp [State.has, top, away]

theorem Orderly.taken (orderly : Orderly s) (inside : k < s.size) {r : Routine}
    {rest : List Routine} (at_pc : s.pc k = .take ∨ ∃ id, s.pc k = .scan id)
    (front : s.activeTasks k = r :: rest) (left : takesLeft s (.run k)) :
    Orderly (({ s with activeTasks := Function.update s.activeTasks k rest }).goto k (.got r)) := by
  have nobody := orderly.nobody_has at_pc front left
  have user : r.isProgress = false := orderly.queues k r (by rw [front]; exact List.mem_cons_self)
  have home : s.occupyRoutine k = .loop k := by
    have tidy := orderly.tidy k
    rcases at_pc with here | ⟨id, here⟩ <;> simpa only [Tidy, here] using tidy
  -- at these points the hands are empty
  have nothing : s.has k = none := by
    rcases at_pc with here | ⟨id, here⟩ <;> simp [State.has, here, home]
  refine orderly.step inside rfl (goto_others _) orderly.early ?_ ?_ ?_ ?_ ?_
  · simp only [Tidy, goto_pc, Function.update_self]
    exact ⟨home, user, orderly.free r user nobody⟩
  · intro j q member
    by_cases here : j = k
    · subst here
      simp only [goto_activeTasks, Function.update_self] at member
      exact orderly.queues j q (by rw [front]; exact List.mem_cons_of_mem r member)
    · simp only [goto_activeTasks, Function.update_of_ne here] at member
      exact orderly.queues j q member
  · exact fun _ _ _ _ saved => saved
  · intro q mine j _
    simp only [State.has, goto_pc, Function.update_self, Option.some.injEq] at mine
    rw [← mine]
    exact nobody j
  · intro q user _ others
    exact orderly.free q user (nobody_of_others (by simp [nothing]) others)

theorem Orderly.pend (orderly : Orderly s) (inside : k < s.size) {r : Routine}
    (at_pc : s.pc k = .got r) :
    Orderly (({ s with
      pendingRoutine := Function.update s.pendingRoutine k (some r) }).goto k .swap) := by
  have tidy := orderly.tidy k
  simp only [Tidy, at_pc] at tidy
  obtain ⟨home, user, saved⟩ := tidy
  refine orderly.keep inside rfl ?_ rfl rfl ?_ orderly.queues ?_
  · intro j other
    exact ⟨by simp [other], rfl, by simp [other]⟩
  · simp only [Tidy, goto_pc, Function.update_self]
    exact .inl ⟨home, r, by simp, user, saved⟩
  · simp [State.has, at_pc, home]

theorem Orderly.addTask (orderly : Orderly s) (inside : k < s.size) {r : Routine}
    {tasks : List Routine} {back : Back} (at_pc : s.pc k = .add (r :: tasks) back) :
    Orderly ((s.addTask r).goto k (.add tasks back)) := by
  have tidy := orderly.tidy k
  obtain ⟨size, pc, occupy, pending, saved, early⟩ := addTask_same s r
  refine orderly.keep inside size ?_ early saved ?_ (orderly.addTask_queues r) ?_
  · intro j other
    exact ⟨by simp [pc, other], by simp [occupy], by simp [pending]⟩
  · cases back <;> simpa [Tidy, at_pc, occupy, pending, saved] using tidy
  · cases back <;> simp [State.has, at_pc, occupy]

/-- The two pointers change places: the routine on one side, the loop on the other. -/
theorem Orderly.swap (orderly : Orderly s) (inside : k < s.size) {r : Routine}
    (at_pc : s.pc k = .swap) (pending : s.pendingRoutine k = some r) :
    Orderly (({ s with
      occupyRoutine := Function.update s.occupyRoutine k r
      pendingRoutine := Function.update s.pendingRoutine k (some (s.occupyRoutine k)) }).goto k
        .store) := by
  have tidy := orderly.tidy k
  simp only [Tidy, at_pc] at tidy
  refine orderly.keep inside rfl ?_ rfl rfl ?_ orderly.queues ?_
  · intro j other
    exact ⟨by simp [other], by simp [other], by simp [other]⟩
  · simp only [Tidy, goto_pc, goto_occupy, goto_pending, goto_saved, Function.update_self]
    rcases tidy with ⟨home, q, next, user, saved⟩ | ⟨user, home, saved⟩
    · obtain rfl : q = r := Option.some.inj (next.symm.trans pending)
      exact .inl ⟨user, saved, by rw [home]⟩
    · obtain rfl : .loop k = r := Option.some.inj (home.symm.trans pending)
      exact .inr ⟨rfl, saved, _, rfl, user⟩
  · rcases tidy with ⟨home, q, next, user, saved⟩ | ⟨user, home, saved⟩
    · obtain rfl : q = r := Option.some.inj (next.symm.trans pending)
      simp [State.has, at_pc, home, user, pending]
    · obtain rfl : .loop k = r := Option.some.inj (home.symm.trans pending)
      simp [State.has, at_pc, user]

theorem Orderly.store (orderly : Orderly s) (inside : k < s.size) {r : Routine}
    (at_pc : s.pc k = .store) (pending : s.pendingRoutine k = some r) :
    Orderly (({ s with saved := Function.update s.saved r true }).goto k .load) := by
  have tidy := orderly.tidy k
  simp only [Tidy, at_pc] at tidy
  have frame := goto_others { s with saved := Function.update s.saved r true } (k := k)
    (p := .load)
  have keeps : ∀ q, s.saved q = true → Function.update s.saved r true q = true := by
    intro q saved
    by_cases same : q = r
    · simp [same]
    · simpa [same] using saved
  rcases tidy with ⟨user, saved, home⟩ | ⟨home, saved, q, leaves, user⟩
  · -- the loop is left
    obtain rfl : .loop k = r := Option.some.inj (home.symm.trans pending)
    have hands : s.has k = some (s.occupyRoutine k) := by simp [State.has, at_pc, user]
    have after : (({ s with saved := Function.update s.saved (.loop k) true }).goto k .load).has k
        = some (s.occupyRoutine k) := by simp [State.has, user]
    refine orderly.step inside rfl frame orderly.early ?_ orderly.queues
      (fun _ _ q _ before => keeps q before) ?_ ?_
    · simp only [Tidy, goto_pc, goto_occupy, goto_pending, goto_saved, Function.update_self]
      exact ⟨keeps _ saved, .inr ⟨user, home, trivial⟩⟩
    · intro q mine j other yours
      rw [after, ← hands] at mine
      exact other (orderly.unique j k q yours mine)
    · intro q ordinary mine others
      rw [after, ← hands] at mine
      exact keeps q (orderly.free q ordinary (nobody_of_others mine others))
  · -- a routine is left, and from now on it is in no hands
    obtain rfl : q = r := Option.some.inj (leaves.symm.trans pending)
    have hands : s.has k = some q := by simp [State.has, at_pc, home, pending]
    refine orderly.step inside rfl frame orderly.early ?_ orderly.queues
      (fun _ _ q _ before => keeps q before) ?_ ?_
    · simp only [Tidy, goto_pc, goto_occupy, goto_saved, Function.update_self]
      exact ⟨by rw [home]; exact keeps _ saved, .inl home⟩
    · intro r mine
      simp [State.has, home] at mine
    · intro r ordinary _ others
      by_cases same : r = q
      · simp [same]
      · have mine : s.has k ≠ some r := by
          rw [hands]
          simpa using Ne.symm same
        exact keeps r (orderly.free r ordinary (nobody_of_others mine others))

theorem Orderly.load (orderly : Orderly s) (inside : k < s.size) (at_pc : s.pc k = .load) :
    Orderly (({ s with
      saved := Function.update s.saved (s.occupyRoutine k) false
      early := s.early || !s.saved (s.occupyRoutine k) }).goto k
        (if (s.occupyRoutine k).isProgress then .top else .user)) := by
  have tidy := orderly.tidy k
  simp only [Tidy, at_pc] at tidy
  obtain ⟨saved, home | ⟨user, home, loop_saved⟩⟩ := tidy
  · -- the loop goes on
    have hands : s.has k = none := by simp [State.has, at_pc, home]
    rw [home] at saved
    rw [home, loop_isProgress, if_pos rfl]
    refine orderly.step inside rfl (goto_others _) ?_ ?_ orderly.queues ?_ ?_ ?_
    · simp [orderly.early, saved]
    · simpa [Tidy] using home
    · rintro j other q (yours | rfl) before
      · exact still_saved (has_ne_loop (orderly.tidy j) yours k) before
      · exact still_saved (by simpa using other) before
    · intro q mine
      simp [State.has, home] at mine
    · intro q ordinary _ others
      have other : q ≠ .loop k := by
        rintro rfl
        cases ordinary
      exact still_saved other (orderly.free q ordinary (nobody_of_others (by simp [hands]) others))
  · -- the routine goes on behind its `SwapContext`
    have hands : s.has k = some (s.occupyRoutine k) := by simp [State.has, at_pc, user]
    have not_loop : ∀ j, .loop j ≠ s.occupyRoutine k := by
      intro j same
      rw [← same] at user
      cases user
    rw [user, if_neg (by simp)]
    refine orderly.step inside rfl (goto_others _) ?_ ?_ orderly.queues ?_ ?_ ?_
    · simp [orderly.early, saved]
    · simp only [Tidy, goto_pc, goto_occupy, goto_pending, goto_saved, Function.update_self]
      exact ⟨user, home, still_saved (not_loop k) loop_saved⟩
    · rintro j other q (yours | rfl) before
      · have apart : q ≠ s.occupyRoutine k := by
          rintro rfl
          exact other (orderly.unique j k _ yours hands)
        exact still_saved apart before
      · exact still_saved (not_loop j) before
    · intro q mine j other yours
      have same : s.has k = some q := by simpa [State.has, user, at_pc] using mine
      exact other (orderly.unique j k q yours same)
    · intro q ordinary mine others
      have other : q ≠ s.occupyRoutine k := by
        rintro rfl
        simp [State.has, user] at mine
      have not_mine : s.has k ≠ some q := by
        rw [hands]
        simpa using Ne.symm other
      exact still_saved other (orderly.free q ordinary (nobody_of_others not_mine others))

theorem Orderly.steal (orderly : Orderly s) (inside : k < s.size) {id : Nat} (locked : Bool)
    (at_pc : s.pc k = .scan id) : Orderly ((s.stolen k id locked).goto k (.scan (id + 1))) := by
  have tidy := orderly.tidy k
  simp only [Tidy, at_pc] at tidy
  obtain ⟨size, pc, occupy, pending, saved, early⟩ := stolen_same s k id locked
  refine orderly.keep inside size ?_ early saved ?_ (orderly.stolen_queues k id locked) ?_
  · intro j other
    exact ⟨by simp [pc, other], by simp [occupy], by simp [pending]⟩
  · simpa [Tidy, occupy] using tidy
  · simp [State.has, at_pc, occupy]

end Acts

theorem Act.orderly {s t : State} {k : Nat} {label : Label} (orderly : Orderly s)
    (inside : k < s.size) (left : takesLeft s label) (act : Act s k label t) : Orderly t := by
  cases act with
  | quiet lists polls dealLock stays => exact orderly.quiet inside lists polls dealLock stays
  | taken at_pc front => exact orderly.taken inside at_pc front left
  | pend at_pc => exact orderly.pend inside at_pc
  | addTask at_pc => exact orderly.addTask inside at_pc
  | swap at_pc pending => exact orderly.swap inside at_pc pending
  | store at_pc pending => exact orderly.store inside at_pc pending
  | load at_pc => exact orderly.load inside at_pc
  | steal locked at_pc other below => exact orderly.steal inside locked at_pc
  | crash =>
    exact ⟨orderly.early, orderly.tidy, orderly.unregistered, orderly.queues, orderly.unique,
      orderly.free⟩

theorem initial_orderly : Orderly initial where
  early := rfl
  tidy k := rfl
  unregistered k _ := rfl
  queues k r member := by
    by_cases home : k = 0
    · subst home
      obtain rfl : r = .main := by simpa [initial] using member
      rfl
    · simp [initial, home] at member
  unique j k r mine _ := by simp [State.has, initial] at mine
  free r user _ := by
    have other : r ≠ .loop 0 := by
      rintro rfl
      cases user
    simp [initial, other]

theorem step_orderly {n : Nat} {s t : State} {label : Label} (orderly : Orderly s)
    (left : takesLeft s label) (stepped : step n s label = some t) : Orderly t := by
  rcases step_spec stepped with ⟨k, inside, act⟩ | ⟨-, rfl⟩
  · exact act.orderly orderly inside left
  · -- the loop of a new thread runs, and nobody is going to load it
    refine ⟨orderly.early, fun j => ?_, fun j outside => ?_, orderly.queues, orderly.unique, ?_⟩
    · by_cases new : j = s.size
      · subst new
        have top := orderly.unregistered s.size (Nat.le_refl _)
        have home := orderly.tidy s.size
        simp only [Tidy, top] at home ⊢
        exact home
      · refine (orderly.tidy j).congr rfl rfl rfl ?_
        rintro q (yours | rfl) before
        · exact still_saved (has_ne_loop (orderly.tidy j) yours s.size) before
        · exact still_saved (by simpa using new) before
    · exact orderly.unregistered j (by simp only at outside; omega)
    · intro r user nobody
      have other : r ≠ .loop s.size := by
        rintro rfl
        cases user
      exact still_saved other (orderly.free r user nobody)

end BRoutine.Scheduler
