import BRoutine.Scheduler.Leave

/-!
# Every thread returns to its own loop

`SwapContext` only exchanges the two pointers of a scheduler. Whatever the other schedulers do, and
also where a routine has been taken before it has left, the pair of a scheduler is at all times
its own loop and one other routine. So a routine that gives up its thread gives it to the loop of
that thread, and `SwapContext` never finds a null `pendingRoutine`.
-/

namespace BRoutine.Scheduler

/-- The routine that the loop of the scheduler `k` has a task of, has gone to or comes back
from. -/
def State.sent (s : State) (k : Nat) : Option Routine :=
  match s.pc k with
  | .got r => some r
  | .swap | .store | .load =>
    if (s.occupyRoutine k).isProgress then s.pendingRoutine k else some (s.occupyRoutine k)
  | _ => if (s.occupyRoutine k).isProgress then none else some (s.occupyRoutine k)

/-- The pair of a scheduler in its loop, in the code of a routine, and inside `SwapContext`. -/
structure Paired (s : State) (k : Nat) : Prop where
  inLoop : (s.pc k).inLoop = true → s.occupyRoutine k = .loop k ∧
    ∀ r, s.pendingRoutine k = some r → r.isProgress = false
  inCode : (s.pc k).inCode = true →
    (s.occupyRoutine k).isProgress = false ∧ s.pendingRoutine k = some (.loop k)
  inSwap : (s.pc k).inLoop = false → (s.pc k).inCode = false →
    (s.occupyRoutine k = .loop k ∧ ∃ r, s.pendingRoutine k = some r ∧ r.isProgress = false) ∨
      ((s.occupyRoutine k).isProgress = false ∧ s.pendingRoutine k = some (.loop k))
  got : ∀ r, s.pc k = .got r → r.isProgress = false

/-- All pairs, and no loop in a ready queue. -/
structure Homed (s : State) : Prop where
  paired : ∀ k, Paired s k
  queues : ∀ k, ∀ r ∈ s.activeTasks k, r.isProgress = false

theorem initial_homed : Homed initial where
  paired k := by
    refine ⟨fun _ => ⟨rfl, fun r pending => ?_⟩, by simp [initial, Pc.inCode],
      by simp [initial, Pc.inLoop], by simp [initial]⟩
    simp only [initial] at pending
    split at pending <;> cases pending
    rfl
  queues k r member := by
    simp only [initial] at member
    split at member
    · obtain rfl := List.mem_singleton.mp member
      rfl
    · cases member

theorem Paired.congr {s t : State} {j : Nat} (paired : Paired s j) (pc : t.pc j = s.pc j)
    (occupy : t.occupyRoutine j = s.occupyRoutine j)
    (pending : t.pendingRoutine j = s.pendingRoutine j) : Paired t j := by
  constructor
  · rw [pc, occupy, pending]; exact paired.inLoop
  · rw [pc, occupy, pending]; exact paired.inCode
  · rw [pc, occupy, pending]; exact paired.inSwap
  · rw [pc]; exact paired.got

/-- A step of the scheduler `k` that leaves the pairs of the others as they are. -/
theorem Homed.step {s t : State} {k : Nat} (homed : Homed s)
    (others : ∀ j, j ≠ k → t.pc j = s.pc j ∧ t.occupyRoutine j = s.occupyRoutine j ∧
      t.pendingRoutine j = s.pendingRoutine j)
    (mine : Paired t k) (queues : ∀ j, ∀ r ∈ t.activeTasks j, r.isProgress = false) :
    Homed t := by
  refine ⟨fun j => ?_, queues⟩
  by_cases here : j = k
  · rw [here]
    exact mine
  · obtain ⟨pc, occupy, pending⟩ := others j here
    exact (homed.paired j).congr pc occupy pending

theorem Pc.not_inCode {p : Pc} (inside : p.inLoop = true) : p.inCode = false := by
  cases p with
  | add tasks back => cases back <;> first | rfl | cases inside
  | _ => first | rfl | cases inside

/-- What the loop has in its hands at a point of the loop. -/
theorem paired_of_loop {s : State} {k : Nat} {p : Pc} (at_pc : s.pc k = p)
    (inside : p.inLoop = true) (home : s.occupyRoutine k = .loop k)
    (left : ∀ r, s.pendingRoutine k = some r → r.isProgress = false)
    (got : ∀ r, p = .got r → r.isProgress = false) : Paired s k where
  inLoop _ := ⟨home, left⟩
  inCode code := by rw [at_pc, Pc.not_inCode inside] at code; cases code
  inSwap away := by rw [at_pc, inside] at away; cases away
  got r here := got r (at_pc ▸ here)

theorem paired_of_code {s : State} {k : Nat} {p : Pc} (at_pc : s.pc k = p)
    (inside : p.inCode = true) (user : (s.occupyRoutine k).isProgress = false)
    (home : s.pendingRoutine k = some (.loop k)) : Paired s k where
  inLoop loop := by rw [at_pc] at loop; rw [Pc.not_inCode loop] at inside; cases inside
  inCode _ := ⟨user, home⟩
  inSwap _ away := by rw [at_pc, inside] at away; cases away
  got r here := by rw [← at_pc, here] at inside; cases inside

/-- The points of `SwapContext`. -/
def Pc.swapping : Pc → Bool
  | .swap | .store | .load => true
  | _ => false

theorem Pc.swapping_iff (p : Pc) :
    p.swapping = true ↔ p.inLoop = false ∧ p.inCode = false := by
  cases p with
  | add tasks back => cases back <;> simp [swapping, inLoop, inCode]
  | _ => simp [swapping, inLoop, inCode]

theorem paired_of_swap {s : State} {k : Nat} {p : Pc} (at_pc : s.pc k = p)
    (inside : p.swapping = true)
    (pair : (s.occupyRoutine k = .loop k ∧
        ∃ r, s.pendingRoutine k = some r ∧ r.isProgress = false) ∨
      ((s.occupyRoutine k).isProgress = false ∧ s.pendingRoutine k = some (.loop k))) :
    Paired s k where
  inLoop loop := by rw [at_pc, ((Pc.swapping_iff p).mp inside).1] at loop; cases loop
  inCode code := by rw [at_pc, ((Pc.swapping_iff p).mp inside).2] at code; cases code
  inSwap _ _ := pair
  got r here := by rw [← at_pc, here] at inside; cases inside

theorem Paired.swap_pair {s : State} {k : Nat} (paired : Paired s k)
    (inside : (s.pc k).swapping = true) :
    (s.occupyRoutine k = .loop k ∧ ∃ r, s.pendingRoutine k = some r ∧ r.isProgress = false) ∨
      ((s.occupyRoutine k).isProgress = false ∧ s.pendingRoutine k = some (.loop k)) :=
  let ⟨loop, code⟩ := (Pc.swapping_iff _).mp inside
  paired.inSwap loop code

theorem Act.homed {s t : State} {k : Nat} {label : Label} (homed : Homed s)
    (act : Act s k label t) : Homed t := by
  have mine := homed.paired k
  cases act with
  | @quiet _ p lists polls dealLock stays =>
    refine homed.step (goto_others _) ?_ homed.queues
    rcases stays with ⟨before, after, free⟩ | ⟨before, after | rfl⟩
    · obtain ⟨home, left⟩ := mine.inLoop before
      exact paired_of_loop (by simp) after home left fun r here => absurd here (free r).2
    · obtain ⟨user, home⟩ := mine.inCode before
      exact paired_of_code (by simp) after user home
    · exact paired_of_swap (p := .swap) (by simp) rfl (.inr (mine.inCode before))
  | @taken r rest at_pc front =>
    have loop : (s.pc k).inLoop = true := by
      rcases at_pc with here | ⟨id, here⟩ <;> rw [here] <;> rfl
    refine homed.step (goto_others _) ?_ ?_
    · obtain ⟨home, left⟩ := mine.inLoop loop
      refine paired_of_loop (p := .got r) (by simp) rfl home left ?_
      rintro q ⟨⟩
      exact homed.queues k r (by rw [front]; exact List.mem_cons_self)
    · intro j q member
      apply homed.queues j q
      by_cases here : j = k
      · subst here
        rw [front]
        exact List.mem_cons_of_mem r (by simpa using member)
      · simpa [here] using member
  | @pend r at_pc =>
    have home := (mine.inLoop (by rw [at_pc]; rfl)).1
    refine homed.step (k := k) (fun j other => by simp [other]) ?_ homed.queues
    exact paired_of_swap (p := .swap) (by simp) rfl
      (.inl ⟨home, r, by simp, mine.got r at_pc⟩)
  | @addTask r tasks back at_pc =>
    have same := addTask_same s r
    refine homed.step (k := k) (fun j other => ?_) ?_ fun j q member => ?_
    · simp [other, same.pc, same.occupy, same.pending]
    · -- `AddTask` does not touch the pair, wherever it is called from
      have here : ((s.addTask r).goto k (.add tasks back)).pc k = .add tasks back := by simp
      cases back with
      | deal =>
        obtain ⟨home, left⟩ := mine.inLoop (by rw [at_pc]; rfl)
        exact paired_of_loop here rfl (by rw [goto_occupy, same.occupy, home])
          (by rw [goto_pending, same.pending]; exact left) (by simp)
      | user =>
        obtain ⟨user, home⟩ := mine.inCode (by rw [at_pc]; rfl)
        exact paired_of_code here rfl (by rw [goto_occupy, same.occupy, user])
          (by rw [goto_pending, same.pending, home])
      | swap =>
        obtain ⟨user, home⟩ := mine.inCode (by rw [at_pc]; rfl)
        exact paired_of_code here rfl (by rw [goto_occupy, same.occupy, user])
          (by rw [goto_pending, same.pending, home])
    · rcases mem_addTask member with before | ⟨-, rfl, user⟩
      · exact homed.queues j q before
      · exact user
  | @swap r at_pc pending =>
    refine homed.step (k := k) (fun j other => by simp [other]) ?_ homed.queues
    -- the loop is one of the two before and after the exchange
    refine paired_of_swap (p := .store) (by simp) rfl ?_
    rcases mine.swap_pair (by rw [at_pc]; rfl) with ⟨home, q, next, user⟩ | ⟨user, home⟩
    · rw [pending] at next
      cases next
      exact .inr ⟨by simpa using user, by simp [home]⟩
    · rw [pending] at home
      cases home
      exact .inl ⟨by simp, s.occupyRoutine k, by simp, user⟩
  | store at_pc pending =>
    refine homed.step (goto_others _) ?_ homed.queues
    exact paired_of_swap (p := .load) (by simp) rfl (mine.swap_pair (by rw [at_pc]; rfl))
  | load at_pc =>
    refine homed.step (goto_others _) ?_ homed.queues
    rcases mine.swap_pair (by rw [at_pc]; rfl) with ⟨home, r, left, user⟩ | ⟨user, home⟩
    · refine paired_of_loop (p := .top) (by simp [home]) rfl home (fun q pending => ?_) (by simp)
      cases left.symm.trans pending
      exact user
    · exact paired_of_code (p := .user) (by simp [user]) rfl user home
  | @steal id locked at_pc other inside =>
    have same := stolen_same s k id locked
    obtain ⟨home, left⟩ := mine.inLoop (by rw [at_pc]; rfl)
    refine homed.step (k := k) (fun j other => ?_) ?_ fun j q member => ?_
    · simp [other, same.pc, same.occupy, same.pending]
    · exact paired_of_loop (p := .scan (id + 1)) (by simp) rfl
        (by rw [goto_occupy, same.occupy, home]) (by rw [goto_pending, same.pending]; exact left)
        (by simp)
    · rcases mem_stolen member with before | ⟨-, taken⟩
      · exact homed.queues j q before
      · exact homed.queues id q ((try2stealTask_subset rfl).2 q taken)
  | crash => exact ⟨fun j => (homed.paired j).congr rfl rfl rfl, homed.queues⟩

theorem step_homed {n : Nat} {s t : State} {label : Label} (homed : Homed s)
    (stepped : step n s label = some t) : Homed t := by
  rcases step_spec stepped with ⟨k, -, act⟩ | ⟨-, rfl⟩
  · exact act.homed homed
  · exact ⟨fun k => (homed.paired k).congr rfl rfl rfl, homed.queues⟩

theorem reached_homed {n : Nat} {s : State} (reached : (machine n).Reachable s) : Homed s := by
  refine reached.invariant Homed ?_ fun _ _ _ homed _ stepped => step_homed homed stepped
  rintro _ rfl
  exact initial_homed

/-! ### Loops stay at home -/

theorem Paired.occupy_or {s : State} {k : Nat} (paired : Paired s k) :
    s.occupyRoutine k = .loop k ∨ (s.occupyRoutine k).isProgress = false := by
  cases inside : (s.pc k).inLoop with
  | true => exact .inl (paired.inLoop inside).1
  | false =>
    cases code : (s.pc k).inCode with
    | true => exact .inr (paired.inCode code).1
    | false =>
      rcases paired.inSwap inside code with ⟨home, -⟩ | ⟨user, -⟩
      · exact .inl home
      · exact .inr user

theorem Paired.pending_or {s : State} {k : Nat} (paired : Paired s k) {r : Routine}
    (pending : s.pendingRoutine k = some r) : r = .loop k ∨ r.isProgress = false := by
  cases inside : (s.pc k).inLoop with
  | true => exact .inr ((paired.inLoop inside).2 r pending)
  | false =>
    cases code : (s.pc k).inCode with
    | true =>
      cases (paired.inCode code).2.symm.trans pending
      exact .inl rfl
    | false =>
      rcases paired.inSwap inside code with ⟨-, q, next, user⟩ | ⟨-, home⟩
      · cases next.symm.trans pending
        exact .inr user
      · cases home.symm.trans pending
        exact .inl rfl

/-- The loop of one scheduler is at no other. -/
theorem Paired.loop_away {s : State} {j k : Nat} (paired : Paired s j) (other : j ≠ k) :
    s.occupyRoutine j ≠ .loop k ∧ s.pendingRoutine j ≠ some (.loop k) := by
  constructor
  · intro loop
    rcases paired.occupy_or with home | user
    · rw [loop] at home
      exact other (Routine.loop.inj home).symm
    · rw [loop] at user
      cases user
  · intro loop
    rcases paired.pending_or loop with home | user
    · exact other (Routine.loop.inj home).symm
    · cases user

/-- Where `SwapContext` leads to. -/
theorem Paired.swap_leads {s : State} {k : Nat} (paired : Paired s k) (at_pc : s.pc k = .swap) :
    ∃ t, run s k = some t ∧ t.crashed = s.crashed ∧
      t.pendingRoutine k = some (s.occupyRoutine k) ∧
      ((s.occupyRoutine k).isProgress = false → t.occupyRoutine k = .loop k) ∧
      ((s.occupyRoutine k).isProgress = true → (t.occupyRoutine k).isProgress = false) := by
  rcases paired.swap_pair (by rw [at_pc]; rfl) with ⟨home, r, next, user⟩ | ⟨user, home⟩
  · refine ⟨({ s with
        occupyRoutine := Function.update s.occupyRoutine k r
        pendingRoutine := Function.update s.pendingRoutine k (some (s.occupyRoutine k)) }).goto k
          .store, ?_, rfl, ?_, ?_, ?_⟩
    · simp only [run, at_pc, next]
    · simp
    · simp [home]
    · simp [user]
  · refine ⟨({ s with
        occupyRoutine := Function.update s.occupyRoutine k (.loop k)
        pendingRoutine := Function.update s.pendingRoutine k (some (s.occupyRoutine k)) }).goto k
          .store, ?_, rfl, ?_, ?_, ?_⟩
    · simp only [run, at_pc, home]
    · simp
    · simp
    · simp [user]

/-- In every run of any number of schedulers, in every state: a thread in its loop is occupied by
that loop, the code of a routine runs with the loop of its thread pending, no other thread ever
has that loop, and `SwapContext` finds a routine to go to: the own loop from a routine, and a
routine from the loop. -/
theorem returns_home (n : Nat) (s : State) (reached : (machine n).Reachable s) (k : Nat) :
    ((s.pc k).inLoop = true → s.occupyRoutine k = .loop k) ∧
      ((s.pc k).inCode = true →
        (s.occupyRoutine k).isProgress = false ∧ s.pendingRoutine k = some (.loop k)) ∧
      (∀ j, j ≠ k → s.occupyRoutine j ≠ .loop k ∧ s.pendingRoutine j ≠ some (.loop k)) ∧
      (s.pc k = .swap → ∃ t, run s k = some t ∧ t.crashed = s.crashed ∧
        t.pendingRoutine k = some (s.occupyRoutine k) ∧
        ((s.occupyRoutine k).isProgress = false → t.occupyRoutine k = .loop k) ∧
        ((s.occupyRoutine k).isProgress = true → (t.occupyRoutine k).isProgress = false)) := by
  have homed := reached_homed reached
  refine ⟨fun inside => ((homed.paired k).inLoop inside).1, (homed.paired k).inCode, ?_,
    (homed.paired k).swap_leads⟩
  intro j other
  exact (homed.paired j).loop_away other

/-- Main has been stolen by scheduler 1 and gives that thread back to the loop of scheduler 1. -/
theorem returns_home_stolen :
    ∃ s : State, s.occupyRoutine 1 = .main ∧ s.pc 1 = .user ∧
      s.pendingRoutine 1 = some (.loop 1) := by
  let schedule : List Label :=
    [.register, .run 0, .run 0, .run 0, .run 0, .run 0, .run 0, .call 0 (.resume (.user 0)),
      .run 0, .run 0, .run 0, .run 1, .run 1, .run 1, .run 1, .run 1, .run 1]
  have ran : ((machine 2).exec initial schedule).isSome := rfl
  obtain ⟨s, ran⟩ := Option.isSome_iff_exists.mp ran
  have reached : (machine 2).Reachable s :=
    Transition.Machine.exec_reachable (.start rfl) ran
  have at_code : s.occupyRoutine 1 = .main ∧ s.pc 1 = .user := by
    cases ran
    exact ⟨rfl, rfl⟩
  exact ⟨s, at_code.1, at_code.2,
    ((returns_home 2 s reached 1).2.1 (by rw [at_code.2]; rfl)).2⟩

end BRoutine.Scheduler
