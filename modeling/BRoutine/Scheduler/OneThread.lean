import BRoutine.Scheduler.Context
import BRoutine.Scheduler.Pairing

/-!
# A routine on two threads

Nothing in `SwapContext` asks whether the routine it goes to still runs elsewhere. What decides is
whether the registers that `bSwap` loads have been stored since they were last loaded:
`one_thread_iff` says that no two threads run one routine exactly in the runs in which every load is
such a load.
-/

namespace BRoutine.Scheduler

/-- The load of `bSwap` on the thread `k` reads registers stored since they were last loaded. -/
def loadsStored (s : State) : Label → Prop
  | .run k => s.pc k = .load → s.saved (s.occupyRoutine k) = true
  | .register | .call _ _ | .deal _ _ | .steal _ _ => True

/-- No routine runs, or is being left, on two threads. -/
def OneThread (s : State) : Prop :=
  ∀ r, ∀ j < s.size, ∀ k < s.size, Running s j r → Running s k r → j = k

/-- Exactly the routines on the threads have no stored registers, and each is on one thread. -/
structure Accurate (s : State) : Prop where
  unsaved : ∀ r, s.saved r = false → ∃ k < s.size, Running s k r
  running : ∀ k < s.size, ∀ r, Running s k r → s.saved r = false
  alone : OneThread s
  /-- threads that have not registered are in their loops -/
  waiting : ∀ k, s.size ≤ k → s.pc k = .top ∧ s.occupyRoutine k = .loop k

theorem Running.unique {s : State} {k : Nat} {r q : Routine} (first : Running s k r)
    (second : Running s k q) : r = q := by
  unfold Running at first second
  cases at_pc : s.pc k with
  | store =>
    rw [at_pc] at first second
    exact Option.some.inj (first.symm.trans second)
  | load =>
    rw [at_pc] at first
    cases first
  | _ =>
    rw [at_pc] at first second
    exact first.symm.trans second

theorem initial_accurate : Accurate initial where
  unsaved r unsaved := by
    simp only [initial, ne_eq, decide_not, Bool.not_eq_eq_eq_not, Bool.not_false,
      decide_eq_true_eq] at unsaved
    exact ⟨0, by decide, unsaved.symm⟩
  running k inside r runs := by
    obtain rfl : k = 0 := by simpa [initial] using inside
    obtain rfl : Routine.loop 0 = r := runs
    rfl
  alone r j inside k inside' _ _ := by
    have size : initial.size = 1 := rfl
    omega
  waiting _ _ := ⟨rfl, rfl⟩

section Steps

variable {s t : State} {k : Nat}

/-- The other threads are where they were. -/
def Elsewhere (k : Nat) (s t : State) : Prop :=
  ∀ j, j ≠ k → t.pc j = s.pc j ∧ t.occupyRoutine j = s.occupyRoutine j ∧
    t.pendingRoutine j = s.pendingRoutine j

theorem Elsewhere.running (others : Elsewhere k s t) {j : Nat} (away : j ≠ k) (r : Routine) :
    Running t j r ↔ Running s j r := by
  obtain ⟨pc, occupy, pending⟩ := others j away
  unfold Running
  rw [pc, occupy, pending]

theorem Accurate.waiting_step (accurate : Accurate s) (others : Elsewhere k s t)
    (inside : k < t.size) (size : s.size ≤ t.size) (j : Nat) (outside : t.size ≤ j) :
    t.pc j = .top ∧ t.occupyRoutine j = .loop j := by
  obtain ⟨pc, occupy, -⟩ := others j (by omega)
  rw [pc, occupy]
  exact accurate.waiting j (by omega)

/-- A step that leaves what runs on `k`. -/
theorem Accurate.same (accurate : Accurate s) (others : Elsewhere k s t) (inside : k < s.size)
    (size : t.size = s.size) (saved : t.saved = s.saved)
    (mine : ∀ r, Running t k r ↔ Running s k r) : Accurate t := by
  have runs (j : Nat) (r : Routine) : Running t j r ↔ Running s j r := by
    by_cases here : j = k
    · rw [here, mine]
    · exact others.running here r
  refine ⟨fun r unsaved => ?_, fun j inside r running => ?_, fun r i inside j inside' first
    second => ?_, accurate.waiting_step others (size ▸ inside) size.ge⟩
  · obtain ⟨j, inside, running⟩ := accurate.unsaved r (saved ▸ unsaved)
    exact ⟨j, size ▸ inside, (runs j r).mpr running⟩
  · rw [saved]
    exact accurate.running j (size ▸ inside) r ((runs j r).mp running)
  · exact accurate.alone r i (size ▸ inside) j (size ▸ inside') ((runs i r).mp first)
      ((runs j r).mp second)

/-- The routine that leaves `k` has its registers stored, and nothing runs on `k`. -/
theorem Accurate.leave (accurate : Accurate s) (others : Elsewhere k s t) (inside : k < s.size)
    {q : Routine} (left : Running s k q) (size : t.size = s.size)
    (saved : t.saved = Function.update s.saved q true) (none : ∀ r, ¬ Running t k r) :
    Accurate t := by
  have away (i : Nat) (r : Routine) (running : Running t i r) : i ≠ k := by
    rintro rfl
    exact none r running
  refine ⟨fun r unsaved => ?_, fun j inside' r running => ?_, fun r i inside₁ j inside₂ first
    second => ?_, accurate.waiting_step others (size ▸ inside) size.ge⟩
  · have other : r ≠ q := by
      rintro rfl
      simp [saved] at unsaved
    rw [saved, Function.update_of_ne other] at unsaved
    obtain ⟨j, inside', running⟩ := accurate.unsaved r unsaved
    have elsewhere : j ≠ k := by
      rintro rfl
      exact other (running.unique left)
    exact ⟨j, size ▸ inside', (others.running elsewhere r).mpr running⟩
  · have elsewhere := away j r running
    have before := (others.running elsewhere r).mp running
    -- `q` was on the thread `k` only
    have other : r ≠ q := by
      rintro rfl
      exact elsewhere (accurate.alone r j (size ▸ inside') k inside before left)
    rw [saved, Function.update_of_ne other]
    exact accurate.running j (size ▸ inside') r before
  · exact accurate.alone r i (size ▸ inside₁) j (size ▸ inside₂)
      ((others.running (away i r first) r).mp first)
      ((others.running (away j r second) r).mp second)

/-- A routine with stored registers gets onto a thread on which nothing runs. -/
theorem Accurate.enter (accurate : Accurate s) (others : Elsewhere k s t) (inside : k < t.size)
    {q : Routine} (stored : s.saved q = true) (more : ∀ j, j < t.size ↔ j < s.size ∨ j = k)
    (saved : t.saved = Function.update s.saved q false) (mine : ∀ r, Running t k r ↔ r = q)
    (none : k < s.size → ∀ r, ¬ Running s k r) : Accurate t := by
  -- what runs elsewhere has no stored registers
  have elsewhere (j : Nat) (here : j < t.size) (away : j ≠ k) (r : Routine)
      (running : Running t j r) : j < s.size ∧ Running s j r ∧ s.saved r = false ∧ r ≠ q := by
    have before := (others.running away r).mp running
    have here' := ((more j).mp here).resolve_right away
    have unsaved := accurate.running j here' r before
    refine ⟨here', before, unsaved, ?_⟩
    rintro rfl
    rw [stored] at unsaved
    cases unsaved
  have size : s.size ≤ t.size := by
    by_contra fewer
    have := (more t.size).mpr (.inl (by omega))
    omega
  refine ⟨fun r unsaved => ?_, fun j here r running => ?_, fun r i here j here' first second => ?_,
    accurate.waiting_step others inside size⟩
  · by_cases new : r = q
    · exact ⟨k, inside, (mine r).mpr new⟩
    · rw [saved, Function.update_of_ne new] at unsaved
      obtain ⟨j, here, running⟩ := accurate.unsaved r unsaved
      have away : j ≠ k := by
        rintro rfl
        exact none here r running
      exact ⟨j, (more j).mpr (.inl here), (others.running away r).mpr running⟩
  · by_cases away : j = k
    · subst away
      rw [saved, (mine r).mp running, Function.update_self]
    · obtain ⟨-, -, unsaved, other⟩ := elsewhere j here away r running
      rw [saved, Function.update_of_ne other, unsaved]
  · by_cases left : i = k
    · by_cases right : j = k
      · rw [left, right]
      · subst left
        exact absurd ((mine r).mp first) (elsewhere j here' right r second).2.2.2
    · by_cases right : j = k
      · subst right
        exact absurd ((mine r).mp second) (elsewhere i here left r first).2.2.2
      · obtain ⟨inside₁, running₁, -⟩ := elsewhere i here left r first
        obtain ⟨inside₂, running₂, -⟩ := elsewhere j here' right r second
        exact accurate.alone r i inside₁ j inside₂ running₁ running₂

/-- A step outside `SwapContext`. -/
theorem Accurate.ordinary (accurate : Accurate s) (others : Elsewhere k s t) (inside : k < s.size)
    (before : (s.pc k).ordinary) (after : (t.pc k).ordinary) (size : t.size = s.size)
    (saved : t.saved = s.saved) (occupy : t.occupyRoutine k = s.occupyRoutine k) : Accurate t := by
  refine accurate.same others inside size saved fun r => ?_
  rw [running_of_ordinary after, running_of_ordinary before, occupy]

theorem Act.accurate {label : Label} (accurate : Accurate s) (inside : k < s.size)
    (stored : loadsStored s label) (act : Act s k label t) : Accurate t := by
  cases act with
  | quiet lists polls dealLock stays =>
    obtain ⟨before, after⟩ := stays.ordinary
    exact accurate.ordinary (goto_others _) inside before (by simpa using after) rfl rfl rfl
  | taken at_pc front =>
    have before : (s.pc k).ordinary = true := by
      rcases at_pc with here | ⟨id, here⟩ <;> rw [here] <;> rfl
    exact accurate.ordinary (goto_others _) inside before (by simp [Pc.ordinary]) rfl rfl rfl
  | pend at_pc =>
    exact accurate.ordinary (k := k) (fun j other => by simp [other]) inside (by rw [at_pc]; rfl)
      (by simp [Pc.ordinary]) rfl rfl rfl
  | @addTask r _ _ at_pc =>
    have same := addTask_same s r
    exact accurate.ordinary (k := k)
      (fun j other => by simp [other, same.pc, same.occupy, same.pending]) inside
      (by rw [at_pc]; rfl) (by simp [Pc.ordinary]) same.size same.saved (congrFun same.occupy k)
  | @swap r at_pc pending =>
    -- what is left is now the pending routine
    refine accurate.same (k := k) (fun j other => by simp [other]) inside rfl rfl fun q => ?_
    rw [running_of_ordinary (s := s) (by rw [at_pc]; rfl)]
    simp [Running]
  | @store r at_pc pending =>
    refine accurate.leave (k := k) (fun j other => by simp [other]) inside (q := r) ?_ rfl rfl ?_
    · simp [Running, at_pc, pending]
    · simp [Running]
  | load at_pc =>
    refine accurate.enter (k := k) (fun j other => by simp [other]) inside (stored at_pc) ?_ rfl
      ?_ ?_
    · intro j
      exact ⟨.inl, fun here => here.elim id fun same => same ▸ inside⟩
    · intro r
      rw [running_of_ordinary (by simp only [goto_pc, Function.update_self]; split <;> rfl)]
      exact eq_comm
    · intro _ r
      simp [Running, at_pc]
  | @steal id locked at_pc other here =>
    have same := stolen_same s k id locked
    exact accurate.ordinary (k := k)
      (fun j other => by simp [other, same.pc, same.occupy, same.pending]) inside
      (by rw [at_pc]; rfl) (by simp [Pc.ordinary]) same.size same.saved (congrFun same.occupy k)
  | crash =>
    exact accurate.same (k := k) (fun _ _ => ⟨rfl, rfl, rfl⟩) inside rfl rfl fun _ => Iff.rfl

/-- Another thread registers: its loop is nowhere else. -/
theorem Accurate.register (accurate : Accurate s) (homed : Homed s) :
    Accurate { s with
      size := s.size + 1
      saved := Function.update s.saved (.loop s.size) false } := by
  obtain ⟨at_pc, home⟩ := accurate.waiting s.size le_rfl
  refine accurate.enter (k := s.size) (fun _ _ => ⟨rfl, rfl, rfl⟩) (Nat.lt_succ_self _)
    (q := .loop s.size) ?_ (fun j => Nat.lt_succ_iff_lt_or_eq) rfl (fun r => ?_)
    fun inside => absurd inside (Nat.lt_irrefl _)
  · by_contra unsaved
    obtain ⟨j, inside, running⟩ := accurate.unsaved _ (Bool.not_eq_true _ ▸ unsaved)
    obtain ⟨occupy, pending⟩ := (homed.paired j).loop_away (k := s.size) (by omega)
    unfold Running at running
    split at running
    · exact pending running
    · cases running
    · exact occupy running
  · simp [Running, at_pc, home, eq_comm]

theorem step_accurate {n : Nat} {label : Label} (accurate : Accurate s) (homed : Homed s)
    (stored : loadsStored s label) (stepped : step n s label = some t) : Accurate t := by
  rcases step_spec stepped with ⟨k, inside, act⟩ | ⟨-, rfl⟩
  · exact act.accurate accurate inside stored
  · exact accurate.register homed

/-- A load of registers that are not stored brings a routine onto a second thread. -/
theorem not_oneThread {n : Nat} {label : Label} (accurate : Accurate s)
    (early : ¬ loadsStored s label) (stepped : step n s label = some t) : ¬ OneThread t := by
  cases label with
  | run k =>
    simp only [loadsStored, Classical.not_imp, Bool.not_eq_true] at early
    obtain ⟨at_pc, unsaved⟩ := early
    obtain ⟨j, inside, running⟩ := accurate.unsaved _ unsaved
    have away : j ≠ k := by
      rintro rfl
      simp [Running, at_pc] at running
    simp only [step, run, at_pc] at stepped
    split at stepped
    · cases stepped
    · split at stepped
      next here =>
        cases stepped
        intro alone
        refine away (alone (s.occupyRoutine k) j inside k here ?_ ?_)
        · exact (Elsewhere.running (k := k) (fun j other => by simp [other]) away _).mpr running
        · rw [running_of_ordinary (by simp only [goto_pc, Function.update_self]; split <;> rfl)]
          rfl
      · cases stepped
  | register | call | deal | steal => exact absurd trivial early

end Steps

/-- For any number of schedulers and every order of their steps: no routine ever runs on two threads
exactly when every load of a `bSwap` is of registers that a `bSwap`, or `init`, has stored since
they were last loaded. -/
theorem one_thread_iff (n : Nat) (schedule : List Label) :
    (∀ s, (machine n).Visits initial schedule s → OneThread s) ↔
      ∀ s label, (machine n).Takes initial schedule s label → loadsStored s label := by
  refine Transition.Machine.safe_iff_steps_ok (fun s => Homed s ∧ Accurate s) _ ?_ ?_ ?_
    ⟨initial_homed, initial_accurate⟩ schedule
  · rintro s label t ⟨homed, accurate⟩ stored stepped
    exact ⟨step_homed homed stepped, step_accurate accurate homed stored stepped⟩
  · rintro s ⟨-, accurate⟩
    exact accurate.alone
  · rintro s label t ⟨-, accurate⟩ early stepped
    exact not_oneThread accurate early stepped

end BRoutine.Scheduler
