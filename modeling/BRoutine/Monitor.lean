import BRoutine.Custody
import BRoutine.Simulation

/-!
# Objects behind mutexes

Threads call operations on objects. An operation locks its mutex, runs its statements on the memory
of its object one at a time, unlocks and returns. If no two threads are inside one object under
different mutexes, and the statements alone do what the operation is for, then all threads together
do what a machine does that performs each operation in one step.
-/

namespace Monitor

open Transition Custody

/-- What a statement comes to: a bad access, a further statement, or the result. -/
inductive Outcome (M L R : Type*)
  | crash
  | next (mem : M) (line : L)
  | done (mem : M) (result : R)

/-- The statements of operations on objects. An operation starts where it is `legal`. -/
structure Code (X K O M L R : Type*) where
  object : O → X
  mutex : O → K
  entry : O → L
  legal : M → O → Prop
  statement : M → L → Outcome M L R

/-- Where a thread is. -/
inductive Pc (O L R : Type*)
  | idle
  | calling (o : O)
  | inside (o : O) (line : L)
  | done (o : O) (result : R)
  | returning (o : O) (result : R)

inductive Event (O : Type*)
  | call (o : O)
  | lock
  | statement
  | unlock
  | ret

structure State (T X K O M L R : Type*) where
  mutex : K → Option T
  mem : X → M
  pc : T → Pc O L R
  crashed : Bool

variable {T X K O M L R A : Type*}

namespace Pc

/-- The operation that a thread is inside an object for. -/
def work : Pc O L R → Option O
  | inside o _ | done o _ => some o
  | idle | calling _ | returning _ _ => none

variable [DecidableEq X] [DecidableEq K] (code : Code X K O M L R)

def holds (k : K) : Pc O L R → Bool
  | inside o _ | done o _ => code.mutex o = k
  | idle | calling _ | returning _ _ => false

/-- The thread is inside the object `x`. -/
def within (x : X) : Pc O L R → Bool
  | inside o _ | done o _ => code.object o = x
  | idle | calling _ | returning _ _ => false

end Pc

section Machines

variable [DecidableEq T]

def State.goto (s : State T X K O M L R) (t : T) (pc : Pc O L R) : State T X K O M L R :=
  { s with pc := Function.update s.pc t pc }

@[simp] theorem State.goto_pc (s : State T X K O M L R) (t : T) (pc : Pc O L R) :
    (s.goto t pc).pc = Function.update s.pc t pc := rfl
@[simp] theorem State.goto_mem (s : State T X K O M L R) (t : T) (pc : Pc O L R) :
    (s.goto t pc).mem = s.mem := rfl
@[simp] theorem State.goto_mutex (s : State T X K O M L R) (t : T) (pc : Pc O L R) :
    (s.goto t pc).mutex = s.mutex := rfl
@[simp] theorem State.goto_crashed (s : State T X K O M L R) (t : T) (pc : Pc O L R) :
    (s.goto t pc).crashed = s.crashed := rfl

variable [DecidableEq X] [DecidableEq K]

/-- What the outcome of a statement of `t` makes of the state. -/
def State.take (s : State T X K O M L R) (t : T) (o : O) (x : X) :
    Outcome M L R → State T X K O M L R
  | .crash => { s with crashed := true }
  | .next mem line => { s.goto t (.inside o line) with mem := Function.update s.mem x mem }
  | .done mem result => { s.goto t (.done o result) with mem := Function.update s.mem x mem }

variable (code : Code X K O M L R) [∀ m o, Decidable (code.legal m o)]

def step (s : State T X K O M L R) : T × Event O → Option (State T X K O M L R)
  | (t, event) =>
    if s.crashed then none
    else match event, s.pc t with
      | .call o, .idle => some (s.goto t (.calling o))
      | .lock, .calling o =>
        if s.mutex (code.mutex o) = none ∧ code.legal (s.mem (code.object o)) o then
          some { s.goto t (.inside o (code.entry o)) with
            mutex := Function.update s.mutex (code.mutex o) (some t) }
        else none
      | .statement, .inside o line =>
        some (s.take t o (code.object o) (code.statement (s.mem (code.object o)) line))
      | .unlock, .done o result =>
        some { s.goto t (.returning o result) with
          mutex := Function.update s.mutex (code.mutex o) none }
      | .ret, .returning _ _ => some (s.goto t .idle)
      | _, _ => none

/-- All threads are idle, the mutexes are free, and the memory of every object is `mem`. -/
def start (mem : M) : State T X K O M L R := ⟨fun _ => none, fun _ => mem, fun _ => .idle, false⟩

def machine (mem : M) : Machine (State T X K O M L R) (T × Event O) where
  start := (· = start mem)
  step := step code

/-- Whoever is inside the object that a thread locks is there under the same mutex. -/
def Matched (s : State T X K O M L R) : T × Event O → Prop
  | (t, .lock) => ∀ o u o', s.pc t = .calling o → (s.pc u).work = some o' →
      code.object o = code.object o' → code.mutex o = code.mutex o'
  | _ => True

/-! ### Operations in one step -/

/-- The objects and, for each thread, the operation it calls or returns from. -/
structure Atomic (T X O R A : Type*) where
  object : X → A
  pc : T → Option (O × Option R)

inductive Deed (O : Type*)
  | call (o : O)
  | perform
  | ret

/-- `perform` gives the object after an operation and its result. -/
def atomicStep (perform : A → O → A × R) (s : Atomic T X O R A) :
    T × Deed O → Option (Atomic T X O R A)
  | (t, deed) =>
    match deed, s.pc t with
    | .call o, none => some { s with pc := Function.update s.pc t (some (o, none)) }
    | .perform, some (o, none) =>
      let after := perform (s.object (code.object o)) o
      some { object := Function.update s.object (code.object o) after.1
             pc := Function.update s.pc t (some (o, some after.2)) }
    | .ret, some (_, some _) => some { s with pc := Function.update s.pc t none }
    | _, _ => none

/-- No thread has called, and every object is `first`. -/
def Atomic.start (first : A) : Atomic T X O R A := ⟨fun _ => first, fun _ => none⟩

def atomic (perform : A → O → A × R) (first : A) :
    Machine (Atomic T X O R A) (T × Deed O) where
  start := (· = .start first)
  step := atomicStep code perform

/-- An operation is performed where it unlocks. -/
def deed : T × Event O → Option (T × Deed O)
  | (t, .call o) => some (t, .call o)
  | (_, .lock) | (_, .statement) => none
  | (t, .unlock) => some (t, .perform)
  | (t, .ret) => some (t, .ret)

end Machines

/-! ### The statements alone -/

/-- The statements from `line` on lead from `mem` to `mem'` with the result. -/
inductive Leads (code : Code X K O M L R) (mem' : M) (result : R) : M → L → Prop
  | done {mem : M} {line : L} :
      code.statement mem line = .done mem' result → Leads code mem' result mem line
  | next {mem mem₁ : M} {line line₁ : L} :
      code.statement mem line = .next mem₁ line₁ → Leads code mem' result mem₁ line₁ →
        Leads code mem' result mem line

/-- Alone, every operation leads from a memory that stands for `a` to one that stands for the object
after it, with the result it should have. -/
def Correct (code : Code X K O M L R) (rep : M → A → Prop) (perform : A → O → A × R) : Prop :=
  ∀ mem a o, rep mem a → code.legal mem o →
    ∃ mem', Leads code mem' (perform a o).2 mem (code.entry o) ∧ rep mem' (perform a o).1

/-- The statements run one after another, at most `fuel` of them. -/
def runs (code : Code X K O M L R) : Nat → M → L → Option (M × R)
  | 0, _, _ => none
  | fuel + 1, mem, line =>
    match code.statement mem line with
    | .crash => none
    | .next mem line => runs code fuel mem line
    | .done mem result => some (mem, result)

theorem Leads.of_runs {code : Code X K O M L R} {fuel : Nat} {mem mem' : M} {line : L} {result : R}
    (ran : runs code fuel mem line = some (mem', result)) : Leads code mem' result mem line := by
  induction fuel generalizing mem line with
  | zero => cases ran
  | succ fuel ih =>
    rw [runs] at ran
    split at ran
    · cases ran
    next taken => exact .next taken (ih ran)
    next taken =>
      cases ran
      exact .done taken

/-! ### All threads together -/

/-- What the calls and returns show of a thread. -/
def Pc.seen : Pc O L R → Option (O × Option R)
  | idle => none
  | calling o | inside o _ | done o _ => some (o, none)
  | returning o result => some (o, some result)

/-- What a thread inside an object still does, or has done, is its operation on `a`. -/
def Works (code : Code X K O M L R) (rep : M → A → Prop) (perform : A → O → A × R) (mem : M)
    (a : A) : Pc O L R → Prop
  | .inside o line =>
    ∃ mem', Leads code mem' (perform a o).2 mem line ∧ rep mem' (perform a o).1
  | .done o result => result = (perform a o).2 ∧ rep mem (perform a o).1
  | .idle | .calling _ | .returning _ _ => True

variable [DecidableEq T] [DecidableEq X] [DecidableEq K]

/-- An operation counts as performed from its unlock on. -/
structure Related (code : Code X K O M L R) (rep : M → A → Prop) (perform : A → O → A × R)
    (s : State T X K O M L R) (s' : Atomic T X O R A) : Prop where
  running : s.crashed = false
  seen : ∀ t, s'.pc t = (s.pc t).seen
  owned : ∀ k, Owned (Pc.holds code k) s.pc (s.mutex k)
  alone : ∀ t u x, (s.pc t).within code x = true → (s.pc u).within code x = true → t = u
  quiet : ∀ x, (∀ t, (s.pc t).within code x = false) → rep (s.mem x) (s'.object x)
  working : ∀ t x, (s.pc t).within code x = true →
    Works code rep perform (s.mem x) (s'.object x) (s.pc t)

variable {code : Code X K O M L R} [∀ m o, Decidable (code.legal m o)] {rep : M → A → Prop}
  {perform : A → O → A × R} {s next : State T X K O M L R} {s' : Atomic T X O R A} {t : T}

/-- What a step does, by its event. -/
theorem step_cases {event : Event O} (stepped : step code s (t, event) = some next) :
    (∃ o, event = .call o ∧ s.pc t = .idle ∧ next = s.goto t (.calling o)) ∨
    (∃ o, event = .lock ∧ s.pc t = .calling o ∧ s.mutex (code.mutex o) = none ∧
      code.legal (s.mem (code.object o)) o ∧
      next = { s.goto t (.inside o (code.entry o)) with
        mutex := Function.update s.mutex (code.mutex o) (some t) }) ∨
    (∃ o line, event = .statement ∧ s.pc t = .inside o line ∧
      next = s.take t o (code.object o) (code.statement (s.mem (code.object o)) line)) ∨
    (∃ o result, event = .unlock ∧ s.pc t = .done o result ∧
      next = { s.goto t (.returning o result) with
        mutex := Function.update s.mutex (code.mutex o) none }) ∨
    ∃ o result, event = .ret ∧ s.pc t = .returning o result ∧ next = s.goto t .idle := by
  simp only [step] at stepped
  split at stepped
  · cases stepped
  · split at stepped
    next o idle =>
      cases stepped
      exact .inl ⟨o, rfl, idle, rfl⟩
    next o calling =>
      split at stepped
      next enabled =>
        cases stepped
        exact .inr (.inl ⟨o, rfl, calling, enabled.1, enabled.2, rfl⟩)
      · cases stepped
    next o line inside =>
      cases stepped
      exact .inr (.inr (.inl ⟨o, line, rfl, inside, rfl⟩))
    next o result done =>
      cases stepped
      exact .inr (.inr (.inr (.inl ⟨o, result, rfl, done, rfl⟩)))
    next o result returning =>
      cases stepped
      exact .inr (.inr (.inr (.inr ⟨o, result, rfl, returning, rfl⟩)))
    · cases stepped

namespace Related

omit [∀ m o, Decidable (code.legal m o)]

theorem seen_goto (related : Related code rep perform s s') (pc : Pc O L R) (u : T) :
    Function.update s'.pc t pc.seen u = (Function.update s.pc t pc u).seen := by
  by_cases mine : u = t
  · subst mine
    simp
  · simp [mine, related.seen]

/-- A call or a return: the thread is inside no object before and after. -/
theorem outside (related : Related code rep perform s s') (pc : Pc O L R)
    (holds : ∀ k, pc.holds code k = (s.pc t).holds code k)
    (before : ∀ x, (s.pc t).within code x = false) (after : ∀ x, pc.within code x = false) :
    Related code rep perform (s.goto t pc) { s' with pc := Function.update s'.pc t pc.seen } := by
  have within (x : X) (u : T) :
      (Function.update s.pc t pc u).within code x = (s.pc u).within code x :=
    update_same (f := Pc.within code x) ((after x).trans (before x).symm) u
  refine ⟨related.running, related.seen_goto pc, fun k => (related.owned k).move (holds k), ?_, ?_,
    ?_⟩
  · intro u v x mine yours
    exact related.alone u v x (within x u ▸ mine) (within x v ▸ yours)
  · intro x nobody
    exact related.quiet x fun u => within x u ▸ nobody u
  · intro u x mine
    rw [State.goto_pc] at mine ⊢
    by_cases same : u = t
    · subst same
      rw [Function.update_self, after x] at mine
      cases mine
    · have works := related.working u x (within x u ▸ mine)
      rwa [Function.update_of_ne same]

/-- A step of a thread that is alone with the object `x`, up to what happens to its mutex: it leaves
the object to its own work, or to the others. -/
theorem acts (related : Related code rep perform s s') (pc : Pc O L R) (x : X) (mem : M) (a : A)
    (mutex : K → Option T) (alone : ∀ u, u ≠ t → (s.pc u).within code x = false)
    (before : ∀ y, (s.pc t).within code y = true → y = x)
    (after : ∀ y, pc.within code y = true → y = x)
    (owned : ∀ k, Owned (Pc.holds code k) (Function.update s.pc t pc) (mutex k))
    (works : pc.within code x = true → Works code rep perform mem a pc)
    (rests : pc.within code x = false → rep mem a) :
    Related code rep perform
      { s.goto t pc with mem := Function.update s.mem x mem, mutex := mutex }
      { object := Function.update s'.object x a, pc := Function.update s'.pc t pc.seen } := by
  refine ⟨related.running, related.seen_goto pc, owned, ?_, ?_, ?_⟩
  · intro u v y mine yours
    rw [State.goto_pc] at mine yours
    by_cases first : u = t
    · by_cases second : v = t
      · exact first.trans second.symm
      · -- the others are outside `x`
        rw [first, Function.update_self] at mine
        rw [Function.update_of_ne second, after y mine, alone v second] at yours
        cases yours
    · by_cases second : v = t
      · rw [second, Function.update_self] at yours
        rw [Function.update_of_ne first, after y yours, alone u first] at mine
        cases mine
      · rw [Function.update_of_ne first] at mine
        rw [Function.update_of_ne second] at yours
        exact related.alone u v y mine yours
  · intro y nobody
    have mine := nobody t
    rw [State.goto_pc, Function.update_self] at mine
    by_cases same : y = x
    · subst same
      simpa using rests mine
    · -- nobody was inside another object either
      have empty (u : T) : (s.pc u).within code y = false := by
        by_cases moved : u = t
        · subst moved
          exact Bool.eq_false_iff.mpr fun inside => same (before y inside)
        · have still := nobody u
          rwa [State.goto_pc, Function.update_of_ne moved] at still
      simpa [same] using related.quiet y empty
  · intro u y inside
    rw [State.goto_pc] at inside ⊢
    by_cases moved : u = t
    · subst moved
      rw [Function.update_self] at inside ⊢
      obtain rfl := after y inside
      simpa using works inside
    · rw [Function.update_of_ne moved] at inside ⊢
      have other : y ≠ x := by
        rintro rfl
        rw [alone u moved] at inside
        cases inside
      simpa [other] using related.working u y inside

/-- The thread locks its mutex, with nobody inside the object. -/
theorem lock {o : O} (related : Related code rep perform s s')
    (correct : Correct code rep perform) (calling : s.pc t = .calling o)
    (free : s.mutex (code.mutex o) = none) (legal : code.legal (s.mem (code.object o)) o)
    (nobody : ∀ u, (s.pc u).within code (code.object o) = false) :
    Related code rep perform { s.goto t (.inside o (code.entry o)) with
      mutex := Function.update s.mutex (code.mutex o) (some t) } s' := by
  have owned (k : K) : Owned (Pc.holds code k)
      (Function.update s.pc t (.inside o (code.entry o)))
      (Function.update s.mutex (code.mutex o) (some t) k) := by
    by_cases same : k = code.mutex o
    · subst same
      have owned := related.owned (code.mutex o)
      rw [free] at owned
      rw [Function.update_self]
      exact owned.lock (by simp [Pc.holds])
    · rw [Function.update_of_ne same]
      have other : ¬ code.mutex o = k := fun equal => same equal.symm
      exact (related.owned k).move (by simp [Pc.holds, calling, other])
  have acted := related.acts (t := t) (.inside o (code.entry o)) (code.object o)
    (s.mem (code.object o)) (s'.object (code.object o)) _ (fun u _ => nobody u)
    (by simp [calling, Pc.within]) (by simp [Pc.within, eq_comm]) owned
    (fun _ => correct _ _ o (related.quiet _ nobody) legal) (by simp [Pc.within])
  have seen : s'.pc t = some (o, none) := by rw [related.seen, calling, Pc.seen]
  simpa [Pc.seen, ← seen] using acted

/-- A statement inside an object: it does not go wrong, and leads where the operation leads. -/
theorem statement {o : O} {line : L} (related : Related code rep perform s s')
    (inside : s.pc t = .inside o line) :
    Related code rep perform
      (s.take t o (code.object o) (code.statement (s.mem (code.object o)) line)) s' := by
  have mine : (s.pc t).within code (code.object o) = true := by simp [inside, Pc.within]
  have alone (u : T) (other : u ≠ t) : (s.pc u).within code (code.object o) = false :=
    Bool.eq_false_iff.mpr fun within => other (related.alone u t _ within mine)
  have seen : s'.pc t = some (o, none) := by rw [related.seen, inside, Pc.seen]
  have works := related.working t _ mine
  rw [inside] at works
  obtain ⟨mem', leads, stands⟩ := works
  cases leads with
  | done taken =>
    rw [taken]
    have acted := related.acts (t := t) (.done o (perform (s'.object (code.object o)) o).2)
      (code.object o) mem' (s'.object (code.object o)) s.mutex alone
      (by simp [inside, Pc.within, eq_comm]) (by simp [Pc.within, eq_comm])
      (fun k => (related.owned k).move (by simp [inside, Pc.holds])) (fun _ => ⟨rfl, stands⟩)
      (by simp [Pc.within])
    simpa [Pc.seen, ← seen, State.take] using acted
  | @next _ mem₁ _ line₁ taken rest =>
    rw [taken]
    have acted := related.acts (t := t) (.inside o line₁) (code.object o) mem₁
      (s'.object (code.object o)) s.mutex alone
      (by simp [inside, Pc.within, eq_comm]) (by simp [Pc.within, eq_comm])
      (fun k => (related.owned k).move (by simp [inside, Pc.holds]))
      (fun _ => ⟨mem', rest, stands⟩) (by simp [Pc.within])
    simpa [Pc.seen, ← seen, State.take] using acted

/-- The unlock, with which the operation counts as performed. -/
theorem unlock {o : O} {result : R} (related : Related code rep perform s s')
    (done : s.pc t = .done o result) :
    result = (perform (s'.object (code.object o)) o).2 ∧
    Related code rep perform { s.goto t (.returning o result) with
        mutex := Function.update s.mutex (code.mutex o) none }
      { object := Function.update s'.object (code.object o)
          (perform (s'.object (code.object o)) o).1
        pc := Function.update s'.pc t (some (o, some result)) } := by
  have mine : (s.pc t).within code (code.object o) = true := by simp [done, Pc.within]
  have alone (u : T) (other : u ≠ t) : (s.pc u).within code (code.object o) = false :=
    Bool.eq_false_iff.mpr fun within => other (related.alone u t _ within mine)
  have works := related.working t _ mine
  rw [done] at works
  have owned (k : K) : Owned (Pc.holds code k) (Function.update s.pc t (.returning o result))
      (Function.update s.mutex (code.mutex o) none k) := by
    by_cases same : k = code.mutex o
    · subst same
      rw [Function.update_self]
      exact (related.owned _).unlock (by simp [done, Pc.holds]) rfl
    · rw [Function.update_of_ne same]
      have other : ¬ code.mutex o = k := fun equal => same equal.symm
      exact (related.owned k).move (by simp [Pc.holds, done, other])
  have acted := related.acts (t := t) (.returning o result) (code.object o)
    (s.mem (code.object o)) (perform (s'.object (code.object o)) o).1 _ alone
    (by simp [done, Pc.within, eq_comm]) (by simp [Pc.within]) owned (by simp [Pc.within])
    (fun _ => works.2)
  exact ⟨works.1, by simpa [Pc.seen] using acted⟩

omit [DecidableEq T] in
/-- Nobody is inside an object under a mutex that is free. -/
theorem alone_of_free {o : O} (related : Related code rep perform s s')
    (matched : ∀ u o', (s.pc u).work = some o' → code.object o = code.object o' →
      code.mutex o = code.mutex o') (free : s.mutex (code.mutex o) = none) (u : T) :
    (s.pc u).within code (code.object o) = false := by
  have idle : (s.pc u).holds code (code.mutex o) = false := by
    refine Bool.eq_false_iff.mpr fun holds => ?_
    have owned := (related.owned _ u).mpr holds
    rw [free] at owned
    cases owned
  have same (o' : O) (work : (s.pc u).work = some o') (here : code.object o' = code.object o) :
      code.mutex o' = code.mutex o := (matched u o' work here.symm).symm
  cases at_pc : s.pc u with
  | inside o' line | done o' result =>
    have other : code.object o' ≠ code.object o := fun here => by
      simp [at_pc, Pc.holds, same o' (by rw [at_pc, Pc.work]) here] at idle
    simp [Pc.within, other]
  | idle | calling o' | returning o' result => rfl

end Related

/-- If the operations are correct alone, then what threads do that meet in an object under one mutex
only is what threads do that perform each operation in one step, when it unlocks. -/
theorem follows (correct : Correct code rep perform) (mem : M) (first : A) :
    (machine (T := T) code mem).Follows (atomic code perform first) (Matched code)
      (fun _ label => (deed label).toList) (Related code rep perform) := by
  rintro s s' ⟨t, event⟩ next related matched stepped
  rcases step_cases stepped with ⟨o, rfl, idle, rfl⟩ | ⟨o, rfl, calling, free, legal, rfl⟩ |
    ⟨o, line, rfl, inside, rfl⟩ | ⟨o, result, rfl, done, rfl⟩ | ⟨o, result, rfl, returning, rfl⟩
  · have seen : s'.pc t = none := by rw [related.seen, idle, Pc.seen]
    refine ⟨_, ?_, related.outside (.calling o) (by simp [idle, Pc.holds])
      (by simp [idle, Pc.within]) (by simp [Pc.within])⟩
    simp [deed, Machine.exec, atomic, atomicStep, seen, Pc.seen]
  · have nobody := related.alone_of_free (fun u o' => matched o u o' calling) free
    exact ⟨s', rfl, related.lock correct calling free legal nobody⟩
  · exact ⟨s', rfl, related.statement inside⟩
  · have seen : s'.pc t = some (o, none) := by rw [related.seen, done, Pc.seen]
    obtain ⟨rfl, unlocked⟩ := related.unlock done
    refine ⟨_, ?_, unlocked⟩
    simp [deed, Machine.exec, atomic, atomicStep, seen]
  · have seen : s'.pc t = some (o, some result) := by rw [related.seen, returning, Pc.seen]
    refine ⟨_, ?_, related.outside .idle (by simp [returning, Pc.holds])
      (by simp [returning, Pc.within]) (by simp [Pc.within])⟩
    simp [deed, Machine.exec, atomic, atomicStep, seen, Pc.seen]

omit [DecidableEq T] [∀ m o, Decidable (code.legal m o)] in
theorem start_related {mem : M} {first : A} (stands : rep mem first) :
    Related code rep perform (start mem : State T X K O M L R) (.start first) where
  running := rfl
  seen _ := rfl
  owned k t := by simp [start, Pc.holds]
  alone t u x inside := by simp [start, Pc.within] at inside
  quiet x _ := stands
  working t x inside := by simp [start, Pc.within] at inside

/-- Whoever holds a mutex can go on, and does not go wrong. -/
theorem Related.holder_goes_on (related : Related code rep perform s s') {k : K}
    (held : s.mutex k = some t) :
    ∃ event next, step code s (t, event) = some next ∧ next.crashed = false := by
  have holds := (related.owned k t).mp held
  cases at_pc : s.pc t with
  | inside o line =>
    refine ⟨.statement, _, ?_, (related.statement at_pc).running⟩
    simp [step, related.running, at_pc]
  | done o result =>
    refine ⟨.unlock, _, ?_, (related.unlock at_pc).2.running⟩
    simp [step, related.running, at_pc]
  | idle | calling o | returning o result => simp [at_pc, Pc.holds] at holds

/-- Along a schedule with every object under one mutex at a time, operations in one step go where
the schedule goes. -/
theorem exec_related (correct : Correct code rep perform) {mem : M} {first : A}
    (stands : rep mem first) {schedule : List (T × Event O)}
    (matched : ∀ u label, (machine code mem).Takes (start mem) schedule u label →
      Matched code u label)
    (ran : (machine code mem).exec (start mem) schedule = some s) :
    ∃ s', (atomic code perform first).exec (.start first) (schedule.filterMap deed) = some s' ∧
      Related code rep perform s s' := by
  have followed := (follows correct mem first).exec (start_related stands) matched ran
  rwa [Machine.shown_eq_filterMap ran] at followed

omit [DecidableEq T] [DecidableEq X] [DecidableEq K] [∀ m o, Decidable (code.legal m o)] in
/-- Where each object has one mutex, every step is such a step. -/
theorem matched_of_one (one : ∀ o o', code.object o = code.object o' → code.mutex o = code.mutex o')
    (s : State T X K O M L R) (label : T × Event O) : Matched code s label := by
  obtain ⟨t, event⟩ := label
  cases event with
  | lock => exact fun o u o' _ _ same => one o o' same
  | call o | statement | unlock | ret => trivial

end Monitor
