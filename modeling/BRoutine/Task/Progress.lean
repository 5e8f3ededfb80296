import BRoutine.Task.Queue

/-!
# How many steps pushBack and popHead take

`pushBack` starts again when `ItemCount` has fallen below two between its first load and its second,
so others decide how often. Every statement that is left of a call gets a number, and the calls that
may have to start again get four more, which a fall of `ItemCount` pays for.
-/

namespace BRoutine.TwoLock

variable {T I : Type}

/-- The steps that `pushBack` takes from a point on, if `ItemCount` stays. -/
def PushPc.budget (lockHead : Bool) (itemCount : Nat) : PushPc I → Nat
  | .retry => 17
  | .load => 16
  | .lockHead => 15
  -- a call without `HeadMutex` is to start again if the count is less than two
  | .lockTail => if lockHead then 14 else if itemCount < 2 then 19 else 15
  | .check => if lockHead then 13 else if itemCount < 2 then 18 else 14
  | .inc => 12
  | .testHead => 11
  | .testTail => 10
  | .readTail => 9
  | .setNext _ => 8
  | .rereadTail => 7
  | .setPrev _ => 6
  | .setHead | .moveTail => 5
  | .setTail | .clearNext => 4
  | .setOwner => 3
  | .unlockHead => 2
  | .unlockTail => 1

def InnerPc.budget : InnerPc I → Nat
  | .isTail => 11
  | .readP => 10
  | .readN _ | .readPrev => 9
  | .dropOwner _ _ | .setTail _ => 8
  | .setNext _ _ | .rereadPrev => 7
  | .setPrev _ _ | .clearPrevNext _ => 6
  | .clearNext | .clearPrev => 5
  | .dropPrev | .clearOwner => 4

/-- The steps that `popHead` takes from a point on. -/
def PopPc.budget : PopPc I → Nat
  | .load => 22
  | .lockHead => 21
  | .check => 20
  | .lockTail => 19
  | .count => 18
  | .testTail => 17
  | .testHead => 16
  | .dec => 15
  | .readHead => 14
  | .testOwner _ => 13
  | .isHead _ => 12
  | .inner _ at_ => at_.budget
  | .isTail _ => 10
  | .readNext _ => 9
  | .clearPrev _ _ => 8
  | .rereadNext _ | .clearHead _ => 7
  | .setHead _ _ | .clearTail _ => 6
  | .clearNext _ => 5
  | .clearOwner _ => 4
  | .unlockHead _ => 3
  | .unlockTail _ => 2
  | .ret _ => 1

def Pc.budget (itemCount : Nat) : Pc I → Nat
  | .idle => 0
  | .push _ lockHead at_ => at_.budget lockHead itemCount
  | .pop _ at_ => at_.budget

/-- The steps that a fall of the count adds to a call. -/
def Pc.delay : Pc I → Nat
  | .push _ _ _ => 4
  | .idle | .pop _ _ => 0

@[simp] theorem Pc.delay_idle : (.idle : Pc I).delay = 0 := rfl
@[simp] theorem Pc.delay_pop (lockTail : Bool) (at_ : PopPc I) :
    (Pc.pop lockTail at_).delay = 0 := rfl

/-- The steps that `t` has left; nobody moves after a null pointer was dereferenced. -/
def State.budget (s : State T I) (t : T) : Nat :=
  if s.crashed then 0 else (s.pc t).budget s.mem.itemCount

theorem PushPc.budget_pos (lockHead : Bool) (itemCount : Nat) (at_ : PushPc I) :
    0 < at_.budget lockHead itemCount := by
  cases at_ with
  | lockTail | check =>
    simp only [PushPc.budget]
    split_ifs <;> omega
  | _ => simp [PushPc.budget]

theorem InnerPc.budget_pos (at_ : InnerPc I) : 0 < at_.budget := by
  cases at_ <;> simp [InnerPc.budget]

theorem PopPc.budget_pos (at_ : PopPc I) : 0 < at_.budget := by
  cases at_ with
  | inner _ at_ => exact at_.budget_pos
  | _ => simp [PopPc.budget]

variable [DecidableEq T] [DecidableEq I]

/-- `ItemCount` falls in a step of another thread than `t`. -/
def fallsIn (t : T) (s next : State T I) (label : Label T I) : Nat :=
  if label ≠ .run t ∧ next.mem.itemCount < s.mem.itemCount then 1 else 0

/-- How often `ItemCount` falls along a schedule in steps of other threads than `t`. -/
def falls (t : T) (s : State T I) : List (Label T I) → Nat
  | [] => 0
  | label :: rest =>
    match step s label with
    | none => 0
    | some next => fallsIn t s next label + falls t next rest

/-! ### One step -/

section Steps

variable {s next : State T I} {t : T}

omit [DecidableEq I] in
theorem budget_goto (running : s.crashed = false) (p : Pc I) :
    (s.goto t p).budget t = p.budget s.mem.itemCount := by
  simp [State.budget, State.goto, running]

omit [DecidableEq I] in
theorem budget_write (running : s.crashed = false) (m : Mem I) (p : Pc I) :
    (s.write m t p).budget t = p.budget m.itemCount := by
  simp [State.budget, State.write, State.goto, running]

omit [DecidableEq T] [DecidableEq I] in
theorem budget_crash : s.crash.budget t = 0 := by
  simp [State.budget, State.crash]

/-- A step of `pushBack` takes one off, whatever it does to `ItemCount`. -/
theorem pushStep_budget {i : I} {lockHead : Bool} {at_ : PushPc I} (running : s.crashed = false)
    (stepped : pushStep s t i lockHead at_ = some next) :
    next.budget t < at_.budget lockHead s.mem.itemCount := by
  cases at_ with
  | load =>
    cases stepped
    rw [budget_goto running]
    split_ifs <;> simp_all [Pc.budget, PushPc.budget]
    split_ifs <;> omega
  | check =>
    cases stepped
    rw [budget_goto running]
    split_ifs <;> simp_all [Pc.budget, PushPc.budget]
    split_ifs <;> simp_all
  | lockHead =>
    simp only [pushStep] at stepped
    split at stepped
    · cases stepped
      rw [budget_goto (by exact running)]
      simp [Pc.budget, PushPc.budget]
    · cases stepped
  | lockTail =>
    simp only [pushStep] at stepped
    split at stepped
    · cases stepped
      rw [budget_goto (by exact running)]
      simp only [Pc.budget, PushPc.budget]
      split_ifs <;> omega
    · cases stepped
  | setNext tail =>
    cases tail with
    | none =>
      cases stepped
      simp [budget_crash, PushPc.budget]
    | some tail =>
      cases stepped
      simp [budget_write running, Pc.budget, PushPc.budget]
  | testHead | testTail =>
    cases stepped
    rw [budget_goto running]
    split_ifs <;> simp [Pc.budget, PushPc.budget]
  | setOwner =>
    cases stepped
    rw [budget_write running]
    split_ifs <;> simp [Pc.budget, PushPc.budget]
  | readTail | rereadTail =>
    cases stepped
    simp [budget_goto running, Pc.budget, PushPc.budget]
  | inc | setHead | setPrev | clearNext =>
    cases stepped
    simp [budget_write running, Pc.budget, PushPc.budget]
  | setTail | moveTail =>
    cases stepped
    rw [budget_write (by exact running)]
    simp [Pc.budget, PushPc.budget]
  | retry | unlockHead | unlockTail =>
    cases stepped
    rw [budget_goto (by exact running)]
    simp [Pc.budget, PushPc.budget]

/-- A step of `popHead` at an item that is not the head. -/
theorem innerStep_budget {i : I} {lockTail : Bool} {at_ : InnerPc I} (running : s.crashed = false)
    (stepped : innerStep s t lockTail i at_ = some next) : next.budget t < at_.budget := by
  have left := at_.budget_pos
  cases at_ with
  | isTail | setTail =>
    simp only [innerStep] at stepped
    split at stepped
    · cases stepped
      rwa [budget_crash]
    · cases stepped
      first
      | rw [budget_goto running]
        split_ifs <;> simp [Pc.budget, PopPc.budget, InnerPc.budget]
      | rw [budget_write (by exact running)]
        simp [Pc.budget, PopPc.budget, InnerPc.budget]
  | clearPrevNext node | setNext node next =>
    cases node with
    | none =>
      cases stepped
      rwa [budget_crash]
    | some node =>
      cases stepped
      rw [budget_write (by exact running)]
      simp [Pc.budget, PopPc.budget, InnerPc.budget]
  | setPrev prev node =>
    cases node with
    | none =>
      cases stepped
      rwa [budget_crash]
    | some node =>
      cases stepped
      rw [budget_write running]
      simp [Pc.budget, PopPc.budget, InnerPc.budget]
  | readPrev | rereadPrev | readP | readN =>
    cases stepped
    simp [budget_goto running, Pc.budget, PopPc.budget, InnerPc.budget]
  | clearPrev | clearOwner | dropOwner | clearNext | dropPrev =>
    cases stepped
    simp [budget_write running, Pc.budget, PopPc.budget, InnerPc.budget]

/-- A step of `popHead` takes one off. -/
theorem popStep_budget {lockTail : Bool} {at_ : PopPc I} (running : s.crashed = false)
    (stepped : popStep s t lockTail at_ = some next) : next.budget t < at_.budget := by
  have left := at_.budget_pos
  cases at_ with
  | load | check | count | testTail | testHead | testOwner =>
    cases stepped
    rw [budget_goto running]
    split_ifs <;> simp [Pc.budget, PopPc.budget]
  | lockHead | lockTail =>
    simp only [popStep] at stepped
    split at stepped
    · cases stepped
      rw [budget_goto (by exact running)]
      simp [Pc.budget, PopPc.budget]
    · cases stepped
  | readHead =>
    simp only [popStep] at stepped
    split at stepped
    · cases stepped
      simp [budget_goto running, Pc.budget, PopPc.budget]
    · cases stepped
      simp [budget_goto running, Pc.budget, PopPc.budget]
  | isHead | isTail =>
    simp only [popStep] at stepped
    split at stepped
    · cases stepped
      rwa [budget_crash]
    · cases stepped
      rw [budget_goto running]
      split_ifs <;> simp [Pc.budget, PopPc.budget, InnerPc.budget]
  | clearHead | clearTail | setHead =>
    simp only [popStep] at stepped
    split at stepped
    · cases stepped
      rwa [budget_crash]
    · cases stepped
      rw [budget_write (by exact running)]
      simp [Pc.budget, PopPc.budget]
  | clearPrev i node =>
    cases node with
    | none =>
      cases stepped
      rwa [budget_crash]
    | some node =>
      cases stepped
      simp [budget_write running, Pc.budget, PopPc.budget]
  | dec | clearNext | clearOwner =>
    cases stepped
    simp [budget_write running, Pc.budget, PopPc.budget]
  | readNext | rereadNext =>
    cases stepped
    simp [budget_goto running, Pc.budget, PopPc.budget]
  | inner i at_ => exact innerStep_budget running stepped
  | unlockHead result =>
    cases stepped
    rw [budget_goto (by exact running)]
    split_ifs <;> simp [Pc.budget, PopPc.budget]
  | unlockTail result =>
    cases stepped
    rw [budget_goto (by exact running)]
    simp [Pc.budget, PopPc.budget]
  | ret result =>
    cases result with
    | none =>
      cases stepped
      simp [budget_goto running, Pc.budget, PopPc.budget]
    | some i =>
      cases stepped
      rw [budget_goto (by exact running)]
      simp [Pc.budget, PopPc.budget]

/-! ### The steps of the others -/

theorem pushStep_pc {u : T} {i : I} {lockHead : Bool} {at_ : PushPc I} (other : t ≠ u)
    (stepped : pushStep s u i lockHead at_ = some next) : next.pc t = s.pc t := by
  unfold pushStep at stepped
  split at stepped <;> (try split at stepped) <;> cases stepped <;>
    simp [State.goto, State.write, State.crash, other]

theorem innerStep_pc {u : T} {i : I} {lockTail : Bool} {at_ : InnerPc I} (other : t ≠ u)
    (stepped : innerStep s u lockTail i at_ = some next) : next.pc t = s.pc t := by
  unfold innerStep at stepped
  split at stepped <;> (try split at stepped) <;> cases stepped <;>
    simp [State.goto, State.write, State.crash, other]

theorem popStep_pc {u : T} {lockTail : Bool} {at_ : PopPc I} (other : t ≠ u)
    (stepped : popStep s u lockTail at_ = some next) : next.pc t = s.pc t := by
  unfold popStep at stepped
  split at stepped <;> first
    | exact innerStep_pc other stepped
    | (try split at stepped) <;> cases stepped <;>
        simp [State.goto, State.write, State.crash, other]

/-- `t` calls neither operation. -/
def Quiet (t : T) (label : Label T I) : Prop :=
  label ≠ .popHead t ∧ ∀ i, label ≠ .pushBack t i

/-- Only a step of `t` moves it. -/
theorem step_pc {label : Label T I} (quiet : Quiet t label) (other : label ≠ .run t)
    (stepped : step s label = some next) : next.pc t = s.pc t := by
  simp only [step] at stepped
  split at stepped
  · cases stepped
  · cases label with
    | pushBack u i =>
      have away : t ≠ u := fun same => quiet.2 i (by rw [same])
      simp only at stepped
      split at stepped
      · cases stepped
        simp [State.goto, away]
      · cases stepped
    | popHead u =>
      have away : t ≠ u := fun same => quiet.1 (by rw [same])
      simp only at stepped
      split at stepped
      · cases stepped
        simp [State.goto, away]
      · cases stepped
    | run u =>
      have away : t ≠ u := fun same => other (by rw [same])
      simp only at stepped
      split at stepped
      · cases stepped
      · exact pushStep_pc away stepped
      · exact popStep_pc away stepped

omit [DecidableEq T] [DecidableEq I] in
/-- A fall of the count adds no more than that, and a rise adds nothing. -/
theorem Pc.budget_count (p : Pc I) (before after : Nat) :
    p.budget after ≤ p.budget before + p.delay * if after < before then 1 else 0 := by
  cases p with
  | push i lockHead at_ =>
    cases at_ with
    | lockTail | check =>
      simp only [Pc.budget, PushPc.budget, Pc.delay]
      split_ifs <;> omega
    | _ => simp [Pc.budget, PushPc.budget]
  | idle | pop => simp [Pc.budget]

omit [DecidableEq T] [DecidableEq I] in
theorem Pc.delay_le (p : Pc I) : p.delay ≤ 4 := by
  cases p <;> simp [Pc.delay]

theorem innerStep_delay {i : I} {lockTail : Bool} {at_ : InnerPc I} (at_pc : (s.pc t).delay = 0)
    (stepped : innerStep s t lockTail i at_ = some next) : (next.pc t).delay = 0 := by
  unfold innerStep at stepped
  split at stepped <;> (try split at stepped) <;> cases stepped <;>
    simp [State.goto, State.write, State.crash, at_pc]

/-- A call of `popHead` stays one until it returns. -/
theorem popStep_delay {lockTail : Bool} {at_ : PopPc I} (at_pc : (s.pc t).delay = 0)
    (stepped : popStep s t lockTail at_ = some next) : (next.pc t).delay = 0 := by
  unfold popStep at stepped
  split at stepped <;> first
    | exact innerStep_delay at_pc stepped
    | (try split at stepped) <;> cases stepped <;>
        simp [State.goto, State.write, State.crash, at_pc]

/-- A step of `t` takes one off, and one of another thread adds to it if the count falls. -/
theorem step_budget {label : Label T I} (quiet : Quiet t label)
    (stepped : step s label = some next) :
    next.budget t + (if label = .run t then 1 else 0) ≤
        s.budget t + (s.pc t).delay * fallsIn t s next label ∧
      (next.pc t).delay ≤ (s.pc t).delay := by
  have running : s.crashed = false := by
    by_contra crashed
    simp [step, crashed] at stepped
  have here : s.budget t = (s.pc t).budget s.mem.itemCount := by simp [State.budget, running]
  by_cases mine : label = .run t
  · subst mine
    simp only [step, running, Bool.false_eq_true, if_false] at stepped
    rw [if_pos rfl, here]
    split at stepped
    · cases stepped
    next i lockHead at_ at_pc =>
      have less := pushStep_budget running stepped
      rw [at_pc]
      exact ⟨Nat.le_add_right_of_le less, Pc.delay_le _⟩
    next lockTail at_ at_pc =>
      have less := popStep_budget running stepped
      have waits : (s.pc t).delay = 0 := by rw [at_pc, Pc.delay]
      rw [popStep_delay waits stepped, at_pc]
      exact ⟨Nat.le_add_right_of_le less, Nat.zero_le _⟩
  · have still := step_pc quiet mine stepped
    have grows := (s.pc t).budget_count s.mem.itemCount next.mem.itemCount
    have after : next.budget t ≤ (s.pc t).budget next.mem.itemCount := by
      rw [State.budget, still]
      split_ifs <;> omega
    rw [if_neg mine, here, still]
    simp only [fallsIn, ne_eq, mine, not_false_eq_true, true_and]
    exact ⟨after.trans grows, Nat.le_refl _⟩

end Steps

/-! ### Calls -/

theorem falls_cons {s next : State T I} {t : T} {label : Label T I} {rest : List (Label T I)}
    (stepped : step s label = some next) :
    falls t s (label :: rest) = fallsIn t s next label + falls t next rest := by
  rw [falls, stepped]

/-- Along a schedule in which `t` makes no further call. -/
theorem run_budget {s u : State T I} {t : T} {schedule : List (Label T I)}
    (quiet : ∀ label ∈ schedule, Quiet t label) (ran : (machine T I).exec s schedule = some u) :
    u.budget t + schedule.count (.run t) ≤
      s.budget t + (s.pc t).delay * falls t s schedule := by
  -- induction on the schedule from its first step on
  induction schedule generalizing s with
  | nil =>
    cases ran
    simp
  | cons label rest ih =>
    rw [Transition.Machine.exec_cons] at ran
    obtain ⟨next, stepped, ran⟩ := Option.bind_eq_some_iff.mp ran
    obtain ⟨first, shorter⟩ := step_budget (quiet label List.mem_cons_self) stepped
    have later := ih (fun l listed => quiet l (List.mem_cons_of_mem label listed)) ran
    have cheaper := Nat.mul_le_mul_right (falls t next rest) shorter
    have total : (label :: rest).count (.run t) =
        rest.count (.run t) + if label = .run t then 1 else 0 := by simp [List.count_cons]
    rw [falls_cons stepped, Nat.mul_add]
    omega

/-- What a call of `t` has before it. -/
theorem pushBack_budget {s next : State T I} {t : T} {i : I}
    (called : step s (.pushBack t i) = some next) :
    next.budget t = 16 ∧ (next.pc t).delay = 4 := by
  simp only [step] at called
  split at called
  · cases called
  next running =>
    split at called
    · cases called
      rw [budget_goto (by simpa using running)]
      simp [Pc.budget, PushPc.budget, State.goto, Pc.delay]
    · cases called

theorem popHead_budget {s next : State T I} {t : T} (called : step s (.popHead t) = some next) :
    next.budget t = 22 ∧ (next.pc t).delay = 0 := by
  simp only [step] at called
  split at called
  · cases called
  next running =>
    split at called
    · cases called
      rw [budget_goto (by simpa using running)]
      simp [Pc.budget, PopPc.budget, State.goto, Pc.delay]
    · cases called

/-- In every interleaving: a call of `pushBack` takes at most sixteen steps, and four more for every
time that another thread makes `ItemCount` fall meanwhile; a call of `popHead` takes at most
twenty-two, whatever the others do. -/
theorem returns_soon (s u : State T I) (t : T) (schedule : List (Label T I))
    (quiet : ∀ label ∈ schedule, Quiet t label) :
    (∀ i, (machine T I).exec s (.pushBack t i :: schedule) = some u →
      schedule.count (.run t) ≤ 16 + 4 * falls t s (.pushBack t i :: schedule)) ∧
    ((machine T I).exec s (.popHead t :: schedule) = some u → schedule.count (.run t) ≤ 22) := by
  constructor
  · intro i ran
    obtain ⟨next, called, ran⟩ := Option.bind_eq_some_iff.mp ran
    obtain ⟨budget, delay⟩ := pushBack_budget called
    have bound := run_budget quiet ran
    have fall : falls t s (.pushBack t i :: schedule) =
        fallsIn t s next (.pushBack t i) + falls t next schedule := falls_cons called
    rw [budget, delay] at bound
    omega
  · intro ran
    obtain ⟨next, called, ran⟩ := Option.bind_eq_some_iff.mp ran
    obtain ⟨budget, delay⟩ := popHead_budget called
    have bound := run_budget quiet ran
    rw [budget, delay, Nat.zero_mul] at bound
    omega

/-- Two items are linked, one after the other. -/
def twoLinked : List (Label Bool Nat) :=
  [.pushBack true 1] ++ List.replicate 12 (.run true) ++ [.pushBack true 2] ++
    List.replicate 15 (.run true)

/-- After the first load of the `pushBack` one of them is taken out. -/
def takenOut : List (Label Bool Nat) :=
  [.run false, .popHead true] ++ List.replicate 19 (.run true) ++ List.replicate 18 (.run false)

/-- The `pushBack` starts again, once. -/
theorem returns_soon_takenOut : ∃ s u, (machine Bool Nat).exec initial twoLinked = some s ∧
    (machine Bool Nat).exec s (.pushBack false 3 :: takenOut) = some u ∧ u.pc false = .idle ∧
    falls false s (.pushBack false 3 :: takenOut) = 1 ∧
    takenOut.count (.run false) ≤ 16 + 4 * falls false s (.pushBack false 3 :: takenOut) := by
  have all : ((machine Bool Nat).exec initial twoLinked).bind (fun s =>
      ((machine Bool Nat).exec s (.pushBack false 3 :: takenOut)).map fun u =>
        (u.pc false, falls false s (.pushBack false 3 :: takenOut))) = some (.idle, 1) := by
    decide +kernel
  obtain ⟨s, linked, all⟩ := Option.bind_eq_some_iff.mp all
  obtain ⟨u, ran, all⟩ := Option.map_eq_some_iff.mp all
  obtain ⟨idle, once⟩ := Prod.mk.inj all
  have quiet : ∀ label ∈ takenOut, Quiet false label := by
    intro label listed
    have which : label = .run false ∨ label = .popHead true ∨ label = .run true := by
      simp only [takenOut, List.mem_append, List.mem_cons, List.mem_replicate] at listed
      tauto
    rcases which with rfl | rfl | rfl <;> simp [Quiet]
  exact ⟨s, u, linked, ran, idle, once, (returns_soon s u false takenOut quiet).1 3 ran⟩

end BRoutine.TwoLock
