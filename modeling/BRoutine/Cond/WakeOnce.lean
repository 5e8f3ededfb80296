import Mathlib.Data.List.Nodup
import BRoutine.Cond.TimeWait

/-!
# One wake-up per timeWait

A call of `timeWait` has two entries that can wake it and takes back only one of them: the timer
task, and only when it was not the timer that fired. A call that ends by a signal before its
timer fires leaves nothing behind. `wakesOnce_iff` shows that every other ending breaks the
property.
-/

namespace BRoutine.BCond.TimeWait

variable {R : Type} [DecidableEq R]

/-- No call was handed to `AddTask` twice, a returned call that was signalled says so, and a
returned call has left no entry. -/
structure WakesOnce (s : State R) : Prop where
  once : ∀ c, (s.call c).puts ≤ 1
  reports : ∀ c v, (s.call c).returned = some v → (s.call c).signalled = true → v = 1
  clean : ∀ c v, (s.call c).returned = some v →
    c ∉ s.list ∧ (∀ index, ∀ task ∈ s.timer.tasks index, task.id ≠ c) ∧ c ∉ s.ready

/-- No step combines the two wake-ups of a call: a signal pops no entry whose timer has fired, a
merge takes no task whose entry a signal has popped, and no call is resumed after its timer has
fired. -/
def BeforeTimeout (s : State R) : Label R → Prop
  | .timeWait _ _ => True
  | .signalOnce => ∀ c, s.list.head? = some c → (s.call c).isTimeout = 0
  | .signalAll => ∀ c ∈ s.list, (s.call c).isTimeout = 0
  | .merge now => ∀ index, s.timer.bucketPosNow < index → index ≤ s.timer.targetPos now →
      ∀ task ∈ s.timer.tasks index, (s.call task.id).signalled = false
  | .resume => ∀ c r c', s.ready.head? = some c → (s.call c).routine = some r →
      s.pc r = .waiting c' → (s.call c').isTimeout = 0
  | .relock _ => True

/-! ### The stages of a call -/

/-- How far a call has come, when each step is taken before the timeout. -/
inductive Stage where
  | fresh
  | waiting
  | signalled
  | fired
  | relocking
  | returned
  deriving DecidableEq

/-- How many entries of the call are in the condition's list. -/
def Stage.listed : Stage → Nat
  | .waiting | .fired => 1
  | _ => 0

/-- Whether the timer task of the call is in the wheel. -/
def Stage.timed : Stage → Bool
  | .waiting | .signalled => true
  | _ => false

/-- How many tasks of the call are in the ready queue. -/
def Stage.queued : Stage → Nat
  | .signalled | .fired => 1
  | _ => 0

def Stage.call (routine : Option R) : Stage → Call R
  | .fresh => ⟨none, 0, 0, false, none⟩
  | .waiting => ⟨routine, 0, 0, false, none⟩
  | .signalled => ⟨routine, 0, 1, true, none⟩
  | .fired => ⟨routine, 1, 1, false, none⟩
  | .relocking => ⟨routine, 0, 1, true, none⟩
  | .returned => ⟨routine, 0, 1, true, some 1⟩

/-- Where the routine of the call stands. -/
def Stage.pc (c : Nat) : Stage → Pc
  | .waiting | .signalled | .fired => .waiting c
  | .relocking => .relocking c
  | _ => .outside

/-- The call `c` is in the given stage, and its entries are where the stage says. -/
structure At (s : State R) (c : Nat) (stage : Stage) : Prop where
  listed : s.list.count c = stage.listed
  timed : (s.timer.owner c).isSome = stage.timed
  queued : s.ready.count c = stage.queued
  call : s.call c = stage.call (s.call c).routine
  made : stage ≠ .fresh → (s.call c).routine.isSome
  place : ∀ r p, p = .waiting c ∨ p = .relocking c →
    (s.pc r = p ↔ (s.call c).routine = some r ∧ stage.pc c = p)

/-- Every call is in one of the stages. -/
structure Staged (s : State R) : Prop where
  stage : ∀ c, ∃ stage, At s c stage
  fresh : ∀ c, s.next ≤ c → (s.call c).routine = none
  linked : s.timer.Linked
  inside : s.timer.bucketPosNow < s.timer.taskItemBucketSize

omit [DecidableEq R]

theorem initial_staged (now : Reading) : Staged (initial now : State R) where
  stage c := by
    refine ⟨.fresh, rfl, rfl, rfl, rfl, fun made => absurd rfl made, ?_⟩
    rintro r p (rfl | rfl) <;> simp [initial, Stage.pc]
  fresh _ _ := rfl
  linked := BEpTimer.new_linked now
  inside := by simp [initial, BEpTimer.new, timeWaitSeconds]

variable {s t : State R} {c : Nat} {stage : Stage}

/-- A call that a step does not touch stays in its stage. -/
theorem At.frame (here : At s c stage) (listed : t.list.count c = s.list.count c)
    (timed : t.timer.owner c = s.timer.owner c) (queued : t.ready.count c = s.ready.count c)
    (call : t.call c = s.call c)
    (place : ∀ r p, p = .waiting c ∨ p = .relocking c → (t.pc r = p ↔ s.pc r = p)) :
    At t c stage := by
  refine ⟨?_, ?_, ?_, ?_, ?_, ?_⟩
  · rw [listed, here.listed]
  · rw [timed, here.timed]
  · rw [queued, here.queued]
  · rw [call, ← here.call]
  · rw [call]; exact here.made
  · intro r p own
    rw [place r p own, here.place r p own, call]

theorem At.fired_of (here : At s c stage) (fired : (s.call c).isTimeout ≠ 0) :
    stage = .fired := by
  have := congrArg Call.isTimeout here.call
  cases stage <;> first | rfl | exact absurd this fired

theorem At.signalled_eq (here : At s c stage) :
    (s.call c).signalled = (stage.call (s.call c).routine).signalled :=
  congrArg Call.signalled here.call

theorem At.puts_eq (here : At s c stage) :
    (s.call c).puts = (stage.call (s.call c).routine).puts :=
  congrArg Call.puts here.call

theorem At.mem_list (here : At s c stage) (member : c ∈ s.list) :
    stage = .waiting ∨ stage = .fired := by
  have := List.count_pos_iff.mpr member
  rw [here.listed] at this
  cases stage <;> simp_all [Stage.listed]

theorem At.mem_ready (here : At s c stage) (member : c ∈ s.ready) :
    stage = .signalled ∨ stage = .fired := by
  have := List.count_pos_iff.mpr member
  rw [here.queued] at this
  cases stage <;> simp_all [Stage.queued]

theorem At.registered (here : At s c stage) (owned : s.timer.owner c ≠ none) :
    stage = .waiting ∨ stage = .signalled := by
  have timed := here.timed
  rw [Option.isSome_iff_ne_none.mpr owned] at timed
  cases stage <;> simp_all [Stage.timed]

theorem Staged.wakesOnce (staged : Staged s) : WakesOnce s := by
  constructor
  · intro c
    obtain ⟨stage, here⟩ := staged.stage c
    rw [here.puts_eq]
    cases stage <;> simp [Stage.call]
  · intro c v returned signalled
    obtain ⟨stage, here⟩ := staged.stage c
    rw [here.call] at returned
    cases stage <;> simp_all [Stage.call]
  · intro c v returned
    obtain ⟨stage, here⟩ := staged.stage c
    rw [here.call] at returned
    -- a call that has returned is in the stage `returned`
    cases stage with
    | returned =>
      refine ⟨List.count_eq_zero.mp here.listed, ?_, List.count_eq_zero.mp here.queued⟩
      rintro index task member rfl
      have owned := (staged.linked.owner task.id index).mpr (List.mem_map_of_mem member)
      have timed := here.timed
      rw [owned] at timed
      cases timed
    | _ => simp [Stage.call] at returned

/-! ### The two wake-ups -/

/-- A waiting call whose task one of the two wake-ups hands to `AddTask`. -/
theorem At.wake {cs : List Nat} {f : Call R → Call R} {woken : Stage}
    (here : At s c .waiting) (added : Added s cs f t) (once : cs.count c = 1)
    (queued : woken.queued = 1) (place : woken.pc c = .waiting c)
    (call : ∀ routine, (Stage.waiting.call routine).added f 1 = woken.call routine)
    (keeps : ∀ routine, (woken.call routine).routine = (routine : Option R))
    (listed : t.list.count c = woken.listed)
    (timed : (t.timer.owner c).isSome = woken.timed) : At t c woken := by
  have after : t.call c = woken.call (s.call c).routine := by
    rw [added.call, once, here.call, call]
    rfl
  have routine : (t.call c).routine = (s.call c).routine := by rw [after, keeps]
  refine ⟨listed, timed, ?_, ?_, ?_, ?_⟩
  · rw [added.ready, List.count_append, here.queued, once, queued]
    rfl
  · rw [routine, after]
  · intro _
    rw [routine]
    exact here.made (by decide)
  · intro r p own
    rw [added.pc, here.place r p own, routine, place]
    rfl

/-- A call that a loop over `cs` passes by. -/
theorem At.pass {cs : List Nat} {f : Call R → Call R} (here : At s c stage)
    (added : Added s cs f t) (absent : c ∉ cs) (listed : t.list.count c = s.list.count c)
    (timed : t.timer.owner c = s.timer.owner c) : At t c stage := by
  -- the loop adds nothing of this call
  have none : cs.count c = 0 := List.count_eq_zero.mpr absent
  refine here.frame listed timed ?_ ?_ ?_
  · rw [added.ready, List.count_append, none, Nat.add_zero]
  · rw [added.call, none]
    rfl
  · intro r p _
    rw [added.pc]

/-- A signal that pops the entries `cs`, none of whose timers has fired. -/
theorem Staged.signal {cs : List Nat} (staged : Staged s) (popped : s.list = cs ++ t.list)
    (timer : t.timer = s.timer) (added : Added s cs Call.signal t)
    (early : ∀ c ∈ cs, (s.call c).isTimeout = 0) : Staged t := by
  refine ⟨?_, added.fresh (fun _ => rfl) staged.fresh, ?_, ?_⟩
  · intro c
    obtain ⟨stage, here⟩ := staged.stage c
    have counts : cs.count c + t.list.count c = stage.listed := by
      rw [← List.count_append, ← popped, here.listed]
    -- a popped entry goes one stage on, and the others stay
    by_cases member : c ∈ cs
    · have waiting : stage = .waiting := by
        apply (here.mem_list (by rw [popped]; exact List.mem_append_left _ member)).resolve_right
        -- a call whose timer has fired would say so, against the hypothesis
        rintro rfl
        have := congrArg Call.isTimeout here.call
        rw [early c member] at this
        cases this
      subst waiting
      have positive := List.count_pos_iff.mpr member
      simp only [Stage.listed] at counts
      refine ⟨.signalled, here.wake added (by omega) rfl rfl (fun _ => rfl) (fun _ => rfl) ?_ ?_⟩
      · simp only [Stage.listed]
        omega
      · rw [timer]; exact here.timed
    · refine ⟨stage, here.pass added member ?_ (by rw [timer])⟩
      have := List.count_eq_zero.mpr member
      rw [here.listed]
      omega
  · rw [timer]; exact staged.linked
  · rw [timer]; exact staged.inside

/-- A merge that takes out the tasks `moved`, none of whose entries a signal has popped. -/
theorem Staged.fire {moved : List Nat} (staged : Staged s)
    (taken : s.timer.TakenOut moved t.timer) (list : t.list = s.list)
    (inside : t.timer.bucketPosNow < t.timer.taskItemBucketSize)
    (added : Added s moved Call.condTimeOutCallback t)
    (early : ∀ c ∈ moved, (s.call c).signalled = false) : Staged t := by
  refine ⟨?_, added.fresh (fun _ => rfl) staged.fresh, taken.linked, inside⟩
  intro c
  obtain ⟨stage, here⟩ := staged.stage c
  have owner := taken.owner c
  -- a task taken out goes one stage on, and the others stay
  by_cases member : c ∈ moved
  · have waiting : stage = .waiting := by
      apply (here.registered (taken.registered c member)).resolve_right
      -- a signalled call would say so, against the hypothesis
      rintro rfl
      have := here.signalled_eq
      rw [early c member] at this
      cases this
    subst waiting
    have once : moved.count c = 1 := List.count_eq_one_of_mem taken.once member
    rw [if_pos member] at owner
    refine ⟨.fired, here.wake added once rfl rfl (fun _ => rfl) (fun _ => rfl) ?_ ?_⟩
    · rw [list]; exact here.listed
    · rw [owner]; rfl
  · rw [if_neg member] at owner
    exact ⟨stage, here.pass added member (by rw [list]) owner⟩

/-! ### The steps of the waiting routine -/

section Steps
variable [DecidableEq R]

theorem Staged.timeWait {r : R} (staged : Staged s) (outside : s.pc r = .outside)
    (timeoutMs : BitVec 32) : Staged (timeWait s r timeoutMs) := by
  obtain ⟨stage, here⟩ := staged.stage s.next
  have unmade := staged.fresh s.next (Nat.le_refl _)
  have fresh : stage = .fresh := by
    -- no step has touched a call that is not made yet
    by_contra made
    simpa [unmade] using here.made made
  subst fresh
  have free : s.timer.owner s.next = none := by simpa [Stage.timed] using here.timed
  have pc : (TimeWait.timeWait s r timeoutMs).pc = Function.update s.pc r (.waiting s.next) := rfl
  have call : (TimeWait.timeWait s r timeoutMs).call =
      Function.update s.call s.next { s.call s.next with routine := some r } := rfl
  have list : (TimeWait.timeWait s r timeoutMs).list = s.list ++ [s.next] := rfl
  have owner : (TimeWait.timeWait s r timeoutMs).timer.owner = Function.update s.timer.owner s.next
      (some (s.timer.getBucket (toUnsigned timeoutMs))) := rfl
  refine ⟨?_, ?_, staged.linked.register free _, staged.inside⟩
  · intro c
    by_cases same : c = s.next
    · subst same
      refine ⟨.waiting, ?_, ?_, here.queued, ?_, ?_, ?_⟩
      · rw [list, List.count_append, here.listed, List.count_singleton_self]
        rfl
      · rw [owner, Function.update_self]
        rfl
      · rw [call, Function.update_self, here.call]
        rfl
      · intro _
        rw [call, Function.update_self]
        rfl
      · intro q p own
        have nobody := here.place q p own
        rw [pc, call, Function.update_self]
        -- nobody was in the fresh call, and only `r` enters it
        by_cases self : q = r
        · subst self
          simp [Stage.pc]
        · have ne : r ≠ q := fun eq => self eq.symm
          rw [Function.update_of_ne self, nobody, unmade]
          simp [ne]
    · obtain ⟨stage, here⟩ := staged.stage c
      have other : s.next ≠ c := fun eq => same eq.symm
      refine ⟨stage, here.frame ?_ ?_ rfl ?_ ?_⟩
      · rw [list, List.count_append, List.count_singleton]
        simp [other]
      · rw [owner, Function.update_of_ne same]
      · rw [call, Function.update_of_ne same]
      · intro q p own
        rw [pc]
        apply update_pc_iff
        · rw [outside]
          rcases own with rfl | rfl <;> simp
        · rcases own with rfl | rfl <;> simp [other]
  · intro c new
    have newer : s.next + 1 ≤ c := new
    rw [call, Function.update_of_ne (by omega)]
    exact staged.fresh c (by omega)

/-- A signalled call goes on to its `lock` and takes its task out of the wheel. -/
theorem Staged.resume {rest : List Nat} {r : R} (staged : Staged s)
    (front : s.ready = c :: rest) (routine : (s.call c).routine = some r)
    (early : ∀ c', s.pc r = .waiting c' → (s.call c').isTimeout = 0)
    (returned : goOn { s with ready := rest } r = some t) : Staged t := by
  obtain ⟨stage, here⟩ := staged.stage c
  have queued := here.mem_ready (by rw [front]; exact List.mem_cons_self)
  have at_pc : s.pc r = .waiting c := by
    rw [here.place r _ (.inl rfl)]
    rcases queued with rfl | rfl <;> exact ⟨routine, rfl⟩
  -- a fired call is excluded: it would not go on to its lock
  have signalled : stage = .signalled := by
    apply queued.resolve_right
    rintro rfl
    have := congrArg Call.isTimeout here.call
    rw [early c at_pc] at this
    cases this
  subst signalled
  simp only [goOn, at_pc, early c at_pc, if_true] at returned
  obtain ⟨timer, removed, rfl⟩ := Option.map_eq_some_iff.mp returned
  have owner := BEpTimer.removeSelfSave_owner removed
  have positions := BEpTimer.removeSelfSave_pos removed
  refine ⟨?_, staged.fresh, staged.linked.removeSelfSave removed, ?_⟩
  · intro c'
    by_cases same : c' = c
    · subst same
      have count := here.queued
      rw [front, List.count_cons_self] at count
      refine ⟨.relocking, here.listed, ?_, Nat.succ.inj count, here.call, ?_, ?_⟩
      · simp [owner, Stage.timed]
      · intro _
        exact here.made (by decide)
      · intro q p own
        have before := here.place q p own
        simp only [goto_pc, goto_call]
        by_cases self : q = r
        · subst self
          simp [routine, Stage.pc]
        · have ne : r ≠ q := fun eq => self eq.symm
          rw [Function.update_of_ne self, before, routine]
          simp [ne]
    · obtain ⟨stage, there⟩ := staged.stage c'
      have other : c ≠ c' := fun eq => same eq.symm
      refine ⟨stage, there.frame rfl ?_ ?_ rfl ?_⟩
      · rw [goto_timer, owner, Function.update_of_ne same]
      · simp [front, other]
      · intro q p own
        rw [goto_pc]
        apply update_pc_iff
        · rw [at_pc]
          rcases own with rfl | rfl <;> simp [other]
        · rcases own with rfl | rfl <;> simp [other]
  · rw [goto_timer, positions.1, positions.2]
    exact staged.inside

theorem Staged.relock {r : R} (staged : Staged s) (at_pc : s.pc r = .relocking c) :
    Staged ((s.modify c fun call => { call with returned := some 1 }).goto r .outside) := by
  obtain ⟨stage, here⟩ := staged.stage c
  obtain ⟨routine, place⟩ := (here.place r _ (.inr rfl)).mp at_pc
  have relocking : stage = .relocking := by
    -- of the stages only this one has its routine at the lock
    cases stage <;> simp_all [Stage.pc]
  subst relocking
  refine ⟨?_, ?_, staged.linked, staged.inside⟩
  · intro c'
    by_cases same : c' = c
    · subst same
      refine ⟨.returned, here.listed, here.timed, here.queued, ?_, ?_, ?_⟩
      · rw [goto_call, modify_call, Function.update_self, here.call]
        rfl
      · intro _
        rw [goto_call, modify_call, Function.update_self]
        exact here.made (by decide)
      · intro q p own
        have before := here.place q p own
        simp only [goto_pc, goto_call, modify_call, modify_pc, Function.update_self]
        by_cases self : q = r
        · subst self
          rcases own with rfl | rfl <;> simp [Stage.pc]
        · have ne : r ≠ q := fun eq => self eq.symm
          rw [Function.update_of_ne self, before, routine]
          simp [ne]
    · obtain ⟨stage, there⟩ := staged.stage c'
      have other : c ≠ c' := fun eq => same eq.symm
      refine ⟨stage, there.frame rfl rfl rfl ?_ ?_⟩
      · rw [goto_call, modify_call, Function.update_of_ne same]
      · intro q p own
        rw [goto_pc, modify_pc]
        apply update_pc_iff
        · rw [at_pc]
          rcases own with rfl | rfl <;> simp [other]
        · rcases own with rfl | rfl <;> simp
  · intro c' new
    have old := staged.fresh c' new
    have ne : c' ≠ c := by
      rintro rfl
      rw [routine] at old
      cases old
    rw [goto_call, modify_call, Function.update_of_ne ne]
    exact old

/-! ### Runs -/

/-- What a merge of `Deal` does to the calls. -/
theorem merge_added {now : Reading} (linked : s.timer.Linked)
    (inside : s.timer.bucketPosNow < s.timer.taskItemBucketSize)
    (stepped : step s (.merge now) = some t) :
    ∃ moved, s.timer.TakenOut moved t.timer ∧ t.list = s.list ∧
      t.timer.bucketPosNow < t.timer.taskItemBucketSize ∧
      Added s moved Call.condTimeOutCallback t ∧
      ∀ c, c ∈ moved ↔ ∃ index, s.timer.bucketPosNow < index ∧
        index ≤ s.timer.targetPos now ∧ ∃ task ∈ s.timer.tasks index, task.id = c := by
  obtain ⟨⟨timer, result⟩, ran, ended⟩ := Option.map_eq_some_iff.mp stepped
  have merges : s.timer.Merges now timer result := ⟨_, ran⟩
  obtain ⟨taken, counted⟩ := linked.merge merges
  have drained := merges.merged inside
  obtain ⟨list, after, added⟩ := dealLoop_added result.popAll { s with timer := timer }
  rw [show dealLoop result.popAll { s with timer := timer } = t from ended] at list after added
  rw [TaskItemsList.popAll_eq counted] at added
  refine ⟨BEpTimer.ids result, ?_, list, ?_, ⟨added.ready, added.pc, added.next, added.call⟩,
    drained.mem_ids⟩
  · rw [after]; exact taken
  · rw [after, drained.pos, drained.size]
    exact Nat.mod_lt _ (by omega)

theorem Staged.step {label : Label R} (staged : Staged s) (early : BeforeTimeout s label)
    (stepped : step s label = some t) : Staged t := by
  cases label with
  | timeWait r timeoutMs =>
    simp only [TimeWait.step] at stepped
    split at stepped
    next outside => cases stepped; exact staged.timeWait outside timeoutMs
    · cases stepped
  | signalOnce =>
    simp only [TimeWait.step] at stepped
    split at stepped
    · cases stepped
    next c rest front =>
      cases stepped
      -- one signal is a signal to the front of the list
      have popped : s.list = [c] ++ rest := front
      have added := (Added.nil (({ s with list := rest } : State R).addTask c Call.signal)
        Call.signal).cons fun _ => rfl
      refine staged.signal popped rfl ⟨added.ready, added.pc, added.next, added.call⟩ ?_
      intro c' member
      rw [List.mem_singleton.mp member]
      exact early c (by rw [front]; rfl)
  | signalAll =>
    simp only [TimeWait.step] at stepped
    cases stepped
    obtain ⟨list, timer, added⟩ := signalAllLoop_added s.list s
    exact staged.signal (by rw [list, List.append_nil]) timer added early
  | merge now =>
    obtain ⟨moved, taken, list, inside, added, drains⟩ :=
      merge_added staged.linked staged.inside stepped
    -- what the merge takes out is what it drains
    refine staged.fire taken list inside added ?_
    intro c member
    obtain ⟨index, low, high, task, there, rfl⟩ := (drains c).mp member
    exact early index low high task there
  | resume =>
    simp only [TimeWait.step] at stepped
    split at stepped
    · cases stepped
    next c rest front =>
      obtain ⟨r, routine, returned⟩ := Option.bind_eq_some_iff.mp stepped
      exact staged.resume front routine
        (fun c' at_pc => early c r c' (by rw [front]; rfl) routine at_pc) returned
  | relock r =>
    simp only [TimeWait.step] at stepped
    split at stepped
    next c at_pc => cases stepped; exact staged.relock at_pc
    · cases stepped

omit [DecidableEq R] in
/-- A call with a task in the ready queue is handed to `AddTask` again. -/
theorem Staged.twice {cs : List Nat} {f : Call R → Call R} (staged : Staged s)
    (added : Added s cs f t) (member : c ∈ cs)
    (queued : (s.call c).isTimeout ≠ 0 ∨ (s.call c).signalled = true) : ¬ WakesOnce t := by
  intro wakes
  obtain ⟨stage, here⟩ := staged.stage c
  have before : (s.call c).puts = 1 := by
    rw [here.call] at queued
    rw [here.puts_eq]
    cases stage <;> simp_all [Stage.call]
  have again := wakes.once c
  have positive := List.count_pos_iff.mpr member
  rw [added.call, Call.added, if_neg (by omega)] at again
  simp only at again
  omega

theorem Staged.breaks {label : Label R} (staged : Staged s) (late : ¬ BeforeTimeout s label)
    (stepped : TimeWait.step s label = some t) : ¬ WakesOnce t := by
  cases label with
  | timeWait r timeoutMs => exact absurd trivial late
  | signalOnce =>
    simp only [BeforeTimeout, not_forall] at late
    obtain ⟨c, front, fired⟩ := late
    simp only [TimeWait.step] at stepped
    split at stepped
    next empty => rw [empty] at front; cases front
    next head rest whole =>
      rw [whole] at front
      cases front
      cases stepped
      have added := (Added.nil (({ s with list := rest } : State R).addTask c Call.signal)
        Call.signal).cons fun _ => rfl
      exact staged.twice ⟨added.ready, added.pc, added.next, added.call⟩
        List.mem_cons_self (.inl fired)
  | signalAll =>
    simp only [BeforeTimeout, not_forall] at late
    obtain ⟨c, member, fired⟩ := late
    simp only [TimeWait.step] at stepped
    cases stepped
    obtain ⟨-, -, added⟩ := signalAllLoop_added s.list s
    exact staged.twice added member (.inl fired)
  | merge now =>
    simp only [BeforeTimeout, not_forall] at late
    obtain ⟨index, low, high, task, there, signalled⟩ := late
    obtain ⟨moved, -, -, -, added, drains⟩ := merge_added staged.linked staged.inside stepped
    exact staged.twice added ((drains task.id).mpr ⟨index, low, high, task, there, rfl⟩)
      (.inr (by simpa using signalled))
  | resume =>
    simp only [BeforeTimeout, not_forall] at late
    obtain ⟨c, r, c', front, routine, at_pc, fired⟩ := late
    obtain ⟨stage, here⟩ := staged.stage c'
    simp only [TimeWait.step] at stepped
    split at stepped
    · cases stepped
    next head rest whole =>
      rw [whole] at front
      cases front
      rw [routine, Option.bind_some] at stepped
      simp only [goOn, at_pc, fired, if_false] at stepped
      cases stepped
      -- the call returns 0 and its entry is still in the condition's list
      intro wakes
      obtain ⟨gone, -, -⟩ := wakes.clean c' 0 (by simp)
      have listed := here.listed
      rw [here.fired_of fired] at listed
      rw [goto_list, modify_list, ← List.count_eq_zero, listed] at gone
      cases gone
  | relock r => exact absurd trivial late

end Steps

/-- Along a schedule every call is woken at most once, reports what woke it and leaves nothing
behind, exactly when the schedule takes each step before the timeout of the calls it is about. -/
theorem wakesOnce_iff (R : Type) [DecidableEq R] (now : Reading) (schedule : List (Label R)) :
    (∀ t, (machine R).Visits (initial now) schedule t → WakesOnce t) ↔
      ∀ t label, (machine R).Takes (initial now) schedule t label → BeforeTimeout t label :=
  Transition.Machine.safe_iff_steps_ok Staged BeforeTimeout
    (fun _ _ _ staged early stepped => staged.step early stepped)
    (fun _ staged => staged.wakesOnce)
    (fun _ _ _ staged late stepped => staged.breaks late stepped)
    (initial_staged now) schedule

/-- A call of 5 ms that nobody signals returns 0 and stays in the condition's list. -/
theorem wakesOnce_fails :
    ¬ ∀ schedule : List (Label Nat), ∀ t,
      (machine Nat).Visits (initial 0) schedule t → WakesOnce t := by
  intro always
  have timedOut : ((machine Nat).exec (initial 0) [.timeWait 0 5, .merge 5, .resume]).map
      (fun t => (t.list, (t.call 0).returned)) = some ([0], some 0) := by
    decide +kernel
  obtain ⟨t, ran, left⟩ := Option.map_eq_some_iff.mp timedOut
  obtain ⟨list, returned⟩ := Prod.mk.inj left
  obtain ⟨gone, -, -⟩ := (always _ t ⟨_, List.prefix_refl _, ran⟩).clean 0 0 returned
  rw [list] at gone
  exact gone List.mem_cons_self

end BRoutine.BCond.TimeWait
