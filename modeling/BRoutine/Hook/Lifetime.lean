import BRoutine.Hook.Batch
import BRoutine.Hook.Threads

/-!
# What refers to a message

The wheel, epoll, the batch and the tasks that `Deal` works on refer to calls whose task `AddTask`
does not have yet, and these have not returned. Each operation on the messages keeps this.
-/

namespace BRoutine.Hook.Threads

/-- `AddTask` is still to be given the task of the call `c`. -/
def Awaits (s : Hook.State) (c : Nat) : Prop := s.message c ≠ none ∧ c ∉ s.added

/-- What the wheel and epoll refer to, and how the messages that are referred to look. -/
structure Tidy (s : Hook.State) : Prop where
  linked : s.timer.Linked
  bound : ∀ c, s.message c ≠ none ∨ c ∈ s.added → c < s.next
  once : s.added.Nodup
  owned : ∀ c, s.timer.owner c ≠ none → Awaits s c
  marked : ∀ c pm, s.message c = some pm → pm.isRemoveFromTimeoutList = true →
    s.timer.owner c = none
  blank : ∀ c pm, s.message c = some pm → c ∉ s.added →
    pm.isJoinActiveList = false ∧ pm.task = some c
  registered : ∀ fd item, s.interest fd = some item → item.epollFd = fd ∧ item.args ∉ s.added ∧
    ∃ pm, s.message item.args = some pm ∧ item ∈ pm.eachFdTask

variable {s t : Hook.State} {c : Nat} {pm pm' : PollMessage} {event : Event}

theorem Awaits.message (awaits : Awaits s c) : ∃ pm, s.message c = some pm :=
  Option.ne_none_iff_exists'.mp awaits.1

theorem awaits_of_message (present : s.message c = some pm) (unwoken : c ∉ s.added) :
    Awaits s c :=
  ⟨by rw [present]; exact Option.some_ne_none pm, unwoken⟩

/-- Tasks leave the wheel. -/
theorem Tidy.withTimer (tidy : Tidy s) {timer : BEpTimer} (linked : timer.Linked)
    (fewer : ∀ c, timer.owner c ≠ none → s.timer.owner c ≠ none) :
    Tidy { s with timer := timer } where
  linked := linked
  bound := tidy.bound
  once := tidy.once
  owned c owned := tidy.owned c (fewer c owned)
  marked c pm present marked := by
    by_contra owned
    exact fewer c owned (tidy.marked c pm present marked)
  blank := tidy.blank
  registered := tidy.registered

/-- A message changes, but not its items. -/
theorem Tidy.withMessage (tidy : Tidy s) (present : s.message c = some pm)
    (items : pm'.eachFdTask = pm.eachFdTask)
    (blank : c ∉ s.added → pm'.isJoinActiveList = false ∧ pm'.task = some c)
    (marked : pm'.isRemoveFromTimeoutList = true → s.timer.owner c = none) :
    Tidy { s with message := Function.update s.message c (some pm') } where
  linked := tidy.linked
  bound c' held := by
    apply tidy.bound c'
    by_cases self : c' = c
    · subst self
      exact .inl (by rw [present]; exact Option.some_ne_none pm)
    · simpa [self] using held
  once := tidy.once
  owned c' owned := by
    obtain ⟨alive, unwoken⟩ := tidy.owned c' owned
    refine ⟨?_, unwoken⟩
    by_cases self : c' = c
    · simp [self]
    · simpa [self] using alive
  marked c' pm'' found := by
    by_cases self : c' = c
    · subst self
      simp only [Function.update_self, Option.some.injEq] at found
      subst found
      exact marked
    · simp only [Function.update_of_ne self] at found
      exact tidy.marked c' pm'' found
  blank c' pm'' found := by
    by_cases self : c' = c
    · subst self
      simp only [Function.update_self, Option.some.injEq] at found
      subst found
      exact blank
    · simp only [Function.update_of_ne self] at found
      exact tidy.blank c' pm'' found
  registered fd item registered := by
    -- an item that is registered is still one of its message
    obtain ⟨own, unwoken, pm'', found, member⟩ := tidy.registered fd item registered
    refine ⟨own, unwoken, ?_⟩
    by_cases self : item.args = c
    · rw [self, present] at found
      cases found
      exact ⟨pm', by simp [self], by rw [items]; exact member⟩
    · exact ⟨pm'', by simpa [self] using found, member⟩

/-- The descriptors of a call are deregistered and its task is given to `AddTask`. -/
def handed (s : Hook.State) (c : Nat) (pm pm' : PollMessage) : Hook.State :=
  { s with
    interest := fun fd => if fd ∈ pm.eachFdTask.map (·.epollFd) then none else s.interest fd
    added := s.added ++ [c]
    message := Function.update s.message c (some pm') }

theorem Tidy.handOver (tidy : Tidy s) (present : s.message c = some pm) (unwoken : c ∉ s.added)
    (free : s.timer.owner c = none) (pm' : PollMessage) : Tidy (handed s c pm pm') where
  linked := tidy.linked
  bound c' held := by
    apply tidy.bound c'
    by_cases self : c' = c
    · subst self
      exact .inl (by rw [present]; exact Option.some_ne_none pm)
    · simpa [handed, self] using held
  once := by
    simpa [handed, List.nodup_append] using ⟨tidy.once, fun c' added same =>
      unwoken (same ▸ added)⟩
  owned c' owned := by
    obtain ⟨alive, unwoken'⟩ := tidy.owned c' owned
    have self : c' ≠ c := by
      rintro rfl
      exact owned free
    exact ⟨by simpa [handed, self] using alive,
      by simpa [handed, self] using unwoken'⟩
  marked c' pm'' found marked := by
    by_cases self : c' = c
    · rw [self]; exact free
    · exact tidy.marked c' pm'' (by simpa [handed, self] using found) marked
  blank c' pm'' found waiting := by
    have self : c' ≠ c := by
      rintro rfl
      exact waiting (by simp [handed])
    apply tidy.blank c' pm''
    · simpa [handed, self] using found
    · exact fun added => waiting (List.mem_append_left _ added)
  registered fd item registered := by
    simp only [handed] at registered
    split at registered
    · cases registered
    next outside =>
      obtain ⟨own, unwoken', pm'', found, member⟩ := tidy.registered fd item registered
      -- what is registered for the call itself has one of its descriptors
      have self : item.args ≠ c := by
        intro self
        rw [self, present] at found
        cases found
        exact outside (own ▸ List.mem_map_of_mem member)
      exact ⟨own, by simpa [handed, self] using unwoken', pm'',
        by simpa [handed, self] using found, member⟩

/-! ### The operations -/

theorem Tidy.pollBegin (tidy : Tidy s) (fds : List PollFd) (timeout : BitVec 32) :
    Tidy (pollBegin s fds timeout) := by
  -- the wheel, epoll and `AddTask` know nothing of the new call
  have new : ∀ c, s.message c ≠ none ∨ c ∈ s.added → c ≠ s.next := fun c held =>
    Nat.ne_of_lt (tidy.bound c held)
  have free : s.timer.owner s.next = none := by
    by_contra owned
    exact new s.next (.inl (tidy.owned s.next owned).1) rfl
  have unwoken : s.next ∉ s.added := fun added => new s.next (.inr added) rfl
  constructor
  · exact tidy.linked.register free _
  · intro c held
    by_cases self : c = s.next
    · subst self; exact Nat.lt_succ_self _
    · apply Nat.lt_succ_of_lt
      apply tidy.bound c
      simpa [Hook.pollBegin, self] using held
  · exact tidy.once
  · intro c owned
    by_cases self : c = s.next
    · subst self; exact ⟨by simp [Hook.pollBegin], unwoken⟩
    · have before : s.timer.owner c ≠ none := by
        simpa [Hook.pollBegin, BEpTimer.register_owner, self] using owned
      obtain ⟨alive, unwoken'⟩ := tidy.owned c before
      exact ⟨by simpa [Hook.pollBegin, self] using alive, unwoken'⟩
  · intro c pm found marked
    by_cases self : c = s.next
    · subst self
      simp only [Hook.pollBegin, Function.update_self, Option.some.injEq] at found
      subst found
      cases marked
    · have before : s.message c = some pm := by simpa [Hook.pollBegin, self] using found
      simpa [Hook.pollBegin, BEpTimer.register_owner, self] using
        tidy.marked c pm before marked
  · intro c pm found waiting
    by_cases self : c = s.next
    · subst self
      simp only [Hook.pollBegin, Function.update_self, Option.some.injEq] at found
      subst found
      exact ⟨rfl, rfl⟩
    · exact tidy.blank c pm (by simpa [Hook.pollBegin, self] using found) waiting
  · intro fd item registered
    obtain ⟨own, unwoken', pm, found, member⟩ := tidy.registered fd item registered
    have self : item.args ≠ s.next :=
      new _ (.inl (by rw [found]; exact Option.some_ne_none pm))
    exact ⟨own, unwoken', pm, by simpa [Hook.pollBegin, self] using found, member⟩

/-- An item of a call that `AddTask` does not have yet is registered. -/
theorem Tidy.epollCtlAdd (tidy : Tidy s) {item : FdTask} (present : s.message item.args = some pm)
    (member : item ∈ pm.eachFdTask) (unwoken : item.args ∉ s.added) (pollable : Int → Bool) :
    Tidy (s.epollCtlAdd pollable item) := by
  unfold State.epollCtlAdd
  split
  · refine ⟨tidy.linked, tidy.bound, tidy.once, tidy.owned, tidy.marked, tidy.blank, ?_⟩
    intro fd item' registered
    by_cases self : fd = item.epollFd
    · subst self
      simp only [Function.update_self, Option.some.injEq] at registered
      subst registered
      exact ⟨rfl, unwoken, pm, present, member⟩
    · simp only [Function.update_of_ne self] at registered
      exact tidy.registered fd item' registered
  · exact tidy

theorem Tidy.perpare (tidy : Tidy s) (present : s.message event.ptr.args = some pm)
    (unwoken : event.ptr.args ∉ s.added) (stepped : pollPerpare s event = some t) :
    Tidy t ∧ t.added = s.added ∧ t.next = s.next ∧
      t.message = Function.update s.message event.ptr.args (some (pm.perpare event)) := by
  obtain ⟨notJoined, task⟩ := tidy.blank _ pm present unwoken
  rw [pollPerpare, present, Option.bind_some] at stepped
  simp only at stepped
  -- only the first event of a call takes its task out of the wheel
  split at stepped
  next removed =>
    cases stepped
    have free := tidy.marked _ pm present removed
    exact ⟨tidy.withMessage present rfl (fun _ => ⟨notJoined, task⟩) fun _ => free, rfl, rfl, rfl⟩
  · rw [task, Option.bind_some] at stepped
    obtain ⟨timer, taken, rfl⟩ := Option.map_eq_some_iff.mp stepped
    have owner := BEpTimer.removeSelfSave_owner taken
    have shrunk := tidy.withTimer (tidy.linked.removeSelfSave taken) fun c owned => by
      rw [owner] at owned
      by_cases self : c = event.ptr.args
      · simp [self] at owned
      · simpa [self] using owned
    refine ⟨shrunk.withMessage present rfl (fun _ => ⟨notJoined, task⟩) fun _ => ?_,
      rfl, rfl, rfl⟩
    simp [owner]

/-- A callback with `left` more to come for the call. -/
theorem Tidy.callbackAdd (tidy : Tidy s) {joins : Bool} {left : Nat}
    (present : s.message event.ptr.args = some pm) (unwoken : event.ptr.args ∉ s.added)
    (count : pm.activeFdsNums2 = left + 1) (removed : pm.isRemoveFromTimeoutList = true)
    (stepped : callbackAdd s event = some (t, joins)) : Tidy t ∧
      (left ≠ 0 ∧ joins = false ∧ t = { s with
        message := Function.update s.message event.ptr.args
          (some { pm with activeFdsNums2 := left }) } ∨
      left = 0 ∧ joins = true ∧ t = handed s event.ptr.args pm
        { pm with activeFdsNums2 := 0, isJoinActiveList := true }) := by
  obtain ⟨notJoined, task⟩ := tidy.blank _ pm present unwoken
  have less : decrement pm.activeFdsNums2 = left := by simp [decrement, count]
  have free := tidy.marked _ pm present removed
  rw [Hook.callbackAdd, present, Option.bind_some] at stepped
  simp only [less, foldl_epollCtlDel] at stepped
  -- at the last event the counter is 0, and no call has been handed over before that
  split at stepped
  next last =>
    obtain ⟨task', found, after⟩ := Option.map_eq_some_iff.mp stepped
    obtain rfl : event.ptr.args = task' := Option.some.inj (task.symm.trans found)
    obtain ⟨-, zero⟩ := last
    cases after
    refine ⟨tidy.handOver present unwoken free _, .inr ⟨zero, rfl, ?_⟩⟩
    rw [handed, zero]
  next more =>
    have positive : left ≠ 0 := fun zero => more ⟨by simp [notJoined], zero⟩
    cases stepped
    exact ⟨tidy.withMessage present rfl (fun _ => ⟨notJoined, task⟩) fun _ => free,
      .inl ⟨positive, rfl, rfl⟩⟩

theorem Tidy.clearTask (tidy : Tidy s) (woken : c ∈ s.added) (stepped : clearTask s c = some t) :
    Tidy t ∧ ∃ pm, s.message c = some pm ∧
      t = { s with message := Function.update s.message c (some { pm with task := none }) } := by
  obtain ⟨pm, present, rfl⟩ := Option.map_eq_some_iff.mp stepped
  exact ⟨tidy.withMessage present rfl (fun unwoken => absurd woken unwoken)
    (tidy.marked c pm present), pm, present, rfl⟩

theorem Tidy.pollTimeout (tidy : Tidy s) (present : s.message c = some pm) (unwoken : c ∉ s.added)
    (free : s.timer.owner c = none) (stepped : pollTimeout s c = some t) :
    Tidy t ∧ t = handed s c pm { pm with isTasktimeout := true } := by
  rw [Hook.pollTimeout, present, Option.map_some, foldl_epollCtlDel] at stepped
  cases stepped
  exact ⟨tidy.handOver present unwoken free _, rfl⟩

theorem Tidy.ended (tidy : Tidy s) (woken : c ∈ s.added) (ended : Ended s c t) : Tidy t := by
  -- the call has been handed over, so nothing refers to it
  have other : ∀ c', c' ∉ s.added → c' ≠ c := fun c' unwoken same => unwoken (same ▸ woken)
  have kept : ∀ c' pm, t.message c' = some pm → s.message c' = some pm := by
    intro c' pm found
    rw [ended.message] at found
    by_cases self : c' = c
    · simp [self] at found
    · simpa [self] using found
  constructor
  · rw [ended.timer]; exact tidy.linked
  · intro c' held
    rw [ended.next]
    apply tidy.bound c'
    rw [ended.added] at held
    refine held.imp (fun alive => ?_) id
    obtain ⟨pm, found⟩ := Option.ne_none_iff_exists'.mp alive
    rw [kept c' pm found]
    exact Option.some_ne_none pm
  · rw [ended.added]; exact tidy.once
  · intro c' owned
    rw [ended.timer] at owned
    obtain ⟨alive, unwoken⟩ := tidy.owned c' owned
    refine ⟨?_, by rw [ended.added]; exact unwoken⟩
    rw [ended.message, Function.update_of_ne (other c' unwoken)]
    exact alive
  · intro c' pm found marked
    rw [ended.timer]
    exact tidy.marked c' pm (kept c' pm found) marked
  · intro c' pm found waiting
    rw [ended.added] at waiting
    exact tidy.blank c' pm (kept c' pm found) waiting
  · intro fd item registered
    obtain ⟨own, unwoken, pm, found, member⟩ :=
      tidy.registered fd item (ended.narrower fd item registered)
    refine ⟨own, by rw [ended.added]; exact unwoken, pm, ?_, member⟩
    rw [ended.message, Function.update_of_ne (other _ unwoken)]
    exact found

end BRoutine.Hook.Threads
