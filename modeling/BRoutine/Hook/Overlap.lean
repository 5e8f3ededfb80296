import BRoutine.Hook.Lifetime

/-!
# Polls that overlap

Several schedulers poll, run `Deal` and go on after their polls at once. As long as no descriptor
is added for a call that `AddTask` has already, and no call returns before `pollCallback` has
written its `pm->task`, no message is used after its call has returned and no task is given to
`AddTask` twice. With one scheduler every run is of this kind, with two it need not be.
-/

namespace BRoutine.Hook.Threads

/-- The scheduler is in `Deal`. -/
def Pc.deals : Pc → Bool
  | .perparing _ _ | .calling _ | .clearing _ _ | .expiring _ => true
  | .idle | .adding _ _ | .returning _ => false

/-- The events that have been counted up but not down. -/
def Pc.prepared : Pc → List Event
  | .perparing done _ => done
  | .calling rest | .clearing _ rest => rest
  | .idle | .adding _ _ | .expiring _ | .returning _ => []

/-- What a scheduler relies on where it is. -/
def Knows (s : Hook.State) : Pc → Prop
  | .idle => True
  | .adding c items => c < s.next ∧ (c ∉ s.added →
      ∃ pm, s.message c = some pm ∧ ∀ item ∈ items, item.args = c ∧ item ∈ pm.eachFdTask)
  | .perparing done rest => ∀ event ∈ done ++ rest, Awaits s event.ptr.args
  | .calling rest => ∀ event ∈ rest, Awaits s event.ptr.args
  | .clearing c rest => (c ∈ s.added ∧ s.message c ≠ none) ∧
      ∀ event ∈ rest, Awaits s event.ptr.args
  | .expiring tasks => tasks.Nodup ∧ ∀ c ∈ tasks, Awaits s c ∧ s.timer.owner c = none
  | .returning c => c ∈ s.added

/-- `_activeFdsNums2` counts the events in `batch`, and the task of a call with an event has left
the wheel. -/
def Counts (s : Hook.State) (batch : List Event) : Prop :=
  ∀ c pm, s.message c = some pm → c ∉ s.added →
    pm.activeFdsNums2 = (callsOf batch).count c ∧
      (c ∈ callsOf batch → pm.isRemoveFromTimeoutList = true)

/-- The events in preparation by the scheduler that is in `Deal`. -/
def State.prepared (s : State) : List Event :=
  s.bEpollDealLock.elim [] fun k => (s.pc k).prepared

structure Sound (s : State) : Prop where
  tidy : Tidy s.polls
  alive : s.late = false
  lock : ∀ k, (s.pc k).deals = true ↔ s.bEpollDealLock = some k
  counts : Counts s.polls s.prepared
  knows : ∀ k, Knows s.polls (s.pc k)

theorem initial_sound (now : Reading) : Sound (initial now) where
  tidy := by
    constructor <;> simp [initial, Hook.initial, BEpTimer.new_linked]
    simp [BEpTimer.new]
  alive := rfl
  lock k := by simp [initial, Pc.deals]
  counts c pm present := by cases present
  knows _ := trivial

/-! ### Frames -/

/-- What a scheduler outside of `Deal` relies on, any step keeps. -/
structure Evolves (s t : Hook.State) : Prop where
  next : s.next ≤ t.next
  added : ∀ c ∈ s.added, c ∈ t.added
  items : ∀ c pm, s.message c = some pm → c ∉ t.added →
    ∃ pm', t.message c = some pm' ∧ pm'.eachFdTask = pm.eachFdTask

/-- A step outside of `Deal` leaves alone the calls whose task `AddTask` does not have. -/
structure Spares (s t : Hook.State) : Prop where
  next : s.next ≤ t.next
  added : ∀ c ∈ s.added, c ∈ t.added
  message : ∀ c pm, s.message c = some pm → c ∉ s.added → t.message c = some pm ∧ c ∉ t.added
  owner : ∀ c, s.message c ≠ none → t.timer.owner c = s.timer.owner c

variable {polls : Hook.State} {s t : State} {p : Pc} {k c : Nat} {event : Event}
  {done rest : List Event}

theorem Spares.refl (polls : Hook.State) : Spares polls polls :=
  ⟨Nat.le_refl _, fun _ added => added, fun _ _ present unwoken => ⟨present, unwoken⟩,
    fun _ _ => rfl⟩

theorem Spares.awaits {s t : Hook.State} (spares : Spares s t) (awaits : Awaits s c) :
    Awaits t c := by
  obtain ⟨pm, present⟩ := awaits.message
  obtain ⟨present', unwoken⟩ := spares.message c pm present awaits.2
  exact awaits_of_message present' unwoken

theorem Evolves.knows {s t : Hook.State} (evolves : Evolves s t) (outside : p.deals = false)
    (knows : Knows s p) : Knows t p := by
  cases p with
  | idle => trivial
  | adding c items =>
    obtain ⟨old, alive⟩ := knows
    refine ⟨Nat.lt_of_lt_of_le old evolves.next, fun unwoken => ?_⟩
    obtain ⟨pm, present, listed⟩ := alive fun added => unwoken (evolves.added c added)
    obtain ⟨pm', present', same⟩ := evolves.items c pm present unwoken
    exact ⟨pm', present', by rw [same]; exact listed⟩
  | returning c => exact evolves.added c knows
  | perparing | calling | clearing | expiring => cases outside

theorem Spares.evolves {s t : Hook.State} (spares : Spares s t) : Evolves s t where
  next := spares.next
  added := spares.added
  items c pm present unwoken := by
    obtain ⟨present', -⟩ := spares.message c pm present fun added => unwoken (spares.added c added)
    exact ⟨pm, present', rfl⟩

theorem Spares.knows {s t : Hook.State} (spares : Spares s t)
    (clearing : ∀ c rest, p = .clearing c rest → t.message c ≠ none) (knows : Knows s p) :
    Knows t p := by
  cases p with
  | idle | adding | returning => exact spares.evolves.knows rfl knows
  | perparing done rest => exact fun event listed => spares.awaits (knows event listed)
  | calling rest => exact fun event listed => spares.awaits (knows event listed)
  | clearing c rest =>
    exact ⟨⟨spares.added c knows.1.1, clearing c rest rfl⟩,
      fun event listed => spares.awaits (knows.2 event listed)⟩
  | expiring tasks =>
    refine ⟨knows.1, fun c listed => ?_⟩
    obtain ⟨awaits, free⟩ := knows.2 c listed
    exact ⟨spares.awaits awaits, by rw [spares.owner c awaits.1]; exact free⟩

/-- A step of the scheduler that is in `Deal`, and stays there. -/
theorem Sound.inDeal (sound : Sound s) (deals : (s.pc k).deals = true) (tidy : Tidy polls)
    (evolves : Evolves s.polls polls) (still : p.deals = true) (counts : Counts polls p.prepared)
    (knows : Knows polls p) : Sound { s.goto k p with polls := polls } where
  tidy := tidy
  alive := sound.alive
  lock j := by
    by_cases self : j = k
    · subst self
      simpa [State.goto, still] using (sound.lock j).mp deals
    · simpa [State.goto, self] using sound.lock j
  counts := by
    have locked := (sound.lock k).mp deals
    simpa [State.prepared, State.goto, locked] using counts
  knows j := by
    by_cases self : j = k
    · subst self
      simpa [State.goto] using knows
    · -- nobody else is in `Deal`
      have outside : (s.pc j).deals = false := by
        by_contra inside
        have mine := (sound.lock k).mp deals
        have yours := (sound.lock j).mp (by simpa using inside)
        exact self (Option.some.inj (yours.symm.trans mine))
      simpa [State.goto, self] using evolves.knows outside (sound.knows j)

/-- A step outside of `Deal`. -/
theorem Sound.outside (sound : Sound s) (outside : (s.pc k).deals = false) (tidy : Tidy polls)
    (spares : Spares s.polls polls) (still : p.deals = false) (counts : Counts polls s.prepared)
    (knows : Knows polls p) (stage : Nat → Stage)
    (clearing : ∀ j c rest, s.pc j = .clearing c rest → polls.message c ≠ none) :
    Sound { s.goto k p with polls := polls, stage := stage } where
  tidy := tidy
  alive := sound.alive
  lock j := by
    by_cases self : j = k
    · subst self
      have free := sound.lock j
      simpa [State.goto, still, outside] using free
    · simpa [State.goto, self] using sound.lock j
  counts := by
    have same : ({ s.goto k p with polls := polls, stage := stage } : State).prepared =
        s.prepared := by
      simp only [State.prepared, State.goto]
      cases locked : s.bEpollDealLock with
      | none => rfl
      | some j =>
        -- the scheduler in `Deal` is another one, so its events in preparation stay
        have other : j ≠ k := by
          rintro rfl
          rw [(sound.lock j).mpr locked] at outside
          cases outside
        simp [other]
    rw [same]
    exact counts
  knows j := by
    by_cases self : j = k
    · subst self
      simpa [State.goto] using knows
    · simpa [State.goto, self] using spares.knows (clearing j) (sound.knows j)

/-! ### Steps outside of `Deal` -/

theorem Sound.cleared (sound : Sound s) {c : Nat} (at_pc : s.pc k = .clearing c rest) :
    s.polls.message c ≠ none := by
  have knows := sound.knows k
  rw [at_pc] at knows
  exact knows.1.2

/-- The events in preparation belong to calls whose task `AddTask` does not have. -/
theorem Sound.prepared_awaits (sound : Sound s) :
    ∀ event ∈ s.prepared, Awaits s.polls event.ptr.args := by
  intro event listed
  unfold State.prepared at listed
  cases locked : s.bEpollDealLock with
  | none => simp [locked] at listed
  | some k =>
    simp only [locked, Option.elim_some] at listed
    have knows := sound.knows k
    cases at_pc : s.pc k with
    | perparing done rest =>
      rw [at_pc] at knows listed
      exact knows event (List.mem_append_left _ listed)
    | calling rest =>
      rw [at_pc] at knows listed
      exact knows event listed
    | clearing c rest =>
      rw [at_pc] at knows listed
      exact knows.2 event listed
    | idle | adding | expiring | returning => simp [at_pc, Pc.prepared] at listed

theorem Sound.poll (sound : Sound s) (at_pc : s.pc k = .idle) (fds : List PollFd)
    (timeout : BitVec 32) (stage : Nat → Stage) : Sound { s.goto k (.adding s.polls.next
      (PollMessage.new s.polls.next fds).eachFdTask) with
      polls := pollBegin s.polls fds timeout, stage := stage } := by
  have new : ∀ c, s.polls.message c ≠ none ∨ c ∈ s.polls.added → c ≠ s.polls.next :=
    fun c held => Nat.ne_of_lt (sound.tidy.bound c held)
  -- the number of the new call is in no list yet
  apply sound.outside
  · rw [at_pc]; rfl
  · exact sound.tidy.pollBegin fds timeout
  · refine ⟨Nat.le_succ _, fun _ added => added, fun c pm present unwoken => ?_,
      fun c alive => ?_⟩
    · have self := new c (.inl (by rw [present]; exact Option.some_ne_none pm))
      exact ⟨by simpa [pollBegin, self] using present, unwoken⟩
    · have self := new c (.inl alive)
      simp [pollBegin, BEpTimer.register_owner, self]
  · rfl
  · intro c pm found unwoken
    by_cases self : c = s.polls.next
    · -- the new call has no event yet
      subst self
      simp only [pollBegin, Function.update_self, Option.some.injEq] at found
      subst found
      have none : s.polls.next ∉ callsOf s.prepared := by
        intro listed
        obtain ⟨event, member, same⟩ := List.mem_map.mp listed
        exact new _ (.inl (sound.prepared_awaits event member).1) same
      exact ⟨(List.count_eq_zero.mpr none).symm, fun listed => absurd listed none⟩
    · simp only [pollBegin, Function.update_of_ne self] at found
      exact sound.counts c pm found unwoken
  · refine ⟨Nat.lt_succ_self _, fun _ => ⟨_, Function.update_self .., fun item listed => ?_⟩⟩
    obtain ⟨entry, -, rfl⟩ := List.mem_map.mp listed
    exact ⟨rfl, listed⟩
  · intro j c rest clearing
    have alive := sound.cleared clearing
    have self := new c (.inl alive)
    simpa [pollBegin, self] using alive

theorem epollCtlAdd_frame (pollable : Int → Bool) (polls : Hook.State) (item : FdTask) :
    (polls.epollCtlAdd pollable item).message = polls.message ∧
      (polls.epollCtlAdd pollable item).added = polls.added ∧
      (polls.epollCtlAdd pollable item).timer = polls.timer ∧
      (polls.epollCtlAdd pollable item).next = polls.next := by
  unfold State.epollCtlAdd
  split <;> exact ⟨rfl, rfl, rfl, rfl⟩

theorem Sound.add (sound : Sound s) {item : FdTask} {items : List FdTask}
    (at_pc : s.pc k = .adding c (item :: items)) (unwoken : c ∉ s.polls.added)
    (pollable : Int → Bool) : Sound { s.goto k (.adding c items) with
      polls := s.polls.epollCtlAdd pollable item } := by
  have knows := sound.knows k
  rw [at_pc] at knows
  obtain ⟨old, alive⟩ := knows
  obtain ⟨pm, present, listed⟩ := alive unwoken
  obtain ⟨rfl, member⟩ := listed item (by simp)
  obtain ⟨message, added, timer, next⟩ := epollCtlAdd_frame pollable s.polls item
  -- only epoll changes, and what is registered belongs to a call that is awaited
  apply sound.outside
  · rw [at_pc]; rfl
  · exact sound.tidy.epollCtlAdd present member unwoken pollable
  · refine ⟨by rw [next], fun c held => by rw [added]; exact held, fun c pm found waiting => ?_,
      fun c _ => by rw [timer]⟩
    rw [message, added]
    exact ⟨found, waiting⟩
  · rfl
  · intro c pm found waiting
    rw [message] at found
    rw [added] at waiting
    exact sound.counts c pm found waiting
  · refine ⟨by rw [next]; exact old, fun _ => ⟨pm, by rw [message]; exact present, ?_⟩⟩
    exact fun later inside => listed later (List.mem_cons_of_mem _ inside)
  · intro j c rest clearing
    rw [message]
    exact sound.cleared clearing

/-- `SwapContext` in `poll`, and a scheduler that takes a task. -/
theorem Sound.switch (sound : Sound s) (outside : (s.pc k).deals = false)
    (still : p.deals = false) (knows : Knows s.polls p) (stage : Nat → Stage) :
    Sound { s.goto k p with stage := stage } :=
  sound.outside outside sound.tidy (.refl _) still sound.counts knows stage
    fun _ _ _ clearing => sound.cleared clearing

theorem Sound.returns (sound : Sound s) (at_pc : s.pc k = .returning c)
    (ended : Ended s.polls c polls) (done : ∀ j rest, s.pc j ≠ .clearing c rest) :
    Sound { s.goto k .idle with polls := polls } := by
  have woken : c ∈ s.polls.added := by
    have knows := sound.knows k
    rwa [at_pc] at knows
  have other : ∀ c', c' ∉ s.polls.added → c' ≠ c := fun c' unwoken same => unwoken (same ▸ woken)
  apply sound.outside
  · rw [at_pc]; rfl
  · exact sound.tidy.ended woken ended
  · refine ⟨by rw [ended.next], fun c held => by rw [ended.added]; exact held,
      fun c' pm present unwoken => ?_, fun _ _ => by rw [ended.timer]⟩
    rw [ended.message, ended.added, Function.update_of_ne (other c' unwoken)]
    exact ⟨present, unwoken⟩
  · rfl
  · intro c' pm found unwoken
    rw [ended.added] at unwoken
    rw [ended.message, Function.update_of_ne (other c' unwoken)] at found
    exact sound.counts c' pm found unwoken
  · trivial
  · intro j c' rest clearing
    -- the call whose `pm->task` is still to be written has not returned
    have self : c' ≠ c := by
      rintro rfl
      exact done j rest clearing
    rw [ended.message, Function.update_of_ne self]
    exact sound.cleared clearing

/-! ### Steps of `Deal` -/

/-- In `Deal` the events in preparation are those of its scheduler. -/
theorem Sound.counts_of (sound : Sound s) (at_pc : s.pc k = p) (deals : p.deals = true) :
    Counts s.polls p.prepared := by
  subst at_pc
  have locked := (sound.lock k).mp deals
  simpa [State.prepared, locked] using sound.counts

theorem Sound.enter (sound : Sound s) {batch : List Event} (at_pc : s.pc k = .idle)
    (free : s.bEpollDealLock = none)
    (registered : ∀ event ∈ batch, ∃ fd, s.polls.interest fd = some event.ptr) :
    Sound { s.goto k (.perparing [] batch) with bEpollDealLock := some k } where
  tidy := sound.tidy
  alive := sound.alive
  lock j := by
    -- the lock is free, so nobody has been in `Deal`
    have outside : (s.pc j).deals ≠ true := fun inside => by
      have locked := (sound.lock j).mp inside
      rw [free] at locked
      cases locked
    by_cases self : j = k
    · subst self; simp [State.goto, Pc.deals]
    · have other : k ≠ j := fun same => self same.symm
      simpa [State.goto, self, other] using outside
  counts := by
    have none := sound.counts
    simp only [State.prepared, free, Option.elim_none] at none
    simpa [State.prepared, State.goto, Pc.prepared] using none
  knows j := by
    by_cases self : j = k
    · subst self
      have awaits : ∀ event ∈ batch, Awaits s.polls event.ptr.args := by
        intro event listed
        obtain ⟨fd, held⟩ := registered event listed
        -- every event carries an item that epoll holds
        obtain ⟨-, unwoken, pm, present, -⟩ := sound.tidy.registered fd _ held
        exact awaits_of_message present unwoken
      simpa [State.goto, Knows] using awaits
    · simpa [State.goto, self] using sound.knows j

theorem Sound.perpare (sound : Sound s) (at_pc : s.pc k = .perparing done (event :: rest))
    (stepped : pollPerpare s.polls event = some polls) :
    Sound { s.goto k (.perparing (done ++ [event]) rest) with polls := polls } := by
  have knows := sound.knows k
  rw [at_pc] at knows
  obtain ⟨pm, present⟩ := (knows event (by simp)).message
  have unwoken := (knows event (by simp)).2
  have counts := sound.counts_of at_pc rfl
  obtain ⟨tidy, added, next, message⟩ := sound.tidy.perpare present unwoken stepped
  apply sound.inDeal (by rw [at_pc]; rfl) tidy
  · refine ⟨by rw [next], fun c held => by rw [added]; exact held, fun c pm' found _ => ?_⟩
    rw [message]
    by_cases self : c = event.ptr.args
    · subst self
      rw [present] at found
      cases found
      exact ⟨_, Function.update_self .., rfl⟩
    · exact ⟨pm', by simpa [self] using found, rfl⟩
  · rfl
  · intro c pm' found waiting
    rw [added] at waiting
    rw [message] at found
    simp only [Pc.prepared, callsOf_append, callsOf_cons, callsOf_nil, List.count_append]
    by_cases self : c = event.ptr.args
    · -- one more event of the call, which leaves the wheel at the first
      subst self
      simp only [Function.update_self, Option.some.injEq] at found
      subst found
      have counted := (counts _ pm present unwoken).1
      exact ⟨by simpa [PollMessage.perpare, Pc.prepared] using counted, fun _ => rfl⟩
    · simp only [Function.update_of_ne self] at found
      have other : event.ptr.args ≠ c := fun same => self same.symm
      simpa [Pc.prepared, self, other] using counts c pm' found waiting
  · intro event' listed
    have awaits : Awaits s.polls event'.ptr.args := knows event' (by simpa using listed)
    refine ⟨?_, by rw [added]; exact awaits.2⟩
    rw [message]
    by_cases self : event'.ptr.args = event.ptr.args
    · simp [self]
    · simpa [self] using awaits.1

theorem Sound.prepared (sound : Sound s) (at_pc : s.pc k = .perparing done []) :
    Sound (s.goto k (.calling done)) := by
  have knows := sound.knows k
  rw [at_pc] at knows
  have counts := sound.counts_of at_pc rfl
  exact sound.inDeal (by rw [at_pc]; rfl) sound.tidy (Spares.refl _).evolves rfl counts
    fun event listed => knows event (by simpa using listed)

/-- What `pollCallback` does for an event that is counted down but not to 0. -/
theorem Sound.callbackMore (sound : Sound s) (at_pc : s.pc k = .calling (event :: rest))
    {pm : PollMessage} (present : s.polls.message event.ptr.args = some pm)
    (tidy : Tidy { s.polls with
      message := Function.update s.polls.message event.ptr.args
        (some { pm with activeFdsNums2 := (callsOf rest).count event.ptr.args }) }) :
    Sound { s.goto k (.calling rest) with
      polls := { s.polls with
        message := Function.update s.polls.message event.ptr.args
          (some { pm with activeFdsNums2 := (callsOf rest).count event.ptr.args }) } } := by
  have knows := sound.knows k
  rw [at_pc] at knows
  have counts := sound.counts_of at_pc rfl
  apply sound.inDeal (by rw [at_pc]; rfl) tidy
  · refine ⟨Nat.le_refl _, fun _ held => held, fun c pm' found _ => ?_⟩
    by_cases self : c = event.ptr.args
    · subst self
      rw [present] at found
      cases found
      exact ⟨_, Function.update_self .., rfl⟩
    · exact ⟨pm', by simpa [self] using found, rfl⟩
  · rfl
  · intro c pm' found waiting
    by_cases self : c = event.ptr.args
    · -- the counter covers the events of the call that are left
      subst self
      simp only [Function.update_self, Option.some.injEq] at found
      subst found
      have marked := (counts _ pm present waiting).2
      exact ⟨rfl, fun _ => marked (by simp [Pc.prepared])⟩
    · simp only [Function.update_of_ne self] at found
      have other : event.ptr.args ≠ c := fun same => self same.symm
      simpa [Pc.prepared, self, other] using counts c pm' found waiting
  · intro event' listed
    have awaits : Awaits s.polls event'.ptr.args := knows event' (List.mem_cons_of_mem _ listed)
    refine ⟨?_, awaits.2⟩
    by_cases self : event'.ptr.args = event.ptr.args
    · simp [self]
    · simpa [self] using awaits.1

/-- A call is handed over by the scheduler that is in `Deal`, which goes on at `p`. -/
theorem Sound.handOver (sound : Sound s) (deals : (s.pc k).deals = true) (still : p.deals = true)
    {pm : PollMessage} (pm' : PollMessage)
    (tidy : Tidy (handed s.polls c pm pm'))
    (counts : ∀ c' pm', c' ≠ c → s.polls.message c' = some pm' → c' ∉ s.polls.added →
      pm'.activeFdsNums2 = (callsOf p.prepared).count c' ∧
        (c' ∈ callsOf p.prepared → pm'.isRemoveFromTimeoutList = true))
    (knows : Knows (handed s.polls c pm pm') p) :
    Sound { s.goto k p with polls := handed s.polls c pm pm' } := by
  have other : ∀ c', c' ∉ (handed s.polls c pm pm').added →
      c' ≠ c ∧ c' ∉ s.polls.added := by
    intro c' unwoken
    simp only [handed, List.mem_append, List.mem_singleton, not_or] at unwoken
    exact ⟨unwoken.2, unwoken.1⟩
  -- the call is not awaited any more, so nothing is asked of its message
  apply sound.inDeal deals tidy
  · refine ⟨Nat.le_refl _, fun c' held => List.mem_append_left _ held, fun c' pm'' found late => ?_⟩
    have self := (other c' late).1
    exact ⟨pm'', by simpa [handed, self] using found, rfl⟩
  · exact still
  · intro c' pm'' found waiting
    obtain ⟨self, unwoken⟩ := other c' waiting
    exact counts c' pm'' self (by simpa [handed, self] using found) unwoken
  · exact knows

theorem awaits_handed {s : Hook.State} {c' : Nat} {pm pm' : PollMessage} (awaits : Awaits s c')
    (other : c' ≠ c) : Awaits (handed s c pm pm') c' :=
  ⟨by simpa [handed, other] using awaits.1, by simpa [handed, other] using awaits.2⟩

theorem Sound.callback (sound : Sound s) (at_pc : s.pc k = .calling (event :: rest))
    {joins : Bool} (stepped : callbackAdd s.polls event = some (polls, joins)) :
    Sound { s.goto k (if joins then .clearing event.ptr.args rest else .calling rest) with
      polls := polls } := by
  have knows := sound.knows k
  rw [at_pc] at knows
  have counts := sound.counts_of at_pc rfl
  obtain ⟨pm, present⟩ := (knows event (by simp)).message
  have unwoken := (knows event (by simp)).2
  obtain ⟨counted, marked⟩ := counts _ pm present unwoken
  simp only [Pc.prepared, callsOf_cons, List.count_cons_self] at counted
  obtain ⟨tidy, more | last⟩ := sound.tidy.callbackAdd present unwoken counted
    (marked (by simp [Pc.prepared])) stepped
  · obtain ⟨-, rfl, rfl⟩ := more
    exact sound.callbackMore at_pc present tidy
  · obtain ⟨zero, rfl, rfl⟩ := last
    -- no event of the call is left
    have none : event.ptr.args ∉ callsOf rest := List.count_eq_zero.mp zero
    refine sound.handOver (by rw [at_pc]; rfl) rfl _ tidy ?_ ?_
    · intro c pm' self found waiting
      have other : event.ptr.args ≠ c := fun same => self same.symm
      simpa [Pc.prepared, self, other] using counts c pm' found waiting
    · refine ⟨⟨by simp [handed], by simp [handed]⟩, fun event' listed => ?_⟩
      apply awaits_handed (knows event' (List.mem_cons_of_mem _ listed))
      exact fun same => none (same ▸ List.mem_map_of_mem listed)

theorem Sound.clear (sound : Sound s) (at_pc : s.pc k = .clearing c rest)
    (stepped : clearTask s.polls c = some polls) :
    Sound { s.goto k (.calling rest) with polls := polls } := by
  have knows := sound.knows k
  rw [at_pc] at knows
  obtain ⟨⟨woken, -⟩, awaits⟩ := knows
  have counts := sound.counts_of at_pc rfl
  obtain ⟨tidy, pm, present, rfl⟩ := sound.tidy.clearTask woken stepped
  have other : ∀ c', c' ∉ s.polls.added → c' ≠ c := fun c' unwoken same => unwoken (same ▸ woken)
  apply sound.inDeal (by rw [at_pc]; rfl) tidy
  · refine ⟨Nat.le_refl _, fun _ held => held, fun c' pm' found unwoken => ?_⟩
    exact ⟨pm', by simpa [other c' unwoken] using found, rfl⟩
  · rfl
  · intro c' pm' found unwoken
    simp only [Function.update_of_ne (other c' unwoken)] at found
    exact counts c' pm' found unwoken
  · intro event' listed
    obtain ⟨alive, unwoken⟩ := awaits event' listed
    exact ⟨by simpa [other _ unwoken] using alive, unwoken⟩

theorem Sound.merge (sound : Sound s) (at_pc : s.pc k = .calling []) {now : Reading}
    {timer : BEpTimer} {result : TaskItemsList TimerTask}
    (merges : s.polls.timer.Merges now timer result) :
    Sound { s.goto k (.expiring (result.popAll.map (·.id))) with
      polls := { s.polls with timer := timer } } := by
  obtain ⟨taken, counted⟩ := sound.tidy.linked.merge merges
  have counts := sound.counts_of at_pc rfl
  have fewer : ∀ c, timer.owner c ≠ none → s.polls.timer.owner c ≠ none := by
    intro c owned
    rw [taken.owner] at owned
    split at owned
    · exact absurd rfl owned
    · exact owned
  -- the loop of `Deal` gets exactly the tasks that the merge has taken out of the wheel
  rw [TaskItemsList.popAll_eq counted]
  apply sound.inDeal (by rw [at_pc]; rfl) (sound.tidy.withTimer taken.linked fewer)
  · exact ⟨Nat.le_refl _, fun _ held => held, fun c pm found _ => ⟨pm, found, rfl⟩⟩
  · rfl
  · exact counts
  · refine ⟨taken.once, fun c listed => ?_⟩
    have member : c ∈ BEpTimer.ids result := listed
    obtain ⟨alive, unwoken⟩ := sound.tidy.owned c (taken.registered c member)
    exact ⟨⟨alive, unwoken⟩, by rw [taken.owner, if_pos member]⟩

theorem Sound.expire (sound : Sound s) {tasks : List Nat}
    (at_pc : s.pc k = .expiring (c :: tasks)) (stepped : pollTimeout s.polls c = some polls) :
    Sound { s.goto k (.expiring tasks) with polls := polls } := by
  have knows := sound.knows k
  rw [at_pc] at knows
  obtain ⟨once, due⟩ := knows
  obtain ⟨new, rest_once⟩ := List.nodup_cons.mp once
  obtain ⟨awaits, free⟩ := due c (by simp)
  have counts := sound.counts_of at_pc rfl
  obtain ⟨pm, present⟩ := awaits.message
  obtain ⟨tidy, rfl⟩ := sound.tidy.pollTimeout present awaits.2 free stepped
  refine sound.handOver (by rw [at_pc]; rfl) rfl _ tidy ?_ ?_
  · exact fun c' pm' _ found waiting => counts c' pm' found waiting
  · refine ⟨rest_once, fun c' listed => ?_⟩
    obtain ⟨awaits', free'⟩ := due c' (List.mem_cons_of_mem _ listed)
    exact ⟨awaits_handed awaits' fun same => new (same ▸ listed), free'⟩

theorem Sound.leave (sound : Sound s) (at_pc : s.pc k = .expiring []) :
    Sound { s.goto k .idle with bEpollDealLock := none } where
  tidy := sound.tidy
  alive := sound.alive
  lock j := by
    by_cases self : j = k
    · subst self; simp [State.goto, Pc.deals]
    · have outside : (s.pc j).deals ≠ true := fun inside => by
        have yours := (sound.lock j).mp inside
        have mine := (sound.lock k).mp (by rw [at_pc]; rfl)
        exact self (Option.some.inj (yours.symm.trans mine))
      simpa [State.goto, self] using outside
  counts := sound.counts_of at_pc rfl
  knows j := by
    by_cases self : j = k
    · subst self
      simp [State.goto, Knows]
    · simpa [State.goto, self] using sound.knows j

/-! ### Runs -/

theorem State.onMessage_alive {work : Option State} (alive : s.polls.message c ≠ none) :
    s.onMessage k c p work = work := if_neg alive

theorem Sound.run {pollable : Int → Bool} (sound : Sound s) (calm : Calm s (.run k))
    (stepped : runStep pollable s k = some t) : Sound t := by
  have knows := sound.knows k
  simp only [Calm] at calm
  unfold runStep at stepped
  split at stepped
  next => cases stepped
  -- `poll`: a registration, then `SwapContext`
  next c item items at_pc =>
    simp only [at_pc] at calm
    cases stepped
    exact sound.add at_pc calm pollable
  next c at_pc =>
    cases stepped
    exact sound.switch (p := .idle) (by rw [at_pc]; rfl) rfl trivial _
  -- the prepare pass
  next done event rest at_pc =>
    rw [at_pc] at knows
    rw [State.onMessage_alive (knows event (by simp)).1] at stepped
    obtain ⟨polls, perpared, rfl⟩ := Option.map_eq_some_iff.mp stepped
    exact sound.perpare at_pc perpared
  next done at_pc =>
    cases stepped
    exact sound.prepared at_pc
  -- the callback pass; each message it works on is there
  next event rest at_pc =>
    rw [at_pc] at knows
    rw [State.onMessage_alive (knows event (by simp)).1] at stepped
    obtain ⟨⟨polls, joins⟩, called, rfl⟩ := Option.map_eq_some_iff.mp stepped
    exact sound.callback at_pc called
  next => cases stepped
  next c rest at_pc =>
    rw [State.onMessage_alive (sound.cleared at_pc)] at stepped
    obtain ⟨polls, written, rfl⟩ := Option.map_eq_some_iff.mp stepped
    exact sound.clear at_pc written
  -- the tasks that have timed out
  next c tasks at_pc =>
    rw [at_pc] at knows
    rw [State.onMessage_alive (knows.2 c (by simp)).1.1] at stepped
    obtain ⟨polls, timedOut, rfl⟩ := Option.map_eq_some_iff.mp stepped
    exact sound.expire at_pc timedOut
  next at_pc =>
    cases stepped
    exact sound.leave at_pc
  next c at_pc =>
    simp only [at_pc] at calm
    -- `poll` behind its `SwapContext`
    obtain ⟨⟨polls, v⟩, returned, rfl⟩ := Option.map_eq_some_iff.mp stepped
    exact sound.returns at_pc (pollReturn_ended returned) calm

theorem step_sound {pollable : Int → Bool} {label : Label} (sound : Sound s) (calm : Calm s label)
    (stepped : step pollable s label = some t) : Sound t := by
  -- only a step inside `poll` or `Deal` can be too early or too late
  cases label with
  | poll k fds timeout =>
    simp only [step] at stepped
    split at stepped
    next at_pc =>
      split at stepped
      · cases stepped
        exact sound
      · cases stepped
        exact sound.poll at_pc fds timeout _
    · cases stepped
  | deal k reports =>
    simp only [step] at stepped
    split at stepped
    next enabled =>
      obtain ⟨batch, reported, rfl⟩ := Option.map_eq_some_iff.mp stepped
      exact sound.enter enabled.1 enabled.2 (epollWait_registered reported)
    · cases stepped
  | merge k now =>
    simp only [step] at stepped
    split at stepped
    next at_pc =>
      obtain ⟨⟨timer, result⟩, ran, rfl⟩ := Option.map_eq_some_iff.mp stepped
      exact sound.merge at_pc ⟨_, ran⟩
    · cases stepped
  | resume k c =>
    simp only [step] at stepped
    split at stepped
    next enabled =>
      cases stepped
      exact sound.switch (p := .returning c) (by rw [enabled.1]; rfl) rfl enabled.2.1 _
    · cases stepped
  | run k => exact sound.run calm stepped

theorem sound_of_calm {pollable : Int → Bool} {n : Nat}
    (reached : (machine pollable n).ReachableBy Calm s) : Sound s := by
  apply reached.invariant Sound
  · rintro s ⟨now, rfl⟩
    exact initial_sound now
  · intro s label t sound calm stepped
    have ran : (if label.thread < n then step pollable s label else none) = some t := stepped
    split at ran
    · exact step_sound sound calm ran
    · cases ran

/-! ### One scheduler -/

/-- A step moves its own scheduler, and one that goes on with its registrations has been in them. -/
theorem runStep_pc {pollable : Int → Bool} (stepped : runStep pollable s k = some t) :
    ∃ p, t.pc = Function.update s.pc k p ∧ ∀ c items, p = .adding c items →
      t.polls.added = s.polls.added ∧ ∃ item, s.pc k = .adding c (item :: items) := by
  have onMessage : ∀ {c p work}, s.onMessage k c p work = some t →
      t.pc = Function.update s.pc k p ∨ work = some t := by
    intro c p work used
    unfold State.onMessage at used
    split at used
    · cases used
      exact .inl rfl
    · exact .inr used
  unfold runStep at stepped
  split at stepped
  next => cases stepped
  next c item items at_pc =>
    cases stepped
    refine ⟨_, rfl, fun c' items' same => ?_⟩
    cases same
    exact ⟨(epollCtlAdd_frame pollable s.polls item).2.1, item, at_pc⟩
  next => cases stepped; exact ⟨_, rfl, by simp⟩
  next =>
    -- in `Deal` a step ends in `Deal`, whether or not the message is there
    rcases onMessage stepped with gone | worked
    · exact ⟨_, gone, by simp⟩
    · obtain ⟨polls, -, rfl⟩ := Option.map_eq_some_iff.mp worked
      exact ⟨_, rfl, by simp⟩
  next => cases stepped; exact ⟨_, rfl, by simp⟩
  next event rest _ =>
    rcases onMessage stepped with gone | worked
    · exact ⟨_, gone, by simp⟩
    · obtain ⟨⟨polls, joins⟩, -, rfl⟩ := Option.map_eq_some_iff.mp worked
      refine ⟨_, rfl, ?_⟩
      cases joins <;> simp
  next => cases stepped
  next =>
    rcases onMessage stepped with gone | worked
    · exact ⟨_, gone, by simp⟩
    · obtain ⟨polls, -, rfl⟩ := Option.map_eq_some_iff.mp worked
      exact ⟨_, rfl, by simp⟩
  next =>
    rcases onMessage stepped with gone | worked
    · exact ⟨_, gone, by simp⟩
    · obtain ⟨polls, -, rfl⟩ := Option.map_eq_some_iff.mp worked
      exact ⟨_, rfl, by simp⟩
  next => cases stepped; exact ⟨_, rfl, by simp⟩
  next =>
    obtain ⟨⟨polls, v⟩, -, rfl⟩ := Option.map_eq_some_iff.mp stepped
    exact ⟨_, rfl, by simp⟩

/-- There is one scheduler, and it registers only for calls that `AddTask` does not have. -/
structure Single (s : State) : Prop where
  others : ∀ j, j ≠ 0 → s.pc j = .idle
  adding : ∀ c items, s.pc 0 = .adding c items → c ∉ s.polls.added

theorem Single.calm {label : Label} (single : Single s) (only : label.thread = 0) :
    Calm s label := by
  cases label with
  | poll | deal | merge | resume => trivial
  | run k =>
    obtain rfl : k = 0 := only
    simp only [Calm]
    split
    next c item items at_pc => exact single.adding c _ at_pc
    next c at_pc =>
      intro j rest clearing
      by_cases self : j = 0
      · rw [self, at_pc] at clearing
        cases clearing
      · rw [single.others j self] at clearing
        cases clearing
    · trivial

theorem Single.step {pollable : Int → Bool} {label : Label} (sound : Sound s) (single : Single s)
    (only : label.thread = 0) (stepped : step pollable s label = some t) : Single t := by
  have moved : ∀ (p : Pc), t.pc = Function.update s.pc 0 p →
      (∀ c items, p = .adding c items → c ∉ t.polls.added) → Single t := by
    intro p pc adding
    refine ⟨fun j other => ?_, fun c items at_pc => ?_⟩
    · rw [pc, Function.update_of_ne other]
      exact single.others j other
    · rw [pc, Function.update_self] at at_pc
      exact adding c items at_pc
  cases label with
  | poll k fds timeout =>
    obtain rfl : k = 0 := only
    simp only [Threads.step] at stepped
    split at stepped
    next at_pc =>
      split at stepped
      · cases stepped
        exact single
      · cases stepped
        -- the number of the new call is beyond those that `AddTask` has
        refine moved _ rfl fun c items same added => ?_
        cases same
        exact Nat.lt_irrefl _ (sound.tidy.bound _ (.inr added))
    · cases stepped
  | deal k reports =>
    obtain rfl : k = 0 := only
    simp only [Threads.step] at stepped
    split at stepped
    · obtain ⟨batch, -, rfl⟩ := Option.map_eq_some_iff.mp stepped
      exact moved _ rfl (by simp)
    · cases stepped
  | merge k now =>
    obtain rfl : k = 0 := only
    simp only [Threads.step] at stepped
    split at stepped
    · obtain ⟨_, -, rfl⟩ := Option.map_eq_some_iff.mp stepped
      exact moved _ rfl (by simp)
    · cases stepped
  | resume k c =>
    obtain rfl : k = 0 := only
    simp only [Threads.step] at stepped
    split at stepped
    · cases stepped
      exact moved _ rfl (by simp)
    · cases stepped
  | run k =>
    obtain rfl : k = 0 := only
    obtain ⟨p, pc, adding⟩ := runStep_pc stepped
    refine moved p pc fun c items same => ?_
    obtain ⟨added, item, before⟩ := adding c items same
    -- a registration gives no task to `AddTask`
    rw [added]
    exact single.adding c _ before

/-- With one scheduler every step is calm. -/
theorem reachable_calm {pollable : Int → Bool} {n : Nat} (few : n ≤ 1)
    (reached : (machine pollable n).Reachable s) :
    (machine pollable n).ReachableBy Calm s ∧ Single s := by
  induction reached with
  | start starts =>
    refine ⟨.start starts, ?_⟩
    obtain ⟨now, rfl⟩ := starts
    exact ⟨fun _ _ => rfl, by simp [initial]⟩
  | @step s t label _ _ stepped ih =>
    obtain ⟨calmly, single⟩ := ih
    have ran : (if label.thread < n then step pollable s label else none) = some t := stepped
    split at ran
    next inside =>
      have only : label.thread = 0 := by omega
      exact ⟨.step calmly (single.calm only) stepped,
        single.step (sound_of_calm calmly) only ran⟩
    · cases ran

theorem Sound.safe (sound : Sound s) : Safe s := ⟨sound.alive, sound.tidy.once⟩

/-! ### Two schedulers -/

/-- Scheduler 1 gives the task to `AddTask` when scheduler 0 has added the first descriptor only;
the second is added then, and an event for it arrives when the call has returned. -/
def lateEvent : List Label :=
  [.poll 0 [⟨5, pollIn, 0⟩, ⟨6, pollIn, 0⟩] (-1), .run 0, .deal 1 [(5, epollIn)], .run 1, .run 1,
    .run 1, .run 1, .merge 1 0, .run 1, .run 0, .run 0, .resume 0 0, .run 0,
    .deal 1 [(6, epollIn)], .run 1]

example : ((machine (fun _ => true) 2).exec (initial 0) lateEvent).map (·.late) = some true := by
  decide +kernel

end BRoutine.Hook.Threads
