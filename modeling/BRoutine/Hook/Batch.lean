import BRoutine.Hook.Poll

/-!
# One batch of events

What the two passes of `Deal` do to the calls of `poll`. The prepare pass counts the events of
each call up and takes its task out of the wheel at the first of them, the callback pass counts
them down and hands the task to `AddTask` at the last. Both are described up to any point of the
batch, so that the callback at which a call is handed over is part of the description.
-/

namespace BRoutine.Hook

/-- The calls that the events of a batch belong to, an event at a time. -/
def callsOf (batch : List Event) : List Nat := batch.map (·.ptr.args)

@[simp] theorem callsOf_append (front back : List Event) :
    callsOf (front ++ back) = callsOf front ++ callsOf back := List.map_append
@[simp] theorem callsOf_cons (event : Event) (rest : List Event) :
    callsOf (event :: rest) = event.ptr.args :: callsOf rest := rfl
@[simp] theorem callsOf_nil : callsOf [] = [] := rfl

/-- The message of a call that nobody has woken: it is as its constructor left it. -/
def PollMessage.Waiting (pm : PollMessage) (c : Nat) : Prop := pm = .new c pm.pollfds

theorem PollMessage.new_waiting (c : Nat) (fds : List PollFd) : (new c fds).Waiting c := by
  simp [Waiting, new]

section Waiting
variable {pm : PollMessage} {c : Nat}

theorem PollMessage.Waiting.task (waiting : pm.Waiting c) : pm.task = some c := by
  rw [waiting]; rfl
theorem PollMessage.Waiting.activeFdsNums (waiting : pm.Waiting c) : pm.activeFdsNums = 0 := by
  rw [waiting]; rfl
theorem PollMessage.Waiting.activeFdsNums2 (waiting : pm.Waiting c) : pm.activeFdsNums2 = 0 := by
  rw [waiting]; rfl
theorem PollMessage.Waiting.notJoined (waiting : pm.Waiting c) :
    pm.isJoinActiveList = false := by
  rw [waiting]; rfl
theorem PollMessage.Waiting.notRemoved (waiting : pm.Waiting c) :
    pm.isRemoveFromTimeoutList = false := by
  rw [waiting]; rfl

end Waiting

/-- The messages, the wheel and epoll agree about which calls wait: the calls that have not been
handed to `AddTask`. -/
structure Consistent (s : State) : Prop where
  linked : s.timer.Linked
  inside : s.timer.bucketPosNow < s.timer.taskItemBucketSize
  bound : ∀ c, s.message c ≠ none ∨ c ∈ s.added → c < s.next
  waiting : ∀ c pm, s.message c = some pm → c ∉ s.added → pm.Waiting c ∧ s.timer.owner c ≠ none
  registered : ∀ c, s.timer.owner c ≠ none → c ∉ s.added ∧ s.message c ≠ none
  first : ∀ fd item, s.interest fd = some item → item.args ∉ s.added ∧
    ∃ pm, s.message item.args = some pm ∧ pm.eachFdTask.find? (·.epollFd == fd) = some item

theorem Consistent.interest {s : State} (consistent : Consistent s) (fd : Int) (item : FdTask)
    (registered : s.interest fd = some item) : item.epollFd = fd ∧ item.args ∉ s.added ∧
      ∃ pm, s.message item.args = some pm ∧ item ∈ pm.eachFdTask := by
  obtain ⟨unwoken, pm, present, found⟩ := consistent.first fd item registered
  exact ⟨by simpa using List.find?_some found, unwoken, pm, present,
    List.mem_of_find?_eq_some found⟩

theorem initial_consistent (now : Reading) : Consistent (initial now) where
  linked := BEpTimer.new_linked now
  inside := by simp [initial, BEpTimer.new, timeWaitSeconds]
  bound := by simp [initial]
  waiting := by simp [initial]
  registered := by simp [initial, BEpTimer.new]
  first := by simp [initial]

/-! ### The prepare pass -/

theorem foldl_perpare (events : List Event) (pm : PollMessage) :
    events.foldl PollMessage.perpare pm = { pm with
      pollfds := events.foldl (fun pollfds event =>
        setRevents event.ptr.epollFd (epollToPollEvents event.events) pollfds) pm.pollfds
      activeFdsNums := pm.activeFdsNums + events.length
      activeFdsNums2 := pm.activeFdsNums2 + events.length
      isRemoveFromTimeoutList := pm.isRemoveFromTimeoutList || !events.isEmpty } := by
  induction events generalizing pm with
  | nil => simp
  | cons event rest ih =>
    rw [List.foldl_cons, ih]
    simp [PollMessage.perpare, Nat.add_comm, Nat.add_left_comm]

/-- The events of a batch that belong to the call `c`. -/
def eventsOf (c : Nat) (batch : List Event) : List Event := batch.filter (·.ptr.args == c)

theorem length_eventsOf (c : Nat) (batch : List Event) :
    (eventsOf c batch).length = (callsOf batch).count c := by
  rw [eventsOf, callsOf, List.count_eq_countP, List.countP_map, List.countP_eq_length_filter]
  rfl

theorem eventsOf_eq_nil {c : Nat} {batch : List Event} (absent : c ∉ callsOf batch) :
    eventsOf c batch = [] := by
  rw [← List.length_eq_zero_iff, length_eventsOf]
  exact List.count_eq_zero.mpr absent

/-- The state `p` after the prepare pass over the events `done`. -/
structure Prepared (s : State) (done : List Event) (p : State) : Prop where
  interest : p.interest = s.interest
  added : p.added = s.added
  next : p.next = s.next
  linked : p.timer.Linked
  pos : p.timer.bucketPosNow = s.timer.bucketPosNow
  size : p.timer.taskItemBucketSize = s.timer.taskItemBucketSize
  owner : ∀ c, p.timer.owner c = if c ∈ callsOf done then none else s.timer.owner c
  tasks : ∀ index task, task.id ∉ callsOf done →
    (task ∈ p.timer.tasks index ↔ task ∈ s.timer.tasks index)
  message : ∀ c, p.message c =
    (s.message c).map (eventsOf c done |>.foldl PollMessage.perpare ·)

theorem Prepared.nil {s : State} (linked : s.timer.Linked) : Prepared s [] s where
  interest := rfl
  added := rfl
  next := rfl
  linked := linked
  pos := rfl
  size := rfl
  owner _ := rfl
  tasks _ _ _ := Iff.rfl
  message c := by simp [eventsOf]

variable {s p t : State} {done rest batch : List Event} {event : Event}

theorem Prepared.step (consistent : Consistent s) (prepared : Prepared s done p)
    (reported : ∃ fd, s.interest fd = some event.ptr) :
    ∃ p', pollPerpare p event = some p' ∧ Prepared s (done ++ [event]) p' := by
  obtain ⟨fd, registered⟩ := reported
  obtain ⟨-, unwoken, pm, present, -⟩ := consistent.interest fd _ registered
  have before := prepared.message event.ptr.args
  rw [present, Option.map_some] at before
  have messages : ∀ c, Function.update p.message event.ptr.args
      (some (((eventsOf event.ptr.args done).foldl PollMessage.perpare pm).perpare event)) c =
      (s.message c).map (eventsOf c (done ++ [event]) |>.foldl PollMessage.perpare ·) := by
    intro c
    by_cases self : c = event.ptr.args
    · subst self
      simp [present, eventsOf]
    · have other : (event.ptr.args == c) = false := by simpa using fun eq => self eq.symm
      simp [self, other, prepared.message, eventsOf]
  by_cases again : event.ptr.args ∈ callsOf done
  · -- the task has left the wheel at an earlier event of the call
    have nonempty : eventsOf event.ptr.args done ≠ [] := by
      have := List.count_pos_iff.mpr again
      rw [← length_eventsOf] at this
      exact List.length_pos_iff.mp this
    have removed : ((eventsOf event.ptr.args done).foldl PollMessage.perpare
        pm).isRemoveFromTimeoutList = true := by
      simp [foldl_perpare, nonempty]
    refine ⟨_, by rw [pollPerpare, before, Option.bind_some, if_pos removed], ?_⟩
    refine ⟨prepared.interest, prepared.added, prepared.next, prepared.linked, prepared.pos,
      prepared.size, ?_, ?_, messages⟩
    · intro c
      simp only [prepared.owner, callsOf_append, List.mem_append, callsOf_cons, callsOf_nil,
        List.mem_singleton]
      by_cases self : c = event.ptr.args
      · subst self; simp [again]
      · simp [self]
    · intro index task absent
      simp only [callsOf_append, List.mem_append, not_or] at absent
      exact prepared.tasks index task absent.1
  · -- the first event of the call: its message is as `poll` left it
    have empty := eventsOf_eq_nil again
    obtain ⟨waiting, owned⟩ := consistent.waiting _ pm present unwoken
    have still : p.timer.owner event.ptr.args ≠ none := by
      rw [prepared.owner, if_neg again]; exact owned
    obtain ⟨timer, taken⟩ := Option.isSome_iff_exists.mp
      (BEpTimer.removeSelfSave_isSome.mpr (Option.isSome_iff_ne_none.mpr still))
    have positions := BEpTimer.removeSelfSave_pos taken
    rw [empty, List.foldl_nil] at before messages
    refine ⟨{ p with
      message := Function.update p.message event.ptr.args (some (pm.perpare event))
      timer := timer }, ?_, ⟨prepared.interest, prepared.added, prepared.next,
      prepared.linked.removeSelfSave taken, positions.1.trans prepared.pos,
      positions.2.trans prepared.size, ?_, ?_, messages⟩⟩
    · simp only [pollPerpare, before, Option.bind_some, waiting.notRemoved, waiting.task, taken,
        Option.map_some]
      rfl
    · intro c
      simp only [BEpTimer.removeSelfSave_owner taken, callsOf_append, List.mem_append,
        callsOf_cons, callsOf_nil, List.mem_singleton]
      by_cases self : c = event.ptr.args
      · subst self; simp
      · simp [self, prepared.owner]
    · intro index task absent
      simp only [callsOf_append, List.mem_append, callsOf_cons, callsOf_nil, List.mem_singleton,
        not_or] at absent
      rw [BEpTimer.removeSelfSave_mem taken absent.2]
      exact prepared.tasks index task absent.1

theorem perparePass_prepared (consistent : Consistent s)
    (reported : ∀ event ∈ batch, ∃ fd, s.interest fd = some event.ptr) :
    ∃ p, perparePass batch s = some p ∧ Prepared s batch p := by
  induction batch using List.reverseRecOn with
  | nil => exact ⟨s, rfl, .nil consistent.linked⟩
  | append_singleton done event ih =>
    obtain ⟨p, ran, prepared⟩ := ih fun event member =>
      reported event (List.mem_append_left _ member)
    obtain ⟨p', stepped, after⟩ := prepared.step consistent
      (reported event (List.mem_append_right _ List.mem_cons_self))
    refine ⟨p', ?_, after⟩
    have passed : done.foldlM pollPerpare s = some p := ran
    simp [perparePass, List.foldlM_append, passed, stepped]

theorem pollPerpare_clock (stepped : pollPerpare s event = some t) :
    t.timer.lastCheckTime = s.timer.lastCheckTime := by
  obtain ⟨pm, -, after⟩ := Option.bind_eq_some_iff.mp stepped
  simp only at after
  split at after
  · cases after
    rfl
  · obtain ⟨task, -, removed⟩ := Option.bind_eq_some_iff.mp after
    obtain ⟨timer, taken, rfl⟩ := Option.map_eq_some_iff.mp removed
    exact BEpTimer.removeSelfSave_clock taken

theorem perparePass_clock (ran : perparePass batch s = some t) :
    t.timer.lastCheckTime = s.timer.lastCheckTime := by
  induction batch generalizing s with
  | nil => cases ran; rfl
  | cons event rest ih =>
    obtain ⟨u, stepped, later⟩ := Option.bind_eq_some_iff.mp ran
    exact (ih later).trans (pollPerpare_clock stepped)

/-! ### The callback pass -/

/-- The message of a call with `left` events to come, after some of its callbacks. -/
def PollMessage.called (pm : PollMessage) (left : Nat) : PollMessage :=
  { pm with
    activeFdsNums2 := left
    isJoinActiveList := left = 0
    task := if left = 0 then none else pm.task }

/-- The state `q` after the callback pass over the events `done`, with `rest` to come. -/
structure Called (p : State) (done rest : List Event) (q : State) : Prop where
  timer : q.timer = p.timer
  next : q.next = p.next
  added : ∀ c, q.added.count c =
    p.added.count c + if c ∈ callsOf done ∧ c ∉ callsOf rest then 1 else 0
  message : ∀ c, q.message c = (p.message c).map fun pm =>
    if c ∈ callsOf done then pm.called ((callsOf rest).count c) else pm
  narrower : ∀ fd item, q.interest fd = some item → p.interest fd = some item
  cleared : ∀ c pm, c ∈ callsOf done → c ∉ callsOf rest → p.message c = some pm →
    ∀ item ∈ pm.eachFdTask, q.interest item.epollFd = none
  kept : ∀ fd, (∀ c pm, c ∈ callsOf done → p.message c = some pm →
    fd ∉ pm.eachFdTask.map (·.epollFd)) → q.interest fd = p.interest fd

theorem Called.nil : Called p [] rest p where
  timer := rfl
  next := rfl
  added := by simp
  message c := by simp
  narrower _ _ registered := registered
  cleared := by simp
  kept _ _ := rfl

/-- The call of the event and what its message looks like after the prepare pass. -/
structure Counts (p : State) (events : List Event) (event : Event) (pm : PollMessage) : Prop where
  present : p.message event.ptr.args = some pm
  notJoined : pm.isJoinActiveList = false
  task : pm.task = some event.ptr.args
  count : pm.activeFdsNums2 = (callsOf events).count event.ptr.args

/-- Before its last callback a message counts the events to come. -/
theorem Called.before {q : State} {pm : PollMessage} (called : Called p done (event :: rest) q)
    (counts : Counts p (done ++ event :: rest) event pm) :
    q.message event.ptr.args =
      some { pm with activeFdsNums2 := (callsOf rest).count event.ptr.args + 1 } := by
  have count := counts.count
  have here : event.ptr.args ∈ callsOf (event :: rest) := List.mem_cons_self
  rw [called.message, counts.present, Option.map_some]
  split
  · simp [PollMessage.called, counts.notJoined]
  next first =>
    -- this is the first callback of the call, so the prepare pass has counted just these events
    have none := List.count_eq_zero.mpr first
    rw [callsOf_append, List.count_append, none, callsOf_cons, List.count_cons_self] at count
    congr 1
    rw [← Nat.zero_add ((callsOf rest).count event.ptr.args + 1), ← count]

theorem mem_callsOf_of_ne {c : Nat} (other : c ≠ event.ptr.args) :
    c ∈ callsOf (event :: rest) ↔ c ∈ callsOf rest := by
  simp [other]

/-- The call has an event to come, so its counter stays above 0. -/
theorem Called.stepMore {q : State} {pm : PollMessage} (called : Called p done (event :: rest) q)
    (counts : Counts p (done ++ event :: rest) event pm) (more : event.ptr.args ∈ callsOf rest) :
    ∃ q', pollCallback q event = some q' ∧ Called p (done ++ [event]) rest q' := by
  refine ⟨{ q with
    message := Function.update q.message event.ptr.args (some
      { pm with activeFdsNums2 := (callsOf rest).count event.ptr.args }) }, ?_,
    called.timer, called.next, ?_, ?_, called.narrower, ?_, ?_⟩
  · rw [pollCallback, called.before counts, Option.bind_some]
    simp only [decrement]
    simp [List.count_eq_zero, more]
  · intro c
    -- an event of the same call comes later, so this one adds nothing yet
    rw [called.added]
    by_cases self : c = event.ptr.args
    · subst self; simp [more]
    · simp [self]
  · intro c
    by_cases self : c = event.ptr.args
    · subst self
      simp [counts.present, PollMessage.called, counts.notJoined, List.count_eq_zero, more]
    · have other : event.ptr.args ≠ c := fun eq => self eq.symm
      simp [self, other, called.message]
  · intro c pm' hit last
    by_cases self : c = event.ptr.args
    · subst self; exact absurd more last
    · apply called.cleared c pm'
      · simpa [self] using hit
      · rw [mem_callsOf_of_ne self]; exact last
  · intro fd free
    apply called.kept fd
    intro c pm' hit
    exact free c pm' (by simp [hit])

/-- The last event of the call: its counter reaches 0 and the task is handed over. -/
theorem Called.stepLast {q : State} {pm : PollMessage} (called : Called p done (event :: rest) q)
    (counts : Counts p (done ++ event :: rest) event pm) (last : event.ptr.args ∉ callsOf rest) :
    ∃ q', pollCallback q event = some q' ∧ Called p (done ++ [event]) rest q' := by
  have ended : (callsOf rest).count event.ptr.args = 0 := List.count_eq_zero.mpr last
  have before := called.before counts
  rw [ended] at before
  refine ⟨{ q with
    interest := fun fd => if fd ∈ pm.eachFdTask.map (·.epollFd) then none else q.interest fd
    added := q.added ++ [event.ptr.args]
    message := Function.update q.message event.ptr.args (some (pm.called 0)) }, ?_,
    called.timer, called.next, ?_, ?_, ?_, ?_, ?_⟩
  · rw [pollCallback, before, Option.bind_some]
    simp [decrement, counts.notJoined, counts.task, foldl_epollCtlDel, PollMessage.called]
  · intro c
    rw [List.count_append, called.added]
    by_cases self : c = event.ptr.args
    · subst self; simp [last]
    · have other : event.ptr.args ≠ c := fun eq => self eq.symm
      simp [self, other]
  · intro c
    by_cases self : c = event.ptr.args
    · subst self
      simp [counts.present, ended]
    · have other : event.ptr.args ≠ c := fun eq => self eq.symm
      simp [self, other, called.message]
  · intro fd item registered
    simp only at registered
    split at registered
    · cases registered
    · exact called.narrower fd item registered
  · intro c pm' hit passed found item member
    simp only
    split
    · rfl
    next outside =>
      -- the descriptor is none of this call's, so another call has let go of it
      have self : c ≠ event.ptr.args := by
        rintro rfl
        rw [counts.present] at found
        cases found
        exact outside (List.mem_map_of_mem member)
      apply called.cleared c pm' _ _ found item member
      · simpa [self] using hit
      · rw [mem_callsOf_of_ne self]; exact passed
  · intro fd free
    have own := free event.ptr.args pm (by simp) counts.present
    simp only [own, if_false]
    apply called.kept fd
    intro c pm' hit
    exact free c pm' (by simp [hit])

theorem Called.step {q : State} {pm : PollMessage} (called : Called p done (event :: rest) q)
    (counts : Counts p (done ++ event :: rest) event pm) :
    ∃ q', pollCallback q event = some q' ∧ Called p (done ++ [event]) rest q' := by
  by_cases more : event.ptr.args ∈ callsOf rest
  · exact called.stepMore counts more
  · exact called.stepLast counts more

theorem callbackPass_called
    (counted : ∀ event ∈ batch, ∃ pm, Counts p batch event pm) (split : batch = done ++ rest) :
    ∃ q, callbackPass done p = some q ∧ Called p done rest q := by
  induction done using List.reverseRecOn generalizing rest with
  | nil => exact ⟨p, rfl, .nil⟩
  | append_singleton done event ih =>
    rw [List.append_assoc, List.singleton_append] at split
    obtain ⟨q, ran, called⟩ := ih split
    obtain ⟨pm, counts⟩ := counted event (by simp [split])
    obtain ⟨q', stepped, after⟩ := called.step (split ▸ counts)
    refine ⟨q', ?_, after⟩
    have passed : done.foldlM pollCallback p = some q := ran
    simp [callbackPass, List.foldlM_append, passed, stepped]

/-! ### Waking calls -/

/-- The calls `woken` have been handed to `AddTask` and let go of everything they had
registered; no other call has changed. -/
structure Wakes (s : State) (woken : List Nat) (t : State) : Prop where
  next : t.next = s.next
  linked : t.timer.Linked
  inside : t.timer.bucketPosNow < t.timer.taskItemBucketSize
  owner : ∀ c, t.timer.owner c = if c ∈ woken then none else s.timer.owner c
  added : ∀ c, c ∈ t.added ↔ c ∈ s.added ∨ c ∈ woken
  present : ∀ c ∈ woken, s.message c ≠ none
  kept : ∀ c, c ∉ woken → t.message c = s.message c
  gone : ∀ c, s.message c = none → t.message c = none
  narrower : ∀ fd item, t.interest fd = some item → s.interest fd = some item
  cleared : ∀ c pm, c ∈ woken → s.message c = some pm →
    ∀ item ∈ pm.eachFdTask, t.interest item.epollFd = none

theorem Wakes.consistent {woken : List Nat} (wakes : Wakes s woken t)
    (before : Consistent s) : Consistent t where
  linked := wakes.linked
  inside := wakes.inside
  bound c held := by
    rw [wakes.next]
    apply before.bound
    rcases held with present | added
    · exact .inl fun absent => present (wakes.gone c absent)
    · exact ((wakes.added c).mp added).elim .inr fun member => .inl (wakes.present c member)
  waiting c pm present unwoken := by
    rw [wakes.added, not_or] at unwoken
    rw [wakes.kept c unwoken.2] at present
    rw [wakes.owner, if_neg unwoken.2]
    exact before.waiting c pm present unwoken.1
  registered c owned := by
    rw [wakes.owner] at owned
    split at owned
    · exact absurd rfl owned
    next unwoken =>
      have old := before.registered c owned
      rw [wakes.added, not_or, wakes.kept c unwoken]
      exact ⟨⟨old.1, unwoken⟩, old.2⟩
  first fd item registered := by
    obtain ⟨unwoken, pm, present, found⟩ :=
      before.first fd item (wakes.narrower fd item registered)
    have same : item.epollFd = fd := by simpa using List.find?_some found
    -- a woken call has taken its registrations back
    have other : item.args ∉ woken := by
      intro woken
      have cleared := wakes.cleared item.args pm woken present item
        (List.mem_of_find?_eq_some found)
      rw [same, registered] at cleared
      cases cleared
    rw [wakes.added, not_or, wakes.kept _ other]
    exact ⟨⟨unwoken, other⟩, pm, present, found⟩

/-- The calls `woken` were pending, and nothing but their own descriptors was deregistered. -/
structure Spares (s : State) (woken : List Nat) (t : State) : Prop where
  pending : ∀ c ∈ woken, c ∉ s.added
  interest : ∀ fd, (∀ c pm, c ∈ woken → s.message c = some pm →
    fd ∉ pm.eachFdTask.map (·.epollFd)) → t.interest fd = s.interest fd

/-- After the prepare pass each call counts its events, and the callbacks find it so. -/
theorem Prepared.counted (consistent : Consistent s) (prepared : Prepared s batch p)
    (reported : ∀ event ∈ batch, ∃ fd, s.interest fd = some event.ptr) :
    ∀ event ∈ batch, ∃ pm, Counts p batch event pm := by
  intro event member
  obtain ⟨fd, registered⟩ := reported event member
  obtain ⟨-, unwoken, pm, present, -⟩ := consistent.interest fd _ registered
  obtain ⟨waiting, -⟩ := consistent.waiting _ pm present unwoken
  refine ⟨_, by rw [prepared.message, present, Option.map_some], ?_, ?_, ?_⟩
  · rw [foldl_perpare, waiting.notJoined]
  · rw [foldl_perpare, waiting.task]
  · simp only [foldl_perpare, waiting.activeFdsNums2, length_eventsOf, Nat.zero_add]

theorem Called.wakes {q : State} (consistent : Consistent s) (prepared : Prepared s batch p)
    (called : Called p batch [] q)
    (reported : ∀ event ∈ batch, ∃ fd, s.interest fd = some event.ptr) :
    Wakes s (callsOf batch) q where
  next := by rw [called.next, prepared.next]
  linked := by rw [called.timer]; exact prepared.linked
  inside := by rw [called.timer, prepared.pos, prepared.size]; exact consistent.inside
  owner c := by rw [called.timer, prepared.owner]
  added c := by
    rw [← List.count_pos_iff, called.added, prepared.added, ← List.count_pos_iff (l := s.added)]
    by_cases hit : c ∈ callsOf batch <;> simp [hit]
  present c hit := by
    obtain ⟨event, member, rfl⟩ := List.mem_map.mp hit
    obtain ⟨fd, registered⟩ := reported event member
    obtain ⟨-, -, pm, present, -⟩ := consistent.interest fd _ registered
    rw [present]
    exact Option.some_ne_none pm
  kept c unhit := by
    rw [called.message, prepared.message, eventsOf_eq_nil unhit]
    simp [unhit]
  gone c absent := by rw [called.message, prepared.message, absent]; rfl
  narrower fd item registered := by
    rw [← prepared.interest]; exact called.narrower fd item registered
  cleared c pm hit present item member := by
    refine called.cleared c _ hit (by simp) (by rw [prepared.message, present, Option.map_some])
      item ?_
    rw [foldl_perpare]
    exact member

theorem Called.spares {q : State} (consistent : Consistent s) (prepared : Prepared s batch p)
    (called : Called p batch [] q)
    (reported : ∀ event ∈ batch, ∃ fd, s.interest fd = some event.ptr) :
    Spares s (callsOf batch) q where
  pending c hit := by
    obtain ⟨event, member, rfl⟩ := List.mem_map.mp hit
    obtain ⟨fd, found⟩ := reported event member
    exact (consistent.interest fd _ found).2.1
  interest fd free := by
    rw [called.kept fd, prepared.interest]
    intro c pm hit present
    rw [prepared.message] at present
    obtain ⟨pm', original, rfl⟩ := Option.map_eq_some_iff.mp present
    rw [foldl_perpare]
    exact free c pm' hit original

/-! ### Runs -/

theorem epollWait_mem {reports : List (Int × BitVec 32)}
    (reported : epollWait s reports = some batch) (event : Event) :
    event ∈ batch ↔ ∃ fd, (fd, event.events) ∈ reports ∧ s.interest fd = some event.ptr := by
  induction reports generalizing batch with
  | nil => cases reported; simp
  | cons report rest ih =>
    simp only [epollWait, List.mapM_cons, Option.bind_eq_bind, Option.pure_def] at reported ih
    obtain ⟨head, front, reported⟩ := Option.bind_eq_some_iff.mp reported
    obtain ⟨tail, later, ended⟩ := Option.bind_eq_some_iff.mp reported
    cases ended
    obtain ⟨item, registered, rfl⟩ := Option.map_eq_some_iff.mp front
    rw [List.mem_cons, ih later]
    constructor
    · rintro (rfl | ⟨fd, member, found⟩)
      · exact ⟨report.1, List.mem_cons_self, registered⟩
      · exact ⟨fd, List.mem_cons_of_mem _ member, found⟩
    · rintro ⟨fd, member, found⟩
      rcases List.mem_cons.mp member with rfl | member
      · left
        rw [registered] at found
        cases found
        rfl
      · exact .inr ⟨fd, member, found⟩

theorem epollWait_registered {reports : List (Int × BitVec 32)}
    (reported : epollWait s reports = some batch) :
    ∀ event ∈ batch, ∃ fd, s.interest fd = some event.ptr := by
  intro event member
  obtain ⟨fd, -, registered⟩ := (epollWait_mem reported event).mp member
  exact ⟨fd, registered⟩

/-- What the loop of `Deal` over the tasks of a merge has done after the calls `moved`. -/
structure TimedOut (s : State) (moved : List Nat) (t : State) : Prop where
  timer : t.timer = s.timer
  next : t.next = s.next
  added : t.added = s.added ++ moved
  kept : ∀ c, c ∉ moved → t.message c = s.message c
  items : ∀ c, (t.message c).map (·.eachFdTask) = (s.message c).map (·.eachFdTask)
  narrower : ∀ fd item, t.interest fd = some item → s.interest fd = some item
  cleared : ∀ c pm, c ∈ moved → s.message c = some pm →
    ∀ item ∈ pm.eachFdTask, t.interest item.epollFd = none
  spared : ∀ fd, (∀ c pm, c ∈ moved → s.message c = some pm →
    fd ∉ pm.eachFdTask.map (·.epollFd)) → t.interest fd = s.interest fd
  marked : ∀ c ∈ moved, ∃ pm, t.message c = some pm ∧ pm.isTasktimeout = true

theorem TimedOut.nil : TimedOut s [] s where
  timer := rfl
  next := rfl
  added := by simp
  kept _ _ := rfl
  items _ := rfl
  narrower _ _ registered := registered
  cleared := by simp
  spared _ _ := rfl
  marked := by simp

theorem TimedOut.step {moved : List Nat} {c : Nat} (timedOut : TimedOut s moved t)
    (present : s.message c ≠ none) :
    ∃ u, pollTimeout t c = some u ∧ TimedOut s (moved ++ [c]) u := by
  obtain ⟨pm, original⟩ := Option.ne_none_iff_exists'.mp present
  -- an earlier round may have changed the message of `c`, but not its descriptors
  have here := timedOut.items c
  rw [original, Option.map_some] at here
  obtain ⟨pm', found, same⟩ := Option.map_eq_some_iff.mp here
  refine ⟨{ t with
    interest := fun fd =>
      if fd ∈ pm'.eachFdTask.map (·.epollFd) then none else t.interest fd
    added := t.added ++ [c]
    message := Function.update t.message c (some { pm' with isTasktimeout := true }) },
    ?_, timedOut.timer, timedOut.next, ?_, ?_, ?_, ?_, ?_, ?_, ?_⟩
  · simp [pollTimeout, found, foldl_epollCtlDel]
  · simp [timedOut.added]
  · intro c' absent
    simp only [List.mem_append, List.mem_singleton, not_or] at absent
    simp [absent.2, timedOut.kept c' absent.1]
  · intro c'
    by_cases self : c' = c
    · subst self; simp [original, same]
    · simp [self, timedOut.items c']
  · intro fd item registered
    simp only at registered
    split at registered
    · cases registered
    · exact timedOut.narrower fd item registered
  · intro c' pm'' member before item inside
    simp only [same]
    split
    · rfl
    next outside =>
      rcases List.mem_append.mp member with earlier | now
      · exact timedOut.cleared c' pm'' earlier before item inside
      · rw [List.mem_singleton.mp now, original] at before
        cases before
        exact absurd (List.mem_map_of_mem inside) outside
  · intro fd free
    have own := free c pm (by simp) original
    simp only [same, own, if_false]
    apply timedOut.spared fd
    intro c' pm'' member before
    exact free c' pm'' (List.mem_append_left _ member) before
  · intro c' member
    by_cases self : c' = c
    · subst self
      exact ⟨_, Function.update_self .., rfl⟩
    · obtain ⟨pm'', after, marked⟩ := timedOut.marked c' (by simpa [self] using member)
      exact ⟨pm'', by simpa [self] using after, marked⟩

theorem pollTimeout_all (moved : List Nat) (present : ∀ c ∈ moved, s.message c ≠ none) :
    ∃ t, moved.foldlM pollTimeout s = some t ∧ TimedOut s moved t := by
  induction moved using List.reverseRecOn with
  | nil => exact ⟨s, rfl, .nil⟩
  | append_singleton done c ih =>
    obtain ⟨t, ran, timedOut⟩ := ih fun c member => present c (List.mem_append_left _ member)
    obtain ⟨u, stepped, after⟩ := timedOut.step
      (present c (List.mem_append_right _ List.mem_cons_self))
    exact ⟨u, by simp [List.foldlM_append, ran, stepped], after⟩

theorem mergePass_wakes {now : Reading} (consistent : Consistent s)
    (returned : mergePass now s = some t) : ∃ woken, Wakes s woken t ∧ Spares s woken t ∧
      (∀ c ∈ woken, ∃ pm, t.message c = some pm ∧ pm.isTasktimeout = true) ∧
      ∀ c, c ∈ woken ↔ ∃ index, s.timer.bucketPosNow < index ∧ index ≤ s.timer.targetPos now ∧
        ∃ task ∈ s.timer.tasks index, task.id = c := by
  obtain ⟨⟨timer, result⟩, ran, looped⟩ := Option.bind_eq_some_iff.mp returned
  have merges : s.timer.Merges now timer result := ⟨_, ran⟩
  obtain ⟨taken, counted⟩ := consistent.linked.merge merges
  have drained := merges.merged consistent.inside
  have present : ∀ c ∈ BEpTimer.ids result, s.message c ≠ none := fun c member =>
    (consistent.registered c (taken.registered c member)).2
  obtain ⟨t', ended, timedOut⟩ :=
    pollTimeout_all (s := { s with timer := timer }) (BEpTimer.ids result) present
  simp only [TaskItemsList.popAll_eq counted] at looped
  obtain rfl : t' = t := Option.some.inj (ended.symm.trans looped)
  refine ⟨BEpTimer.ids result, ⟨timedOut.next, ?_, ?_, ?_, ?_, present, timedOut.kept, ?_,
    timedOut.narrower, timedOut.cleared⟩, ⟨?_, timedOut.spared⟩, timedOut.marked, drained.mem_ids⟩
  · rw [timedOut.timer]; exact taken.linked
  · rw [timedOut.timer, drained.pos, drained.size]
    exact Nat.mod_lt _ (Nat.zero_lt_of_lt consistent.inside)
  · rw [timedOut.timer]; exact taken.owner
  · simp [timedOut.added]
  · intro c absent
    have none := timedOut.items c
    simp only [absent, Option.map_none, Option.map_eq_none_iff] at none
    exact none
  · intro c member
    exact (consistent.registered c (taken.registered c member)).1

/-- What the two passes over a batch have done before the merge. -/
structure Passed (s : State) (batch : List Event) (q : State) : Prop where
  wakes : Wakes s (callsOf batch) q
  spares : Spares s (callsOf batch) q
  joined : ∀ c pm, c ∈ callsOf batch → q.message c = some pm →
    pm.isJoinActiveList = true ∧ pm.isTasktimeout = false ∧ 0 < pm.activeFdsNums
  pos : q.timer.bucketPosNow = s.timer.bucketPosNow
  target : ∀ now, q.timer.targetPos now = s.timer.targetPos now
  tasks : ∀ index task, task ∈ q.timer.tasks index ↔
    task ∈ s.timer.tasks index ∧ task.id ∉ callsOf batch

theorem Called.joined {q : State} (consistent : Consistent s) (prepared : Prepared s batch p)
    (called : Called p batch [] q)
    (reported : ∀ event ∈ batch, ∃ fd, s.interest fd = some event.ptr) {c : Nat}
    {pm : PollMessage} (hit : c ∈ callsOf batch) (present : q.message c = some pm) :
    pm.isJoinActiveList = true ∧ pm.isTasktimeout = false ∧ 0 < pm.activeFdsNums := by
  rw [called.message, prepared.message] at present
  obtain ⟨pm', original, rfl⟩ := Option.map_eq_some_iff.mp present
  obtain ⟨pm'', before, rfl⟩ := Option.map_eq_some_iff.mp original
  obtain ⟨waiting, -⟩ := consistent.waiting c pm'' before
    ((called.spares consistent prepared reported).pending c hit)
  -- `poll` has left the message blank, so its counter is the number of its events
  have some_event : 0 < (eventsOf c batch).length := by
    rw [length_eventsOf]
    exact List.count_pos_iff.mpr hit
  rw [if_pos hit, foldl_perpare, waiting]
  refine ⟨by simp [PollMessage.called], rfl, ?_⟩
  simp only [PollMessage.called, PollMessage.new]
  omega

theorem Called.passed {q : State} (consistent : Consistent s)
    (ran : perparePass batch s = some p) (prepared : Prepared s batch p)
    (called : Called p batch [] q)
    (reported : ∀ event ∈ batch, ∃ fd, s.interest fd = some event.ptr) : Passed s batch q where
  wakes := called.wakes consistent prepared reported
  spares := called.spares consistent prepared reported
  joined _ _ hit present := called.joined consistent prepared reported hit present
  pos := by rw [called.timer, prepared.pos]
  target now := by
    simp only [BEpTimer.targetPos, called.timer, prepared.pos, prepared.size,
      perparePass_clock ran]
  tasks index task := by
    have wakes := called.wakes consistent prepared reported
    by_cases hit : task.id ∈ callsOf batch
    · simp only [hit, not_true_eq_false, and_false, iff_false]
      intro member
      have owned := (wakes.linked.owner task.id index).mpr (List.mem_map_of_mem member)
      rw [wakes.owner, if_pos hit] at owned
      cases owned
    · rw [called.timer, prepared.tasks index task hit]
      simp [hit]

theorem deal_passed {reports : List (Int × BitVec 32)} {now : Reading}
    (consistent : Consistent s) (returned : deal s reports now = some t) :
    ∃ batch q, epollWait s reports = some batch ∧ Passed s batch q ∧ Consistent q ∧
      mergePass now q = some t := by
  obtain ⟨batch, reported, dealt⟩ := Option.bind_eq_some_iff.mp returned
  have registered := epollWait_registered reported
  obtain ⟨p, prepares, prepared⟩ := perparePass_prepared consistent registered
  obtain ⟨q, calls, called⟩ := callbackPass_called (prepared.counted consistent registered)
    (List.append_nil batch).symm
  rw [prepares, Option.bind_some, calls, Option.bind_some] at dealt
  have passed := called.passed consistent prepares prepared registered
  exact ⟨batch, q, reported, passed, passed.wakes.consistent consistent, dealt⟩

theorem deal_consistent {reports : List (Int × BitVec 32)} {now : Reading}
    (consistent : Consistent s) (returned : deal s reports now = some t) : Consistent t := by
  obtain ⟨batch, q, -, -, middle, merged⟩ := deal_passed consistent returned
  obtain ⟨woken, wakes, -⟩ := mergePass_wakes middle merged
  exact wakes.consistent middle

theorem poll_consistent (pollable : Int → Bool) (consistent : Consistent s) (fds : List PollFd)
    (timeout : BitVec 32) : Consistent (poll pollable s fds timeout) := by
  -- the new call is known to nobody: its id lies above every id in use
  have unused : s.message s.next = none := by
    by_contra present
    exact absurd (consistent.bound s.next (.inl present)) (Nat.lt_irrefl _)
  have unwoken : s.next ∉ s.added := fun added =>
    absurd (consistent.bound s.next (.inr added)) (Nat.lt_irrefl _)
  have free : s.timer.owner s.next = none := by
    by_contra owned
    exact (consistent.registered s.next owned).2 unused
  simp only [poll, foldl_epollCtlAdd]
  constructor
  · exact consistent.linked.register free _
  · exact consistent.inside
  · intro c held
    have old := consistent.bound c
    by_cases self : c = s.next
    · subst self; exact Nat.lt_succ_self _
    · simp only [Function.update_of_ne self] at held
      exact Nat.lt_succ_of_lt (old held)
  · intro c pm present waiting
    by_cases self : c = s.next
    · subst self
      simp only [Function.update_self, Option.some.injEq] at present
      subst present
      exact ⟨PollMessage.new_waiting _ fds, by simp [BEpTimer.register_owner]⟩
    · simp only [Function.update_of_ne self] at present
      have old := consistent.waiting c pm present waiting
      simpa [BEpTimer.register_owner, self] using old
  · intro c owned
    by_cases self : c = s.next
    · subst self; exact ⟨unwoken, by simp⟩
    · simp only [BEpTimer.register_owner, ne_eq, Function.update_of_ne self] at owned ⊢
      exact consistent.registered c owned
  · intro fd item registered
    -- `EPOLL_CTL_ADD` keeps a descriptor that is registered already
    rcases Option.or_eq_some_iff.mp registered with old | ⟨-, new⟩
    · obtain ⟨waiting, pm, present, found⟩ := consistent.first fd item old
      have self : item.args ≠ s.next := by
        intro eq
        rw [eq, unused] at present
        cases present
      exact ⟨waiting, pm, by simpa [self] using present, found⟩
    · split at new
      · have args : item.args = s.next := by
          obtain ⟨entry, -, rfl⟩ := List.mem_map.mp (List.mem_of_find?_eq_some new)
          rfl
        rw [args]
        exact ⟨unwoken, _, by simp, new⟩
      · cases new

theorem pollReturn_consistent {c v : Nat} (consistent : Consistent s) (woken : c ∈ s.added)
    (returned : pollReturn s c = some (t, v)) : Consistent t := by
  -- a woken call is in no slot of the wheel
  have free : s.timer.owner c = none := by
    by_contra owned
    exact (consistent.registered c owned).1 woken
  obtain ⟨timer, message, added, next, narrower⟩ := pollReturn_ended returned
  constructor
  · rw [timer]; exact consistent.linked
  · rw [timer]; exact consistent.inside
  · intro c' held
    rw [message, added] at held
    rw [next]
    apply consistent.bound
    by_cases self : c' = c
    · subst self; exact .inr woken
    · rw [Function.update_of_ne self] at held; exact held
  · intro c' pm present waiting
    rw [message] at present
    rw [added] at waiting
    have self : c' ≠ c := fun eq => waiting (eq ▸ woken)
    rw [Function.update_of_ne self] at present
    rw [timer]
    exact consistent.waiting c' pm present waiting
  · intro c' owned
    rw [timer] at owned
    rw [added, message]
    have self : c' ≠ c := by
      rintro rfl
      exact owned free
    rw [Function.update_of_ne self]
    exact consistent.registered c' owned
  · intro fd item registered
    obtain ⟨waiting, pm, present, found⟩ :=
      consistent.first fd item (narrower fd item registered)
    have self : item.args ≠ c := fun eq => waiting (eq ▸ woken)
    rw [added, message, Function.update_of_ne self]
    exact ⟨waiting, pm, present, found⟩

theorem step_consistent {pollable : Int → Bool} {label : Label} (consistent : Consistent s)
    (stepped : step pollable s label = some t) : Consistent t := by
  cases label with
  | poll fds timeout =>
    simp only [step] at stepped
    split at stepped
    · cases stepped
      exact consistent
    · cases stepped
      exact poll_consistent pollable consistent fds timeout
  | deal reports now => exact deal_consistent consistent stepped
  | resume c =>
    simp only [step] at stepped
    split at stepped
    next woken =>
      obtain ⟨⟨t', v⟩, returned, rfl⟩ := Option.map_eq_some_iff.mp stepped
      exact pollReturn_consistent consistent woken returned
    · cases stepped

theorem reachable_consistent {pollable : Int → Bool}
    (reached : (machine pollable).Reachable s) : Consistent s := by
  refine reached.invariant Consistent ?_ fun _ _ _ consistent _ stepped =>
    step_consistent consistent stepped
  rintro _ ⟨now, rfl⟩
  exact initial_consistent now

/-! ### What a batch does to each call -/

/-- The calls that have not returned wait on different file descriptors. -/
def Apart (s : State) : Prop :=
  ∀ c c' pm pm', s.message c = some pm → s.message c' = some pm' → c ≠ c' →
    ∀ item ∈ pm.eachFdTask, ∀ item' ∈ pm'.eachFdTask, item.epollFd ≠ item'.epollFd

/-- The call `c` is handed to `AddTask` once, at the last of its callbacks, and has nothing left
in the wheel or in epoll. -/
structure WokenBy (s : State) (batch : List Event) (p q : State) (c : Nat) : Prop where
  once : q.added.count c = 1
  last : ∀ done rest, batch = done ++ rest → ∃ between, callbackPass done p = some between ∧
    between.added.count c = if c ∈ callsOf rest then 0 else 1
  outOfWheel : ∀ index, ∀ task ∈ q.timer.tasks index, task.id ≠ c
  deregistered : ∀ pm, s.message c = some pm →
    ∀ item ∈ pm.eachFdTask, q.interest item.epollFd = none

/-- The call `c` is as it was: its message, its task and its registrations. -/
structure LeftAlone (s q : State) (c : Nat) : Prop where
  message : q.message c = s.message c
  added : q.added.count c = s.added.count c
  tasks : ∀ index task, task.id = c →
    (task ∈ q.timer.tasks index ↔ task ∈ s.timer.tasks index)
  interest : ∀ fd item, item.args = c →
    (q.interest fd = some item ↔ s.interest fd = some item)

theorem Called.wokenBy {q : State} (consistent : Consistent s) (prepared : Prepared s batch p)
    (called : Called p batch [] q)
    (reported : ∀ event ∈ batch, ∃ fd, s.interest fd = some event.ptr) {c : Nat}
    (hit : c ∈ callsOf batch) : WokenBy s batch p q c := by
  have wakes := called.wakes consistent prepared reported
  have unwoken := (called.spares consistent prepared reported).pending c hit
  have before : p.added.count c = 0 := by
    rw [prepared.added]
    exact List.count_eq_zero.mpr unwoken
  constructor
  · rw [called.added, before]
    simp [hit]
  · intro done rest split
    obtain ⟨between, ran, partly⟩ :=
      callbackPass_called (prepared.counted consistent reported) split
    refine ⟨between, ran, ?_⟩
    rw [partly.added, before]
    by_cases more : c ∈ callsOf rest
    · simp [more]
    · -- no event of `c` is left, so one of those done was its last
      have done_hit : c ∈ callsOf done := by
        rw [split, callsOf_append, List.mem_append] at hit
        exact hit.resolve_right more
      simp [more, done_hit]
  · rintro index task member rfl
    have owned := (wakes.linked.owner task.id index).mpr (List.mem_map_of_mem member)
    rw [wakes.owner, if_pos hit] at owned
    cases owned
  · intro pm present
    exact wakes.cleared c pm hit present

theorem Called.leftAlone {q : State} (consistent : Consistent s) (prepared : Prepared s batch p)
    (called : Called p batch [] q)
    (reported : ∀ event ∈ batch, ∃ fd, s.interest fd = some event.ptr) (apart : Apart s) {c : Nat}
    (unhit : c ∉ callsOf batch) : LeftAlone s q c := by
  have wakes := called.wakes consistent prepared reported
  constructor
  · exact wakes.kept c unhit
  · rw [called.added, prepared.added]
    simp [unhit]
  · intro index task id
    rw [called.timer]
    exact prepared.tasks index task (by rw [id]; exact unhit)
  · intro fd item args
    refine ⟨wakes.narrower fd item, fun old => ?_⟩
    obtain ⟨same, -, pm, present, member⟩ := consistent.interest fd item old
    -- the descriptor belongs to no call of the batch
    rw [called.kept fd, prepared.interest, old]
    intro c' pm' hit found inside
    rw [prepared.message] at found
    obtain ⟨pm'', original, rfl⟩ := Option.map_eq_some_iff.mp found
    rw [foldl_perpare] at inside
    obtain ⟨item', member', fd'⟩ := List.mem_map.mp inside
    have ne : item.args ≠ c' := by
      rw [args]
      rintro rfl
      exact unhit hit
    exact apart item.args c' pm pm'' present original ne item member item' member'
      (by rw [same, fd'])

/-- In every reachable state whose calls wait on different file descriptors, both passes over
any batch that epoll can report come to their end, wake the calls with an event in the batch at
their last callback and leave every other call alone. -/
theorem passes_wake {pollable : Int → Bool} {s : State}
    (reached : (machine pollable).Reachable s) (apart : Apart s)
    {reports : List (Int × BitVec 32)} {batch : List Event}
    (reported : epollWait s reports = some batch) :
    ∃ p q, perparePass batch s = some p ∧ callbackPass batch p = some q ∧
      (∀ c ∈ callsOf batch, WokenBy s batch p q c) ∧
      ∀ c, c ∉ callsOf batch → LeftAlone s q c := by
  have consistent := reachable_consistent reached
  have registered := epollWait_registered reported
  -- the whole batch is prepared before the first callback runs
  obtain ⟨p, prepares, prepared⟩ := perparePass_prepared consistent registered
  obtain ⟨q, calls, called⟩ := callbackPass_called (prepared.counted consistent registered)
    (List.append_nil batch).symm
  exact ⟨p, q, prepares, calls,
    fun _ hit => called.wokenBy consistent prepared registered hit,
    fun _ unhit => called.leftAlone consistent prepared registered apart unhit⟩

/-- One call that waits for input on the descriptors 3 and 4, and a batch in which both are
ready. -/
theorem passes_wake_both :
    let s := poll (fun fd => 0 ≤ fd) (initial 0) [⟨3, pollIn, 0⟩, ⟨4, pollIn, 0⟩] 1000
    let batch : List Event := [⟨⟨0, 4, epollIn⟩, epollIn⟩, ⟨⟨0, 3, epollIn⟩, epollIn⟩]
    (machine fun fd => 0 ≤ fd).Reachable s ∧ Apart s ∧
      epollWait s [(4, epollIn), (3, epollIn)] = some batch ∧
      ∃ p q, perparePass batch s = some p ∧ callbackPass batch p = some q ∧
        (∀ c ∈ callsOf batch, WokenBy s batch p q c) ∧
        ∀ c, c ∉ callsOf batch → LeftAlone s q c := by
  intro s batch
  have reached : (machine fun fd => 0 ≤ fd).Reachable s :=
    .step (a := .poll [⟨3, pollIn, 0⟩, ⟨4, pollIn, 0⟩] 1000) (.start ⟨0, rfl⟩) trivial rfl
  have only : ∀ c pm, s.message c = some pm → c = 0 := by
    intro c pm present
    by_contra other
    simp [s, poll, foldl_epollCtlAdd, initial, other] at present
  have apart : Apart s := by
    intro c c' pm pm' present present' ne
    exact absurd ((only c pm present).trans (only c' pm' present').symm) ne
  have reported : epollWait s [(4, epollIn), (3, epollIn)] = some batch := by decide +kernel
  exact ⟨reached, apart, reported, passes_wake reached apart reported⟩

end BRoutine.Hook
