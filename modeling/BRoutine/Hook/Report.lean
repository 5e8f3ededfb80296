import BRoutine.Hook.Batch

/-!
# What the hooked poll reports

The results of one call of `poll`, against the readiness of its file descriptors. An entry gets
its events exactly when it is the first entry of its descriptor, the descriptor is registered
for the call and the events are among the six that the conversions know. The returned number
always counts the entries with nonzero `revents`.
-/

namespace BRoutine.Hook

/-- The entry `j` is the first of the array for the file descriptor `fd`. -/
def First (pollfds : List PollFd) (j : Nat) (fd : Int) : Prop :=
  ∀ i < j, (pollfds.map (·.fd))[i]? ≠ some fd

/-- A batch reports, for each descriptor that is registered for the call `c`, the ready bits that
the registration asks for and the two that epoll always reports. -/
structure Reports (s : State) (c : Nat) (ready : Int → BitVec 16)
    (reports : List (Int × BitVec 32)) : Prop where
  once : (reports.map (·.1)).Nodup
  bits : ∀ fd item, s.interest fd = some item → item.args = c → ∀ events,
    (fd, events) ∈ reports ↔ events ≠ 0 ∧
      events = (ready fd).setWidth 32 &&& (item.events ||| epollErr ||| epollHup)

/-- Every entry that asked for an event its descriptor is ready for has it in `revents`. -/
def Complete (fds : List PollFd) (ready : Int → BitVec 16) (pm : PollMessage) : Prop :=
  ∀ (j : Nat) (entry : PollFd), fds[j]? = some entry →
    ∃ after : PollFd, pm.pollfds[j]? = some after ∧
      entry.events &&& ready entry.fd &&& ~~~after.revents = 0

/-- Every entry that asked for an event its descriptor is ready for is the first entry of the
descriptor, the descriptor is registered for the call, and the six known bits are enough. -/
def Served (s : State) (c : Nat) (fds : List PollFd) (ready : Int → BitVec 16) : Prop :=
  ∀ (j : Nat) (entry : PollFd), fds[j]? = some entry → entry.events &&& ready entry.fd ≠ 0 →
    First fds j entry.fd ∧ (∃ item, s.interest entry.fd = some item ∧ item.args = c) ∧
      entry.events &&& ready entry.fd &&& ~~~known = 0

/-! ### The loop of pollPerpare over several events -/

/-- The events `writes`, each for a file descriptor, written one after the other. -/
def writeAll (writes : List (Int × BitVec 16)) (pollfds : List PollFd) : List PollFd :=
  writes.foldl (fun pollfds write => setRevents write.1 write.2 pollfds) pollfds

theorem setRevents_map_fd (fd : Int) (revents : BitVec 16) (pollfds : List PollFd) :
    (setRevents fd revents pollfds).map (·.fd) = pollfds.map (·.fd) := by
  induction pollfds with
  | nil => rfl
  | cons entry rest ih =>
    simp only [setRevents]
    split <;> simp [ih]

theorem first_cons_succ {entry : PollFd} {rest : List PollFd} {j : Nat} {fd : Int} :
    First (entry :: rest) (j + 1) fd ↔ entry.fd ≠ fd ∧ First rest j fd := by
  constructor
  · intro first
    refine ⟨by simpa using first 0 (by omega), fun i low => ?_⟩
    simpa using first (i + 1) (by omega)
  · rintro ⟨head, first⟩ i low
    cases i with
    | zero => simpa using head
    | succ i => simpa using first i (by omega)

theorem exists_first {pollfds : List PollFd} {fd : Int} (present : fd ∈ pollfds.map (·.fd)) :
    ∃ (j : Nat) (entry : PollFd), pollfds[j]? = some entry ∧ entry.fd = fd ∧
      First pollfds j fd := by
  induction pollfds with
  | nil => simp at present
  | cons head rest ih =>
    by_cases here : head.fd = fd
    · exact ⟨0, head, rfl, here, fun i low => absurd low (by omega)⟩
    · rw [List.map_cons, List.mem_cons] at present
      obtain ⟨j, entry, there, same, first⟩ := ih (present.resolve_left fun eq => here eq.symm)
      exact ⟨j + 1, entry, there, same, first_cons_succ.mpr ⟨here, first⟩⟩

/-- Only the first entry of the descriptor changes. -/
theorem setRevents_getElem? (fd : Int) (revents : BitVec 16) (pollfds : List PollFd) (j : Nat) :
    ((First pollfds j fd → (setRevents fd revents pollfds)[j]? = pollfds[j]?.map fun entry =>
        if entry.fd = fd then { entry with revents := revents } else entry) ∧
      (¬ First pollfds j fd → (setRevents fd revents pollfds)[j]? = pollfds[j]?)) := by
  induction pollfds generalizing j with
  | nil => simp [setRevents]
  | cons entry rest ih =>
    cases j with
    | zero =>
      refine ⟨fun _ => ?_, fun later => absurd (fun i low => absurd low (by omega)) later⟩
      simp only [setRevents]
      split <;> simp [*]
    | succ j =>
      -- an entry behind the head is the first one only if the head is another descriptor
      have shift : First (entry :: rest) (j + 1) fd ↔ entry.fd ≠ fd ∧ First rest j fd :=
        first_cons_succ
      obtain ⟨changed, same⟩ := ih j
      by_cases here : entry.fd = fd
      · simp [setRevents, here, shift]
      · constructor
        · intro first
          simpa [setRevents, here] using changed (shift.mp first).2
        · intro later
          have : ¬ First rest j fd := fun first => later (shift.mpr ⟨here, first⟩)
          simpa [setRevents, here] using same this

theorem First.congr {pollfds pollfds' : List PollFd} (same : pollfds'.map (·.fd) =
    pollfds.map (·.fd)) {j : Nat} {fd : Int} : First pollfds' j fd ↔ First pollfds j fd := by
  simp only [First, same]

/-- With one write for a descriptor at most, the first entry of each descriptor gets its write
and no other entry changes. -/
theorem writeAll_getElem? {writes : List (Int × BitVec 16)} {pollfds : List PollFd} {j : Nat}
    {entry : PollFd} (once : (writes.map (·.1)).Nodup) (there : pollfds[j]? = some entry) :
    ∃ after, (writeAll writes pollfds)[j]? = some after ∧
      (First pollfds j entry.fd → ∀ revents, (entry.fd, revents) ∈ writes →
        after.revents = revents) ∧
      (¬ (First pollfds j entry.fd ∧ entry.fd ∈ writes.map (·.1)) →
        after.revents = entry.revents) := by
  induction writes generalizing pollfds entry with
  | nil => exact ⟨entry, there, by simp, fun _ => rfl⟩
  | cons write rest ih =>
    simp only [List.map_cons, List.nodup_cons] at once
    obtain ⟨changed, same⟩ := setRevents_getElem? write.1 write.2 pollfds j
    rw [there, Option.map_some] at changed
    rw [there] at same
    have firsts : ∀ fd, First (setRevents write.1 write.2 pollfds) j fd ↔ First pollfds j fd :=
      fun fd => First.congr (setRevents_map_fd _ _ _)
    rw [writeAll, List.foldl_cons, ← writeAll]
    by_cases hit : First pollfds j write.1 ∧ entry.fd = write.1
    · -- the write of this entry: no later one is for its descriptor
      have now := changed hit.1
      rw [if_pos hit.2] at now
      obtain ⟨after, found, -, kept⟩ := ih once.2 now
      have absent : entry.fd ∉ rest.map (·.1) := by rw [hit.2]; exact once.1
      have written := kept fun later => absent later.2
      refine ⟨after, found, ?_, ?_⟩
      · intro first revents member
        rcases List.mem_cons.mp member with rfl | member
        · exact written
        · exact absurd (List.mem_map_of_mem member) absent
      · intro none
        exact absurd ⟨by rw [hit.2]; exact hit.1, by simp [hit.2]⟩ none
    · have now : (setRevents write.1 write.2 pollfds)[j]? = some entry := by
        by_cases first : First pollfds j write.1
        · rw [changed first, if_neg fun eq => hit ⟨first, eq⟩]
        · exact same first
      -- the write is another entry's, so the rest of them decides
      obtain ⟨after, found, got, kept⟩ := ih once.2 now
      rw [firsts] at got kept
      refine ⟨after, found, ?_, ?_⟩
      · intro first revents member
        rcases List.mem_cons.mp member with rfl | member
        · exact absurd ⟨first, rfl⟩ hit
        · exact got first revents member
      · intro none
        apply kept
        rintro ⟨first, member⟩
        exact none ⟨first, by simp [member]⟩

theorem setRevents_countP {fd : Int} {revents : BitVec 16} {pollfds : List PollFd}
    (nonzero : revents ≠ 0) (present : fd ∈ pollfds.map (·.fd))
    (blank : ∀ entry ∈ pollfds, entry.fd = fd → entry.revents = 0) :
    (setRevents fd revents pollfds).countP (·.revents != 0) =
      pollfds.countP (·.revents != 0) + 1 := by
  induction pollfds with
  | nil => simp at present
  | cons entry rest ih =>
    simp only [setRevents]
    split
    next here =>
      -- the entry was blank, and now counts
      have empty := blank entry List.mem_cons_self here
      have counts : (revents != 0) = true := by simpa using nonzero
      rw [List.countP_cons, List.countP_cons, counts, empty]
      simp
    next other =>
      have later : fd ∈ rest.map (·.fd) := by
        rw [List.map_cons, List.mem_cons] at present
        exact present.resolve_left fun eq => other eq.symm
      have more := ih later fun entry member => blank entry (List.mem_cons_of_mem _ member)
      rw [List.countP_cons, List.countP_cons, more]
      omega

theorem setRevents_mem {fd : Int} {revents : BitVec 16} {pollfds : List PollFd} {entry : PollFd}
    (member : entry ∈ setRevents fd revents pollfds) (other : entry.fd ≠ fd) :
    entry ∈ pollfds := by
  induction pollfds with
  | nil => simp [setRevents] at member
  | cons head rest ih =>
    simp only [setRevents] at member
    split at member
    next here =>
      rcases List.mem_cons.mp member with rfl | later
      · exact absurd here other
      · exact List.mem_cons_of_mem _ later
    next =>
      rcases List.mem_cons.mp member with rfl | later
      · exact List.mem_cons_self
      · exact List.mem_cons_of_mem _ (ih later)

/-- Each write of nonzero events makes one more entry nonzero. -/
theorem writeAll_countP {writes : List (Int × BitVec 16)} (pollfds : List PollFd)
    (once : (writes.map (·.1)).Nodup) (nonzero : ∀ write ∈ writes, write.2 ≠ 0)
    (present : ∀ write ∈ writes, write.1 ∈ pollfds.map (·.fd))
    (blank : ∀ entry ∈ pollfds, entry.fd ∈ writes.map (·.1) → entry.revents = 0) :
    (writeAll writes pollfds).countP (·.revents != 0) =
      pollfds.countP (·.revents != 0) + writes.length := by
  induction writes generalizing pollfds with
  | nil => rfl
  | cons write rest ih =>
    simp only [List.map_cons, List.nodup_cons] at once
    have one := setRevents_countP (nonzero write List.mem_cons_self)
      (present write List.mem_cons_self) fun entry member here =>
        blank entry member (by simp [here])
    have others := ih (setRevents write.1 write.2 pollfds) once.2
      (fun write member => nonzero write (List.mem_cons_of_mem _ member))
      (fun write member => by
        rw [setRevents_map_fd]; exact present write (List.mem_cons_of_mem _ member))
      (fun entry member later => by
        have other : entry.fd ≠ write.1 := by
          intro eq
          exact once.1 (eq ▸ later)
        exact blank entry (setRevents_mem member other) (by simp [later]))
    rw [writeAll, List.foldl_cons, ← writeAll, others, one, List.length_cons]
    omega

/-! ### One call -/

/-- The writes of a batch into the array of the call `c`. -/
def writesOf (c : Nat) (batch : List Event) : List (Int × BitVec 16) :=
  (eventsOf c batch).map fun event => (event.ptr.epollFd, epollToPollEvents event.events)

theorem foldl_perpare_writes (c : Nat) (batch : List Event) (pm : PollMessage) :
    ((eventsOf c batch).foldl PollMessage.perpare pm).pollfds =
      writeAll (writesOf c batch) pm.pollfds := by
  rw [foldl_perpare, writeAll, writesOf, List.foldl_map]

theorem epollWait_fds {s : State} (consistent : Consistent s) {batch : List Event}
    {reports : List (Int × BitVec 32)} (reported : epollWait s reports = some batch) :
    batch.map (·.ptr.epollFd) = reports.map (·.1) := by
  induction reports generalizing batch with
  | nil => cases reported; rfl
  | cons report rest ih =>
    simp only [epollWait, List.mapM_cons, Option.bind_eq_bind, Option.pure_def] at reported ih
    obtain ⟨head, front, reported⟩ := Option.bind_eq_some_iff.mp reported
    obtain ⟨tail, later, ended⟩ := Option.bind_eq_some_iff.mp reported
    cases ended
    obtain ⟨item, registered, rfl⟩ := Option.map_eq_some_iff.mp front
    rw [List.map_cons, List.map_cons, ih later, (consistent.interest _ _ registered).1]

/-- The item registered for a descriptor is that of the first entry for it. -/
theorem find?_first {c : Nat} {fds : List PollFd} {fd : Int} {item : FdTask}
    (found : (fds.map fun entry => (⟨c, entry.fd, pollToEpollEvents entry.events⟩ :
      FdTask)).find? (·.epollFd == fd) = some item) {j : Nat} {entry : PollFd}
    (there : fds[j]? = some entry) (same : entry.fd = fd) (first : First fds j fd) :
    item.events = pollToEpollEvents entry.events := by
  induction fds generalizing j with
  | nil => simp at there
  | cons head rest ih =>
    cases j with
    | zero =>
      cases there
      simp only [List.map_cons, List.find?_cons, same, BEq.rfl, Option.some.injEq] at found
      rw [← found]
    | succ j =>
      obtain ⟨other, later⟩ := first_cons_succ.mp first
      have unequal : (head.fd == fd) = false := by simpa using other
      simp only [List.map_cons, List.find?_cons, unequal] at found
      exact ih found there later

variable {s : State} {c : Nat} {pm : PollMessage} {ready : Int → BitVec 16}
  {reports : List (Int × BitVec 32)} {batch : List Event}

/-- Each write of a batch goes to a descriptor registered for the call, and carries what epoll
reports for the first entry of the descriptor. -/
theorem mem_writesOf (consistent : Consistent s) (present : s.message c = some pm)
    (asleep : c ∉ s.added) (reporting : Reports s c ready reports)
    (reported : epollWait s reports = some batch) {j : Nat} {entry : PollFd}
    (there : pm.pollfds[j]? = some entry) (first : First pm.pollfds j entry.fd)
    (revents : BitVec 16) : (entry.fd, revents) ∈ writesOf c batch ↔
      (∃ item, s.interest entry.fd = some item ∧ item.args = c) ∧
        revents = epollToPollEvents (Hook.reported entry.events (ready entry.fd)) ∧
        revents ≠ 0 := by
  obtain ⟨waiting, -⟩ := consistent.waiting c pm present asleep
  -- the mask of the interest list is the one of the first entry
  have bits : ∀ item, s.interest entry.fd = some item → item.args = c →
      (ready entry.fd).setWidth 32 &&& (item.events ||| epollErr ||| epollHup) =
        Hook.reported entry.events (ready entry.fd) := by
    intro item registered args
    obtain ⟨-, pm', present', found⟩ := consistent.first _ item registered
    rw [args, present] at present'
    cases present'
    rw [waiting] at found
    rw [find?_first found there rfl first]
    rfl
  constructor
  · intro member
    obtain ⟨event, mine, written⟩ := List.mem_map.mp member
    obtain ⟨fdEq, rfl⟩ := Prod.mk.inj written
    obtain ⟨inside, args⟩ := List.mem_filter.mp mine
    obtain ⟨fd, listed, registered⟩ := (epollWait_mem reported event).mp inside
    have args : event.ptr.args = c := by simpa using args
    have same := (consistent.interest fd _ registered).1
    rw [fdEq] at same
    subst same
    obtain ⟨nonzero, exactly⟩ := (reporting.bits _ _ registered args _).mp listed
    rw [bits _ registered args] at exactly
    refine ⟨⟨_, registered, args⟩, by rw [exactly], ?_⟩
    rw [exactly] at nonzero ⊢
    exact fun zero => nonzero ((reported_eq_zero _ _).mpr zero)
  · rintro ⟨⟨item, registered, args⟩, rfl, nonzero⟩
    have listed := (reporting.bits _ item registered args _).mpr
      ⟨fun zero => nonzero ((reported_eq_zero _ _).mp zero), (bits item registered args).symm⟩
    have inside := (epollWait_mem reported ⟨item, _⟩).mpr ⟨_, listed, registered⟩
    apply List.mem_map.mpr
    refine ⟨_, List.mem_filter.mpr ⟨inside, by simpa using args⟩, ?_⟩
    simp only [(consistent.interest _ _ registered).1]
    rfl

theorem writesOf_once (consistent : Consistent s) (reporting : Reports s c ready reports)
    (reported : epollWait s reports = some batch) : ((writesOf c batch).map (·.1)).Nodup := by
  have all : (batch.map (·.ptr.epollFd)).Nodup := by
    rw [epollWait_fds consistent reported]; exact reporting.once
  have mine : (eventsOf c batch).Sublist batch := List.filter_sublist
  rw [writesOf, List.map_map]
  exact all.sublist (mine.map _)

/-- Every write goes to some entry, and so to the first entry of its descriptor. -/
theorem writesOf_first (consistent : Consistent s) (present : s.message c = some pm)
    (asleep : c ∉ s.added) (reported : epollWait s reports = some batch)
    {write : Int × BitVec 16} (member : write ∈ writesOf c batch) :
    ∃ (j : Nat) (entry : PollFd), pm.pollfds[j]? = some entry ∧ entry.fd = write.1 ∧
      First pm.pollfds j entry.fd := by
  obtain ⟨waiting, -⟩ := consistent.waiting c pm present asleep
  obtain ⟨event, mine, rfl⟩ := List.mem_map.mp member
  obtain ⟨inside, args⟩ := List.mem_filter.mp mine
  obtain ⟨fd, -, registered⟩ := (epollWait_mem reported event).mp inside
  obtain ⟨same, -, pm', present', item⟩ := consistent.interest fd _ registered
  have args : event.ptr.args = c := by simpa using args
  rw [args, present] at present'
  cases present'
  rw [waiting] at item
  obtain ⟨entry, listed, made⟩ := List.mem_map.mp item
  have fdEq : event.ptr.epollFd ∈ pm.pollfds.map (·.fd) := by
    rw [← made]; exact List.mem_map_of_mem listed
  obtain ⟨j, first, there, firstFd, before⟩ := exists_first fdEq
  exact ⟨j, first, there, firstFd, firstFd ▸ before⟩

/-- The message of the call after both passes over the batch. -/
theorem passes_message (consistent : Consistent s) (present : s.message c = some pm)
    (reported : epollWait s reports = some batch) :
    ∃ p q pm', perparePass batch s = some p ∧ callbackPass batch p = some q ∧
      q.message c = some pm' ∧ pm'.pollfds = writeAll (writesOf c batch) pm.pollfds ∧
      pm'.activeFdsNums = pm.activeFdsNums + (writesOf c batch).length := by
  have registered := epollWait_registered reported
  obtain ⟨p, prepares, prepared⟩ := perparePass_prepared consistent registered
  obtain ⟨q, calls, called⟩ := callbackPass_called (prepared.counted consistent registered)
    (List.append_nil batch).symm
  refine ⟨p, q, _, prepares, calls, by
    rw [called.message, prepared.message, present, Option.map_some, Option.map_some], ?_, ?_⟩
  · rw [← foldl_perpare_writes]
    split <;> rfl
  · rw [foldl_perpare, writesOf, List.length_map]
    split <;> rfl

section Fresh

variable {fds : List PollFd}

theorem new_getElem? {j : Nat} {entry : PollFd} (there : fds[j]? = some entry) :
    (PollMessage.new c fds).pollfds[j]? = some { entry with revents := 0 } := by
  simp [PollMessage.new, there]

theorem new_first (j : Nat) (fd : Int) :
    First (PollMessage.new c fds).pollfds j fd ↔ First fds j fd :=
  First.congr (by simp [PollMessage.new])

/-- Every write of a batch is a nonzero one to an entry that was blank before. -/
theorem writesOf_countP (consistent : Consistent s) (present : s.message c = some (.new c fds))
    (asleep : c ∉ s.added) (reporting : Reports s c ready reports)
    (reported : epollWait s reports = some batch) :
    (writeAll (writesOf c batch) (PollMessage.new c fds).pollfds).countP (·.revents != 0) =
      (writesOf c batch).length := by
  have blank : (PollMessage.new c fds).pollfds.countP (·.revents != 0) = 0 := by
    simp [PollMessage.new]
  rw [writeAll_countP _ (writesOf_once consistent reporting reported), blank, Nat.zero_add]
  · intro write member
    obtain ⟨j, entry, there, same, first⟩ :=
      writesOf_first consistent present asleep reported member
    have written := (mem_writesOf consistent present asleep reporting reported there first
      write.2).mp (by rw [same]; exact member)
    exact written.2.2
  · intro write member
    obtain ⟨j, entry, there, same, -⟩ :=
      writesOf_first consistent present asleep reported member
    rw [← same]
    exact List.mem_map_of_mem (List.mem_of_getElem? there)
  · intro entry member _
    obtain ⟨original, -, rfl⟩ := List.mem_map.mp member
    rfl

theorem served_of_complete (consistent : Consistent s) (present : s.message c = some (.new c fds))
    (asleep : c ∉ s.added) (reporting : Reports s c ready reports)
    (reported : epollWait s reports = some batch)
    (pollfds : pm.pollfds = writeAll (writesOf c batch) (PollMessage.new c fds).pollfds)
    (complete : Complete fds ready pm) : Served s c fds ready := by
  intro j entry there wanted
  obtain ⟨after, found, missed⟩ := complete j entry there
  obtain ⟨after', found', got, kept⟩ :=
    writeAll_getElem? (writesOf_once consistent reporting reported) (new_getElem? there)
  rw [pollfds] at found
  obtain rfl : after = after' := Option.some.inj (found.symm.trans found')
  -- an entry that has got nothing misses what it wanted
  have hit : First (PollMessage.new c fds).pollfds j entry.fd ∧
      entry.fd ∈ (writesOf c batch).map (·.1) := by
    by_contra none
    rw [kept none] at missed
    exact wanted ((and_not_zero _).symm.trans missed)
  obtain ⟨⟨fd, revents⟩, member, same⟩ := List.mem_map.mp hit.2
  simp only at same
  subst same
  have written := (mem_writesOf consistent present asleep reporting reported
    (new_getElem? there) hit.1 revents).mp member
  rw [got hit.1 revents member, written.2.1] at missed
  exact ⟨(new_first j entry.fd).mp hit.1, written.1, (missed_iff _ _).mp missed⟩

theorem complete_of_served (consistent : Consistent s) (present : s.message c = some (.new c fds))
    (asleep : c ∉ s.added) (reporting : Reports s c ready reports)
    (reported : epollWait s reports = some batch)
    (pollfds : pm.pollfds = writeAll (writesOf c batch) (PollMessage.new c fds).pollfds)
    (served : Served s c fds ready) : Complete fds ready pm := by
  intro j entry there
  obtain ⟨after, found, got, -⟩ :=
    writeAll_getElem? (writesOf_once consistent reporting reported) (new_getElem? there)
  refine ⟨after, by rw [pollfds]; exact found, ?_⟩
  by_cases wanted : entry.events &&& ready entry.fd = 0
  · rw [wanted]
    exact BitVec.zero_and
  · obtain ⟨first, registered, enough⟩ := served j entry there wanted
    have missed := (missed_iff _ _).mpr enough
    have first' := (new_first (c := c) j entry.fd).mpr first
    -- some wanted event is ready and known, so epoll reports the descriptor
    have nonzero : epollToPollEvents (Hook.reported entry.events (ready entry.fd)) ≠ 0 := by
      intro zero
      rw [zero] at missed
      exact wanted ((and_not_zero _).symm.trans missed)
    have member := (mem_writesOf consistent present asleep reporting reported
      (new_getElem? there) first' _).mpr ⟨registered, rfl, nonzero⟩
    rw [got first' _ member]
    exact missed

end Fresh

/-- In every reachable state, for every call of `poll` that nobody has woken and every batch that
reports its ready descriptors: the number the call is to return counts its entries with nonzero
`revents`, and the entries have all the events they asked for and that are ready exactly when
each of them is served. -/
theorem reports_iff {pollable : Int → Bool} (reached : (machine pollable).Reachable s)
    {fds : List PollFd} (present : s.message c = some (.new c fds)) (asleep : c ∉ s.added)
    (reporting : Reports s c ready reports) (reported : epollWait s reports = some batch) :
    ∃ p q pm', perparePass batch s = some p ∧ callbackPass batch p = some q ∧
      q.message c = some pm' ∧ pm'.activeFdsNums = pm'.pollfds.countP (·.revents != 0) ∧
      (Complete fds ready pm' ↔ Served s c fds ready) := by
  have consistent := reachable_consistent reached
  -- what the two passes write into the message, and how often they count
  obtain ⟨p, q, pm', prepares, calls, after, pollfds, count⟩ :=
    passes_message consistent present reported
  refine ⟨p, q, pm', prepares, calls, after, ?_, ?_, ?_⟩
  · rw [pollfds, count, writesOf_countP consistent present asleep reporting reported]
    exact Nat.zero_add _
  · exact served_of_complete consistent present asleep reporting reported pollfds
  · exact complete_of_served consistent present asleep reporting reported pollfds

/-- With one registration in epoll a batch is at most its event. -/
theorem Reports.single {fd : Int} {item : FdTask} {events : BitVec 32}
    (only : ∀ fd', s.interest fd' = if fd' = fd then some item else none) (nonzero : events ≠ 0)
    (bits : events = (ready fd).setWidth 32 &&& (item.events ||| epollErr ||| epollHup)) :
    Reports s c ready [(fd, events)] where
  once := by simp
  bits fd' item' found _ events' := by
    rw [only] at found
    split at found
    next same =>
      cases found
      subst same
      constructor
      · intro listed
        rw [List.mem_singleton] at listed
        cases listed
        exact ⟨nonzero, bits⟩
      · rintro ⟨-, eq⟩
        rw [eq, ← bits]
        exact List.mem_cons_self
    · cases found

/-- A call that waits for input on the descriptor 5, which has input. -/
theorem reports_iff_input :
    let s := poll (fun fd => 0 ≤ fd) (initial 0) [⟨5, pollIn, 0⟩] 1000
    let ready : Int → BitVec 16 := fun _ => pollIn
    let batch : List Event := [⟨⟨0, 5, epollIn⟩, epollIn⟩]
    (machine fun fd => 0 ≤ fd).Reachable s ∧ s.message 0 = some (.new 0 [⟨5, pollIn, 0⟩]) ∧
      0 ∉ s.added ∧ Reports s 0 ready [(5, epollIn)] ∧
      epollWait s [(5, epollIn)] = some batch ∧
      ∃ p q pm', perparePass batch s = some p ∧ callbackPass batch p = some q ∧
        q.message 0 = some pm' ∧
        pm'.activeFdsNums = pm'.pollfds.countP (·.revents != 0) ∧
        (Complete [⟨5, pollIn, 0⟩] ready pm' ↔ Served s 0 [⟨5, pollIn, 0⟩] ready) := by
  intro s ready batch
  have reached : (machine fun fd => 0 ≤ fd).Reachable s :=
    .step (a := .poll [⟨5, pollIn, 0⟩] 1000) (.start ⟨0, rfl⟩) trivial rfl
  have registered : ∀ fd, s.interest fd = if fd = 5 then some ⟨0, 5, epollIn⟩ else none :=
    poll_interest_single (by simp) rfl 1000
  have reporting : Reports s 0 ready [(5, epollIn)] :=
    .single registered (by decide) (by decide)
  exact ⟨reached, rfl, by decide +kernel, reporting, by decide +kernel,
    reports_iff reached rfl (by decide +kernel) reporting (by decide +kernel)⟩

/-- Two entries for the descriptor 5 that both wait for input: only the first one gets it. -/
theorem reports_fails :
    ¬ ∀ (s : State) (c : Nat) (fds : List PollFd) (ready : Int → BitVec 16)
      (reports : List (Int × BitVec 32)) (batch : List Event) (pm' : PollMessage),
      (machine fun fd => 0 ≤ fd).Reachable s → s.message c = some (.new c fds) → c ∉ s.added →
      Reports s c ready reports → epollWait s reports = some batch →
      ((perparePass batch s).bind (callbackPass batch)).bind (·.message c) = some pm' →
      Complete fds ready pm' ∧ pm'.activeFdsNums = pm'.pollfds.countP (·.revents != 0) := by
  intro always
  let fds : List PollFd := [⟨5, pollIn, 0⟩, ⟨5, pollIn, 0⟩]
  let s := poll (fun fd => 0 ≤ fd) (initial 0) fds 1000
  let after : PollMessage := ⟨[⟨5, pollIn, pollIn⟩, ⟨5, pollIn, 0⟩], none,
    [⟨0, 5, epollIn⟩, ⟨0, 5, epollIn⟩], 1, 0, true, true, false⟩
  have reached : (machine fun fd => 0 ≤ fd).Reachable s :=
    .step (a := .poll fds 1000) (.start ⟨0, rfl⟩) trivial rfl
  have registered : ∀ fd, s.interest fd = if fd = 5 then some ⟨0, 5, epollIn⟩ else none :=
    poll_interest_single (by simp) rfl 1000
  have reporting : Reports s 0 (fun _ => pollIn) [(5, epollIn)] :=
    .single registered (by decide) (by decide)
  obtain ⟨complete, -⟩ := always s 0 fds (fun _ => pollIn) [(5, epollIn)]
    [⟨⟨0, 5, epollIn⟩, epollIn⟩] after reached rfl (by decide +kernel) reporting
    (by decide +kernel) (by decide +kernel)
  obtain ⟨entry, second, missed⟩ := complete 1 ⟨5, pollIn, 0⟩ rfl
  cases second
  exact absurd missed (by decide)

end BRoutine.Hook
