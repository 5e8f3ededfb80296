import BRoutine.Scheduler.Tasks

/-!
# One owner for every task item

The items at each place are compared with what the schedulers have there: the ready queues, the
polls, the arguments of the calls of `AddTask` to come, and the routine that a loop has gone to.
With this a step of any thread keeps every item at one place, but for the theft that returns the
only task of a queue when it is one of main.
-/

namespace BRoutine.Scheduler

/-! ### Whose tasks they are -/

/-- The routines that `AddTask` is to be called for. -/
def Pc.adding : Pc → List Routine
  | .add tasks _ => tasks
  | _ => []

/-- The items at `p` are tasks of these routines, in this order. -/
def Tasks.of (t : Tasks) (p : Place) : List Routine := (t.items p).map t.self

/-- The items at each place are those of the routines that the schedulers have there. -/
structure Coupled (s : State) (t : Tasks) : Prop where
  queue : ∀ k, t.of (.queue k) = s.activeTasks k
  wheel : t.of .wheel = s.polls
  hand : ∀ k, t.of (.hand k) = (s.pc k).adding
  task : ∀ k, t.of (.task k) = (s.sent k).toList

@[simp] theorem goto_polls (s : State) (k : Nat) (p : Pc) : (s.goto k p).polls = s.polls := rfl

theorem Owned.of_new {t : Tasks} (owned : Owned t) (p q : Place) (r : Routine) :
    (t.new p r).of q = if q = p then t.of q ++ [r] else t.of q := by
  -- the item is new, so no other is given another `self`
  have same : ∀ q, (t.items q).map (Function.update t.self t.made r) = t.of q := by
    intro q
    apply List.map_congr_left
    intro i inside
    have old := owned.lt_made inside
    rw [Function.update_of_ne (by omega)]
  by_cases here : q = p
  · subst here
    simp [Tasks.of, Tasks.new, same]
  · simp [Tasks.of, Tasks.new, same, here]

theorem Tasks.of_move {t : Tasks} {p q : Place} {r : Routine} {rest : List Routine}
    (other : q ≠ p) (front : t.of p = r :: rest) (q' : Place) :
    (t.move p q).of q' =
      if q' = q then t.of q ++ [r] else if q' = p then rest else t.of q' := by
  obtain ⟨i, items, here, mine, theirs⟩ := List.map_eq_cons_iff.mp front
  simp only [Tasks.of, Tasks.move, here]
  by_cases last : q' = q
  · subst last
    simp [mine]
  · rw [if_neg last, Function.update_of_ne last]
    by_cases first : q' = p
    · subst first
      simp [theirs]
    · rw [if_neg first, Function.update_of_ne first]

theorem Tasks.move_nothing {t : Tasks} {p : Place} (nothing : t.of p = []) (q : Place) :
    t.move p q = t := by
  have empty : t.items p = [] := List.map_eq_nil_iff.mp nothing
  simp [Tasks.move, empty]

/-- The first item of a routine is that of the first task of the routine. -/
theorem map_erase_find {self : Nat → Routine} {r : Routine} {i : Nat} (items : List Nat)
    (found : items.find? (fun i => self i = r) = some i) :
    (items.erase i).map self = (items.map self).erase r := by
  have mine : self i = r := by simpa using List.find?_some found
  induction items with
  | nil => cases found
  | cons j items ih =>
    by_cases here : self j = r
    · rw [List.find?_cons_of_pos (by simpa using here)] at found
      cases found
      simp [here]
    · rw [List.find?_cons_of_neg (by simpa using here)] at found
      have other : j ≠ i := fun same => here (same ▸ mine)
      simp [here, other, ih found]

theorem Tasks.of_expire {t : Tasks} {k : Nat} {r : Routine} (inside : r ∈ t.of .wheel)
    (p : Place) : (t.expire k r).of p =
      if p = .hand k then t.of p ++ [r] else if p = .wheel then (t.of p).erase r else t.of p := by
  have found : ∃ i, (t.items .wheel).find? (fun i => t.self i = r) = some i := by
    obtain ⟨i, member, mine⟩ := List.mem_map.mp inside
    rw [← Option.isSome_iff_exists, List.find?_isSome]
    exact ⟨i, member, by simpa using mine⟩
  obtain ⟨i, found⟩ := found
  have mine : t.self i = r := by simpa using List.find?_some found
  simp only [Tasks.of, Tasks.expire, found]
  by_cases here : p = .hand k
  · subst here
    simp [mine]
  · rw [if_neg here, Function.update_of_ne here]
    by_cases wheel : p = .wheel
    · subst wheel
      rw [if_pos rfl, Function.update_self, map_erase_find _ found]
    · rw [if_neg wheel, Function.update_of_ne wheel]

theorem Tasks.of_steal {t : Tasks} {k id : Nat} {locked : Bool} (other : id ≠ k) (p : Place) :
    (t.steal k id locked).of p =
      if p = .queue id then (try2stealTask (t.of (.queue id)) locked).1
      else if p = .queue k then
        t.of p ++ (try2stealTask (t.of (.queue id)) locked).2.toList
      else t.of p := by
  have away : Place.queue k ≠ .queue id := fun same => other (Place.queue.inj same).symm
  unfold Tasks.steal try2stealTask
  cases locked with
  | false => by_cases here : p = .queue id <;> simp [here]
  | true =>
    simp only [Bool.not_true, Bool.false_eq_true, if_false]
    cases front : t.items (.queue id) with
    | nil =>
      have nothing : t.of (.queue id) = [] := by rw [Tasks.of, front]; rfl
      by_cases here : p = .queue id <;> simp [nothing, here]
    | cons a rest =>
      have first : t.of (.queue id) = t.self a :: rest.map t.self := by rw [Tasks.of, front]; rfl
      rw [first]
      cases rest with
      | nil =>
        by_cases main : t.self a = .main
        · -- main's task is linked a second time
          by_cases last : p = .queue k
          · subst last
            simp [main, away, Tasks.of]
          · by_cases here : p = .queue id
            · subst here
              simp [main, last, Tasks.of, front]
            · simp [main, here, last, Tasks.of]
        · simp only [main, if_false, List.map_nil, Tasks.of_move away first]
          by_cases last : p = .queue k
          · simp [last, away]
          · simp [last]
      | cons b rest =>
        by_cases main : t.self a = .main
        · by_cases here : p = .queue id
          · subst here
            simp [main, Tasks.of]
          · simp [main, here, Tasks.of]
        · simp only [main, if_false, List.map_cons, Tasks.of_move away first]
          by_cases last : p = .queue k
          · simp [last, away]
          · simp [last]

theorem sent_congr {s t : State} {j : Nat} (pc : t.pc j = s.pc j)
    (occupy : t.occupyRoutine j = s.occupyRoutine j)
    (pending : t.pendingRoutine j = s.pendingRoutine j) : t.sent j = s.sent j := by
  unfold State.sent
  rw [pc, occupy, pending]

/-- A thread in its loop has sent nobody, unless it has just got a task. -/
theorem Paired.sent_loop {s : State} {k : Nat} (paired : Paired s k)
    (inside : (s.pc k).inLoop = true) (free : ∀ r, s.pc k ≠ .got r) : s.sent k = none := by
  have home := (paired.inLoop inside).1
  cases at_pc : s.pc k with
  | got r => exact absurd at_pc (free r)
  | swap | store | load => rw [at_pc] at inside; cases inside
  | _ => simp [State.sent, at_pc, home]

section Steps

variable {s s' : State} {t t' : Tasks} {k : Nat}

/-- A step of the scheduler `k` leaves what the others hold. -/
theorem Coupled.step (coupled : Coupled s t)
    (others : ∀ j, j ≠ k → s'.pc j = s.pc j ∧ s'.occupyRoutine j = s.occupyRoutine j ∧
      s'.pendingRoutine j = s.pendingRoutine j)
    (unmoved : ∀ j, j ≠ k → t'.of (.hand j) = t.of (.hand j) ∧ t'.of (.task j) = t.of (.task j))
    (queues : ∀ j, t'.of (.queue j) = s'.activeTasks j) (wheel : t'.of .wheel = s'.polls)
    (hand : t'.of (.hand k) = (s'.pc k).adding)
    (task : t'.of (.task k) = (s'.sent k).toList) : Coupled s' t' := by
  refine ⟨queues, wheel, fun j => ?_, fun j => ?_⟩
  · by_cases here : j = k
    · rw [here]
      exact hand
    · rw [(unmoved j here).1, coupled.hand j, (others j here).1]
  · by_cases here : j = k
    · rw [here]
      exact task
    · obtain ⟨pc, occupy, pending⟩ := others j here
      rw [(unmoved j here).2, coupled.task j, sent_congr pc occupy pending]

/-- A step that moves no item. -/
theorem Coupled.still (coupled : Coupled s t)
    (others : ∀ j, j ≠ k → s'.pc j = s.pc j ∧ s'.occupyRoutine j = s.occupyRoutine j ∧
      s'.pendingRoutine j = s.pendingRoutine j)
    (queues : s'.activeTasks = s.activeTasks) (polls : s'.polls = s.polls)
    (adding : (s'.pc k).adding = (s.pc k).adding) (sent : s'.sent k = s.sent k) :
    Coupled s' t := by
  refine coupled.step others (fun _ _ => ⟨rfl, rfl⟩) (fun j => ?_) ?_ ?_ ?_
  · rw [queues]; exact coupled.queue j
  · rw [polls]; exact coupled.wheel
  · rw [adding]; exact coupled.hand k
  · rw [sent]; exact coupled.task k

/-- The first task of the queue of `k` gets into `task`. -/
theorem Coupled.popHead (coupled : Coupled s t) {r : Routine} {rest : List Routine}
    (front : s.activeTasks k = r :: rest) (nothing : s.sent k = none)
    (adding : (s.pc k).adding = []) :
    Coupled (({ s with activeTasks := Function.update s.activeTasks k rest }).goto k (.got r))
      (t.popHead k) := by
  have mine : t.of (.queue k) = r :: rest := by rw [coupled.queue, front]
  have moved := Tasks.of_move (q := .task k) (by simp) mine
  have idle : t.of (.task k) = [] := by rw [coupled.task, nothing]; rfl
  refine coupled.step (goto_others _) (fun j other => ?_) (fun j => ?_) ?_ ?_ ?_
  · rw [Tasks.popHead, moved, moved]
    simp [other]
  · rw [Tasks.popHead, moved]
    by_cases here : j = k
    · simp [here]
    · simpa [here] using coupled.queue j
  · rw [Tasks.popHead, moved]
    simpa using coupled.wheel
  · rw [Tasks.popHead, moved]
    simpa [Pc.adding] using (coupled.hand k).trans adding
  · rw [Tasks.popHead, moved]
    simp [idle, State.sent]

theorem Coupled.addTask (coupled : Coupled s t) {r : Routine} {tasks : List Routine} {back : Back}
    (at_pc : s.pc k = .add (r :: tasks) back) (user : r.isProgress = false) :
    Coupled ((s.addTask r).goto k (.add tasks back)) (t.addTask k s.index) := by
  have mine : t.of (.hand k) = r :: tasks := by rw [coupled.hand, at_pc]; rfl
  have moved := Tasks.of_move (q := .queue s.index) (by simp) mine
  have same := addTask_same s r
  have dealt : (s.addTask r).activeTasks =
      Function.update s.activeTasks s.index (s.activeTasks s.index ++ [r]) := by
    simp [State.addTask, user]
  have polls : (s.addTask r).polls = s.polls := by simp [State.addTask, user]
  refine coupled.step (k := k) (fun j other => ?_) (fun j other => ?_) (fun j => ?_) ?_ ?_ ?_
  · simp [other, same.pc, same.occupy, same.pending]
  · rw [Tasks.addTask, moved, moved]
    simp [other]
  · rw [Tasks.addTask, moved, goto_activeTasks, dealt]
    by_cases here : j = s.index
    · simp [here, coupled.queue]
    · simp [here, coupled.queue]
  · rw [Tasks.addTask, moved]
    simpa [polls] using coupled.wheel
  · rw [Tasks.addTask, moved]
    simp [Pc.adding]
  · rw [Tasks.addTask, moved]
    have away : ((s.addTask r).goto k (.add tasks back)).sent k = s.sent k := by
      simp [State.sent, at_pc, same.occupy]
    simpa [away] using coupled.task k

theorem Coupled.steal (coupled : Coupled s t) {id : Nat} (locked : Bool)
    (at_pc : s.pc k = .scan id) (other : id ≠ k) :
    Coupled ((s.stolen k id locked).goto k (.scan (id + 1))) (t.steal k id locked) := by
  have same := stolen_same s k id locked
  have moved := @Tasks.of_steal t k id locked other
  refine coupled.step (k := k) (fun j differs => ?_) (fun j differs => ?_) (fun j => ?_) ?_ ?_ ?_
  · simp [differs, same.pc, same.occupy, same.pending]
  · rw [moved, moved]
    simp
  · rw [moved, coupled.queue id, goto_activeTasks]
    simp only [State.stolen]
    cases returned : try2stealTask (s.activeTasks id) locked with
    | mk left taken =>
      by_cases here : j = id
      · subst here
        cases taken <;> simp [State.push, other]
      · by_cases mine : j = k
        · subst mine
          cases taken <;> simp [State.push, here, coupled.queue]
        · cases taken <;> simp [State.push, here, mine, coupled.queue]
  · rw [moved]
    have polls : (s.stolen k id locked).polls = s.polls := by
      simp only [State.stolen]
      split <;> rfl
    simpa [polls] using coupled.wheel
  · rw [moved]
    simpa [at_pc, Pc.adding] using coupled.hand k
  · rw [moved]
    have away : ((s.stolen k id locked).goto k (.scan (id + 1))).sent k = s.sent k := by
      simp [State.sent, at_pc, same.occupy]
    simpa [away] using coupled.task k

/-- A routine on the thread `k` makes an item for `AddTask`. -/
theorem Coupled.make (coupled : Coupled s t) (owned : Owned t) {r : Routine}
    (others : ∀ j, j ≠ k → s'.pc j = s.pc j ∧ s'.occupyRoutine j = s.occupyRoutine j ∧
      s'.pendingRoutine j = s.pendingRoutine j)
    (queues : s'.activeTasks = s.activeTasks) (polls : s'.polls = s.polls)
    (adding : (s'.pc k).adding = (s.pc k).adding ++ [r]) (sent : s'.sent k = s.sent k) :
    Coupled s' (t.new (.hand k) r) := by
  have made := owned.of_new (.hand k)
  refine coupled.step others (fun j other => ?_) (fun j => ?_) ?_ ?_ ?_
  · simp [made, other]
  · simp [made, queues, coupled.queue]
  · simp [made, polls, coupled.wheel]
  · simp [made, adding, coupled.hand]
  · simp [made, sent, coupled.task]

end Steps

/-! ### Steps -/

/-- Every item has one owner, and as long as nothing has been thrown, the items that are linked,
in hands or to be deleted are those of the routines that the schedulers have there. -/
structure Sound (s : State) (t : Tasks) : Prop where
  owned : Owned t
  coupled : s.crashed = false → Coupled s t

section Steps

variable {s s' : State} {t : Tasks} {k : Nat}

theorem Sound.still (owned : Owned t) (coupled : Coupled s t)
    (others : ∀ j, j ≠ k → s'.pc j = s.pc j ∧ s'.occupyRoutine j = s.occupyRoutine j ∧
      s'.pendingRoutine j = s.pendingRoutine j)
    (queues : s'.activeTasks = s.activeTasks) (polls : s'.polls = s.polls)
    (adding : (s'.pc k).adding = (s.pc k).adding) (sent : s'.sent k = s.sent k) : Sound s' t :=
  ⟨owned, fun _ => coupled.still others queues polls adding sent⟩

theorem run_sound (homed : Homed s) (owned : Owned t) (coupled : Coupled s t)
    (stepped : run s k = some s') : Sound s' (follow s t (.run k)) := by
  have mine := homed.paired k
  -- a step within the loop that takes no task
  have within : ∀ {p : Pc}, (s.pc k).inLoop = true → (∀ r, s.pc k ≠ .got r) →
      (s.pc k).adding = [] → p.inLoop = true → (∀ r, p ≠ .got r) → p.adding = [] →
      Sound (s.goto k p) t := by
    intro p inside free adding after still adding'
    have homed' : (s.goto k p).sent k = none := by
      have home := (mine.inLoop inside).1
      cases p <;> simp_all [State.sent, Pc.inLoop]
    refine Sound.still owned coupled (goto_others s) rfl rfl ?_ ?_
    · simp [adding, adding']
    · rw [homed', mine.sent_loop inside free]
  unfold run at stepped
  split at stepped
  next at_pc =>
    cases stepped
    rw [show follow s t (.run k) = t by simp [follow, at_pc]]
    exact within (by simp [at_pc, Pc.inLoop]) (by simp [at_pc]) (by simp [at_pc, Pc.adding]) rfl
      (by simp) rfl
  next at_pc =>
    have idle := mine.sent_loop (by simp [at_pc, Pc.inLoop]) (by simp [at_pc])
    have adding : (s.pc k).adding = [] := by rw [at_pc]; rfl
    rw [show follow s t (.run k) = t.popHead k by simp [follow, at_pc]]
    split at stepped
    next empty =>
      cases stepped
      rw [Tasks.popHead, Tasks.move_nothing (by rw [coupled.queue, empty])]
      exact within (by simp [at_pc, Pc.inLoop]) (by simp [at_pc]) adding rfl (by simp) rfl
    next r rest front =>
      cases stepped
      exact ⟨owned.move (by simp), fun _ => coupled.popHead front idle adding⟩
  next id at_pc =>
    have idle := mine.sent_loop (by simp [at_pc, Pc.inLoop]) (by simp [at_pc])
    have adding : (s.pc k).adding = [] := by rw [at_pc]; rfl
    rw [show follow s t (.run k) = t.popHead k by simp [follow, at_pc]]
    split at stepped
    next =>
      split at stepped
      next empty =>
        cases stepped
        rw [Tasks.popHead, Tasks.move_nothing (by rw [coupled.queue, empty])]
        exact within (by simp [at_pc, Pc.inLoop]) (by simp [at_pc]) adding rfl (by simp) rfl
      next r rest front =>
        cases stepped
        exact ⟨owned.move (by simp), fun _ => coupled.popHead front idle adding⟩
    next => cases stepped
  next r at_pc =>
    cases stepped
    rw [show follow s t (.run k) = t by simp [follow, at_pc]]
    have home := (mine.inLoop (by rw [at_pc]; rfl)).1
    refine Sound.still owned coupled (k := k) (fun j other => by simp [other]) rfl rfl ?_ ?_
    · simp [at_pc, Pc.adding]
    · simp [State.sent, at_pc, home]
  next => cases stepped
  next at_pc =>
    cases stepped
    rw [show follow s t (.run k) = t by simp [follow, at_pc]]
    obtain ⟨user, -⟩ := mine.inCode (by rw [at_pc]; rfl)
    refine Sound.still owned coupled (goto_others s) rfl rfl ?_ ?_
    · simp [at_pc, Pc.adding]
    · simp [State.sent, at_pc, user]
  next at_pc =>
    cases stepped
    rw [show follow s t (.run k) = t by simp [follow, at_pc]]
    obtain ⟨user, -⟩ := mine.inCode (by rw [at_pc]; rfl)
    refine Sound.still owned coupled (goto_others s) rfl rfl ?_ ?_
    · simp [at_pc, Pc.adding]
    · simp [State.sent, at_pc, user]
  next at_pc =>
    cases stepped
    rw [show follow s t (.run k) = t by simp [follow, at_pc]]
    obtain ⟨home, -⟩ := mine.inLoop (by rw [at_pc]; rfl)
    refine Sound.still owned coupled (goto_others { s with dealLock := false }) rfl rfl ?_ ?_
    · simp [at_pc, Pc.adding]
    · simp [State.sent, at_pc, home]
  next r tasks back at_pc =>
    cases stepped
    cases user : r.isProgress with
    | true =>
      -- `throw`: nothing is linked
      rw [show follow s t (.run k) = t by simp [follow, at_pc, user]]
      exact ⟨owned, fun fine => by simp [State.goto, State.addTask, user] at fine⟩
    | false =>
      rw [show follow s t (.run k) = t.addTask k s.index by simp [follow, at_pc, user]]
      exact ⟨owned.move (by simp), fun _ => coupled.addTask at_pc user⟩
  next at_pc =>
    rw [show follow s t (.run k) = t by simp [follow, at_pc]]
    split at stepped
    · cases stepped
      exact ⟨owned, by simp⟩
    next r pending =>
      cases stepped
      refine Sound.still owned coupled (k := k) (fun j other => by simp [other]) rfl rfl ?_ ?_
      · simp [at_pc, Pc.adding]
      · -- of the two pointers the same one is not the loop
        rcases mine.swap_pair (by rw [at_pc]; rfl) with ⟨home, q, next, user⟩ | ⟨user, home⟩
        · rw [pending] at next
          cases next
          simp [State.sent, at_pc, home, pending, user]
        · rw [pending] at home
          cases home
          simp [State.sent, at_pc, user]
  next at_pc =>
    obtain ⟨r, pending, rfl⟩ := Option.map_eq_some_iff.mp stepped
    rw [show follow s t (.run k) = t by simp [follow, at_pc]]
    refine Sound.still owned coupled (k := k) (fun j other => by simp [other]) rfl rfl ?_ ?_
    · simp [at_pc, Pc.adding]
    · rcases mine.swap_pair (by rw [at_pc]; rfl) with ⟨home, -⟩ | ⟨user, -⟩
      · simp [State.sent, at_pc, home]
      · simp [State.sent, at_pc, user]
  next at_pc =>
    cases stepped
    rcases mine.swap_pair (by rw [at_pc]; rfl) with ⟨home, r, left, -⟩ | ⟨user, -⟩
    · -- back in the loop, which deletes the task of the routine that has left
      rw [show follow s t (.run k) = t.delete k by simp [follow, at_pc, home]]
      have held : t.of (.task k) = [r] := by
        rw [coupled.task]
        simp [State.sent, at_pc, home, left]
      have moved := Tasks.of_move (q := .freed) (by simp) held
      refine ⟨owned.move (by simp), fun _ => coupled.step (k := k)
        (fun j other => by simp [other]) (fun j other => ?_) (fun j => ?_) ?_ ?_ ?_⟩
      · simp [Tasks.delete, moved, other]
      · simp [Tasks.delete, moved, coupled.queue]
      · simp [Tasks.delete, moved, coupled.wheel]
      · simp [Tasks.delete, moved, coupled.hand, at_pc, Pc.adding, home]
      · simp [Tasks.delete, moved, State.sent, home]
    · rw [show follow s t (.run k) = t by simp [follow, at_pc, user]]
      refine Sound.still owned coupled (k := k) (fun j other => by simp [other]) rfl rfl ?_ ?_
      · simp [at_pc, Pc.adding, user]
      · simp [State.sent, at_pc, user]

theorem call_sound (homed : Homed s) (owned : Owned t) (coupled : Coupled s t) {op : Op}
    (at_pc : s.pc k = .user) (stepped : call s k op = some s') :
    Sound s' (followCall s t k op) := by
  have mine := (homed.paired k).inCode (by rw [at_pc]; rfl)
  cases op with
  | resume target =>
    cases stepped
    -- the two items, one after the other
    have first : Coupled (s.goto k (.add [target] .swap)) (t.new (.hand k) target) :=
      coupled.make owned (goto_others s) rfl rfl (by simp [at_pc, Pc.adding])
        (by simp [State.sent, at_pc, mine.1])
    refine ⟨(owned.new _ _).new _ _, fun _ => first.make (owned.new _ _) (k := k) ?_ rfl rfl ?_ ?_⟩
    · exact fun j other => by simp [other]
    · simp [Pc.adding]
    · simp [State.sent, mine.1]
  | yield =>
    cases stepped
    exact ⟨owned.new _ _, fun _ => coupled.make owned (goto_others s) rfl rfl
      (by simp [at_pc, Pc.adding]) (by simp [State.sent, at_pc, mine.1])⟩
  | wait list =>
    cases stepped
    exact Sound.still owned coupled (k := k) (fun j other => by simp [other]) rfl rfl
      (by simp [at_pc, Pc.adding]) (by simp [State.sent, at_pc, mine.1])
  | wake list =>
    cases front : s.lists list with
    | nil =>
      simp only [call, front] at stepped
      cases stepped
      simp only [followCall, front]
      exact Sound.still owned coupled (goto_others s) rfl rfl (by simp [at_pc, Pc.adding])
        (by simp [State.sent, at_pc, mine.1])
    | cons r rest =>
      simp only [call, front] at stepped
      cases stepped
      simp only [followCall, front]
      exact ⟨owned.new _ _, fun _ => coupled.make owned (k := k) (fun j other => by simp [other])
        rfl rfl (by simp [at_pc, Pc.adding]) (by simp [State.sent, at_pc, mine.1])⟩
  | poll =>
    cases stepped
    have made := owned.of_new .wheel (r := s.occupyRoutine k)
    refine ⟨owned.new _ _, fun _ => coupled.step (k := k) (fun j other => by simp [other])
      (fun j _ => ?_) (fun j => ?_) ?_ ?_ ?_⟩
    · simp [followCall, made]
    · simp [followCall, made, coupled.queue]
    · simp [followCall, made, coupled.wheel]
    · simp [followCall, made, coupled.hand, at_pc, Pc.adding]
    · simp [followCall, made, coupled.task, State.sent, at_pc, mine.1]
  | finish =>
    simp only [call] at stepped
    split at stepped
    · cases stepped
    · cases stepped
      exact Sound.still owned coupled (goto_others s) rfl rfl (by simp [at_pc, Pc.adding])
        (by simp [State.sent, at_pc, mine.1])

/-- One step of any thread that returns no task of main while it is linked. -/
theorem step_sound {n : Nat} {label : Label} (homed : Homed s) (sound : Sound s t)
    (plain : ¬ copiesMain s label) (stepped : step n s label = some s') :
    Sound s' (follow s t label) := by
  simp only [step] at stepped
  split at stepped
  · cases stepped
  next fine =>
    have coupled := sound.coupled (by simpa using fine)
    have owned := sound.owned
    cases label with
    | register =>
      simp only at stepped
      split at stepped
      · cases stepped
        exact ⟨owned, fun _ => ⟨coupled.queue, coupled.wheel, coupled.hand, coupled.task⟩⟩
      · cases stepped
    | run k =>
      simp only at stepped
      split at stepped
      · exact run_sound homed owned coupled stepped
      · cases stepped
    | call k op =>
      simp only at stepped
      split at stepped
      next here => exact call_sound homed owned coupled here.2 stepped
      · cases stepped
    | deal k r =>
      simp only at stepped
      split at stepped
      next here =>
        cases stepped
        obtain ⟨-, at_pc, polled, -⟩ := here
        have moved := t.of_expire (k := k) (by rw [coupled.wheel]; exact polled)
        have home := ((homed.paired k).inLoop (by rw [at_pc]; rfl)).1
        refine ⟨owned.expire k r, fun _ => coupled.step (k := k) (fun j other => by simp [other])
          (fun j other => ?_) (fun j => ?_) ?_ ?_ ?_⟩
        · simp [follow, moved, other]
        · simp [follow, moved, coupled.queue]
        · simp [follow, moved, coupled.wheel]
        · simp [follow, moved, coupled.hand, at_pc, Pc.adding]
        · simp [follow, moved, coupled.task, State.sent, at_pc, home]
      · cases stepped
    | steal k locked =>
      simp only at stepped
      split at stepped
      next =>
        split at stepped
        next id at_pc =>
          split at stepped
          · cases stepped
          next other =>
            split at stepped
            next outside =>
              cases stepped
              rw [show follow s t (.steal k locked) = t by simp [follow, at_pc, outside]]
              exact ⟨owned, by simp⟩
            next inside =>
              cases stepped
              rw [show follow s t (.steal k locked) = t.steal k id locked by
                simp [follow, at_pc, inside]]
              refine ⟨owned.steal other fun locks alone => plain ?_, fun _ =>
                coupled.steal locked at_pc other⟩
              exact ⟨locks, id, at_pc, other, by omega, by rw [← coupled.queue]; exact alone⟩
        · cases stepped
      · cases stepped

/-- A step that returns main's only task leaves it with two owners. -/
theorem not_owned_of_copies {n : Nat} {label : Label} (sound : Sound s t)
    (copies : copiesMain s label) (stepped : step n s label = some s') :
    ¬ Owned (follow s t label) := by
  have fine : s.crashed = false := by
    by_contra crashed
    simp [step, crashed] at stepped
  cases label with
  | steal k locked =>
    obtain ⟨rfl, id, at_pc, other, inside, alone⟩ := copies
    rw [← (sound.coupled fine).queue] at alone
    obtain ⟨a, rest, here, main, nothing⟩ := List.map_eq_cons_iff.mp alone
    obtain rfl := List.map_eq_nil_iff.mp nothing
    rw [show follow s t (.steal k true) = t.steal k id true by
      simp [follow, at_pc, Nat.not_le.mpr inside]]
    exact Owned.not_copied other here main
  | register | run | call | deal => cases copies

end Steps

/-! ### Runs -/

theorem initial_sound : Sound initial .initial where
  owned := .initial
  coupled _ := by
    refine ⟨fun k => ?_, ?_, fun k => ?_, fun k => ?_⟩
    · by_cases first : k = 0 <;> simp [Tasks.of, Tasks.initial, initial, first]
    · simp [Tasks.of, Tasks.initial, initial]
    · simp [Tasks.of, Tasks.initial, initial, Pc.adding]
    · simp [Tasks.of, Tasks.initial, initial, State.sent]

theorem tasked_step_iff {n : Nat} {s s' : Tasked} {label : Label} :
    (tasked n).step s label = some s' ↔
      step n s.base label = some s'.base ∧ s'.tasks = follow s.base s.tasks label := by
  simp only [tasked, Option.map_eq_some_iff]
  constructor
  · rintro ⟨base, stepped, rfl⟩
    exact ⟨stepped, rfl⟩
  · rintro ⟨stepped, same⟩
    exact ⟨s'.base, stepped, by rw [← same]⟩

/-- For any number of schedulers and every order of their steps: in every state every task item
allocated for a ready queue is at exactly one place, and there once, so none is linked in two
queues, freed while it is linked, or freed twice, and what a loop deletes is the item of the routine
that has just given the thread back, exactly when no `Try2stealTask` locks a queue whose only task
is one of main. -/
theorem sound_iff (n : Nat) (schedule : List Label) :
    (∀ s, (tasked n).Visits ⟨initial, .initial⟩ schedule s → Sound s.base s.tasks) ↔
      ∀ s label, (tasked n).Takes ⟨initial, .initial⟩ schedule s label →
        ¬ copiesMain s.base label := by
  refine Transition.Machine.safe_iff_steps_ok (fun s => Homed s.base ∧ Sound s.base s.tasks) _
    ?_ ?_ ?_ ⟨initial_homed, initial_sound⟩ schedule
  · rintro s label s' ⟨homed, sound⟩ plain stepped
    obtain ⟨base, same⟩ := tasked_step_iff.mp stepped
    rw [same]
    exact ⟨step_homed homed base, step_sound homed sound plain base⟩
  · rintro s ⟨-, sound⟩
    exact sound
  · rintro s label s' ⟨-, sound⟩ copies stepped safe
    obtain ⟨base, same⟩ := tasked_step_iff.mp stepped
    rw [same] at safe
    exact not_owned_of_copies sound (not_not.mp copies) base safe.owned

end BRoutine.Scheduler
