import BRoutine.Scheduler.TaskOwners

/-!
# How long a task waits in a ready queue

Tasks are linked at the end of a ready queue and taken from its front, by the scheduler of the queue
and by those that steal. So a task waits for those in front of it and for no others:
`waits_its_turn` says how each step of a run leaves the queue in front of an item and behind it. The
calls are those of `Op`: `timeWait`, and a `poll` that `Deal` times out while it still adds its
descriptors, can have an item taken out of the middle of a queue.
-/

namespace BRoutine.Scheduler

/-- The scheduler `k` takes the first task of its own queue. -/
def popsOwn (k : Nat) (s : State) : Label → Bool
  | .run j =>
    j = k && !(s.activeTasks k).isEmpty &&
      match s.pc k with
      | .take => true
      | .scan id => id = k
      | _ => false
  | _ => false

/-- How often the scheduler `k` takes a task of its own queue along a schedule. -/
def popsAlong (n k : Nat) : Tasked → List Label → Nat
  | _, [] => 0
  | s, label :: rest =>
    (popsOwn k s.base label).toNat +
      match (tasked n).step s label with
      | none => 0
      | some t => popsAlong n k t rest

/-- What a step does to the items of a queue: it leaves them, links a new one at the end, takes the
first, or moves an item of main from the front to the end. With `popped` it takes the first. -/
inductive QueueStep (self : Nat → Routine) (items : List Nat) : Bool → List Nat → Prop
  | same : QueueStep self items false items
  | link (j : Nat) : QueueStep self items false (items ++ [j])
  | take {popped : Bool} {j : Nat} {rest : List Nat} (front : items = j :: rest) :
      QueueStep self items popped rest
  | back {j : Nat} {rest : List Nat} (front : items = j :: rest) (main : self j = .main) :
      QueueStep self items false (rest ++ [j])

/-- In front of an item that stays and is not one of main, the first may go, and has to when the
queue is popped. What is behind it stays there. -/
theorem QueueStep.keeps {self : Nat → Routine} {front back after : List Nat} {i : Nat}
    {popped : Bool} (moved : QueueStep self (front ++ i :: back) popped after)
    (user : self i ≠ .main) (stays : i ∈ after) (once : (front ++ i :: back).Nodup) :
    ∃ front' later, after = front' ++ i :: (back ++ later) ∧ front' <:+ front ∧
      front'.length + popped.toNat ≤ front.length := by
  cases moved with
  | same => exact ⟨front, [], by simp, List.suffix_rfl, by simp⟩
  | link j => exact ⟨front, [j], by simp, List.suffix_rfl, by simp⟩
  | take first =>
    cases front with
    | nil =>
      -- the item itself has been taken
      obtain ⟨-, rfl⟩ := List.cons.inj first
      exact absurd stays (List.nodup_cons.mp once).1
    | cons j front =>
      obtain ⟨-, rfl⟩ := List.cons.inj first
      refine ⟨front, [], by simp, List.suffix_cons j front, ?_⟩
      have := popped.toNat_le
      simp only [List.length_cons]
      omega
  | back first main =>
    cases front with
    | nil =>
      obtain ⟨rfl, -⟩ := List.cons.inj first
      exact absurd main user
    | cons j front =>
      obtain ⟨rfl, rfl⟩ := List.cons.inj first
      exact ⟨front, [j], by simp, List.suffix_cons j front, by simp⟩

/-! ### Steps -/

section Steps

variable {s s' : State} {t : Tasks} {k : Nat}

theorem QueueStep.of_same {p : Place} (other : p ≠ .queue k) (items : List Nat) :
    QueueStep t.self (t.items (.queue k)) false
      (Function.update t.items p items (.queue k)) := by
  rw [Function.update_of_ne (Ne.symm other)]
  exact .same

theorem QueueStep.of_new {p : Place} (other : p ≠ .queue k) (r : Routine) :
    QueueStep t.self (t.items (.queue k)) false ((t.new p r).items (.queue k)) :=
  .of_same other _

theorem QueueStep.of_move {p q : Place} {popped : Bool} (other : p ≠ q)
    (only : popped = true → p = .queue k ∧ t.items p ≠ []) :
    QueueStep t.self (t.items (.queue k)) popped ((t.move p q).items (.queue k)) := by
  unfold Tasks.move
  cases front : t.items p with
  | nil =>
    dsimp only
    cases popped with
    | false => exact .same
    | true => exact absurd front (only rfl).2
  | cons j rest =>
    dsimp only
    by_cases first : p = .queue k
    · subst first
      rw [Function.update_of_ne other, Function.update_self]
      exact .take front
    · cases popped with
      | true => exact absurd (only rfl).1 first
      | false =>
        by_cases last : q = .queue k
        · subst last
          rw [Function.update_self]
          exact .link j
        · rw [Function.update_of_ne (Ne.symm last), Function.update_of_ne (Ne.symm first)]
          exact .same

theorem QueueStep.of_expire (j : Nat) (r : Routine) :
    QueueStep t.self (t.items (.queue k)) false ((t.expire j r).items (.queue k)) := by
  unfold Tasks.expire
  split
  · exact .same
  · dsimp only
    rw [Function.update_of_ne (by simp), Function.update_of_ne (by simp)]
    exact .same

theorem QueueStep.of_steal {j id : Nat} {locked : Bool} (other : id ≠ j)
    (plain : locked = true → (t.items (.queue id)).map t.self ≠ [.main]) :
    QueueStep t.self (t.items (.queue k)) false ((t.steal j id locked).items (.queue k)) := by
  have away : Place.queue id ≠ .queue j := fun same => other (Place.queue.inj same)
  unfold Tasks.steal
  split
  · exact .same
  next locks =>
    split
    · exact .same
    next a alone =>
      split
      next main => exact absurd (by rw [alone]; simp [main]) (plain (by simpa using locks))
      next => exact .of_move away (by simp)
    next a b rest front =>
      split
      next main =>
        by_cases here : id = k
        · subst here
          dsimp only
          rw [Function.update_self]
          exact .back front main
        · exact .of_same (by simpa using here) _
      next => exact .of_move away (by simp)

theorem followCall_queue (op : Op) :
    QueueStep t.self (t.items (.queue k)) false ((followCall s t j op).items (.queue k)) := by
  cases op with
  | resume target =>
    -- both items are in the hands of the thread
    have first : (t.new (.hand j) target).items (.queue k) = t.items (.queue k) := by
      simp [Tasks.new]
    have second : ((t.new (.hand j) target).new (.hand j) (s.occupyRoutine j)).items (.queue k) =
        t.items (.queue k) := by
      rw [← first]
      simp [Tasks.new]
    rw [followCall, second]
    exact .same
  | yield => exact .of_new (by simp) _
  | wait list => exact .same
  | wake list =>
    cases front : s.lists list with
    | nil =>
      simp only [followCall, front]
      exact .same
    | cons r rest =>
      simp only [followCall, front]
      exact .of_new (by simp) _
  | poll => exact .of_new (by simp) _
  | finish => exact .same

theorem of_popsOwn {j : Nat} (popped : popsOwn k s (.run j) = true) :
    j = k ∧ s.activeTasks k ≠ [] ∧ (s.pc k = .take ∨ s.pc k = .scan k) := by
  simp only [popsOwn, Bool.and_eq_true, decide_eq_true_eq, Bool.not_eq_true',
    List.isEmpty_eq_false_iff] at popped
  obtain ⟨⟨rfl, some⟩, at_pc⟩ := popped
  refine ⟨rfl, some, ?_⟩
  split at at_pc
  next take => exact .inl take
  next id scan => exact .inr (by rw [scan, of_decide_eq_true at_pc])
  next => cases at_pc

/-- A step of the thread `j` within its code. -/
theorem run_queue (coupled : Coupled s t) (j : Nat) :
    QueueStep t.self (t.items (.queue k)) (popsOwn k s (.run j))
      ((follow s t (.run j)).items (.queue k)) := by
  have mine : popsOwn k s (.run j) = true →
      Place.queue j = .queue k ∧ t.items (.queue j) ≠ [] := by
    intro popped
    obtain ⟨rfl, some, -⟩ := of_popsOwn popped
    exact ⟨rfl, fun none => some (by rw [← coupled.queue, Tasks.of, none]; rfl)⟩
  have away : s.pc j ≠ .take → (∀ id, s.pc j ≠ .scan id) → popsOwn k s (.run j) = false := by
    intro take scan
    by_contra popped
    obtain ⟨rfl, -, at_take | at_scan⟩ := of_popsOwn (by simpa using popped)
    · exact take at_take
    · exact scan _ at_scan
  cases at_pc : s.pc j with
  | take =>
    rw [show follow s t (.run j) = t.popHead j by simp [follow, at_pc]]
    exact .of_move (by simp) mine
  | scan id =>
    rw [show follow s t (.run j) = t.popHead j by simp [follow, at_pc]]
    exact .of_move (by simp) mine
  | top | got r | user | swap | store =>
    rw [away (by simp [at_pc]) (by simp [at_pc])]
    simp only [follow, at_pc]
    exact .same
  | add tasks back =>
    rw [away (by simp [at_pc]) (by simp [at_pc])]
    simp only [follow, at_pc]
    cases tasks with
    | nil => exact .same
    | cons r tasks =>
      dsimp only
      split
      · exact .same
      · exact .of_move (by simp) (by simp)
  | load =>
    rw [away (by simp [at_pc]) (by simp [at_pc])]
    simp only [follow, at_pc]
    split
    · exact .of_move (by simp) (by simp)
    · exact .same

theorem follow_queue {n : Nat} {label : Label} (sound : Sound s t) (plain : ¬ copiesMain s label)
    (stepped : step n s label = some s') :
    QueueStep t.self (t.items (.queue k)) (popsOwn k s label)
      ((follow s t label).items (.queue k)) := by
  have fine : s.crashed = false := by
    by_contra crashed
    simp [step, crashed] at stepped
  have coupled := sound.coupled fine
  cases label with
  | register => exact .same
  | run j => exact run_queue coupled j
  | call j op => exact followCall_queue op
  | deal j r => exact .of_expire j r
  | steal j locked =>
    simp only [popsOwn, follow]
    split
    next id at_pc =>
      split
      · exact .same
      next inside =>
        have other : id ≠ j := by
          rintro rfl
          simp [step, fine, at_pc] at stepped
        refine .of_steal other fun locks alone => plain ?_
        exact ⟨locks, id, at_pc, other, by omega, by rw [← coupled.queue]; exact alone⟩
    · exact .same

theorem Tasks.move_self (t : Tasks) (p q : Place) : (t.move p q).self = t.self := by
  unfold Tasks.move
  split <;> rfl

theorem Tasks.new_self (t : Tasks) (p : Place) (r : Routine) {i : Nat} (old : i < t.made) :
    (t.new p r).self i = t.self i :=
  Function.update_of_ne (by omega) ..

/-- The routine of an item does not change. -/
theorem follow_self (s : State) {i : Nat} (old : i < t.made) (label : Label) :
    (follow s t label).self i = t.self i := by
  cases label with
  | register => rfl
  | run j =>
    simp only [follow]
    split <;> try split
    all_goals first | rfl | exact congrFun (Tasks.move_self _ _ _) i
  | call j op =>
    cases op with
    | resume target =>
      have newer : i < (t.new (.hand j) target).made := Nat.lt_succ_of_lt old
      exact (Tasks.new_self _ _ _ newer).trans (Tasks.new_self _ _ _ old)
    | yield | poll => exact Tasks.new_self _ _ _ old
    | wait | finish => rfl
    | wake list =>
      simp only [follow, followCall]
      split
      · rfl
      · exact Tasks.new_self _ _ _ old
  | deal j r =>
    simp only [follow, Tasks.expire]
    split <;> rfl
  | steal j locked =>
    simp only [follow]
    split
    next id at_pc =>
      split
      · rfl
      · unfold Tasks.steal
        split
        · rfl
        · split
          · rfl
          · split
            · rfl
            · rw [Tasks.move_self]
          · split
            · rfl
            · rw [Tasks.move_self]
    · rfl

end Steps

/-! ### Runs -/

/-- No theft returns main's only task. -/
def plain (s : Tasked) (label : Label) : Prop := ¬ copiesMain s.base label

theorem reached_sound {n : Nat} {s : Tasked} (reached : (tasked n).ReachableBy plain s) :
    Homed s.base ∧ Sound s.base s.tasks := by
  refine reached.invariant (fun s => Homed s.base ∧ Sound s.base s.tasks) ?_ ?_
  · rintro _ rfl
    exact ⟨initial_homed, initial_sound⟩
  · rintro s label t ⟨homed, sound⟩ allowed stepped
    obtain ⟨base, same⟩ := tasked_step_iff.mp stepped
    rw [same]
    exact ⟨step_homed homed base, step_sound homed sound allowed base⟩

/-- As long as an item that is not one of main stays linked in the queue of `k`, whatever steps all
schedulers take: what is in front of it goes one by one from the first on and nothing gets in front
of it, each task that `k` takes is one of those, and what is behind it stays behind it in its order.
So it waits for no more tasks than were in front of it when it was linked. -/
theorem waits_its_turn (n k i : Nat) (s t : Tasked) (front back : List Nat)
    (reached : (tasked n).ReachableBy plain s)
    (here : s.tasks.items (.queue k) = front ++ i :: back) (user : s.tasks.self i ≠ .main)
    (schedule : List Label)
    (allowed : ∀ u label, (tasked n).Takes s schedule u label → plain u label)
    (stays : ∀ u, (tasked n).Visits s schedule u → i ∈ u.tasks.items (.queue k))
    (ran : (tasked n).exec s schedule = some t) :
    ∃ front' later, t.tasks.items (.queue k) = front' ++ i :: (back ++ later) ∧
      front' <:+ front ∧ front'.length + popsAlong n k s schedule ≤ front.length := by
  induction schedule generalizing s front back with
  | nil =>
    cases ran
    exact ⟨front, [], by simpa using here, List.suffix_rfl, by simp [popsAlong]⟩
  | cons label rest ih =>
    rw [Transition.Machine.exec_cons] at ran
    obtain ⟨u, stepped, ran⟩ := Option.bind_eq_some_iff.mp ran
    obtain ⟨homed, sound⟩ := reached_sound reached
    have fits : plain s label := allowed s label ⟨[], u, by simp, rfl, stepped⟩
    have later_visit : ∀ v, (tasked n).Visits u rest v → (tasked n).Visits s (label :: rest) v := by
      rintro v ⟨done, before, visited⟩
      exact ⟨label :: done, List.cons_prefix_cons.mpr ⟨rfl, before⟩,
        Transition.Machine.exec_step stepped visited⟩
    have inside : i ∈ u.tasks.items (.queue k) :=
      stays u (later_visit u ⟨[], List.nil_prefix, rfl⟩)
    obtain ⟨base, same⟩ := tasked_step_iff.mp stepped
    -- the step itself
    have moved := follow_queue (k := k) sound fits base
    rw [← same, here] at moved
    have once : (front ++ i :: back).Nodup := by
      obtain ⟨place, filed, -⟩ := sound.owned
      rw [← here]
      exact filed.nodup _
    obtain ⟨front₁, later₁, here₁, suffix₁, fewer₁⟩ := moved.keeps user inside once
    -- and what comes after it
    have old : i < s.tasks.made := sound.owned.lt_made (p := .queue k) (by rw [here]; simp)
    have user₁ : u.tasks.self i ≠ .main := by
      rw [same, follow_self s.base old]
      exact user
    obtain ⟨front₂, later₂, here₂, suffix₂, fewer₂⟩ :=
      ih u front₁ (back ++ later₁) (.step reached fits stepped) here₁ user₁
        (fun v l takes => by
          obtain ⟨done, w, before, visited, next⟩ := takes
          exact allowed v l ⟨label :: done, w, List.cons_prefix_cons.mpr ⟨rfl, before⟩,
            Transition.Machine.exec_step stepped visited, next⟩)
        (fun v visited => stays v (later_visit v visited)) ran
    refine ⟨front₂, later₁ ++ later₂, by rw [here₂, List.append_assoc], suffix₂.trans suffix₁, ?_⟩
    simp only [popsAlong, stepped]
    omega

/-- The item of a second routine, made by the first one behind the item of main, is in front of the
queue when its scheduler has taken main. -/
theorem waits_its_turn_second :
    ∃ s t : Tasked, s.tasks.items (.queue 0) = [2, 3, 4] ∧ (tasked 1).exec s [.run 0] = some t ∧
      ∃ front' later, t.tasks.items (.queue 0) = front' ++ 3 :: ([4] ++ later) ∧
        front' <:+ [2] ∧ front'.length + popsAlong 1 0 s [.run 0] ≤ 1 := by
  let schedule : List Label :=
    List.replicate 6 (.run 0) ++ [.call 0 (.resume (.user 5))] ++ List.replicate 12 (.run 0) ++
      [.call 0 (.resume (.user 6))] ++ List.replicate 7 (.run 0)
  -- the queue, the routine of the item, and the queue after one more step
  have computed : ((tasked 1).exec ⟨initial, .initial⟩ schedule).map (fun s =>
      (s.tasks.items (.queue 0), s.tasks.self 3,
        ((tasked 1).exec s [.run 0]).map fun t => t.tasks.items (.queue 0))) =
      some ([2, 3, 4], .user 6, some [3, 4]) := by decide +kernel
  obtain ⟨s, ran, same⟩ := Option.map_eq_some_iff.mp computed
  obtain ⟨queued, same⟩ := Prod.mk.inj same
  obtain ⟨theirs, after⟩ := Prod.mk.inj same
  obtain ⟨t, popped, left⟩ := Option.map_eq_some_iff.mp after
  have reached : (tasked 1).ReachableBy plain s := by
    refine Transition.Machine.exec_reachableBy (.start rfl) (fun label listed s => ?_) ran
    have noTheft : ∀ label ∈ schedule, ∀ k locked, label ≠ .steal k locked := by
      simp [schedule]
    cases label with
    | steal k locked => exact absurd rfl (noTheft _ listed k locked)
    | register | run | call | deal => exact not_false
  refine ⟨s, t, queued, popped, waits_its_turn 1 0 3 s t [2] [4] reached queued
    (by rw [theirs]; simp) [.run 0] ?_ ?_ popped⟩
  · rintro u label ⟨done, v, before, -, -⟩
    have last : label ∈ [Label.run 0] := before.subset (by simp)
    obtain rfl := List.mem_singleton.mp last
    exact not_false
  · rintro u ⟨done, before, visited⟩
    cases done with
    | nil =>
      cases visited
      rw [queued]
      simp
    | cons label done =>
      obtain ⟨rfl, nothing⟩ := List.cons_prefix_cons.mp before
      obtain rfl := List.prefix_nil.mp nothing
      cases visited.symm.trans popped
      rw [left]
      simp

end BRoutine.Scheduler
