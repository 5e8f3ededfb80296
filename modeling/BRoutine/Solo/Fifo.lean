import BRoutine.Solo.Steps

/-!
# One scheduler serves its tasks in order

What has been put into the ready queue is what `ProcessBegin` has switched to, followed by what is
still in the queue. Both records only grow; so a routine that yields executes again only when the
switches have come up to its own task.
-/

namespace BRoutine.Solo

variable {s t : State} {place : Nat → Option Key} {r : Nat}

/-- The tasks are served in the order in which they were put, and counted. -/
structure Queued (s : State) : Prop where
  order : s.puts = s.switches ++ (s.activeTasks 0).items
  counted : (s.activeTasks 0).itemCount = (s.activeTasks 0).items.length

/-- What one scheduler does with its tasks. -/
structure InOrder (s : State) : Prop where
  order : s.puts = s.switches ++ (s.activeTasks 0).items
  thrown : s.thrown = false
  turn : ∀ task rest, s.control = .loop → (s.activeTasks 0).items = task :: rest →
    ∃ t, step s .turn = some t ∧ t.control = .user task ∧ t.switches = s.switches ++ [task] ∧
      (t.activeTasks 0).items = rest
  idle : s.control = .loop → (s.activeTasks 0).items = [] → step s .turn = some s
  others : ∀ label t, step s label = some t → label ≠ .turn → t.switches = s.switches
  yields : ∀ r t schedule u, s.control = .user r → step s (.call .yield) = some t →
    machine.exec t schedule = some u → u.control = .user r →
    s.switches ++ (s.activeTasks 0).items ++ [r] <+: u.switches

theorem initial_queued : Queued initial := ⟨rfl, rfl⟩

/-- The queue and the records are looked at alone. -/
theorem Queued.congr (queued : Queued s) (tasks : t.activeTasks = s.activeTasks)
    (puts : t.puts = s.puts) (switches : t.switches = s.switches) : Queued t where
  order := by rw [puts, switches, tasks]; exact queued.order
  counted := by rw [tasks]; exact queued.counted

theorem Queued.pushed (queued : Queued s)
    (tasks : t.activeTasks = Function.update s.activeTasks 0 ((s.activeTasks 0).pushBackUnsafe r))
    (puts : t.puts = s.puts ++ [r]) (switches : t.switches = s.switches) : Queued t where
  order := by
    rw [puts, switches, tasks, queued.order]
    simp
  counted := by
    rw [tasks]
    simp [TaskItemsList.pushBackUnsafe, queued.counted]

/-- Tasks are put at the back, and only the loop takes them, from the front. -/
theorem Queued.after (queued : Queued s) {label : Label} (effect : Effect s label t) :
    Queued t := by
  cases effect with
  | create _ => exact queued.pushed rfl rfl rfl
  | @resume _ i =>
    have first : Queued (s.pushBack 0 i) := queued.pushed rfl rfl rfl
    exact first.pushed rfl rfl rfl
  | yield _ _ => exact queued.pushed rfl rfl rfl
  | wake _ _ => exact queued.pushed rfl rfl rfl
  | deal _ _ => exact queued.pushed rfl rfl rfl
  | turn _ head =>
    constructor
    · simp [State.enter, State.modify, queued.order, head]
    · simp [State.enter, State.modify, queued.counted, head]
  | recycle _ _ recycled => cases recycled <;> exact queued.congr rfl rfl rfl
  | _ => exact queued.congr rfl rfl rfl

/-- A step puts more tasks, or takes one. -/
structure Grows (s t : State) : Prop where
  puts : s.puts <+: t.puts
  switches : s.switches <+: t.switches

theorem Grows.refl (s : State) : Grows s s := ⟨List.prefix_rfl, List.prefix_rfl⟩

theorem Grows.trans {u : State} (first : Grows s t) (second : Grows t u) : Grows s u :=
  ⟨first.puts.trans second.puts, first.switches.trans second.switches⟩

theorem Effect.grows {label : Label} (effect : Effect s label t) : Grows s t := by
  cases effect with
  | create _ => exact ⟨List.prefix_append .., List.prefix_rfl⟩
  | resume _ _ _ =>
    exact ⟨(List.prefix_append ..).trans (List.prefix_append ..), List.prefix_rfl⟩
  | yield _ _ => exact ⟨List.prefix_append .., List.prefix_rfl⟩
  | wake _ _ => exact ⟨List.prefix_append .., List.prefix_rfl⟩
  | deal _ _ => exact ⟨List.prefix_append .., List.prefix_rfl⟩
  | turn _ _ => exact ⟨List.prefix_rfl, List.prefix_append ..⟩
  | recycle _ _ recycled => cases recycled <;> exact ⟨List.prefix_rfl, List.prefix_rfl⟩
  | _ => exact ⟨List.prefix_rfl, List.prefix_rfl⟩

theorem Effect.switches {label : Label} (effect : Effect s label t) (other : label ≠ .turn) :
    t.switches = s.switches := by
  cases effect with
  | idle _ _ => rfl
  | turn _ _ => exact absurd rfl other
  | recycle _ _ recycled => cases recycled <;> rfl
  | _ => rfl

/-- A whole run keeps the routines filed and the tasks in order, and only adds to the records. -/
theorem run_grows (sound : ∃ place, Sound s place) (queued : Queued s) {schedule : List Label}
    (ran : machine.exec s schedule = some t) :
    (∃ place, Sound t place) ∧ Queued t ∧ Grows s t := by
  induction schedule generalizing s with
  | nil =>
    cases ran
    exact ⟨sound, queued, Grows.refl _⟩
  | cons label rest ih =>
    rw [Transition.Machine.exec_cons] at ran
    obtain ⟨u, stepped, ran⟩ := Option.bind_eq_some_iff.mp ran
    obtain ⟨place, sound⟩ := sound
    have effect := sound.effect stepped
    obtain ⟨sound', queued', grows⟩ := ih (sound.after effect) (queued.after effect) ran
    exact ⟨sound', queued', effect.grows.trans grows⟩

/-- A routine that executes again after its `yield` has been served, and all before it. -/
theorem yield_served (sound : Sound s place) (queued : Queued s) (user : s.control = .user r)
    (yielded : step s (.call .yield) = some t) {schedule : List Label} {u : State}
    (ran : machine.exec t schedule = some u) (again : u.control = .user r) :
    s.switches ++ (s.activeTasks 0).items ++ [r] <+: u.switches := by
  have effect := sound.effect yielded
  have grown : t.puts = s.switches ++ (s.activeTasks 0).items ++ [r] := by
    cases effect with
    | yield user' _ =>
      cases user.symm.trans user'
      rw [← queued.order]
      rfl
    | recycle _ op _ => rcases op with op | op <;> cases op
  obtain ⟨⟨place', sound'⟩, queued', grows⟩ := run_grows (sound.after effect)
    (queued.after effect) ran
  rw [← grown]
  have puts := grows.puts
  rw [queued'.order] at puts
  rcases List.prefix_or_prefix_of_prefix puts (List.prefix_append u.switches _) with
    served | ⟨left, behind⟩
  · exact served
  · -- otherwise its own task, the last of these, would still be in the queue
    rcases List.eq_nil_or_concat left with rfl | ⟨front, last, rfl⟩
    · rw [List.append_nil] at behind
      rw [behind]
    · exfalso
      rw [grown, List.concat_eq_append, ← List.append_assoc] at behind
      have self : last = r := by simpa using (List.append_inj' behind rfl).2
      have queue : r ∈ u.content .ready := by
        obtain ⟨more, split⟩ := puts
        rw [grown, ← behind, self, List.append_assoc, List.append_assoc,
          List.append_cancel_left_eq] at split
        rw [State.content, ← split]
        simp
      obtain ⟨-, -, -, out, -⟩ := sound'.executes again
      exact sound'.filed.not_mem out .ready queue

/-- In every run of one scheduler, whatever the routines call. -/
theorem serves_in_order (reached : machine.Reachable s) : InOrder s := by
  -- the order needs the filing only for the steps, so both are carried together
  obtain ⟨⟨place, sound⟩, queued⟩ : (∃ place, Sound s place) ∧ Queued s := by
    apply reached.invariant fun s => (∃ place, Sound s place) ∧ Queued s
    · rintro s rfl
      exact ⟨⟨_, initial_sound⟩, initial_queued⟩
    · rintro s label t ⟨⟨place, sound⟩, queued⟩ - stepped
      have effect := sound.effect stepped
      exact ⟨sound.after effect, queued.after effect⟩
  refine ⟨queued.order, sound.thrown, ?_, ?_, ?_, ?_⟩
  · intro task rest loop head
    have stepped : step s .turn = some s.turn := if_pos loop
    have effect := sound.effect stepped
    refine ⟨s.turn, stepped, ?_⟩
    -- with a task in the queue the turn cannot be the idle one
    generalize s.turn = t at effect
    cases effect with
    | idle _ empty => simp [TaskItemsList.popHead, queued.counted, head] at empty
    | turn _ head' =>
      rw [head] at head'
      cases head'
      exact ⟨rfl, rfl, by simp [State.enter, State.modify]⟩
  · intro loop empty
    have stepped : step s .turn = some s.turn := if_pos loop
    have effect := sound.effect stepped
    rw [stepped]
    generalize s.turn = t at effect
    cases effect with
    | idle _ _ => rfl
    | turn _ head =>
      rw [empty] at head
      cases head
  · intro label t stepped other
    exact (sound.effect stepped).switches other
  · intro r t schedule u user yielded ran again
    exact yield_served sound queued user yielded ran again

/-- Main makes and resumes two routines, and is behind its second `yield`. -/
theorem serves_in_order_two : ∃ s, machine.exec initial
    [.create, .turn, .call (.new 1), .call (.new 2), .call (.resume 3), .back, .turn, .call .yield,
      .back, .turn, .call (.resume 2), .back, .turn, .call .finish, .leave, .back] = some s ∧
    s.switches = [0, 3, 0, 3] ∧ InOrder s := by
  have ran : machine.exec initial
    [.create, .turn, .call (.new 1), .call (.new 2), .call (.resume 3), .back, .turn, .call .yield,
      .back, .turn, .call (.resume 2), .back, .turn, .call .finish, .leave, .back] = some _ := rfl
  exact ⟨_, ran, rfl, serves_in_order (Transition.Machine.exec_reachable (.start rfl) ran)⟩

end BRoutine.Solo
