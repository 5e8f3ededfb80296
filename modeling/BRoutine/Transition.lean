import Mathlib.Data.List.Infix

/-!
# Transition systems with a partial step

A `Machine` takes one labelled step at a time, and a step that is not enabled gives no state.
A schedule is a list of labels. `ReachableBy ok` collects the states of the runs whose every
step is taken where `ok` allows it; `Visits` and `Takes` speak about the states and the steps
of one schedule. `safe_iff_steps_ok` turns an invariant that is lost exactly at the steps `ok`
rules out into an equivalence about whole schedules.
-/

namespace Transition

/-- Start states and a partial step for each label. -/
structure Machine (σ : Type*) (α : Type*) where
  start : σ → Prop
  step : σ → α → Option σ

namespace Machine

variable {σ α : Type*} (m : Machine σ α)

/-- The machine that takes the step `next` where `guard` lets it. -/
def guarded (start : σ → Prop) (guard : σ → α → Prop) [∀ s a, Decidable (guard s a)]
    (next : σ → α → σ) : Machine σ α where
  start := start
  step s a := if guard s a then some (next s a) else none

theorem guarded_step_iff {start : σ → Prop} {guard : σ → α → Prop} [∀ s a, Decidable (guard s a)]
    {next : σ → α → σ} {s t : σ} {a : α} :
    (guarded start guard next).step s a = some t ↔ guard s a ∧ t = next s a := by
  by_cases enabled : guard s a
  · simp [guarded, enabled, eq_comm]
  · simp [guarded, enabled]

/-- The states reached by runs that take each step where `ok` allows it. -/
inductive ReachableBy (ok : σ → α → Prop) : σ → Prop where
  | start {s : σ} : m.start s → ReachableBy ok s
  | step {s t : σ} {a : α} :
      ReachableBy ok s → ok s a → m.step s a = some t → ReachableBy ok t

/-- The states reached by any run. -/
def Reachable : σ → Prop := m.ReachableBy fun _ _ => True

/-- The state after a schedule, if each of its steps is enabled in turn. -/
def exec (s : σ) : List α → Option σ
  | [] => some s
  | a :: rest => (m.step s a).bind fun t => exec t rest

/-- The state after a schedule whose every step is enabled and taken where `ok` allows it. -/
def execWhile (ok : σ → α → Prop) [∀ s a, Decidable (ok s a)] (s : σ) : List α → Option σ
  | [] => some s
  | a :: rest => if ok s a then (m.step s a).bind fun t => execWhile ok t rest else none

/-- Some prefix of the schedule leads from `s` to `t`. -/
def Visits (s : σ) (schedule : List α) (t : σ) : Prop :=
  ∃ done, done <+: schedule ∧ m.exec s done = some t

/-- The schedule takes the step `a` in the state `t`. -/
def Takes (s : σ) (schedule : List α) (t : σ) (a : α) : Prop :=
  ∃ done u, done ++ [a] <+: schedule ∧ m.exec s done = some t ∧ m.step t a = some u

variable {m}

@[simp] theorem exec_nil (s : σ) : m.exec s [] = some s := rfl

theorem exec_cons (s : σ) (a : α) (rest : List α) :
    m.exec s (a :: rest) = (m.step s a).bind fun t => m.exec t rest := rfl

theorem exec_step {s t u : σ} {a : α} {rest : List α} (stepped : m.step s a = some t)
    (ran : m.exec t rest = some u) : m.exec s (a :: rest) = some u :=
  Option.bind_eq_some_iff.mpr ⟨t, stepped, ran⟩

theorem exec_append (s : σ) (front back : List α) :
    m.exec s (front ++ back) = (m.exec s front).bind fun t => m.exec t back := by
  induction front generalizing s with
  | nil => rfl
  | cons a front ih =>
    rw [List.cons_append, exec_cons, exec_cons]
    cases m.step s a with
    | none => rfl
    | some t => exact ih t

theorem exec_snoc {s t : σ} {schedule : List α} (before : m.exec s schedule = some t) (a : α) :
    m.exec s (schedule ++ [a]) = m.step t a := by
  rw [exec_append, before, Option.bind_some, exec_cons]
  cases m.step t a <;> rfl

/-- An invariant of the allowed steps holds of every state they reach. -/
theorem ReachableBy.invariant {ok : σ → α → Prop} (inv : σ → Prop)
    (initial : ∀ s, m.start s → inv s)
    (keeps : ∀ s a t, inv s → ok s a → m.step s a = some t → inv t) {s : σ}
    (reached : m.ReachableBy ok s) : inv s := by
  induction reached with
  | start starts => exact initial _ starts
  | step _ allowed stepped ih => exact keeps _ _ _ ih allowed stepped

theorem ReachableBy.mono {ok ok' : σ → α → Prop} (weaker : ∀ s a, ok s a → ok' s a) {s : σ}
    (reached : m.ReachableBy ok s) : m.ReachableBy ok' s := by
  induction reached with
  | start starts => exact .start starts
  | step _ allowed stepped ih => exact .step ih (weaker _ _ allowed) stepped

theorem ReachableBy.reachable {ok : σ → α → Prop} {s : σ} (reached : m.ReachableBy ok s) :
    m.Reachable s :=
  reached.mono fun _ _ _ => trivial

theorem exec_reachable {s t : σ} (reached : m.Reachable s) {schedule : List α}
    (ran : m.exec s schedule = some t) : m.Reachable t := by
  induction schedule generalizing s with
  | nil => cases ran; exact reached
  | cons a rest ih =>
    rw [exec_cons] at ran
    obtain ⟨u, stepped, rest_ran⟩ := Option.bind_eq_some_iff.mp ran
    exact ih (.step reached trivial stepped) rest_ran

/-- A schedule of labels that `ok` allows in every state. -/
theorem exec_reachableBy {ok : σ → α → Prop} {s t : σ} (reached : m.ReachableBy ok s)
    {schedule : List α} (allowed : ∀ a ∈ schedule, ∀ s, ok s a)
    (ran : m.exec s schedule = some t) : m.ReachableBy ok t := by
  induction schedule generalizing s with
  | nil => cases ran; exact reached
  | cons a rest ih =>
    rw [exec_cons] at ran
    obtain ⟨u, stepped, rest_ran⟩ := Option.bind_eq_some_iff.mp ran
    exact ih (.step reached (allowed a List.mem_cons_self s) stepped)
      (fun b listed => allowed b (List.mem_cons_of_mem a listed)) rest_ran

theorem execWhile_reachableBy (ok : σ → α → Prop) [∀ s a, Decidable (ok s a)] {s t : σ}
    (reached : m.ReachableBy ok s) (schedule : List α)
    (ran : m.execWhile ok s schedule = some t) : m.ReachableBy ok t := by
  induction schedule generalizing s with
  | nil => cases ran; exact reached
  | cons a rest ih =>
    simp only [execWhile] at ran
    split at ran
    next allowed =>
      obtain ⟨u, stepped, rest_ran⟩ := Option.bind_eq_some_iff.mp ran
      exact ih (.step reached allowed stepped) rest_ran
    · cases ran

/-- A schedule takes its first step where it begins, and the others from there on. -/
theorem takes_cons {s t u : σ} {a b : α} {rest : List α} (stepped : m.step s a = some t) :
    m.Takes s (a :: rest) u b ↔ (u = s ∧ b = a) ∨ m.Takes t rest u b := by
  constructor
  · rintro ⟨done, v, before, ran, last⟩
    cases done with
    | nil =>
      cases ran
      exact .inl ⟨rfl, (List.cons_prefix_cons.mp before).1⟩
    | cons c done =>
      obtain ⟨rfl, shorter⟩ := List.cons_prefix_cons.mp before
      rw [exec_cons, stepped, Option.bind_some] at ran
      exact .inr ⟨done, v, shorter, ran, last⟩
  · rintro (⟨rfl, rfl⟩ | ⟨done, v, before, ran, last⟩)
    · exact ⟨[], t, List.cons_prefix_cons.mpr ⟨rfl, List.nil_prefix⟩, rfl, stepped⟩
    · exact ⟨a :: done, v, List.cons_prefix_cons.mpr ⟨rfl, before⟩, exec_step stepped ran, last⟩

theorem Takes.mem {s t : σ} {schedule : List α} {a : α} (takes : m.Takes s schedule t a) :
    a ∈ schedule := by
  obtain ⟨done, -, before, -⟩ := takes
  exact before.subset (List.mem_append_right done (List.mem_singleton_self a))

theorem execWhile_takes (ok : σ → α → Prop) [∀ s a, Decidable (ok s a)] {s t u : σ} {a : α}
    {schedule : List α} (ran : m.execWhile ok s schedule = some t)
    (takes : m.Takes s schedule u a) : ok u a := by
  induction schedule generalizing s with
  | nil => cases takes.mem
  | cons b rest ih =>
    simp only [execWhile] at ran
    split at ran
    next allowed =>
      obtain ⟨v, stepped, rest_ran⟩ := Option.bind_eq_some_iff.mp ran
      rcases (takes_cons stepped).mp takes with ⟨rfl, rfl⟩ | later
      · exact allowed
      · exact ih rest_ran later
    · cases ran

theorem Visits.of_takes {s t u : σ} {a : α} {schedule : List α}
    (takes : ∃ done, done ++ [a] <+: schedule ∧ m.exec s done = some t)
    (stepped : m.step t a = some u) : m.Visits s schedule u := by
  obtain ⟨done, before, ran⟩ := takes
  exact ⟨done ++ [a], before, by rw [exec_snoc ran, stepped]⟩

/-- A predicate kept by the steps a schedule takes holds wherever the schedule goes. -/
theorem Visits.invariant {inv : σ → Prop} {s : σ} {schedule : List α} (initial : inv s)
    (keeps : ∀ t a u, m.Takes s schedule t a → inv t → m.step t a = some u → inv u) {t : σ}
    (visits : m.Visits s schedule t) : inv t := by
  obtain ⟨done, before, ran⟩ := visits
  induction done using List.reverseRecOn generalizing t with
  | nil => cases ran; exact initial
  | append_singleton done a ih =>
    rw [exec_append] at ran
    obtain ⟨u, ran_done, ran_last⟩ := Option.bind_eq_some_iff.mp ran
    have stepped : m.step u a = some t := by
      rw [← exec_snoc ran_done, exec_append, ran_done]; exact ran_last
    have shorter : done <+: schedule := (List.prefix_append done [a]).trans before
    exact keeps u a t ⟨done, t, before, ran_done, stepped⟩ (ih shorter ran_done) stepped

/-- If `inv` is kept by the steps of a schedule that `ok` allows and implies `good`, if these steps
are `fine`, and if a step outside `ok` is not `fine` or leaves `good`, then the schedule stays
inside `good` with `fine` steps only exactly when all its steps are `ok`. -/
theorem safe_and_fine_iff_taken_ok (inv : σ → Prop) {good : σ → Prop} {fine : σ → α → Prop}
    (ok : σ → α → Prop) {s : σ} (schedule : List α)
    (keeps : ∀ t a u, m.Takes s schedule t a → inv t → ok t a → m.step t a = some u → inv u)
    (sound : ∀ t, inv t → good t)
    (fair : ∀ t a u, inv t → ok t a → m.step t a = some u → fine t a)
    (sharp : ∀ t a u, m.Takes s schedule t a → inv t → ¬ ok t a → m.step t a = some u → good u →
      ¬ fine t a)
    (initial : inv s) :
    ((∀ t, m.Visits s schedule t → good t) ∧ ∀ t a, m.Takes s schedule t a → fine t a) ↔
      ∀ t a, m.Takes s schedule t a → ok t a := by
  constructor
  · rintro ⟨safe, steps⟩
    -- up to its first forbidden step a schedule keeps `inv`, and that step would show
    have steady : ∀ done t, done <+: schedule → m.exec s done = some t → inv t := by
      intro done
      induction done using List.reverseRecOn with
      | nil => intro t _ ran; cases ran; exact initial
      | append_singleton done a ih =>
        intro t before ran
        rw [exec_append] at ran
        obtain ⟨u, ran_done, ran_last⟩ := Option.bind_eq_some_iff.mp ran
        have stepped : m.step u a = some t := by
          rw [← exec_snoc ran_done, exec_append, ran_done]; exact ran_last
        have inv_u := ih u ((List.prefix_append done [a]).trans before) ran_done
        have takes : m.Takes s schedule u a := ⟨done, t, before, ran_done, stepped⟩
        by_cases allowed : ok u a
        · exact keeps u a t takes inv_u allowed stepped
        · exact absurd (steps u a takes)
            (sharp u a t takes inv_u allowed stepped
              (safe t (Visits.of_takes ⟨done, before, ran_done⟩ stepped)))
    intro t a takes
    obtain ⟨done, u, before, ran, stepped⟩ := id takes
    by_contra forbidden
    have inv_t := steady done t ((List.prefix_append done [a]).trans before) ran
    exact sharp t a u takes inv_t forbidden stepped
      (safe u (Visits.of_takes ⟨done, before, ran⟩ stepped)) (steps t a takes)
  · intro allowed
    have steady : ∀ t, m.Visits s schedule t → inv t := fun t visits =>
      Visits.invariant initial
        (fun u a v takes inv_u stepped => keeps u a v takes inv_u (allowed u a takes) stepped)
        visits
    refine ⟨fun t visits => sound t (steady t visits), fun t a takes => ?_⟩
    obtain ⟨done, u, before, ran, stepped⟩ := id takes
    have visited : m.Visits s schedule t := ⟨done, (List.prefix_append done [a]).trans before, ran⟩
    exact fair t a u (steady t visited) (allowed t a takes) stepped

/-- The same, for all schedules from where `inv` holds. -/
theorem safe_and_fine_iff_steps_ok (inv : σ → Prop) {good : σ → Prop} {fine : σ → α → Prop}
    (ok : σ → α → Prop)
    (keeps : ∀ t a u, inv t → ok t a → m.step t a = some u → inv u)
    (sound : ∀ t, inv t → good t)
    (fair : ∀ t a u, inv t → ok t a → m.step t a = some u → fine t a)
    (sharp : ∀ t a u, inv t → ¬ ok t a → m.step t a = some u → good u → ¬ fine t a)
    {s : σ} (initial : inv s) (schedule : List α) :
    ((∀ t, m.Visits s schedule t → good t) ∧ ∀ t a, m.Takes s schedule t a → fine t a) ↔
      ∀ t a, m.Takes s schedule t a → ok t a :=
  safe_and_fine_iff_taken_ok inv ok schedule (fun t a u _ => keeps t a u) sound fair
    (fun t a u _ => sharp t a u) initial

/-- If `inv` is kept by the steps of a schedule that `ok` allows, implies `good`, and a step of the
schedule outside `ok` always leaves `good`, then the schedule stays inside `good` exactly when all
its steps are `ok`. -/
theorem safe_iff_taken_ok (inv : σ → Prop) {good : σ → Prop} (ok : σ → α → Prop) {s : σ}
    (schedule : List α)
    (keeps : ∀ t a u, m.Takes s schedule t a → inv t → ok t a → m.step t a = some u → inv u)
    (sound : ∀ t, inv t → good t)
    (sharp : ∀ t a u, m.Takes s schedule t a → inv t → ¬ ok t a → m.step t a = some u → ¬ good u)
    (initial : inv s) :
    (∀ t, m.Visits s schedule t → good t) ↔ ∀ t a, m.Takes s schedule t a → ok t a := by
  have both : ((∀ t, m.Visits s schedule t → good t) ∧ ∀ t a, m.Takes s schedule t a → True) ↔
      ∀ t a, m.Takes s schedule t a → ok t a :=
    m.safe_and_fine_iff_taken_ok inv ok schedule keeps sound (fun _ _ _ _ _ _ => trivial)
      (fun t a u takes inv_t forbidden stepped good_u _ =>
        sharp t a u takes inv_t forbidden stepped good_u) initial
  rw [← both]
  exact ⟨fun safe => ⟨safe, fun _ _ _ => trivial⟩, And.left⟩

/-- If `inv` is kept by the steps `ok` allows, implies `good`, and a step outside `ok` always
leaves `good`, then a schedule stays inside `good` exactly when all its steps are `ok`. -/
theorem safe_iff_steps_ok (inv : σ → Prop) {good : σ → Prop} (ok : σ → α → Prop)
    (keeps : ∀ t a u, inv t → ok t a → m.step t a = some u → inv u)
    (sound : ∀ t, inv t → good t)
    (sharp : ∀ t a u, inv t → ¬ ok t a → m.step t a = some u → ¬ good u)
    {s : σ} (initial : inv s) (schedule : List α) :
    (∀ t, m.Visits s schedule t → good t) ↔ ∀ t a, m.Takes s schedule t a → ok t a :=
  safe_iff_taken_ok inv ok schedule (fun t a u _ => keeps t a u) sound
    (fun t a u _ => sharp t a u) initial

end Machine

end Transition
