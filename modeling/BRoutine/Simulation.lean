import BRoutine.Transition

/-!
# Forward simulation

A relation between the states of two machines that every step of the first keeps, with a step of
the second beside it or none. Whatever the first machine reaches is then related to a state that
the second one reaches. Where each step of the first says which steps of the second go beside it, a
schedule of the first has one schedule of the second that it shows.
-/

namespace Transition.Machine

variable {σ τ α β : Type*} {m : Machine σ α} {m' : Machine τ β} {related : σ → τ → Prop}
  {ok : σ → α → Prop} {ok' : τ → β → Prop}

/-- The runs of `m` from the state `s`. -/
def startingAt (m : Machine σ α) (s : σ) : Machine σ α where
  start t := t = s
  step := m.step

/-- A step that `ok` allows on one side is a step that `ok'` allows on the other, or none. -/
def Simulates (m : Machine σ α) (m' : Machine τ β) (ok : σ → α → Prop) (ok' : τ → β → Prop)
    (related : σ → τ → Prop) : Prop :=
  ∀ s s' a t, related s s' → ok s a → m.step s a = some t →
    ∃ t', related t t' ∧ (t' = s' ∨ ∃ b, ok' s' b ∧ m'.step s' b = some t')

/-- What is reached on one side is related to something reached on the other. -/
theorem Simulates.reachableBy (simulates : Simulates m m' ok ok' related)
    (starts : ∀ s, m.start s → ∃ s', m'.ReachableBy ok' s' ∧ related s s') {s : σ}
    (reached : m.ReachableBy ok s) : ∃ s', m'.ReachableBy ok' s' ∧ related s s' := by
  induction reached with
  | start first => exact starts _ first
  | step _ allowed stepped ih =>
    obtain ⟨s', reached', here⟩ := ih
    obtain ⟨t', there, rfl | ⟨b, allowed', stepped'⟩⟩ := simulates _ _ _ _ here allowed stepped
    · exact ⟨t', reached', there⟩
    · exact ⟨t', .step reached' allowed' stepped', there⟩

/-- The labels of a second machine that a schedule shows, if each of its steps shows some. -/
def shown (m : Machine σ α) (view : σ → α → List β) : σ → List α → List β
  | _, [] => []
  | s, a :: rest =>
    match m.step s a with
    | none => []
    | some t => view s a ++ m.shown view t rest

/-- Beside a step that `ok` allows the second machine goes along what the step shows. -/
def Follows (m : Machine σ α) (m' : Machine τ β) (ok : σ → α → Prop) (view : σ → α → List β)
    (related : σ → τ → Prop) : Prop :=
  ∀ s s' a t, related s s' → ok s a → m.step s a = some t →
    ∃ t', m'.exec s' (view s a) = some t' ∧ related t t'

/-- A schedule on one side has the schedule that it shows beside it. -/
theorem Follows.exec {view : σ → α → List β} (follows : Follows m m' ok view related) {s t : σ}
    {s' : τ} {schedule : List α} (here : related s s')
    (allowed : ∀ u a, m.Takes s schedule u a → ok u a) (ran : m.exec s schedule = some t) :
    ∃ t', m'.exec s' (m.shown view s schedule) = some t' ∧ related t t' := by
  induction schedule generalizing s s' with
  | nil =>
    cases ran
    exact ⟨s', rfl, here⟩
  | cons a rest ih =>
    rw [exec_cons] at ran
    obtain ⟨u, stepped, ran⟩ := Option.bind_eq_some_iff.mp ran
    have first := allowed s a ((takes_cons stepped).mpr (.inl ⟨rfl, rfl⟩))
    obtain ⟨u', moved, there⟩ := follows _ _ _ _ here first stepped
    obtain ⟨t', after, last⟩ := ih there
      (fun v b takes => allowed v b ((takes_cons stepped).mpr (.inr takes))) ran
    refine ⟨t', ?_, last⟩
    rw [shown, stepped, exec_append, moved, Option.bind_some, after]

/-- What is shown by labels that show at most one each, whatever the state. -/
theorem shown_eq_filterMap {show_of : α → Option β} {s t : σ} {schedule : List α}
    (ran : m.exec s schedule = some t) :
    m.shown (fun _ a => (show_of a).toList) s schedule = schedule.filterMap show_of := by
  induction schedule generalizing s with
  | nil => rfl
  | cons a rest ih =>
    rw [exec_cons] at ran
    obtain ⟨u, stepped, ran⟩ := Option.bind_eq_some_iff.mp ran
    simp only [shown, stepped, ih ran, List.filterMap_cons]
    cases show_of a <;> rfl

theorem startingAt_reachableBy {first s : σ} (before : m.ReachableBy ok first)
    (reached : (m.startingAt first).ReachableBy ok s) : m.ReachableBy ok s := by
  induction reached with
  | start starts => cases starts; exact before
  | step _ allowed stepped ih => exact .step ih allowed stepped

/-- From a related pair on. -/
theorem Simulates.reachableBy_from (simulates : Simulates m m' ok ok' related) {first : σ}
    {first' : τ} (before : m'.ReachableBy ok' first') (here : related first first') {s : σ}
    (reached : (m.startingAt first).ReachableBy ok s) :
    ∃ s', m'.ReachableBy ok' s' ∧ related s s' := by
  have from_first : Simulates (m.startingAt first) m' ok ok' related := simulates
  refine from_first.reachableBy ?_ reached
  rintro _ rfl
  exact ⟨first', before, here⟩

end Transition.Machine
