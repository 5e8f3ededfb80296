import BRoutine.Cond.Relock

/-!
# Waits that return with the mutex

`relocks_iff` says for which schedules of `BRoutine.Cond.Relock` everybody who goes on with a mutex
has it: a wait that a signal ends takes it with `lock`, whose stale retry is the one of
`BRoutine.BMutex`, and a wait that the timeout ends does not take it at all.
-/

namespace BRoutine.BCond.Relock

variable {M K R : Type}

/-- The mutex that a wait has given up and not begun to take again. -/
def Pc.awaits : Pc M K R → Option M
  | .add m _ _ | .register m _ | .swap m _ | .asleep m _ | .check m _ | .unregister m _ => some m
  | _ => none

/-- What holds as long as nobody leaves a wait without the mutex. -/
structure Sound (s : State M K R) : Prop where
  running : s.mutexes.aborted = false
  counted : ∀ m, BMutex.Counted (s.mutexes.view m)
  took : ∀ m r, (s.mutexes.pc m r).holds → s.mutexes.took m r = true
  away : ∀ r m, (s.pc r).awaits = some m → s.mutexes.pc m r = .outside

variable {s t : State M K R} {x : Mutexes M R} {m : M} {r : R}

theorem Sound.held (sound : Sound s) : Held s where
  running := sound.running
  alone m := (sound.counted m).unique
  taken m r inside := by
    refine ⟨?_, sound.took m r inside⟩
    rcases (sound.counted m).cell with free | taken
    · exact absurd inside ((sound.counted m).free free r)
    · exact taken

theorem sound_initial (now : Reading) : Sound (initial now : State M K R) where
  running := rfl
  counted _ := BMutex.initial_counted
  took _ _ inside := inside.elim
  away _ _ _ := rfl

theorem Held.exclusive (held : Held s) (m : M) : BMutex.Exclusive (s.mutexes.view m) :=
  ⟨held.alone m, held.running⟩

/-! ### Places and tasks -/

theorem removeSelfSave_spec {c : Nat} (removed : s.removeSelfSave c = some t) :
    t.mutexes = s.mutexes ∧ t.pc = s.pc := by
  unfold State.removeSelfSave at removed
  split at removed
  next timer filed => cases removed; exact ⟨rfl, rfl⟩
  next filed =>
    split at removed
    next expired => cases removed; exact ⟨rfl, rfl⟩
    next expired =>
      split at removed
      next queued => cases removed; exact ⟨rfl, rfl⟩
      · cases removed

theorem dealStep_spec (dealt : s.dealStep = some t) : t.mutexes = s.mutexes ∧ t.pc = s.pc := by
  unfold State.dealStep at dealt
  split at dealt
  · split at dealt
    · cases dealt
    · cases dealt; exact ⟨rfl, rfl⟩
  · cases dealt; exact ⟨rfl, rfl⟩
  · obtain ⟨routine, -, rfl⟩ := Option.map_eq_some_iff.mp dealt
    exact ⟨rfl, rfl⟩

/-- A routine in `lock` or `unlock` waits for nothing. -/
theorem awaits_other (nothing : (s.pc r).awaits = none) {q : R} {n : M}
    (waits : (s.pc q).awaits = some n) : q ≠ r ∧ (s.pc q).awaits = some n := by
  refine ⟨?_, waits⟩
  rintro rfl
  rw [nothing] at waits
  cases waits

theorem inside_unlock {p : BMutex.Pc R} (inside : p.holds) (through : p ≠ .locked) :
    p = .unlock := by
  cases p with
  | locked => exact absurd rfl through
  | unlock => rfl
  | _ => exact inside.elim


section
variable [DecidableEq R]

theorem takeTask_spec (taken : s.takeTask r = some t) : t.mutexes = s.mutexes ∧ t.pc = s.pc := by
  unfold State.takeTask at taken
  split at taken
  next woken => cases taken; exact ⟨rfl, rfl⟩
  · cases taken

theorem call_spec {p : Pc M K R} (called : s.call r p = some t) :
    s.pc r = .outside ∧ t = s.goto r p := by
  unfold State.call at called
  split at called
  next at_pc => cases called; exact ⟨at_pc, rfl⟩
  · cases called

theorem goto_pc (s : State M K R) (r : R) (p : Pc M K R) :
    (s.goto r p).pc = Function.update s.pc r p := rfl

theorem goto_awaits {p : Pc M K R} (gives : p.awaits = none ∨ p.awaits = (s.pc r).awaits) {q : R}
    {n : M} (waits : ((s.goto r p).pc q).awaits = some n) : (s.pc q).awaits = some n := by
  by_cases mine : q = r
  · subst mine
    rw [goto_pc, Function.update_self] at waits
    rcases gives with nothing | same
    · rw [nothing] at waits
      cases waits
    · rw [← same]
      exact waits
  · rwa [goto_pc, Function.update_of_ne mine] at waits

theorem goto_awaits_other {p : Pc M K R} (nothing : p.awaits = none) {q : R} {n : M}
    (waits : ((s.goto r p).pc q).awaits = some n) : q ≠ r ∧ (s.pc q).awaits = some n := by
  refine ⟨?_, goto_awaits (.inl nothing) waits⟩
  rintro rfl
  rw [goto_pc, Function.update_self, nothing] at waits
  cases waits

/-! ### One mutex -/

/-- Apart from `AddTask` a step in `lock` or `unlock` needs no ready queue. -/
theorem view_step_ready {b : BMutex.State R} (stepped : BMutex.step (x.view m) r = some b)
    (adds : ∀ mt, x.pc m r ≠ .addTask mt) : b.ready = [] := by
  cases (BMutex.step_spec stepped).2 with
  | resume at_pc woken => cases woken
  | wake at_pc => exact absurd at_pc (adds _)
  | _ => rfl

/-- `unlock` is reached from a mutex that was held. -/
theorem view_step_unlock {b : BMutex.State R} (stepped : BMutex.step (x.view m) r = some b)
    (at_unlock : b.pc r = .unlock) : (x.pc m r).holds := by
  cases (BMutex.step_spec stepped).2 with
  | callUnlock at_pc =>
    have before : x.pc m r = .locked := at_pc
    rw [before]
    trivial
  | abort at_pc free =>
    have before : x.pc m r = .unlock := at_pc
    rw [before]
    trivial
  | _ => simp at at_unlock

end

variable [DecidableEq M] [DecidableEq R]

theorem view_goto_self (p : BMutex.Pc R) : (x.goto m r p).view m = (x.view m).goto r p := by
  simp [Mutexes.view, Mutexes.goto, BMutex.State.goto]

theorem view_goto_other {n : M} (differs : n ≠ m) (p : BMutex.Pc R) :
    (x.goto m r p).view n = x.view n := by
  simp [Mutexes.view, Mutexes.goto, differs]

theorem view_install_self {b : BMutex.State R} (ready : b.ready = []) :
    (x.install m r b).view m = b := by
  cases b
  cases ready
  simp [Mutexes.view, Mutexes.install]

theorem view_install_other {n : M} (differs : n ≠ m) {b : BMutex.State R}
    (running : b.aborted = x.aborted) : (x.install m r b).view n = x.view n := by
  simp [Mutexes.view, Mutexes.install, differs, running]

theorem goto_pc_other {p : BMutex.Pc R} {n : M} {q : R} (differs : n ≠ m ∨ q ≠ r) :
    (x.goto m r p).pc n q = x.pc n q := by
  by_cases same : n = m
  · have other := differs.resolve_left (not_not.mpr same)
    simp [Mutexes.goto, same, other]
  · simp [Mutexes.goto, same]

theorem goto_pc_self (p : BMutex.Pc R) : (x.goto m r p).pc m r = p := by
  simp [Mutexes.goto]

theorem install_pc_self {b : BMutex.State R} (q : R) : (x.install m r b).pc m q = b.pc q := by
  simp [Mutexes.install]

theorem install_pc_other {b : BMutex.State R} (stepped : BMutex.step (x.view m) r = some b) {n : M}
    {q : R} (differs : n ≠ m ∨ q ≠ r) : (x.install m r b).pc n q = x.pc n q := by
  by_cases same : n = m
  · subst same
    have other := differs.resolve_left (not_not.mpr rfl)
    rw [install_pc_self, BMutex.step_pc_of_ne stepped other]
    rfl
  · simp [Mutexes.install, same]

theorem install_took_self {b : BMutex.State R} (through : b.pc r = .locked) :
    (x.install m r b).took m r = true := by
  simp [Mutexes.install, through]

theorem install_took_of_ne {b : BMutex.State R} (inside : b.pc r ≠ .locked) :
    (x.install m r b).took = x.took := by
  simp [Mutexes.install, inside]

theorem install_took_other {b : BMutex.State R} {n : M} {q : R} (differs : n ≠ m ∨ q ≠ r) :
    (x.install m r b).took n q = x.took n q := by
  by_cases through : b.pc r = .locked
  · by_cases same : n = m
    · have other := differs.resolve_left (not_not.mpr same)
      simp [Mutexes.install, through, same, other]
    · simp [Mutexes.install, through, same]
  · rw [install_took_of_ne through]

/-! ### Effects -/

/-- What a step does to the mutexes, and whose waits go on after it. -/
inductive Effect (s : State M K R) (label : Label M K R) (t : State M K R) : Prop where
  /-- no step in `lock` or `unlock` -/
  | quiet (allowed : Relocks s label) (mutexes : t.mutexes = s.mutexes)
      (awaits : ∀ q n, (t.pc q).awaits = some n → (s.pc q).awaits = some n)
  /-- a move to or within `lock` or `unlock` that does not change who has the mutex -/
  | place (r : R) (m : M) (p : BMutex.Pc R) (allowed : Relocks s label)
      (mutexes : t.mutexes = s.mutexes.goto m r p)
      (same : p.holds ↔ (s.mutexes.pc m r).holds)
      (awaits : ∀ q n, (t.pc q).awaits = some n → q ≠ r ∧ (s.pc q).awaits = some n)
  /-- any other step in `lock` or `unlock` -/
  | moved (r : R) (m : M) (b : BMutex.State R)
      (allowed : Relocks s label ↔ ¬ BMutex.StaleRetry (s.mutexes.view m) r)
      (stepped : BMutex.step (s.mutexes.view m) r = some b) (ready : b.ready = [])
      (mutexes : t.mutexes = s.mutexes.install m r b)
      (awaits : ∀ q n, (t.pc q).awaits = some n →
        q ≠ r ∧ (s.pc q).awaits = some n ∨ q = r ∧ n = m ∧ b.pc r = .outside)
  /-- `timeWait` returns by the timeout -/
  | timedOut (r : R) (m : M) (refused : ¬ Relocks s label)
      (mutexes : t.mutexes = s.mutexes.assume m r)

/-- A step of `mutexStep`. -/
inductive MutexMove (s : State M K R) (m : M) (r : R) (t : State M K R) : Prop where
  | place (p : BMutex.Pc R) (fresh : s.mutexes.pc m r ≠ .retry 1)
      (before : ¬ (s.mutexes.pc m r).holds) (after : ¬ p.holds) (within : p ≠ .outside)
      (mutexes : t.mutexes = s.mutexes.goto m r p)
  | moved (b : BMutex.State R) (stepped : BMutex.step (s.mutexes.view m) r = some b)
      (ready : b.ready = []) (mutexes : t.mutexes = s.mutexes.install m r b)

theorem mutexStep_spec (stepped : s.mutexStep m r = some t) :
    t.pc = s.pc ∧ MutexMove s m r t := by
  unfold State.mutexStep at stepped
  split at stepped
  next i at_pc =>
    obtain ⟨u, taken, rfl⟩ := Option.map_eq_some_iff.mp stepped
    obtain ⟨mutexes, pc⟩ := takeTask_spec taken
    refine ⟨pc, .place (.retry i) ?_ ?_ id (by simp) (by rw [mutexes])⟩
    · simp [at_pc]
    · simp [at_pc, BMutex.Pc.holds]
  next mt at_pc =>
    cases stepped
    refine ⟨rfl, .place .unlocked ?_ ?_ id (by simp) rfl⟩
    · simp [at_pc]
    · simp [at_pc, BMutex.Pc.holds]
  next _ adds =>
    obtain ⟨b, moved, rfl⟩ := Option.map_eq_some_iff.mp stepped
    exact ⟨rfl, .moved b moved (view_step_ready moved adds) rfl⟩

/-- A step in `lock` or `unlock`, after which `r` goes on somewhere. -/
theorem MutexMove.effect {u : State M K R} (move : MutexMove s m r u)
    (guarded : Relocks s (.run r) ↔ ¬ BMutex.StaleRetry (s.mutexes.view m) r)
    (mutexes : t.mutexes = u.mutexes)
    (awaits : ∀ q n, (t.pc q).awaits = some n →
      q ≠ r ∧ (s.pc q).awaits = some n ∨ q = r ∧ n = m ∧ u.mutexes.pc m r = .outside) :
    Effect s (.run r) t := by
  cases move with
  | place p fresh before after within placed =>
    refine .place r m p (guarded.mpr fun stale => fresh stale.1) (mutexes.trans placed)
      (by simp [before, after]) fun q n waits => ?_
    rcases awaits q n waits with other | ⟨-, -, outside⟩
    · exact other
    · rw [placed, goto_pc_self] at outside
      exact absurd outside within
  | moved b stepped ready installed =>
    refine .moved r m b guarded stepped ready (mutexes.trans installed) fun q n waits => ?_
    rcases awaits q n waits with other | ⟨mine, same, outside⟩
    · exact .inl other
    · rw [installed] at outside
      exact .inr ⟨mine, same, by simpa [Mutexes.install] using outside⟩

/-- A step in `lock` or `unlock` that leads to no wait. -/
theorem mutexStep_effect {u : State M K R} (moved : s.mutexStep m r = some u)
    (guarded : Relocks s (.run r) ↔ ¬ BMutex.StaleRetry (s.mutexes.view m) r)
    (nothing : (s.pc r).awaits = none) (mutexes : t.mutexes = u.mutexes)
    (awaits : ∀ q n, (t.pc q).awaits = some n → (u.pc q).awaits = some n) :
    Effect s (.run r) t := by
  obtain ⟨pc, move⟩ := mutexStep_spec moved
  refine move.effect guarded mutexes fun q n waits => .inl ?_
  have before := awaits q n waits
  rw [pc] at before
  exact awaits_other nothing before

/-- A step that only moves a routine. -/
theorem quiet_goto {u : State M K R} {p : Pc M K R} {label : Label M K R}
    (allowed : Relocks s label) (mutexes : u.mutexes = s.mutexes) (pc : u.pc = s.pc)
    (gives : p.awaits = none ∨ p.awaits = (s.pc r).awaits) : Effect s label (u.goto r p) := by
  refine .quiet allowed mutexes fun q n waits => ?_
  rw [← pc]
  exact goto_awaits (by rwa [pc]) waits

/-- A step that moves a routine to a place in `lock` or `unlock` of `m`. -/
theorem place_goto {u : State M K R} {p : Pc M K R} {here : BMutex.Pc R} {label : Label M K R}
    (allowed : Relocks s label) (mutexes : u.mutexes = s.mutexes.goto m r here)
    (same : here.holds ↔ (s.mutexes.pc m r).holds) (pc : u.pc = s.pc) (nothing : p.awaits = none) :
    Effect s label (u.goto r p) := by
  refine .place r m here allowed mutexes same fun q n waits => ?_
  rw [← pc]
  exact goto_awaits_other nothing waits

/-! ### What is preserved -/

/-- A routine goes to another place of `lock` or `unlock` and neither gets nor gives up `m`. -/
theorem Sound.place (sound : Sound s) {p : BMutex.Pc R} (same : p.holds ↔ (s.mutexes.pc m r).holds)
    (mutexes : t.mutexes = s.mutexes.goto m r p)
    (awaits : ∀ q n, (t.pc q).awaits = some n → q ≠ r ∧ (s.pc q).awaits = some n) : Sound t := by
  constructor
  · rw [mutexes]
    exact sound.running
  · intro n
    rw [mutexes]
    by_cases this : n = m
    · subst this
      rw [view_goto_self]
      exact (sound.counted n).move _ _ same
    · rw [view_goto_other this]
      exact sound.counted n
  · intro n q inside
    rw [mutexes] at inside ⊢
    -- only the place of `r` at `m` has changed
    by_cases mine : n = m ∧ q = r
    · obtain ⟨rfl, rfl⟩ := mine
      rw [goto_pc_self] at inside
      exact sound.took n q (same.mp inside)
    · rw [goto_pc_other (not_and_or.mp mine)] at inside
      exact sound.took n q inside
  · intro q n waits
    obtain ⟨other, before⟩ := awaits q n waits
    rw [mutexes, goto_pc_other (.inr other)]
    exact sound.away q n before

/-- Whoever has a mutex after a step in `lock` or `unlock` has it from an exchange of `lock`. -/
theorem Sound.took_install (sound : Sound s) {b : BMutex.State R}
    (stepped : BMutex.step (s.mutexes.view m) r = some b) {n : M} {q : R}
    (inside : ((s.mutexes.install m r b).pc n q).holds) :
    (s.mutexes.install m r b).took n q = true := by
  by_cases mine : n = m ∧ q = r
  · obtain ⟨rfl, rfl⟩ := mine
    rw [install_pc_self] at inside
    by_cases through : b.pc q = .locked
    · exact install_took_self through
    · -- the step was not the exchange, so `q` is at `unlock` and had the mutex before
      rw [install_took_of_ne through]
      exact sound.took n q (view_step_unlock stepped (inside_unlock inside through))
  · rw [install_pc_other stepped (not_and_or.mp mine)] at inside
    rw [install_took_other (not_and_or.mp mine)]
    exact sound.took n q inside

theorem Sound.moved (sound : Sound s) {b : BMutex.State R}
    (fresh : ¬ BMutex.StaleRetry (s.mutexes.view m) r)
    (stepped : BMutex.step (s.mutexes.view m) r = some b) (ready : b.ready = [])
    (mutexes : t.mutexes = s.mutexes.install m r b)
    (awaits : ∀ q n, (t.pc q).awaits = some n →
      q ≠ r ∧ (s.pc q).awaits = some n ∨ q = r ∧ n = m ∧ b.pc r = .outside) : Sound t := by
  -- without a stale retry the mutex itself goes on as in `BMutex`
  have counted := BMutex.step_counted (sound.counted m) fresh stepped
  have running : b.aborted = s.mutexes.aborted := counted.running.trans sound.running.symm
  constructor
  · rw [mutexes]
    exact counted.running
  · intro n
    rw [mutexes]
    by_cases this : n = m
    · subst this
      rwa [view_install_self ready]
    · rw [view_install_other this running]
      exact sound.counted n
  · intro n q inside
    rw [mutexes] at inside ⊢
    exact sound.took_install stepped inside
  · intro q n waits
    rw [mutexes]
    rcases awaits q n waits with ⟨other, before⟩ | ⟨rfl, rfl, outside⟩
    · rw [install_pc_other stepped (.inr other)]
      exact sound.away q n before
    · rw [install_pc_self]
      exact outside

theorem Effect.sound {label : Label M K R} (effect : Effect s label t) (sound : Sound s)
    (allowed : Relocks s label) : Sound t := by
  cases effect with
  | quiet _ mutexes awaits =>
    constructor
    · rw [mutexes]
      exact sound.running
    · rw [mutexes]
      exact sound.counted
    · rw [mutexes]
      exact sound.took
    · intro q n waits
      rw [mutexes]
      exact sound.away q n (awaits q n waits)
  | place r m p _ mutexes same awaits => exact sound.place same mutexes awaits
  | moved r m b fresh stepped ready mutexes awaits =>
    exact sound.moved (fresh.mp allowed) stepped ready mutexes awaits
  | timedOut r m refused mutexes => exact absurd allowed refused

/-- A stale retry gives the mutex to two, and a timeout to one that has not taken it. -/
theorem Effect.breaks {label : Label M K R} (effect : Effect s label t) (sound : Sound s)
    (refused : ¬ Relocks s label) : ¬ Held t := by
  intro held
  cases effect with
  | quiet allowed => exact refused allowed
  | place _ _ _ allowed => exact refused allowed
  | moved r m b fresh stepped ready mutexes =>
    rw [fresh, not_not] at refused
    have exclusive := held.exclusive m
    rw [mutexes, view_install_self ready] at exclusive
    exact BMutex.staleRetry_breaks (sound.counted m) refused stepped exclusive
  | timedOut r m _ mutexes =>
    -- `r` is at `locked` without an exchange of its own
    have inside : (t.mutexes.pc m r).holds := by
      rw [mutexes, Mutexes.assume, goto_pc_self]
      trivial
    have took := (held.taken m r inside).2
    rw [mutexes] at took
    simp [Mutexes.assume] at took

/-! ### Steps -/

theorem callOn_effect {here there : BMutex.Pc R} {p : Pc M K R} {label : Label M K R}
    (called : s.callOn r m here there p = some t) (allowed : Relocks s label)
    (same : there.holds ↔ here.holds) (nothing : p.awaits = none) : Effect s label t := by
  unfold State.callOn at called
  split at called
  next at_pc =>
    obtain ⟨-, rfl⟩ := call_spec called
    exact place_goto allowed rfl (by rw [at_pc]; exact same) rfl nothing
  · cases called

theorem call_effect {p : Pc M K R} {label : Label M K R} (called : s.call r p = some t)
    (allowed : Relocks s label) (nothing : p.awaits = none) : Effect s label t := by
  obtain ⟨-, rfl⟩ := call_spec called
  exact quiet_goto allowed rfl rfl (.inl nothing)

variable [DecidableEq K]

/-- The `unlock` of a wait: when it has returned, the routine awaits the mutex. -/
theorem release_effect {k : K} {timeoutMs : Option (BitVec 32)}
    (at_pc : s.pc r = .release m k timeoutMs) (stepped : s.runStep r = some t) :
    Effect s (.run r) t := by
  simp only [State.runStep, at_pc] at stepped
  obtain ⟨u, moved, rfl⟩ := Option.map_eq_some_iff.mp stepped
  obtain ⟨pc, move⟩ := mutexStep_spec moved
  refine move.effect (by simp [Relocks, at_pc, BMutex.StaleRetry, Mutexes.view])
    (by split <;> rfl) fun q n waits => ?_
  split at waits
  next outside =>
    by_cases mine : q = r
    · subst mine
      rw [goto_pc, Function.update_self] at waits
      exact .inr ⟨rfl, (Option.some.inj waits).symm, outside⟩
    · rw [goto_pc, Function.update_of_ne mine, pc] at waits
      exact .inl ⟨mine, waits⟩
  next inside =>
    rw [pc] at waits
    exact .inl (awaits_other (by rw [at_pc]; rfl) waits)

theorem runStep_effect (sound : Sound s) (stepped : s.runStep r = some t) :
    Effect s (.run r) t := by
  cases at_pc : s.pc r with
  | outside => simp [State.runStep, at_pc] at stepped
  | own m =>
    simp only [State.runStep, at_pc] at stepped
    obtain ⟨u, moved, rfl⟩ := Option.map_eq_some_iff.mp stepped
    refine mutexStep_effect moved (by simp [Relocks, at_pc, BMutex.StaleRetry, Mutexes.view])
      (by rw [at_pc]; rfl) (by split <;> rfl) fun q n waits => ?_
    split at waits
    next through => exact goto_awaits (.inl rfl) waits
    next inside => exact waits
  | release m k timeoutMs => exact release_effect at_pc stepped
  | add m k timeoutMs =>
    simp only [State.runStep, at_pc] at stepped
    cases timeoutMs with
    | none =>
      cases stepped
      exact quiet_goto (by simp [Relocks, at_pc]) rfl rfl (.inr (by rw [at_pc]; rfl))
    | some timeoutMs =>
      cases stepped
      exact quiet_goto (by simp [Relocks, at_pc]) rfl rfl (.inr (by rw [at_pc]; rfl))
  | register m timeoutMs =>
    simp only [State.runStep, at_pc] at stepped
    cases stepped
    exact quiet_goto (by simp [Relocks, at_pc]) rfl rfl (.inr (by rw [at_pc]; rfl))
  | swap m c =>
    simp only [State.runStep, at_pc] at stepped
    cases stepped
    exact quiet_goto (by simp [Relocks, at_pc]) rfl rfl (.inr (by rw [at_pc]; rfl))
  -- `wait` goes straight on to `lock`, `timeWait` looks at `IsTimeout` first
  | asleep m c =>
    simp only [State.runStep, at_pc] at stepped
    obtain ⟨u, taken, rfl⟩ := Option.map_eq_some_iff.mp stepped
    obtain ⟨mutexes, pc⟩ := takeTask_spec taken
    cases c with
    | none =>
      refine place_goto (by simp [Relocks, at_pc]) (by rw [mutexes]) ?_ pc rfl
      rw [sound.away r m (by rw [at_pc]; rfl)]
      exact Iff.rfl
    | some c => exact quiet_goto (by simp [Relocks, at_pc]) mutexes pc (.inr (by rw [at_pc]; rfl))
  | check m c =>
    simp only [State.runStep, at_pc] at stepped
    split at stepped
    next early =>
      cases stepped
      exact quiet_goto (by simp [Relocks, at_pc, early]) rfl rfl (.inr (by rw [at_pc]; rfl))
    next late =>
      cases stepped
      exact .timedOut r m (by simp [Relocks, at_pc, late]) rfl
  | unregister m c =>
    simp only [State.runStep, at_pc] at stepped
    split at stepped
    -- a null owner: nothing of this is touched
    next crashed =>
      cases stepped
      exact .quiet (by simp [Relocks, at_pc]) rfl fun _ _ waits => waits
    next u removed =>
      cases stepped
      obtain ⟨mutexes, pc⟩ := removeSelfSave_spec removed
      refine place_goto (by simp [Relocks, at_pc]) (by rw [mutexes]) ?_ pc rfl
      rw [sound.away r m (by rw [at_pc]; rfl)]
      exact Iff.rfl
  | relock m c =>
    simp only [State.runStep, at_pc] at stepped
    obtain ⟨u, moved, rfl⟩ := Option.map_eq_some_iff.mp stepped
    refine mutexStep_effect moved (by simp [Relocks, at_pc, BMutex.StaleRetry, Mutexes.view])
      (by rw [at_pc]; rfl) (by split <;> rfl) fun q n waits => ?_
    split at waits
    next through => exact goto_awaits (.inl rfl) waits
    next inside => exact waits
  | popAll k =>
    simp only [State.runStep, at_pc] at stepped
    split at stepped
    next empty =>
      cases stepped
      exact quiet_goto (by simp [Relocks, at_pc]) rfl rfl (.inl rfl)
    next routine rest front =>
      cases stepped
      exact quiet_goto (by simp [Relocks, at_pc]) rfl rfl (.inl rfl)
  | wakeAll k routine =>
    simp only [State.runStep, at_pc] at stepped
    cases stepped
    exact quiet_goto (by simp [Relocks, at_pc]) rfl rfl (.inl rfl)
  | popOnce k =>
    simp only [State.runStep, at_pc] at stepped
    split at stepped
    next empty =>
      cases stepped
      exact .quiet (by simp [Relocks, at_pc]) rfl fun _ _ waits => waits
    next routine rest front =>
      cases stepped
      exact quiet_goto (by simp [Relocks, at_pc]) rfl rfl (.inl rfl)
  | wakeOnce routine =>
    simp only [State.runStep, at_pc] at stepped
    cases stepped
    exact quiet_goto (by simp [Relocks, at_pc]) rfl rfl (.inl rfl)

theorem step_effect (sound : Sound s) {label : Label M K R} (stepped : step s label = some t) :
    Effect s label t := by
  unfold step at stepped
  split at stepped
  · cases stepped
  cases label with
  | run r => exact runStep_effect sound stepped
  | lock r m => exact callOn_effect stepped trivial Iff.rfl rfl
  | unlock r m => exact callOn_effect stepped trivial Iff.rfl rfl
  | wait r m k => exact callOn_effect stepped trivial Iff.rfl rfl
  | timeWait r m k timeoutMs => exact callOn_effect stepped trivial Iff.rfl rfl
  | signalAll r k => exact call_effect stepped trivial rfl
  | signalOnce r k => exact call_effect stepped trivial rfl
  | post r =>
    cases stepped
    exact .quiet trivial rfl fun _ _ waits => waits
  | merge now =>
    dsimp only at stepped
    split at stepped
    next through =>
      obtain ⟨_, _, rfl⟩ := Option.map_eq_some_iff.mp stepped
      exact .quiet trivial rfl fun _ _ waits => waits
    · cases stepped
  | deal =>
    obtain ⟨mutexes, pc⟩ := dealStep_spec stepped
    exact .quiet trivial mutexes fun q n waits => by rwa [pc] at waits

/-! ### Runs -/

/-- For any routines, mutexes and conditions and any order of their steps: whoever goes on with a
mutex, after `lock` or after a wait, is the only one to have it and has it from `lock`, and nobody
aborts, all along the schedule, exactly when nobody leaves `timeWait` by the timeout and no waiter
makes a stale retry. -/
theorem relocks_iff (now : Reading) (schedule : List (Label M K R)) :
    (∀ t, (machine M K R).Visits (initial now) schedule t → Held t) ↔
      ∀ t label, (machine M K R).Takes (initial now) schedule t label → Relocks t label :=
  Transition.Machine.safe_iff_steps_ok (m := machine M K R) Sound Relocks
    (fun _ _ _ sound allowed stepped => (step_effect sound stepped).sound sound allowed)
    (fun _ sound => sound.held)
    (fun _ _ _ sound refused stepped => (step_effect sound stepped).breaks sound refused)
    (sound_initial now) schedule

/-- Routine 0 locks and waits 5 ms for a signal that does not come: `timeWait` returns 0, and the
`unlock` of its next wait aborts. -/
theorem relocks_fails :
    ¬ ∀ schedule : List (Label Unit Unit Nat), ∀ t,
      (machine Unit Unit Nat).Visits (initial 0) schedule t → Held t := by
  intro always
  let waits : List (Label Unit Unit Nat) :=
    [.lock 0 (), .run 0, .timeWait 0 () () 5, .run 0, .run 0, .run 0, .run 0, .run 0, .run 0]
  let expires : List (Label Unit Unit Nat) := [.merge 5, .deal, .deal, .deal]
  let again : List (Label Unit Unit Nat) := [.run 0, .run 0, .timeWait 0 () () 5, .run 0]
  have aborts : ((machine Unit Unit Nat).exec (initial 0) (waits ++ expires ++ again)).map
      (fun t => (t.returned 0, t.mutexes.aborted)) = some (some 0, true) := by
    decide +kernel
  obtain ⟨t, ran, late⟩ := Option.map_eq_some_iff.mp aborts
  obtain ⟨-, aborted⟩ := Prod.mk.inj late
  have running := (always _ t ⟨_, List.prefix_refl _, ran⟩).running
  rw [aborted] at running
  cases running

end BRoutine.BCond.Relock
