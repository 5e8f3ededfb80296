import BRoutine.Recycle.Steps

/-!
# When what is recycled may be taken again

A calm run never clashes. One scheduler has calm runs only; with two, the stack of a routine that
has finished is taken by `New` on the other scheduler while the routine still executes on it.
-/

namespace BRoutine.Recycle

variable {s t : State} {b : Books} {k : Nat} {label : Label}

theorem Act.sound (sound : Sound s b) (inside : k < s.size) (act : Act s k label t)
    (calmly : calm s label = true) : ∃ b', Sound t b' := by
  cases act with
  | quiet quiet nums flags freed => exact ⟨b, sound.quiet inside quiet nums flags freed⟩
  | resume at_pc made => exact ⟨_, sound.resume inside at_pc made⟩
  | enter at_pc => exact ⟨b, sound.enter inside at_pc⟩
  | popRoutine at_pc head => exact ⟨_, sound.popRoutine inside at_pc head calmly⟩
  | allocate at_pc => exact ⟨_, sound.allocate inside at_pc⟩
  | popStack at_pc found head => exact ⟨_, sound.popStack inside at_pc found head calmly⟩
  | throw at_pc => exact ⟨_, sound.throw inside at_pc⟩
  | map at_pc legal => exact ⟨_, sound.map inside at_pc legal⟩
  | init at_pc => exact ⟨_, sound.init inside at_pc⟩
  | publish at_pc => exact ⟨_, sound.publish inside at_pc⟩
  | returns at_pc held => exact ⟨b, sound.returns inside at_pc held⟩
  | pushStack at_pc => exact sound.pushStack inside at_pc
  | clear at_pc => exact ⟨b, sound.clear inside at_pc⟩
  | pushRoutine at_pc => exact ⟨_, sound.pushRoutine inside at_pc⟩
  | store at_pc => exact ⟨b, sound.store inside at_pc⟩
  | leave at_pc => exact ⟨b, sound.leave inside at_pc⟩
  | take at_pc published => exact ⟨_, sound.take inside at_pc published calmly⟩

theorem Sound.register (sound : Sound s b) : Sound { s with size := s.size + 1 } b where
  clashed := sound.clashed
  routines := by
    convert sound.routines using 1
    funext key
    cases key <;> rfl
  stacked := by
    convert sound.stacked using 1
    funext home
    cases home <;> rfl
  hands := sound.hands
  unregistered j beyond := sound.unregistered j (Nat.le_of_succ_le beyond)
  unique := sound.unique
  born := sound.born
  rests := sound.rests
  pooled := sound.pooled
  unborn := sound.unborn
  unmapped := sound.unmapped
  sizes := sound.sizes

theorem initial_sound : Sound initial
    ⟨Function.update (fun _ => none) main (some .published), fun _ => none, fun _ => none⟩ where
  clashed := rfl
  routines := by
    have none := Filing.Filed.empty (K := Key) (I := Nat)
    have put := none.put (k := .published) (i := main) rfl
    convert put using 1
    funext key
    cases key <;> simp [State.files, initial, Pc.making]
  stacked := by
    convert Filing.Filed.empty (K := Home) (I := Nat) using 1
    funext home
    cases home <;> rfl
  hands j := rfl
  unregistered _ _ := rfl
  unique i j r has := by cases has
  born j r has := by cases has
  rests r _ := ⟨rfl, rfl⟩
  pooled r _ := rfl
  unborn r beyond := by
    have other : r ≠ main := by
      rintro rfl
      exact absurd beyond (by decide)
    exact ⟨by simp [other], rfl⟩
  unmapped _ _ := rfl
  sizes _ := (by decide : largeStackSize * 1024 ∈ stackSizes)

theorem step_sound {n : Nat} (sound : Sound s b) (calmly : calm s label = true)
    (stepped : step n s label = some t) : ∃ b', Sound t b' := by
  rcases step_spec stepped with ⟨k, inside, act⟩ | ⟨-, rfl⟩
  · exact act.sound sound inside calmly
  · exact ⟨b, sound.register⟩

/-- No calm run takes what is still in use. -/
theorem calm_unclashed {n : Nat}
    (reached : (machine n).ReachableBy (fun s label => calm s label) s) : s.clashed = false := by
  have kept : ∃ b, Sound s b := by
    apply reached.invariant fun s => ∃ b, Sound s b
    · rintro s rfl
      exact ⟨_, initial_sound⟩
    · rintro s label t ⟨b, sound⟩ calmly stepped
      exact step_sound sound calmly stepped
  obtain ⟨b, sound⟩ := kept
  exact sound.clashed

/-! ### One scheduler -/

/-- A single thread that calls `New` or takes a task is not on its way out of a routine. -/
theorem calm_single {n : Nat} (few : s.size ≤ 1) (stepped : step n s label = some t) :
    calm s label = true := by
  -- with one scheduler there is no other thread to collide with
  have only : ∀ j, j < s.size → j = 0 := fun j below => by omega
  cases label with
  | register => rfl
  | call k op => rfl
  | run k =>
    simp only [step] at stepped
    split at stepped
    next inside =>
      obtain rfl := only k inside
      simp only [calm]
      split
      next at_pc =>
        simp only [decide_eq_true_eq]
        refine .inr fun j below => ?_
        obtain rfl := only j below
        rw [at_pc]
        rfl
      next at_pc =>
        simp only [decide_eq_true_eq]
        refine .inr fun j below => ?_
        obtain rfl := only j below
        rw [at_pc]
        rfl
      · rfl
    · cases stepped
  | take k r =>
    simp only [step] at stepped
    split at stepped
    next here =>
      obtain rfl := only k here.1
      simp only [calm, decide_eq_true_eq]
      intro j below
      obtain rfl := only j below
      rw [here.2.1]
      simp [Pc.has, Pc.executes]
    · cases stepped

theorem reachable_calm {n : Nat} (few : n ≤ 1) (reached : (machine n).Reachable s) :
    (machine n).ReachableBy (fun s label => calm s label) s ∧ s.size ≤ 1 := by
  induction reached with
  | start starts =>
    subst starts
    exact ⟨.start rfl, Nat.le_refl 1⟩
  | @step s t label _ _ stepped ih =>
    refine ⟨.step ih.1 (calm_single ih.2 stepped) stepped, ?_⟩
    rcases step_spec stepped with ⟨k, inside, act⟩ | ⟨more, rfl⟩
    · have size : t.size = s.size := by cases act <;> rfl
      rw [size]
      exact ih.2
    · exact Nat.le_trans more few

/-! ### Two schedulers -/

/-- The routine 1 has finished on scheduler 0 and has put its stack into the pool; before it calls
`SwapContext`, main, on scheduler 1, gets the stack by `New`. -/
theorem two_clash {n : Nat} (several : 2 ≤ n) :
    ∃ s, (machine n).Reachable s ∧ s.clashed = true := by
  have registered : (machine n).Reachable { initial with size := 2 } := by
    refine .step (a := .register) (.start rfl) trivial ?_
    exact if_pos (show initial.size < n from several)
  obtain ⟨s, ran, clashed⟩ : ∃ s, (machine n).exec { initial with size := 2 }
      [.take 0 0, .run 0, .call 0 (.new 1), .run 0, .run 0, .run 0, .call 0 (.resume 1), .run 0,
        .run 0, .run 0, .run 0, .take 0 1, .run 0, .call 0 .finish, .run 0, .run 0,
        .take 1 0, .run 1, .call 1 (.new 1), .run 1, .run 1] = some s ∧ s.clashed = true :=
    ⟨_, rfl, rfl⟩
  exact ⟨s, Transition.Machine.exec_reachable registered ran, clashed⟩

/-- For any number of schedulers: nothing in use is taken in any calm run, and in all runs exactly
when there is one scheduler at most. -/
theorem unclashed_iff (n : Nat) :
    (∀ s, (machine n).ReachableBy (fun s label => calm s label) s → s.clashed = false) ∧
      ((∀ s, (machine n).Reachable s → s.clashed = false) ↔ n ≤ 1) := by
  refine ⟨fun s reached => calm_unclashed reached, fun safe => ?_, fun few s reached => ?_⟩
  · by_contra several
    -- the second thread takes what the first has put back and is still on
    obtain ⟨s, reached, clashed⟩ := two_clash (n := n) (by omega)
    rw [safe s reached] at clashed
    cases clashed
  · exact calm_unclashed (reachable_calm few reached).1

theorem unclashed_fails : ¬ ∀ n s, (machine n).Reachable s → s.clashed = false := by
  intro always
  obtain ⟨s, reached, clashed⟩ := two_clash (n := 2) (by omega)
  rw [always 2 s reached] at clashed
  cases clashed

end BRoutine.Recycle
