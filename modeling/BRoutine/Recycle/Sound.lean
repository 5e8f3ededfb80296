import BRoutine.Filing
import BRoutine.Recycle.Model

/-!
# Who owns a stack

While no scheduler takes a routine that another still has in its hands, and `New` takes nothing
out of a pool while a recycled routine is still on its way out, each routine is in one file or in
the hands of one thread, and the stack that a thread executes on belongs to the routine in its
hands, or has just been put into the pool by it.
-/

namespace BRoutine.Recycle

/-- The routine that a thread has in its hands. -/
def Pc.has : Pc → Option Nat
  | .got r => some r
  | p => p.executes

/-- The routine that `New` has taken and not initialised. -/
def Pc.making : Pc → Option Nat
  | .newStack _ i _ | .newCount _ i _ | .newInit _ i _ => some i
  | _ => none

/-- Its routine is in the pool, and it has not left the stack. -/
def Pc.returnedRoutine : Pc → Bool
  | .swap _ recycled | .load _ recycled => recycled
  | _ => false

/-- The stack of its routine is in the pool, and it has not left it. -/
def Pc.returnedStack : Pc → Bool
  | .count _ | .clear _ | .pushRoutine _ => true
  | p => p.returnedRoutine

/-- `New` takes something out of a pool only while no recycled routine is on its way out, and a
task is taken only of a routine that no scheduler has in its hands. -/
def calm (s : State) : Label → Bool
  | .run k =>
    match s.pc k with
    | .newRoutine _ _ =>
      s.routinePool = [] ∨ ∀ j < s.size, (s.pc j).returnedRoutine = false
    | .newStack _ _ level =>
      (popList level).elim [] s.stackPool.list = [] ∨
        ∀ j < s.size, (s.pc j).returnedStack = false
    | _ => true
  | .take _ r => ∀ j < s.size, (s.pc j).has ≠ some r
  | _ => true

/-! ### Invariant -/

/-- Where a routine is while it is in no hands. -/
inductive Key where
  | making (k : Nat)
  | made
  | published
  | pooled
  deriving DecidableEq, Repr

def State.files (s : State) : Key → List Nat
  | .making k => (s.pc k).making.toList
  | .made => s.made
  | .published => s.published
  | .pooled => s.routinePool

inductive Home where
  | held (r : Nat)
  | pooled (l : PoolList)
  deriving DecidableEq, Repr

def State.stacksAt (s : State) (owned : Nat → Option Nat) : Home → List Nat
  | .held r => (owned r).toList
  | .pooled l => s.stackPool.list l

/-- The places of the routines, their stacks until they give them back, and the places of the
stacks. -/
structure Books where
  place : Nat → Option Key
  owned : Nat → Option Nat
  home : Nat → Option Home

/-- The thread `j` executes on the stack of the routine `r`. -/
def Runs (s : State) (b : Books) (j r : Nat) : Prop :=
  s.stack r = b.owned r ∧ s.on j = b.owned r

/-- The thread `j` executes on a stack that it has put into the pool. -/
def Gave (s : State) (b : Books) (j : Nat) : Prop :=
  ∃ st l, s.on j = some st ∧ b.home st = some (.pooled l)

/-- What a program point knows of the routine in its hands and of the one it makes. -/
def Knows (s : State) (b : Books) (j : Nat) : Pc → Prop
  | .loop | .back _ => s.on j = none
  | .got r => s.on j = none ∧ b.place r = none ∧ s.stack r = b.owned r ∧ s.regs r = b.owned r
  | .user r | .newRoutine r _ | .publish r | .recycle r => Runs s b j r ∧ b.place r = none
  | .newStack r i _ => Runs s b j r ∧ b.place r = none ∧ b.owned i = none
  | .newCount r i st | .newInit r i st =>
    Runs s b j r ∧ b.place r = none ∧ s.stack i = some st ∧ b.owned i = some st
  | .pushStack r st => Runs s b j r ∧ b.place r = none ∧ s.stack r = some st
  | .count r | .clear r | .pushRoutine r => Gave s b j ∧ b.place r = none ∧ b.owned r = none
  | .swap r false => Runs s b j r ∧ (b.place r = none ∨ b.place r = some .published)
  | .load r false => Runs s b j r ∧ (b.place r = none ∨ b.place r = some .published) ∧
      s.regs r = b.owned r
  | .swap r true | .load r true => Gave s b j ∧ b.place r = some .pooled

def At (s : State) (b : Books) (j : Nat) : Prop := Knows s b j (s.pc j)

/-- The routine can be switched to. -/
def Rests (s : State) (b : Books) (r : Nat) : Prop :=
  s.stack r = b.owned r ∧ s.regs r = b.owned r

structure Sound (s : State) (b : Books) : Prop where
  clashed : s.clashed = false
  routines : Filing.Filed s.files b.place
  stacked : Filing.Filed (s.stacksAt b.owned) b.home
  hands : ∀ j, At s b j
  unregistered : ∀ j, s.size ≤ j → s.pc j = .loop
  unique : ∀ i j r, (s.pc i).has = some r → (s.pc j).has = some r → i = j
  born : ∀ j r, (s.pc j).has = some r → r < s.nextRoutine
  rests : ∀ r, b.place r = some .made ∨
    (b.place r = some .published ∧ ∀ j, (s.pc j).has ≠ some r) → Rests s b r
  pooled : ∀ r, b.place r = some .pooled → b.owned r = none
  unborn : ∀ r, s.nextRoutine ≤ r → b.place r = none ∧ b.owned r = none
  unmapped : ∀ st, s.nextStack ≤ st → b.home st = none
  sizes : ∀ st, s.stackSize st ∈ stackSizes

variable {s t : State} {b b' : Books} {j k r x : Nat}

theorem Runs.congr (runs : Runs s b j r) (owned : b'.owned r = b.owned r)
    (stack : t.stack r = s.stack r) (on : t.on j = s.on j) : Runs t b' j r :=
  ⟨by rw [stack, owned]; exact runs.1, by rw [on, owned]; exact runs.2⟩

/-- A thread looks at the routine in its hands and at the one it makes, and at nothing else. -/
theorem At.congr (at_pc : At s b j) (pc : t.pc j = s.pc j) (on : t.on j = s.on j)
    (same : ∀ r, (s.pc j).has = some r ∨ (s.pc j).making = some r → b'.place r = b.place r ∧
      b'.owned r = b.owned r ∧ t.stack r = s.stack r ∧ t.regs r = s.regs r)
    (gave : (s.pc j).returnedStack = true → ∀ st l, s.on j = some st →
      b.home st = some (.pooled l) → b'.home st = some (.pooled l)) : At t b' j := by
  -- the routine and the new routine of the thread are as they were
  have has := fun r mine => same r (.inl mine)
  have making : ∀ i, (s.pc j).making = some i → b'.owned i = b.owned i ∧
      t.stack i = s.stack i := by
    intro i mine
    obtain ⟨-, owned, stack, -⟩ := same i (.inr mine)
    exact ⟨owned, stack⟩
  have given : (s.pc j).returnedStack = true → Gave s b j → Gave t b' j := by
    rintro returned ⟨st, l, mine, home⟩
    exact ⟨st, l, on.trans mine, gave returned st l mine home⟩
  -- what is known at a point speaks about these alone
  unfold At at at_pc ⊢
  rw [pc]
  cases p : s.pc j with
  | loop | back r =>
    rw [p] at at_pc
    exact on.trans at_pc
  | got r =>
    obtain ⟨place, owned, stack, regs⟩ := has r (by rw [p]; rfl)
    rw [p] at at_pc
    exact ⟨on.trans at_pc.1, place.trans at_pc.2.1, by rw [stack, owned]; exact at_pc.2.2.1,
      by rw [regs, owned]; exact at_pc.2.2.2⟩
  | user r | newRoutine r _ | publish r | recycle r =>
    obtain ⟨place, owned, stack, -⟩ := has r (by rw [p]; rfl)
    rw [p] at at_pc
    exact ⟨at_pc.1.congr owned stack on,
      place.trans at_pc.2⟩
  | newStack r i _ =>
    obtain ⟨place, owned, stack, -⟩ := has r (by rw [p]; rfl)
    rw [p] at at_pc
    exact ⟨at_pc.1.congr owned stack on,
      place.trans at_pc.2.1, (making i (by rw [p]; rfl)).1.trans at_pc.2.2⟩
  | newCount r i st | newInit r i st =>
    obtain ⟨place, owned, stack, -⟩ := has r (by rw [p]; rfl)
    obtain ⟨ownedI, stackI⟩ := making i (by rw [p]; rfl)
    rw [p] at at_pc
    exact ⟨at_pc.1.congr owned stack on,
      place.trans at_pc.2.1, stackI.trans at_pc.2.2.1, ownedI.trans at_pc.2.2.2⟩
  | pushStack r st =>
    obtain ⟨place, owned, stack, -⟩ := has r (by rw [p]; rfl)
    rw [p] at at_pc
    exact ⟨at_pc.1.congr owned stack on,
      place.trans at_pc.2.1, stack.trans at_pc.2.2⟩
  | count r | clear r | pushRoutine r =>
    obtain ⟨place, owned, -, -⟩ := has r (by rw [p]; rfl)
    rw [p] at at_pc
    exact ⟨given (by rw [p]; rfl) at_pc.1, place.trans at_pc.2.1, owned.trans at_pc.2.2⟩
  | swap r recycled =>
    obtain ⟨place, owned, stack, -⟩ := has r (by rw [p]; rfl)
    cases recycled with
    | false =>
      rw [p] at at_pc
      exact ⟨at_pc.1.congr owned stack on,
        by rw [place]; exact at_pc.2⟩
    | true =>
      rw [p] at at_pc
      exact ⟨given (by rw [p]; rfl) at_pc.1, place.trans at_pc.2⟩
  | load r recycled =>
    obtain ⟨place, owned, stack, regs⟩ := has r (by rw [p]; rfl)
    cases recycled with
    | false =>
      rw [p] at at_pc
      exact ⟨at_pc.1.congr owned stack on,
        by rw [place]; exact at_pc.2.1, by rw [regs, owned]; exact at_pc.2.2⟩
    | true =>
      rw [p] at at_pc
      exact ⟨given (by rw [p]; rfl) at_pc.1, place.trans at_pc.2⟩

/-- A step of the thread `k` that concerns the routine `x` alone. -/
structure Moves (s t : State) (b b' : Books) (k x : Nat) : Prop where
  size : t.size = s.size
  pcs : ∀ j, j ≠ k → t.pc j = s.pc j
  ons : ∀ j, j ≠ k → t.on j = s.on j
  alone : ∀ j, j ≠ k → (s.pc j).has ≠ some x ∧ (s.pc j).making ≠ some x
  apart : ∀ r, r ≠ x → b'.place r = b.place r ∧ b'.owned r = b.owned r ∧
    t.stack r = s.stack r ∧ t.regs r = s.regs r
  hands : ∀ r, r ≠ x → ((t.pc k).has = some r ↔ (s.pc k).has = some r)
  nextRoutine : s.nextRoutine ≤ t.nextRoutine

theorem Sound.move (sound : Sound s b) (inside : k < s.size) (moves : Moves s t b b' k x)
    (gave : ∀ j, j ≠ k → (s.pc j).returnedStack = true → ∀ st l, s.on j = some st →
      b.home st = some (.pooled l) → b'.home st = some (.pooled l))
    (clashed : t.clashed = false) (routines : Filing.Filed t.files b'.place)
    (stacked : Filing.Filed (t.stacksAt b'.owned) b'.home) (mine : At t b' k)
    (born : x < t.nextRoutine)
    (rests : b'.place x = some .made ∨ (b'.place x = some .published ∧ (t.pc k).has ≠ some x) →
      Rests t b' x)
    (pooled : b'.place x = some .pooled → b'.owned x = none)
    (unmapped : ∀ st, t.nextStack ≤ st → b'.home st = none)
    (sizes : ∀ st, t.stackSize st ∈ stackSizes) : Sound t b' where
  clashed := clashed
  routines := routines
  stacked := stacked
  hands j := by
    by_cases self : j = k
    · subst self; exact mine
    · refine (sound.hands j).congr (moves.pcs j self) (moves.ons j self) (fun r yours => ?_)
        (gave j self)
      apply moves.apart
      rintro rfl
      rcases yours with has | making
      · exact (moves.alone j self).1 has
      · exact (moves.alone j self).2 making
  unregistered j beyond := by
    rw [moves.size] at beyond
    rw [moves.pcs j (by omega)]
    exact sound.unregistered j beyond
  unique := by
    -- a routine in the hands of `k` is in those of no other
    have alone : ∀ j r, j ≠ k → (t.pc j).has = some r → (t.pc k).has ≠ some r := by
      intro j r other yours mine
      rw [moves.pcs j other] at yours
      by_cases self : r = x
      · subst self; exact (moves.alone j other).1 yours
      · exact other (sound.unique j k r yours ((moves.hands r self).mp mine))
    intro i j r first second
    by_cases selfI : i = k
    · by_cases selfJ : j = k
      · rw [selfI, selfJ]
      · exact absurd (selfI ▸ first) (alone j r selfJ second)
    · by_cases selfJ : j = k
      · exact absurd (selfJ ▸ second) (alone i r selfI first)
      · rw [moves.pcs i selfI] at first
        rw [moves.pcs j selfJ] at second
        exact sound.unique i j r first second
  born j r yours := by
    by_cases self : r = x
    · subst self; exact born
    · apply Nat.lt_of_lt_of_le _ moves.nextRoutine
      by_cases selfJ : j = k
      · subst selfJ; exact sound.born j r ((moves.hands r self).mp yours)
      · rw [moves.pcs j selfJ] at yours
        exact sound.born j r yours
  rests r ready := by
    by_cases self : r = x
    · subst self
      exact rests (ready.imp_right fun published => ⟨published.1, published.2 k⟩)
    · obtain ⟨place, owned, stack, regs⟩ := moves.apart r self
      have before : Rests s b r := by
        apply sound.rests r
        rw [place] at ready
        refine ready.imp_right fun published => ⟨published.1, fun j yours => ?_⟩
        by_cases selfJ : j = k
        · subst selfJ; exact published.2 j ((moves.hands r self).mpr yours)
        · exact published.2 j (by rw [moves.pcs j selfJ]; exact yours)
      exact ⟨by rw [stack, owned]; exact before.1, by rw [regs, owned]; exact before.2⟩
  pooled r back := by
    by_cases self : r = x
    · subst self; exact pooled back
    · obtain ⟨place, owned, -, -⟩ := moves.apart r self
      rw [place] at back
      rw [owned]
      exact sound.pooled r back
  unborn r beyond := by
    have other : r ≠ x := by rintro rfl; omega
    obtain ⟨place, owned, -, -⟩ := moves.apart r other
    rw [place, owned]
    exact sound.unborn r (Nat.le_trans moves.nextRoutine beyond)
  unmapped := unmapped
  sizes := sizes

/-- A step of the thread `k` that leaves all routines and stacks where they are. -/
theorem Sound.stay (sound : Sound s b) (inside : k < s.size) (size : t.size = s.size)
    (pcs : ∀ j, j ≠ k → t.pc j = s.pc j) (on : t.on = s.on) (stack : t.stack = s.stack)
    (regs : t.regs = s.regs) (has : (t.pc k).has = (s.pc k).has)
    (nextRoutine : t.nextRoutine = s.nextRoutine) (nextStack : t.nextStack = s.nextStack)
    (stackSize : t.stackSize = s.stackSize) (clashed : t.clashed = s.clashed)
    (files : t.files = s.files) (lists : t.stackPool.list = s.stackPool.list) (mine : At t b k) :
    Sound t b := by
  -- nobody gets another routine by this step
  have hands : ∀ j, (t.pc j).has = (s.pc j).has := by
    intro j
    by_cases self : j = k
    · subst self; exact has
    · rw [pcs j self]
  refine ⟨clashed.trans sound.clashed, ?_, ?_, ?_, ?_, ?_, ?_, ?_, sound.pooled, ?_, ?_, ?_⟩
  · rw [files]; exact sound.routines
  · have same : t.stacksAt b.owned = s.stacksAt b.owned := by
      funext home
      cases home with
      | held r => rfl
      | pooled l => exact congrFun lists l
    rw [same]
    exact sound.stacked
  · intro j
    by_cases self : j = k
    · subst self; exact mine
    · exact (sound.hands j).congr (pcs j self) (congrFun on j)
        (fun r _ => ⟨rfl, rfl, congrFun stack r, congrFun regs r⟩) (fun _ _ _ _ home => home)
  · intro j beyond
    rw [size] at beyond
    rw [pcs j (by omega)]
    exact sound.unregistered j beyond
  · intro i j r first second
    rw [hands] at first second
    exact sound.unique i j r first second
  · intro j r yours
    rw [hands] at yours
    rw [nextRoutine]
    exact sound.born j r yours
  · intro r ready
    simp only [hands] at ready
    obtain ⟨held, saved⟩ := sound.rests r ready
    exact ⟨by rw [stack]; exact held, by rw [regs]; exact saved⟩
  · rw [nextRoutine]; exact sound.unborn
  · rw [nextStack]; exact sound.unmapped
  · rw [stackSize]; exact sound.sizes

/-! ### Reading the books -/

theorem Sound.executes_place (sound : Sound s b) (running : (s.pc j).executes = some r) :
    b.place r = none ∨ b.place r = some .published ∨
      b.place r = some .pooled ∧ (s.pc j).returnedRoutine = true := by
  have at_pc := sound.hands j
  unfold At at at_pc
  -- from its `Resume` on a routine may already be published, from its recycling on it is pooled
  cases p : s.pc j with
  | loop | got _ | back _ => rw [p] at running; cases running
  | user q | newRoutine q _ | publish q | recycle q =>
    rw [p] at running at_pc
    cases running
    exact .inl at_pc.2
  | newStack q _ _ | newCount q _ _ | newInit q _ _ | pushStack q _ =>
    rw [p] at running at_pc
    cases running
    exact .inl at_pc.2.1
  | count q | clear q | pushRoutine q =>
    rw [p] at running at_pc
    cases running
    exact .inl at_pc.2.1
  | swap q recycled =>
    rw [p] at running at_pc
    cases running
    cases recycled with
    | false => exact at_pc.2.imp_right .inl
    | true => exact .inr (.inr ⟨at_pc.2, rfl⟩)
  | load q recycled =>
    rw [p] at running at_pc
    cases running
    cases recycled with
    | false => exact at_pc.2.1.imp_right .inl
    | true => exact .inr (.inr ⟨at_pc.2, rfl⟩)

/-- A routine in somebody's hands is not being made, nor made. -/
theorem Sound.has_place (sound : Sound s b) (has : (s.pc j).has = some r) :
    b.place r = none ∨ b.place r = some .published ∨
      b.place r = some .pooled ∧ (s.pc j).returnedRoutine = true := by
  cases p : s.pc j with
  | got q =>
    have at_pc := sound.hands j
    unfold At at at_pc
    rw [p] at has at_pc
    cases has
    exact .inl at_pc.2.1
  | _ =>
    rw [← p]
    apply sound.executes_place
    rw [p] at has ⊢
    exact has

/-- A stack that a thread executes on is its routine's, or the thread has put it into the pool. -/
theorem Sound.on_home (sound : Sound s b) {st : Nat} (on : s.on j = some st) :
    (∃ r, (s.pc j).executes = some r ∧ b.home st = some (.held r)) ∨
      (s.pc j).returnedStack = true ∧ ∃ l, b.home st = some (.pooled l) := by
  have at_pc := sound.hands j
  -- a stack that a routine has is filed under it
  have held : ∀ r, b.owned r = some st → b.home st = some (.held r) := by
    intro r owns
    rw [← sound.stacked.mem, State.stacksAt, owns]
    simp
  -- a stack that was given back is filed in the pool
  have given : Gave s b j → ∃ l, b.home st = some (.pooled l) := by
    rintro ⟨st', l, mine, home⟩
    rw [on] at mine
    cases mine
    exact ⟨l, home⟩
  unfold At at at_pc
  cases p : s.pc j with
  | loop | back _ => rw [p] at at_pc; rw [at_pc] at on; cases on
  | got _ => rw [p] at at_pc; rw [at_pc.1] at on; cases on
  | user q | newRoutine q _ | publish q | recycle q | newStack q _ _ | newCount q _ _
  | newInit q _ _ | pushStack q _ =>
    rw [p] at at_pc
    exact .inl ⟨q, rfl, held q (at_pc.1.2.symm.trans on)⟩
  | count q | clear q | pushRoutine q =>
    rw [p] at at_pc
    exact .inr ⟨rfl, given at_pc.1⟩
  | swap q recycled =>
    rw [p] at at_pc
    cases recycled with
    | false => exact .inl ⟨q, rfl, held q (at_pc.1.2.symm.trans on)⟩
    | true => exact .inr ⟨rfl, given at_pc.1⟩
  | load q recycled =>
    rw [p] at at_pc
    cases recycled with
    | false => exact .inl ⟨q, rfl, held q (at_pc.1.2.symm.trans on)⟩
    | true => exact .inr ⟨rfl, given at_pc.1⟩

end BRoutine.Recycle
