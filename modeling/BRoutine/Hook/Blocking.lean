import BRoutine.Hook.Calls
import BRoutine.Transition

/-!
# Descriptors that block

The hooks make their system calls on a descriptor with a record and expect `EAGAIN` from a full
buffer, which a file answers only with `O_NONBLOCK` set. `socket` sets it through the hook of
`fcntl`, `accept` does not. `never_blocks_iff` says when all descriptors with a record have it.
-/

namespace BRoutine.Files

open Transition.Machine (guarded_step_iff)

variable {s t : Files} {fd : Int}

/-- Calls of routines with hooking enabled, in any order, with any answers. -/
def machine : Transition.Machine Files HookedCall :=
  .guarded (fun s => ∃ k, s = unhooked k) (fun s c => c.Answered s.kernel) hooked

/-- The descriptor is open and its file has `O_NONBLOCK`. -/
def Nonblocking (s : Files) (fd : Int) : Prop :=
  ∃ d, s.kernel.file fd = some d ∧ s.kernel.nonblock d = true

/-- No direct system call of a hook can block. -/
def NeverBlocks (s : Files) : Prop :=
  ∀ fd lp, s.getFileDesc fd = some lp → s.Nonblocking fd

/-- The call leaves every record with a descriptor that does not block. -/
def KeepsNonblock (s : Files) : HookedCall → Prop
  | .socket _ type fd _ setfl => InTable fd → setfl = 0#32 ∨ hasNonblock type = true
  | .accept cli => ¬ InTable cli
  | .fcntl fd cmd arg reply =>
    -- an `F_SETFL` that clears the flag through a second number of a recorded descriptor's file
    ¬ (0 ≤ fd ∧ cmd = Cmd.setfl.number ∧ reply = 0#32 ∧ s.getFileDesc fd = none ∧
      hasNonblock (arg.setWidth 32) = false ∧
      ∃ other lp, s.getFileDesc other = some lp ∧ s.kernel.file other = s.kernel.file fd)

/-! ### Steps -/

/-- A new descriptor leaves the others as they are. -/
theorem NeverBlocks.opened (never : s.NeverBlocks) {flag : Bool} {k : Kernel}
    (made : k = s.kernel.openAt fd flag) {other : Int} {lp : FileDesc} (differs : other ≠ fd)
    (found : s.getFileDesc other = some lp) :
    ∃ d, k.file other = some d ∧ k.nonblock d = true ∧ d ≠ s.kernel.next := by
  obtain ⟨d, named, nonblock⟩ := never other lp found
  refine ⟨d, ?_, ?_, (s.kernel.known other d named).ne⟩
  · rw [made, s.kernel.openAt_file_other flag differs, named]
  · rw [made, s.kernel.openAt_nonblock_old fd flag named, nonblock]

/-- A successful `F_SETFL` on `fd` when the other records have what they need. -/
theorem NeverBlocks.afterSetfl {param : BitVec 32} (opens : ∃ d, s.kernel.file fd = some d)
    (others : ∀ other lp, other ≠ fd → s.getFileDesc other = some lp → s.Nonblocking other)
    (spares : (s.getFileDesc fd).isSome = true ∨ hasNonblock param = true ∨
      ∀ other lp, s.getFileDesc other = some lp → s.kernel.file other ≠ s.kernel.file fd) :
    (s.afterSetfl true fd param).NeverBlocks := by
  obtain ⟨d, named⟩ := opens
  have flag := hasNonblock_flagSent s true fd param
  have self := s.kernel.setNonblock_self fd (hasNonblock (s.flagSent true fd param)) named
  intro other lp found
  simp only [Nonblocking, afterSetfl_kernel, Kernel.setNonblock_file]
  by_cases same : other = fd
  · subst same
    -- its own record is what makes the hook add the flag
    rw [afterSetfl_self, Option.map_eq_some_iff] at found
    obtain ⟨held, recorded, -⟩ := found
    exact ⟨d, named, by rw [self, flag, recorded]; rfl⟩
  · rw [afterSetfl_other s true param same] at found
    obtain ⟨d', named', nonblock⟩ := others other lp same found
    refine ⟨d', named', ?_⟩
    by_cases shared : d' = d
    · subst shared
      rw [self, flag]
      rcases spares with recorded | given | apart
      · rw [recorded]; rfl
      · rw [given, Bool.or_true]
      · exact absurd (named'.trans named.symm) (apart other lp found)
    · rw [s.kernel.setNonblock_other fd _ named shared, nonblock]

theorem NeverBlocks.socket (never : s.NeverBlocks) {domain : Int} {type getfl setfl : BitVec 32}
    (keeps : InTable fd → setfl = 0#32 ∨ hasNonblock type = true) :
    (s.socket true domain type fd getfl setfl).NeverBlocks := by
  by_cases fails : fd < 0
  · rwa [socket_failed s true fails]
  · have kernel := socketMade_kernel s fails domain type
    have others : ∀ other lp, other ≠ fd →
        (s.socketMade domain type fd).getFileDesc other = some lp →
        (s.socketMade domain type fd).Nonblocking other := by
      intro other lp differs found
      rw [socketMade_other s differs] at found
      obtain ⟨d, named, nonblock, -⟩ := never.opened kernel differs found
      exact ⟨d, named, nonblock⟩
    rw [socket_hooked s fails]
    split
    · refine .afterSetfl ⟨s.kernel.next, ?_⟩ others ?_
      · rw [kernel, Kernel.openAt_file_self]
      · -- outside the table there is no record that makes the hook add the flag
        by_cases inside : InTable fd
        · exact .inl (by rw [socketMade_self s inside]; rfl)
        · refine .inr (.inr fun other lp found shared => ?_)
          by_cases same : other = fd
          · exact inside (same ▸ getFileDesc_inTable found)
          · rw [socketMade_other s same] at found
            obtain ⟨d, named, -, old⟩ := never.opened kernel same found
            rw [named, kernel, Kernel.openAt_file_self] at shared
            exact old (Option.some.inj shared)
    next refused =>
      intro other lp found
      by_cases same : other = fd
      · subst same
        refine ⟨s.kernel.next, by rw [kernel, Kernel.openAt_file_self], ?_⟩
        rw [kernel, Kernel.openAt_nonblock_new]
        exact (keeps (getFileDesc_inTable found)).resolve_left refused
      · exact others other lp same found

theorem NeverBlocks.accept (never : s.NeverBlocks) (outside : ¬ InTable fd) :
    (s.accept true fd).NeverBlocks := by
  by_cases fails : fd < 0
  · rwa [accept_failed s true fails]
  · rw [accept_hooked s fails]
    intro other lp found
    have differs : other ≠ fd := fun same => outside (same ▸ getFileDesc_inTable found)
    rw [getFileDesc_allocFileDesc_other _ differs, opened_getFileDesc] at found
    obtain ⟨d, named, nonblock, -⟩ := never.opened (opened_kernel s false fails) differs found
    exact ⟨d, by rw [allocFileDesc_kernel, named], by rw [allocFileDesc_kernel, nonblock]⟩

/-- A second number gets no record. -/
theorem NeverBlocks.afterDupfd (never : s.NeverBlocks) {new : Int}
    (unused : s.kernel.file new = none) : (s.afterDupfd fd new).NeverBlocks := by
  intro other lp found
  obtain ⟨d, named, nonblock⟩ := never other lp found
  have differs : other ≠ new := by
    rintro rfl
    rw [unused] at named
    cases named
  exact ⟨d, by rw [afterDupfd_kernel, Kernel.shareAt_file_other _ _ differs, named], nonblock⟩

theorem NeverBlocks.fcntl (never : s.NeverBlocks) {cmd : Int} {arg : BitVec 64}
    {reply : BitVec 32} (answered : (HookedCall.fcntl fd cmd arg reply).Answered s.kernel)
    (keeps : s.KeepsNonblock (.fcntl fd cmd arg reply)) :
    (s.fcntl true fd cmd arg reply).files.NeverBlocks := by
  rw [fcntl_files]
  split
  · exact never
  next nonneg =>
    have answers := answered.resolve_left nonneg
    split
    next succeeds =>
      obtain ⟨setfl, accepted⟩ := succeeds
      -- the kernel accepts an `F_SETFL` on an open descriptor only
      cases named : s.kernel.file fd with
      | none =>
        have failed := answers.1 named
        rw [accepted] at failed
        cases failed
      | some d =>
        refine .afterSetfl ⟨d, named⟩ (fun other lp _ => never other lp) ?_
        cases found : s.getFileDesc fd with
        | some lp => exact .inl rfl
        | none =>
          cases given : hasNonblock (arg.setWidth 32) with
          | true => exact .inr (.inl rfl)
          | false =>
            exact .inr (.inr fun other lp recorded shared =>
              keeps ⟨Int.not_lt.mp nonneg, setfl, accepted, found, given, other, lp, recorded,
                shared⟩)
    · split
      next dup =>
        obtain ⟨dupfd, accepted⟩ := dup
        have listed : Cmd.ofNumber cmd = some .dupfd := by rw [dupfd, Cmd.ofNumber_number]
        exact never.afterDupfd ((answers.2.2.2 listed).resolve_left accepted).2
      · exact never

/-- One call keeps every recorded descriptor from blocking. -/
theorem NeverBlocks.step {c : HookedCall} (never : s.NeverBlocks) (keeps : s.KeepsNonblock c)
    (stepped : machine.step s c = some t) : t.NeverBlocks := by
  obtain ⟨answered, rfl⟩ := guarded_step_iff.mp stepped
  cases c with
  | socket domain type fd getfl setfl => exact never.socket keeps
  | accept cli => exact never.accept keeps
  | fcntl fd cmd arg reply => exact never.fcntl answered keeps

/-- A refused `F_SETFL` after `socket` leaves the flag of the type. -/
theorem socket_blocks {domain : Int} {type getfl setfl : BitVec 32} (inside : InTable fd)
    (refused : setfl ≠ 0#32) (blocking : hasNonblock type = false) :
    ¬ (s.socket true domain type fd getfl setfl).NeverBlocks := by
  have opens : ¬ fd < 0 := by have := inside.1; omega
  rw [socket_hooked s opens, if_neg refused]
  intro never
  obtain ⟨d, named, nonblock⟩ := never fd _ (socketMade_self s inside domain type)
  rw [socketMade_kernel s opens domain type] at named nonblock
  rw [Kernel.openAt_file_self] at named
  cases named
  rw [Kernel.openAt_nonblock_new, blocking] at nonblock
  cases nonblock

theorem accept_blocks (inside : InTable fd) : ¬ (s.accept true fd).NeverBlocks := by
  have opens : ¬ fd < 0 := by have := inside.1; omega
  rw [accept_hooked s opens]
  intro never
  obtain ⟨d, named, nonblock⟩ := never fd _ (getFileDesc_allocFileDesc_self _ inside)
  rw [allocFileDesc_kernel, opened_kernel s false opens] at named nonblock
  rw [Kernel.openAt_file_self] at named
  cases named
  rw [Kernel.openAt_nonblock_new] at nonblock
  cases nonblock

/-- `F_SETFL` without `O_NONBLOCK` through a number without a record. -/
theorem afterSetfl_blocks {param : BitVec 32} (unrecorded : s.getFileDesc fd = none)
    (cleared : hasNonblock param = false) {other : Int} {lp : FileDesc}
    (recorded : s.getFileDesc other = some lp)
    (shared : s.kernel.file other = s.kernel.file fd) :
    ¬ (s.afterSetfl true fd param).NeverBlocks := by
  have differs : other ≠ fd := by
    rintro rfl
    rw [unrecorded] at recorded
    cases recorded
  intro never
  obtain ⟨d, named, nonblock⟩ := never other lp (by rw [afterSetfl_other s _ _ differs, recorded])
  rw [afterSetfl_kernel] at named nonblock
  rw [Kernel.setNonblock_file, shared] at named
  rw [Kernel.setNonblock_self _ _ _ named, hasNonblock_flagSent, unrecorded, cleared] at nonblock
  cases nonblock

/-- A call outside `KeepsNonblock` leaves a recorded descriptor that blocks. -/
theorem blocks_of_not_keeps {c : HookedCall} (slips : ¬ s.KeepsNonblock c)
    (stepped : machine.step s c = some t) : ¬ t.NeverBlocks := by
  obtain ⟨answered, rfl⟩ := guarded_step_iff.mp stepped
  cases c with
  | socket domain type fd getfl setfl =>
    simp only [KeepsNonblock, Classical.not_imp, not_or, Bool.not_eq_true] at slips
    obtain ⟨inside, refused, blocking⟩ := slips
    exact socket_blocks inside refused blocking
  | accept cli => exact accept_blocks (not_not.mp slips)
  | fcntl fd cmd arg reply =>
    obtain ⟨nonneg, setfl, accepted, unrecorded, cleared, other, lp, recorded, shared⟩ :=
      not_not.mp slips
    rw [hooked, fcntl_files, if_neg (Int.not_lt.mpr nonneg), if_pos ⟨setfl, accepted⟩]
    exact afterSetfl_blocks unrecorded cleared recorded shared

/-! ### Runs -/

/-- Whatever files are open at the start, the records stay with descriptors that do not block
exactly as long as each call keeps to `KeepsNonblock`. -/
theorem never_blocks_iff (k : Kernel) (schedule : List HookedCall) :
    (∀ t, machine.Visits (unhooked k) schedule t → t.NeverBlocks) ↔
      ∀ t c, machine.Takes (unhooked k) schedule t c → t.KeepsNonblock c :=
  machine.safe_iff_steps_ok NeverBlocks KeepsNonblock (fun _ _ _ never => never.step)
    (fun _ never => never) (fun _ _ _ _ => blocks_of_not_keeps)
    (by intro fd lp found; rw [unhooked_getFileDesc] at found; cases found) schedule

/-- One `accept` that gets descriptor 3. -/
theorem accepted_blocks :
    ¬ ∀ s, machine.Reachable s → s.NeverBlocks := by
  intro never
  have stepped : machine.step (unhooked .bare) (.accept 3) =
      some accepted :=
    guarded_step_iff.mpr ⟨Or.inr rfl, rfl⟩
  have reached : machine.Reachable accepted :=
    .step (.start ⟨.bare, rfl⟩) trivial stepped
  obtain ⟨d, named, nonblock⟩ := never _ reached 3 .fresh accepted_record
  cases named
  cases nonblock

end BRoutine.Files
