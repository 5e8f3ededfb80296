import BRoutine.Hook.Calls
import BRoutine.Transition

/-!
# Records and the life of descriptors

Any number of routines call `socket`, `accept` and `close`, each with its hooking on or off at the
time of the call, and the kernel gives the numbers of closed descriptors again. `tracks_iff` says
when every record still belongs to the file it was made for.
-/

namespace BRoutine

/-- The fields of a `bRoutine` that decide about its hooking. -/
structure HookFlags where
  isMain : Bool
  isProgress : Bool
  isEnableHook : Bool

/-- `isEnableHook`, asked by the routine that occupies its scheduler. -/
def HookFlags.enabled (r : HookFlags) : Bool :=
  if r.isProgress && !r.isMain then false else r.isEnableHook

/-- The process, its routines, and for each number the file of the last `allocFileDesc` for it. -/
structure Process (R : Type) where
  files : Files
  routine : R → HookFlags
  madeFor : Int → Option Nat

namespace Process

open Files
open Transition.Machine (guarded_step_iff)

variable {R : Type}

/-- The calls of a routine, with the answers of the kernel. -/
inductive Call (R : Type) where
  | enableHook (r : R)
  | disableHook (r : R)
  | socket (r : R) (domain : Int) (type : BitVec 32) (fd : Int) (getfl setfl : BitVec 32)
  | accept (r : R) (cli : Int)
  | close (r : R) (fd : Int) (released : Bool)

def setHook [DecidableEq R] (s : Process R) (r : R) (enable : Bool) : Process R :=
  { s with routine := Function.update s.routine r { s.routine r with isEnableHook := enable } }

/-- `allocFileDesc` makes its record for the file that has the number by then. -/
def made (s : Process R) (r : R) (fd : Int) : Int → Option Nat :=
  if (s.routine r).enabled && decide (0 ≤ fd) then
    Function.update s.madeFor fd (some s.files.kernel.next)
  else s.madeFor

def call [DecidableEq R] (s : Process R) : Call R → Process R
  | .enableHook r => s.setHook r true
  | .disableHook r => s.setHook r false
  | .socket r domain type fd getfl setfl =>
    { s with
      files := s.files.socket (s.routine r).enabled domain type fd getfl setfl
      madeFor := s.made r fd }
  | .accept r cli =>
    { s with
      files := s.files.accept (s.routine r).enabled cli
      madeFor := s.made r cli }
  | .close r fd released =>
    { s with files := s.files.close (s.routine r).enabled fd released }

/-- New descriptors get a number that is not open, only an open one is released. -/
def Answered (k : Kernel) : Call R → Prop
  | .socket _ _ _ fd _ _ => fd < 0 ∨ k.file fd = none
  | .accept _ cli => cli < 0 ∨ k.file cli = none
  | .close _ fd released => released = true → k.file fd ≠ none
  | _ => True

instance (k : Kernel) : (c : Call R) → Decidable (Answered k c)
  | .socket .. => inferInstanceAs (Decidable (_ ∨ _))
  | .accept .. => inferInstanceAs (Decidable (_ ∨ _))
  | .close .. => inferInstanceAs (Decidable (_ → _))
  | .enableHook _ => inferInstanceAs (Decidable True)
  | .disableHook _ => inferInstanceAs (Decidable True)

/-- The process before the first hooked call. -/
def initial (k : Kernel) (routine : R → HookFlags) : Process R :=
  ⟨unhooked k, routine, fun _ => none⟩

def machine [DecidableEq R] : Transition.Machine (Process R) (Call R) :=
  .guarded (fun s => ∃ k routine, s = initial k routine)
    (fun s c => Answered s.files.kernel c) call

variable {s t : Process R} {fd : Int}

/-- The table is written inside its bounds, and each record belongs to an open descriptor that
still names the file for which the record was made. -/
structure Tracks (s : Process R) : Prop where
  inside : s.files.overrun = false
  same_file : ∀ fd lp, s.files.getFileDesc fd = some lp →
    ∃ d, s.files.kernel.file fd = some d ∧ s.madeFor fd = some d

/-- A hooked call is given a number inside the table, and a descriptor with a record is not
released behind the back of the hooks. -/
def Follows (s : Process R) : Call R → Prop
  | .socket r _ _ fd _ _ => (s.routine r).enabled = true → fd < hookContralFdNums
  | .accept r cli => (s.routine r).enabled = true → cli < hookContralFdNums
  | .close r fd released => (s.routine r).enabled = false → released = true →
      s.files.getFileDesc fd = none
  | _ => True

/-! ### Calls that make a descriptor -/

/-- A new descriptor inside the table, with its record or without one. -/
theorem Tracks.opens (tracks : s.Tracks) {g : Files} {flag : Bool}
    (opens : Opens s.files g fd flag) (inside : InTable fd) :
    Tracks { s with
      files := g
      madeFor := Function.update s.madeFor fd (some s.files.kernel.next) } where
  inside := by
    rw [← Bool.not_eq_true, opens.overrun, tracks.inside]
    simp [inside]
  same_file := by
    intro other lp found
    by_cases same : other = fd
    · subst same
      exact ⟨_, by rw [opens.file, Kernel.openAt_file_self], Function.update_self ..⟩
    · rw [opens.others other same] at found
      obtain ⟨d, named, mine⟩ := tracks.same_file other lp found
      refine ⟨d, ?_, ?_⟩
      · rw [opens.file, Kernel.openAt_file_other _ _ same, named]
      · exact (Function.update_of_ne same _ _).trans mine

/-- A new descriptor of a routine without hooking. -/
theorem Tracks.plain (tracks : s.Tracks) {flag : Bool}
    (unused : fd < 0 ∨ s.files.kernel.file fd = none) :
    Tracks { s with files := s.files.opened fd flag } := by
  by_cases fails : fd < 0
  · rwa [opened, if_pos fails]
  · have bare := unused.resolve_left fails
    constructor
    · rw [opened, if_neg fails]
      exact tracks.inside
    · intro other lp found
      rw [opened_getFileDesc] at found
      obtain ⟨d, named, mine⟩ := tracks.same_file other lp found
      have differs : other ≠ fd := by
        rintro rfl
        rw [bare] at named
        cases named
      refine ⟨d, ?_, mine⟩
      rw [opened_kernel _ _ fails, Kernel.openAt_file_other _ _ differs, named]

theorem inTable_of_lt (opens : ¬ fd < 0) (below : fd < hookContralFdNums) : InTable fd :=
  ⟨by omega, below⟩

theorem made_hooked {r : R} (enabled : (s.routine r).enabled = true) (opens : ¬ fd < 0) :
    s.made r fd = Function.update s.madeFor fd (some s.files.kernel.next) := by
  rw [made, enabled, decide_eq_true (Int.not_lt.mp opens)]
  rfl

theorem made_plain {r : R} (plain : (s.routine r).enabled = false ∨ fd < 0) :
    s.made r fd = s.madeFor := by
  rw [made]
  rcases plain with off | fails
  · rw [off]
    rfl
  · rw [decide_eq_false (Int.not_le.mpr fails), Bool.and_false]
    rfl

/-- `socket` and `accept` follow the same law. -/
theorem Tracks.fresh (tracks : s.Tracks) {r : R} (flag : Bool) {g : Files}
    (unused : fd < 0 ∨ s.files.kernel.file fd = none)
    (off : (s.routine r).enabled = false → g = s.files.opened fd flag)
    (fails : fd < 0 → g = s.files)
    (hooks : (s.routine r).enabled = true → ¬ fd < 0 → Opens s.files g fd flag) :
    Tracks { s with files := g, madeFor := s.made r fd } ↔
      ((s.routine r).enabled = true → fd < hookContralFdNums) := by
  by_cases failed : fd < 0
  · refine iff_of_true ?_ fun _ => failed.trans (by decide)
    rw [made_plain (.inr failed), fails failed]
    exact tracks
  · cases enabled : (s.routine r).enabled with
    | false =>
      refine iff_of_true ?_ fun on => by cases on
      rw [made_plain (.inl enabled), off enabled]
      exact tracks.plain unused
    | true =>
      have opens := hooks enabled failed
      rw [made_hooked enabled failed]
      constructor
      · intro after _
        -- `hooksFdSet[fd]` is written without the bound test of `getFileDesc`
        by_contra beyond
        have overrun := opens.overrun.mpr (.inr fun inside => beyond inside.2)
        rw [after.inside] at overrun
        cases overrun
      · intro below
        exact tracks.opens opens (inTable_of_lt failed (below rfl))

/-! ### close -/

theorem Tracks.close_iff (tracks : s.Tracks) {enabled released : Bool} :
    Tracks { s with files := s.files.close enabled fd released } ↔
      (enabled = false → released = true → s.files.getFileDesc fd = none) := by
  constructor
  · intro after off gone
    cases found : s.files.getFileDesc fd with
    | none => rfl
    | some lp =>
      obtain ⟨d, named, -⟩ := after.same_file fd lp (by rw [close_getFileDesc, off, found]; rfl)
      rw [close_kernel, gone, if_pos rfl, Kernel.release_file_self] at named
      cases named
  · intro given
    constructor
    · rw [close_overrun]
      exact tracks.inside
    · intro other lp found
      rw [close_getFileDesc] at found
      split at found
      · cases found
      next kept =>
        obtain ⟨d, named, mine⟩ := tracks.same_file other lp found
        refine ⟨d, ?_, mine⟩
        rw [close_kernel]
        split
        next gone =>
          -- a released number with a record has been closed through the hook, which frees it
          have differs : other ≠ fd := by
            rintro rfl
            cases on : enabled with
            | true => exact kept ⟨on, rfl⟩
            | false =>
              rw [given on gone] at found
              cases found
          rw [Kernel.release_file_other _ differs, named]
        · exact named

/-! ### Runs -/

variable [DecidableEq R]

/-- A call keeps the records with their files exactly if it meets `Follows`. -/
theorem Tracks.call_iff (tracks : s.Tracks) {c : Call R} (answered : Answered s.files.kernel c) :
    (s.call c).Tracks ↔ s.Follows c := by
  cases c with
  | enableHook r => exact iff_of_true ⟨tracks.inside, tracks.same_file⟩ trivial
  | disableHook r => exact iff_of_true ⟨tracks.inside, tracks.same_file⟩ trivial
  | socket r domain type fd getfl setfl =>
    refine tracks.fresh (hasNonblock type) answered (fun off => ?_)
      (fun fails => socket_failed s.files _ fails domain type getfl setfl) fun on opens => ?_
    · rw [off]
      rfl
    · rw [on]
      exact socket_opens s.files opens domain type getfl setfl
  | accept r cli =>
    refine tracks.fresh false answered (fun off => ?_)
      (fun fails => accept_failed s.files _ fails) fun on opens => ?_
    · rw [off]
      rfl
    · rw [on]
      exact accept_opens s.files opens
  | close r fd released => exact tracks.close_iff

/-- Whatever files are open at the start and whoever has hooking enabled, the records stay with
the files they were made for exactly as long as every call meets `Follows`. -/
theorem tracks_iff (k : Kernel) (routine : R → HookFlags) (schedule : List (Call R)) :
    (∀ t, machine.Visits (initial k routine) schedule t → t.Tracks) ↔
      ∀ t c, machine.Takes (initial k routine) schedule t c → t.Follows c := by
  refine machine.safe_iff_steps_ok Tracks Follows ?_ (fun _ tracks => tracks) ?_ ?_ schedule
  · intro t c u tracks follows stepped
    obtain ⟨answered, rfl⟩ := guarded_step_iff.mp stepped
    exact (tracks.call_iff answered).mpr follows
  · intro t c u tracks slips stepped after
    obtain ⟨answered, rfl⟩ := guarded_step_iff.mp stepped
    exact slips ((tracks.call_iff answered).mp after)
  · refine ⟨rfl, fun fd lp found => ?_⟩
    rw [initial, unhooked_getFileDesc] at found
    cases found

/-- A routine accepts descriptor 3, switches its hooking off, closes 3 and gets it again from
`socket`: the record of the first file is found for the second. -/
theorem outlived_record :
    ¬ ∀ s : Process Unit, machine.Reachable s → s.Tracks := by
  intro tracks
  let start : Process Unit := initial .bare fun _ => ⟨false, false, true⟩
  let calls : List (Call Unit) := [.accept () 3, .disableHook (), .close () 3 true,
    .socket () 2 1#32 3 0#32 0#32]
  have ran : machine.exec start calls = some (calls.foldl call start) := by rfl
  have reached : machine.Reachable start := .start ⟨_, _, rfl⟩
  obtain ⟨d, named, mine⟩ :=
    (tracks _ (Transition.Machine.exec_reachable reached ran)).same_file 3 .fresh rfl
  cases named
  cases mine

end Process

end BRoutine
