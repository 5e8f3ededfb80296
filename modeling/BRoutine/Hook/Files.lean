import Mathlib.Logic.Function.Basic
import Mathlib.Data.BitVec

/-!
# Descriptors and their records

The descriptors of the process as the kernel keeps them, and the table `hooksFdSet` of `b_hook.cc`
with its three functions. `O_NONBLOCK` belongs to the open file, not to its number: `F_DUPFD` gives
a second number to the same file.
-/

namespace BRoutine

def hookContralFdNums : Int := 102400
def hookContralFdTimeoutS : Int := 1
def hookContralFdTimeoutMs : Int := 0

/-! ### Flag words -/

def oNonblock : BitVec 32 := 2048#32

/-- `flags & O_NONBLOCK`, which is also `SOCK_NONBLOCK` in the type of a socket. -/
def hasNonblock (flags : BitVec 32) : Bool := flags &&& oNonblock != 0#32

theorem hasNonblock_eq (flags : BitVec 32) : hasNonblock flags = flags.getLsbD 11 := by
  have masked : flags &&& oNonblock = if flags.getLsbD 11 then oNonblock else 0#32 := by
    have same := BitVec.and_twoPow flags 11
    have two : BitVec.twoPow 32 11 = oNonblock := by decide
    rwa [two] at same
  rw [hasNonblock, masked]
  cases flags.getLsbD 11 <;> decide

@[simp] theorem hasNonblock_or (flags : BitVec 32) : hasNonblock (flags ||| oNonblock) = true := by
  rw [hasNonblock_eq, BitVec.getLsbD_or, show oNonblock.getLsbD 11 = true by decide, Bool.or_true]

@[simp] theorem hasNonblock_clear (flags : BitVec 32) :
    hasNonblock (flags &&& ~~~oNonblock) = false := by
  rw [hasNonblock_eq, BitVec.getLsbD_and, show (~~~oNonblock).getLsbD 11 = false by decide,
    Bool.and_false]

theorem oNonblock_bit (i : Nat) : oNonblock.getLsbD i = decide (i = 11) := by
  have two : oNonblock = BitVec.twoPow 32 11 := by decide
  rw [two, BitVec.getLsbD_twoPow]
  by_cases same : i = 11
  · simp [same]
  · simp [same, Ne.symm same]

theorem clear_of_unset {flags : BitVec 32} (unset : hasNonblock flags = false) :
    flags &&& ~~~oNonblock = flags := by
  rw [hasNonblock_eq] at unset
  refine BitVec.eq_of_getLsbD_eq fun i small => ?_
  rw [BitVec.getLsbD_and, BitVec.getLsbD_not, oNonblock_bit]
  by_cases same : i = 11
  · rw [same, unset, Bool.false_and]
  · simp [same, small]

theorem clear_or_of_set {flags : BitVec 32} (set : hasNonblock flags = true) :
    flags &&& ~~~oNonblock ||| oNonblock = flags := by
  rw [hasNonblock_eq] at set
  refine BitVec.eq_of_getLsbD_eq fun i small => ?_
  rw [BitVec.getLsbD_or, BitVec.getLsbD_and, BitVec.getLsbD_not, oNonblock_bit]
  by_cases same : i = 11
  · simp [same, set]
  · simp [same, small]

theorem or_clear (flags : BitVec 32) :
    (flags ||| oNonblock) &&& ~~~oNonblock = flags &&& ~~~oNonblock := by
  refine BitVec.eq_of_getLsbD_eq fun i small => ?_
  simp only [BitVec.getLsbD_or, BitVec.getLsbD_and, BitVec.getLsbD_not, oNonblock_bit]
  by_cases same : i = 11
  · simp [same]
  · simp [same, small]

/-- The -1 of a call that fails; as a flag word it has every flag. -/
def failure : BitVec 32 := -1#32

@[simp] theorem hasNonblock_zero : hasNonblock 0#32 = false := by decide

@[simp] theorem hasNonblock_failure : hasNonblock failure = true := by decide

/-! ### The kernel -/

/-- The open files. A descriptor names one of them, several may name the same. -/
structure Kernel where
  file : Int → Option Nat
  nonblock : Nat → Bool
  /-- the next open file -/
  next : Nat
  known : ∀ fd d, file fd = some d → d < next

namespace Kernel

/-- No file is open. -/
def bare : Kernel := ⟨fun _ => none, fun _ => false, 0, by intro _ _ named; cases named⟩

/-- A new file under the number `fd`. -/
def openAt (k : Kernel) (fd : Int) (flag : Bool) : Kernel where
  file := Function.update k.file fd (some k.next)
  nonblock := Function.update k.nonblock k.next flag
  next := k.next + 1
  known := by
    intro other d named
    by_cases same : other = fd
    · rw [same, Function.update_self] at named
      cases named
      exact k.next.lt_succ_self
    · rw [Function.update_of_ne same] at named
      exact (k.known other d named).trans k.next.lt_succ_self

/-- A second number `new` for the file of `fd`. -/
def shareAt (k : Kernel) (fd new : Int) : Kernel :=
  { k with
    file := Function.update k.file new (k.file fd)
    known := by
      intro other d named
      by_cases same : other = new
      · rw [same, Function.update_self] at named
        exact k.known fd d named
      · rw [Function.update_of_ne same] at named
        exact k.known other d named }

/-- The flag of the file of `fd`, for every number it has. -/
def setNonblock (k : Kernel) (fd : Int) (flag : Bool) : Kernel :=
  match k.file fd with
  | none => k
  | some d => { k with nonblock := Function.update k.nonblock d flag }

/-- The number `fd` names nothing any more. -/
def release (k : Kernel) (fd : Int) : Kernel :=
  { k with
    file := Function.update k.file fd none
    known := by
      intro other d named
      by_cases same : other = fd
      · rw [same, Function.update_self] at named
        cases named
      · rw [Function.update_of_ne same] at named
        exact k.known other d named }

variable (k : Kernel) (fd : Int) (flag : Bool)

@[simp] theorem openAt_file_self : (k.openAt fd flag).file fd = some k.next :=
  Function.update_self ..

theorem openAt_file_other {fd other : Int} (differs : other ≠ fd) :
    (k.openAt fd flag).file other = k.file other :=
  Function.update_of_ne differs ..

@[simp] theorem openAt_nonblock_new : (k.openAt fd flag).nonblock k.next = flag :=
  Function.update_self ..

/-- A new file is none of those that already have a number. -/
theorem openAt_nonblock_old {other : Int} {d : Nat} (named : k.file other = some d) :
    (k.openAt fd flag).nonblock d = k.nonblock d :=
  Function.update_of_ne (k.known other d named).ne ..

@[simp] theorem shareAt_nonblock (new : Int) : (k.shareAt fd new).nonblock = k.nonblock := rfl

@[simp] theorem shareAt_file_new (new : Int) : (k.shareAt fd new).file new = k.file fd :=
  Function.update_self ..

theorem shareAt_file_other {new other : Int} (differs : other ≠ new) :
    (k.shareAt fd new).file other = k.file other :=
  Function.update_of_ne differs ..

@[simp] theorem release_file_self : (k.release fd).file fd = none :=
  Function.update_self ..

theorem release_file_other {fd other : Int} (differs : other ≠ fd) :
    (k.release fd).file other = k.file other :=
  Function.update_of_ne differs ..

@[simp] theorem setNonblock_file : (k.setNonblock fd flag).file = k.file := by
  rw [setNonblock]
  cases k.file fd <;> rfl

theorem setNonblock_self {d : Nat} (named : k.file fd = some d) :
    (k.setNonblock fd flag).nonblock d = flag := by
  rw [setNonblock, named]
  exact Function.update_self ..

theorem setNonblock_other {d other : Nat} (named : k.file fd = some d) (differs : other ≠ d) :
    (k.setNonblock fd flag).nonblock other = k.nonblock other := by
  rw [setNonblock, named]
  exact Function.update_of_ne differs ..

end Kernel

/-! ### The records -/

structure Timeval where
  sec : Int
  usec : Int
  deriving DecidableEq, Repr

/-- `struct fileDesc`; `addr` is the 16 bytes of a `sockaddr_in`. -/
structure FileDesc where
  userFlags : BitVec 32
  addr : Fin 16 → BitVec 8
  domain : Int
  rtimeout : Timeval
  wtimeout : Timeval
  deriving DecidableEq

/-- What `allocFileDesc` writes into a record. -/
def FileDesc.fresh : FileDesc where
  userFlags := 0#32
  addr := fun _ => 0#8
  domain := -1
  rtimeout := ⟨hookContralFdTimeoutS, hookContralFdTimeoutMs⟩
  wtimeout := ⟨hookContralFdTimeoutS, hookContralFdTimeoutMs⟩

@[simp] theorem FileDesc.fresh_userFlags : FileDesc.fresh.userFlags = 0#32 := rfl

/-- The kernel and the table. `overrun` says that an entry was written outside the table. -/
structure Files where
  kernel : Kernel
  hooksFdSet : Int → Option FileDesc
  overrun : Bool

namespace Files

/-- The process before the first hooked call, with the open files of `k`. -/
def unhooked (k : Kernel) : Files := ⟨k, fun _ => none, false⟩

/-- `fd` is an index of `hooksFdSet`. -/
def InTable (fd : Int) : Prop := -1 < fd ∧ fd < hookContralFdNums

instance (fd : Int) : Decidable (InTable fd) := inferInstanceAs (Decidable (_ ∧ _))

/-- `allocFileDesc`, which does not ask whether `fd` is an index. -/
def allocFileDesc (s : Files) (fd : Int) : Files :=
  if InTable fd then { s with hooksFdSet := Function.update s.hooksFdSet fd (some .fresh) }
  else { s with overrun := true }

def getFileDesc (s : Files) (fd : Int) : Option FileDesc :=
  if InTable fd then s.hooksFdSet fd else none

def freeFileDesc (s : Files) (fd : Int) : Files :=
  if InTable fd ∧ (s.hooksFdSet fd).isSome then
    { s with hooksFdSet := Function.update s.hooksFdSet fd none }
  else s

/-- Assignments through the pointer `lp` that `getFileDesc` gives for `fd`. -/
def assign (s : Files) (fd : Int) (change : FileDesc → FileDesc) : Files :=
  if InTable fd then
    { s with hooksFdSet := Function.update s.hooksFdSet fd ((s.hooksFdSet fd).map change) }
  else s

variable (s : Files) {fd other : Int} (change : FileDesc → FileDesc)

@[simp] theorem allocFileDesc_kernel (fd : Int) : (s.allocFileDesc fd).kernel = s.kernel := by
  rw [allocFileDesc]
  split <;> rfl

@[simp] theorem freeFileDesc_kernel (fd : Int) : (s.freeFileDesc fd).kernel = s.kernel := by
  rw [freeFileDesc]
  split <;> rfl

@[simp] theorem assign_kernel (fd : Int) : (s.assign fd change).kernel = s.kernel := by
  rw [assign]
  split <;> rfl

theorem allocFileDesc_overrun (fd : Int) :
    (s.allocFileDesc fd).overrun = true ↔ s.overrun = true ∨ ¬ InTable fd := by
  rw [allocFileDesc]
  split <;> simp [*]

@[simp] theorem freeFileDesc_overrun (fd : Int) : (s.freeFileDesc fd).overrun = s.overrun := by
  rw [freeFileDesc]
  split <;> rfl

@[simp] theorem assign_overrun (fd : Int) : (s.assign fd change).overrun = s.overrun := by
  rw [assign]
  split <;> rfl

@[simp] theorem unhooked_getFileDesc (k : Kernel) (fd : Int) :
    (unhooked k).getFileDesc fd = none := by
  rw [getFileDesc]
  split <;> rfl

theorem getFileDesc_inTable {s : Files} {lp : FileDesc} (found : s.getFileDesc fd = some lp) :
    InTable fd := by
  rw [getFileDesc] at found
  split at found
  · assumption
  · cases found

theorem getFileDesc_update_self (inside : InTable fd) (entry : Option FileDesc) :
    Files.getFileDesc { s with hooksFdSet := Function.update s.hooksFdSet fd entry } fd =
      entry := by
  rw [getFileDesc, if_pos inside]
  exact Function.update_self ..

theorem getFileDesc_update_other (differs : other ≠ fd) (entry : Option FileDesc) :
    Files.getFileDesc { s with hooksFdSet := Function.update s.hooksFdSet fd entry } other =
      s.getFileDesc other := by
  simp only [getFileDesc, Function.update_of_ne differs]

theorem getFileDesc_allocFileDesc_self (inside : InTable fd) :
    (s.allocFileDesc fd).getFileDesc fd = some .fresh := by
  rw [allocFileDesc, if_pos inside, getFileDesc_update_self s inside]

theorem getFileDesc_allocFileDesc_other (differs : other ≠ fd) :
    (s.allocFileDesc fd).getFileDesc other = s.getFileDesc other := by
  rw [allocFileDesc]
  split
  · exact getFileDesc_update_other s differs _
  · rfl

theorem getFileDesc_freeFileDesc_self : (s.freeFileDesc fd).getFileDesc fd = none := by
  rw [freeFileDesc]
  split
  next held => exact getFileDesc_update_self s held.1 none
  next empty =>
    rw [getFileDesc]
    split
    next inside => exact Option.not_isSome_iff_eq_none.mp fun held => empty ⟨inside, held⟩
    · rfl

theorem getFileDesc_freeFileDesc_other (differs : other ≠ fd) :
    (s.freeFileDesc fd).getFileDesc other = s.getFileDesc other := by
  rw [freeFileDesc]
  split
  · exact getFileDesc_update_other s differs _
  · rfl

theorem getFileDesc_assign_self :
    (s.assign fd change).getFileDesc fd = (s.getFileDesc fd).map change := by
  rw [assign]
  split
  next inside => rw [getFileDesc_update_self s inside, getFileDesc, if_pos inside]
  next outside => rw [getFileDesc, if_neg outside, Option.map_none]

theorem getFileDesc_assign_other (differs : other ≠ fd) :
    (s.assign fd change).getFileDesc other = s.getFileDesc other := by
  rw [assign]
  split
  · exact getFileDesc_update_other s differs _
  · rfl

end Files

end BRoutine
