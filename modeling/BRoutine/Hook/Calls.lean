import BRoutine.Hook.Files

/-!
# The hooked calls

The hooked calls of `b_hook.cc` that create, use and free a record: `socket`, `accept`, `fcntl`,
`connect`, `close` and `setsockopt`. What the kernel answers is an argument of each call.
-/

namespace BRoutine

/-! ### Commands of fcntl -/

/-- The commands that the switch of `fcntl` lists. -/
inductive Cmd where
  | dupfd
  | getfd
  | setfd
  | getfl
  | setfl
  | getown
  | setown
  | getlk
  | setlk
  | setlkw
  deriving DecidableEq, Repr

/-- What follows the command in a call of `fcntl`. -/
inductive Passed where
  | nothing
  | int (param : BitVec 32)
  | flock (param : BitVec 64)
  deriving DecidableEq, Repr

namespace Cmd

def number : Cmd → Int
  | dupfd => 0
  | getfd => 1
  | setfd => 2
  | getfl => 3
  | setfl => 4
  | getlk => 5
  | setlk => 6
  | setlkw => 7
  | setown => 8
  | getown => 9

def all : List Cmd :=
  [dupfd, getfd, setfd, getfl, setfl, getown, setown, getlk, setlk, setlkw]

/-- The `case` that `cmd` takes, none where the switch has none for it. -/
def ofNumber (cmd : Int) : Option Cmd := all.find? (·.number = cmd)

/-- The `va_arg` of each case, out of the 64 bits that the caller passes. -/
def vaArg : Cmd → BitVec 64 → Passed
  | getfd, _ | getfl, _ | getown, _ => .nothing
  | getlk, arg | setlk, arg | setlkw, arg => .flock arg
  | dupfd, arg | setfd, arg | setfl, arg | setown, arg => .int (arg.setWidth 32)

theorem ofNumber_number (c : Cmd) : ofNumber c.number = some c := by
  cases c <;> rfl

theorem ofNumber_some {cmd : Int} {c : Cmd} (listed : ofNumber cmd = some c) :
    cmd = c.number := by
  have found := List.find?_some listed
  exact (of_decide_eq_true found).symm

end Cmd

/-- What the kernel's `fcntl` does to the open files when it returns `reply`. -/
def Kernel.fcntl (k : Kernel) (fd : Int) (cmd : Cmd) (param : Passed) (reply : BitVec 32) :
    Kernel :=
  match cmd, param with
  | .setfl, .int flags => if reply = 0#32 then k.setNonblock fd (hasNonblock flags) else k
  | .dupfd, _ => if reply = failure then k else k.shareAt fd reply.toInt
  | _, _ => k

/-! ### The hooked calls -/

namespace Files

/-- The kernel has answered `socket` or `accept` with `fd`. -/
def opened (s : Files) (fd : Int) (flag : Bool) : Files :=
  if fd < 0 then s else { s with kernel := s.kernel.openAt fd flag }

/-- A call of `fcntl`: what it returns, what it has passed to the kernel, and what it leaves. -/
structure Outcome where
  ret : BitVec 32
  sent : Option (Int × Passed)
  files : Files

/-- `fcntl`, where `reply` is what the kernel answers if it is asked. -/
def fcntl (s : Files) (enabled : Bool) (fildes cmd : Int) (arg : BitVec 64)
    (reply : BitVec 32) : Outcome :=
  if fildes < 0 then ⟨357#32, none, s⟩ -- `return __LINE__;`
  else
    match Cmd.ofNumber cmd with
    | none => ⟨failure, none, s⟩
    | some .getfl =>
      { ret :=
          match s.getFileDesc fildes with
          | none => reply
          | some lp => if hasNonblock lp.userFlags then reply else reply &&& ~~~oNonblock
        sent := some (cmd, .nothing)
        files := s }
    | some .setfl =>
      let param := arg.setWidth 32
      let flag := if enabled && (s.getFileDesc fildes).isSome then param ||| oNonblock else param
      let called := { s with kernel := s.kernel.fcntl fildes .setfl (.int flag) reply }
      { ret := reply
        sent := some (cmd, .int flag)
        files :=
          if reply = 0#32 then called.assign fildes fun lp => { lp with userFlags := param }
          else called }
    | some c =>
      { ret := reply
        sent := some (cmd, c.vaArg arg)
        files := { s with kernel := s.kernel.fcntl fildes c (c.vaArg arg) reply } }

/-- `socket`, which returns the `fd` of the kernel. `getfl` and `setfl` answer its two calls of
`fcntl`, the first of which goes past the hook. -/
def socket (s : Files) (enabled : Bool) (domain : Int) (type : BitVec 32) (fd : Int)
    (getfl setfl : BitVec 32) : Files :=
  let called := s.opened fd (hasNonblock type)
  if !enabled then called
  else if fd < 0 then called
  else
    let lp := (called.allocFileDesc fd).assign fd fun lp => { lp with domain := domain }
    (lp.fcntl enabled fd Cmd.setfl.number (getfl.setWidth 64) setfl).files

/-- `accept`, which returns the `cli` of the kernel. -/
def accept (s : Files) (enabled : Bool) (cli : Int) : Files :=
  let called := s.opened cli false
  if !enabled then called
  else if cli < 0 then called
  else called.allocFileDesc cli

/-- `close`, which returns what the kernel returns; `released` says whether the number is free
after it. -/
def close (s : Files) (enabled : Bool) (fd : Int) (released : Bool) : Files :=
  let freed := if enabled then s.freeFileDesc fd else s
  if released then { freed with kernel := freed.kernel.release fd } else freed

def solSocket : Int := 1
def soRcvtimeo : Int := 20
def soSndtimeo : Int := 21

/-- `setsockopt`, which returns what the kernel returns. `val` is what stands at `option_value`. -/
def setsockopt (s : Files) (enabled : Bool) (fd level optionName : Int) (val : Timeval) : Files :=
  if !enabled then s
  else
    match s.getFileDesc fd with
    | none => s
    | some _ =>
      if solSocket = level then
        if soRcvtimeo = optionName then s.assign fd fun lp => { lp with rtimeout := val }
        else if soSndtimeo = optionName then s.assign fd fun lp => { lp with wtimeout := val }
        else s
      else s

def eInprogress : Int := 115

/-- The loop of `connect` on the result of each poll and whether it sets `POLLOUT`: whether the
last poll has set it. -/
def connectWait : List (Int × Bool) → Bool
  | [] => false
  | [(_, writable)] => writable
  | (pollret, writable) :: rest => if pollret = 1 then writable else connectWait rest

/-- `connect`. The kernel answers `ret` with `errno`; where it has to be waited for, the three polls
return `polls` and `getsockopt` returns `got` with the error `err`. -/
def connect (s : Files) (enabled : Bool) (fd : Int) (address : Nat → BitVec 8) (addressLen : Nat)
    (ret errno : Int) (polls : Fin 3 → Int × Bool) (got err : Int) : Int × Files :=
  if !enabled then (ret, s)
  else
    match s.getFileDesc fd with
    | none => (ret, s)
    | some lp =>
      -- `memcpy` when the address fits the 16 bytes of `_addr`
      let s :=
        if addressLen ≤ 16 then
          s.assign fd fun lp =>
            { lp with addr := fun i => if i.val < addressLen then address i else lp.addr i }
        else s
      if hasNonblock lp.userFlags then (ret, s)
      else if ¬ (ret < 0 ∧ errno = eInprogress) then (ret, s)
      else if connectWait [polls 0, polls 1, polls 2] then
        (if got < 0 then got else if err ≠ 0 then -1 else 0, s)
      else (ret, s)

end Files

/-! ### What a kernel can answer -/

/-- A call of a routine with hooking enabled, with the answers of the kernel. -/
inductive HookedCall where
  | socket (domain : Int) (type : BitVec 32) (fd : Int) (getfl setfl : BitVec 32)
  | accept (cli : Int)
  | fcntl (fildes cmd : Int) (arg : BitVec 64) (reply : BitVec 32)

/-- The answers of `fcntl` on the number `fd`. -/
def Kernel.Answers (k : Kernel) (fd : Int) (cmd : Option Cmd) (reply : BitVec 32) : Prop :=
  (k.file fd = none → reply = failure) ∧
  (cmd = some .getfl →
    reply = failure ∨ (k.file fd).map k.nonblock = some (hasNonblock reply)) ∧
  (cmd = some .setfl → reply = 0#32 ∨ reply = failure) ∧
  (cmd = some .dupfd → reply = failure ∨ 0 ≤ reply.toInt ∧ k.file reply.toInt = none)

/-- `socket` and `accept` give a number that is not open. -/
def HookedCall.Answered (k : Kernel) : HookedCall → Prop
  | .socket _ type fd getfl setfl =>
    fd < 0 ∨ k.file fd = none ∧
      (getfl = failure ∨ hasNonblock getfl = hasNonblock type) ∧ (setfl = 0#32 ∨ setfl = failure)
  | .accept cli => cli < 0 ∨ k.file cli = none
  | .fcntl fildes cmd _ reply => fildes < 0 ∨ k.Answers fildes (Cmd.ofNumber cmd) reply

instance (k : Kernel) (fd : Int) (cmd : Option Cmd) (reply : BitVec 32) :
    Decidable (k.Answers fd cmd reply) :=
  inferInstanceAs (Decidable ((_ → _) ∧ (_ → _) ∧ (_ → _) ∧ (_ → _)))

instance (k : Kernel) : (c : HookedCall) → Decidable (c.Answered k)
  | .socket .. => inferInstanceAs (Decidable (_ ∨ _ ∧ (_ ∨ _) ∧ (_ ∨ _)))
  | .accept _ => inferInstanceAs (Decidable (_ ∨ _))
  | .fcntl .. => inferInstanceAs (Decidable (_ ∨ _))

/-- What a call leaves. -/
def Files.hooked (s : Files) : HookedCall → Files
  | .socket domain type fd getfl setfl => s.socket true domain type fd getfl setfl
  | .accept cli => s.accept true cli
  | .fcntl fildes cmd arg reply => (s.fcntl true fildes cmd arg reply).files

namespace Files

/-- One hooked `accept` that gets descriptor 3. -/
def accepted : Files := (unhooked .bare).accept true 3

theorem accepted_record : accepted.getFileDesc 3 = some .fresh := rfl

variable (s : Files) (enabled : Bool) (fd other : Int)

/-! ### What the calls do -/

/-- The flags that the hook of `fcntl` passes on with `F_SETFL`. -/
def flagSent (s : Files) (enabled : Bool) (fd : Int) (param : BitVec 32) : BitVec 32 :=
  if enabled && (s.getFileDesc fd).isSome then param ||| oNonblock else param

theorem hasNonblock_flagSent (param : BitVec 32) :
    hasNonblock (s.flagSent enabled fd param) =
      (enabled && (s.getFileDesc fd).isSome || hasNonblock param) := by
  rw [flagSent]
  split
  next hooked => rw [hooked, hasNonblock_or, Bool.true_or]
  next plain => rw [Bool.not_eq_true _ |>.mp plain, Bool.false_or]

/-- `F_SETFL` after which the kernel has answered 0. -/
def afterSetfl (s : Files) (enabled : Bool) (fd : Int) (param : BitVec 32) : Files :=
  assign { s with kernel := s.kernel.setNonblock fd (hasNonblock (s.flagSent enabled fd param)) } fd
    fun lp => { lp with userFlags := param }

/-- `F_DUPFD` after which the kernel has answered `new`. -/
def afterDupfd (s : Files) (fd new : Int) : Files :=
  { s with kernel := s.kernel.shareAt fd new }

@[simp] theorem afterDupfd_kernel (new : Int) :
    (s.afterDupfd fd new).kernel = s.kernel.shareAt fd new := rfl

@[simp] theorem afterDupfd_getFileDesc (new other : Int) :
    (s.afterDupfd fd new).getFileDesc other = s.getFileDesc other := rfl

/-- Only an `F_SETFL` and an `F_DUPFD` that succeed change what is modelled here. -/
theorem fcntl_files (s : Files) (enabled : Bool) (fd cmd : Int) (arg : BitVec 64)
    (reply : BitVec 32) :
    (s.fcntl enabled fd cmd arg reply).files =
      if fd < 0 then s
      else if cmd = Cmd.setfl.number ∧ reply = 0#32 then
        s.afterSetfl enabled fd (arg.setWidth 32)
      else if cmd = Cmd.dupfd.number ∧ reply ≠ failure then
        s.afterDupfd fd reply.toInt
      else s := by
  rw [fcntl]
  split
  · rfl
  · cases listed : Cmd.ofNumber cmd with
    | none =>
      -- a command outside the switch makes no call at all
      have unlisted : ∀ c : Cmd, cmd ≠ c.number := by
        rintro c rfl
        rw [Cmd.ofNumber_number] at listed
        cases listed
      rw [if_neg fun h => unlisted .setfl h.1, if_neg fun h => unlisted .dupfd h.1]
    | some c =>
      rw [Cmd.ofNumber_some listed]
      cases c with
      | setfl =>
        by_cases succeeds : reply = 0#32
        · simp [succeeds, Kernel.fcntl, afterSetfl, flagSent]
        · simp [succeeds, Kernel.fcntl, Cmd.number]
      | dupfd =>
        by_cases fails : reply = failure
        · simp [fails, Kernel.fcntl, Cmd.number]
        · simp [fails, Kernel.fcntl, Cmd.number, afterDupfd]
      | _ => simp [Kernel.fcntl, Cmd.number]

/-- What `F_GETFL` returns when the kernel has answered `reply`. -/
def shownFlags (s : Files) (fd : Int) (reply : BitVec 32) : BitVec 32 :=
  match s.getFileDesc fd with
  | none => reply
  | some lp => if hasNonblock lp.userFlags then reply else reply &&& ~~~oNonblock

/-- A listed command is passed on, and its answer returned. -/
theorem fcntl_listed {fd : Int} (nonneg : ¬ fd < 0) (c : Cmd) (arg : BitVec 64)
    (reply : BitVec 32) :
    (s.fcntl enabled fd c.number arg reply).ret =
        (if c = .getfl then s.shownFlags fd reply else reply) ∧
      (s.fcntl enabled fd c.number arg reply).sent =
        some (c.number,
          if c = .setfl then .int (s.flagSent enabled fd (arg.setWidth 32)) else c.vaArg arg) := by
  simp only [fcntl, if_neg nonneg, Cmd.ofNumber_number]
  cases c <;> exact ⟨rfl, rfl⟩

/-- A command that the switch does not list is not passed on. -/
theorem fcntl_unlisted {fd cmd : Int} (nonneg : ¬ fd < 0) (unlisted : Cmd.ofNumber cmd = none)
    (arg : BitVec 64) (reply : BitVec 32) :
    s.fcntl enabled fd cmd arg reply = ⟨failure, none, s⟩ := by
  simp only [fcntl, if_neg nonneg, unlisted]

/-- The record that an enabled `setsockopt` leaves where there was one. -/
theorem getFileDesc_setsockopt {fd : Int} {lp : FileDesc} (found : s.getFileDesc fd = some lp)
    (optionName : Int) (val : Timeval) :
    (s.setsockopt true fd solSocket optionName val).getFileDesc fd =
      some (if soRcvtimeo = optionName then { lp with rtimeout := val }
        else if soSndtimeo = optionName then { lp with wtimeout := val } else lp) := by
  simp only [setsockopt, found, Bool.not_true, Bool.false_eq_true, if_false, if_true]
  split
  · rw [getFileDesc_assign_self, found]
    rfl
  · split
    · rw [getFileDesc_assign_self, found]
      rfl
    · exact found

/-- The new socket of the hook, before its flags are set. -/
def socketMade (s : Files) (domain : Int) (type : BitVec 32) (fd : Int) : Files :=
  ((s.opened fd (hasNonblock type)).allocFileDesc fd).assign fd fun lp =>
    { lp with domain := domain }

theorem socket_hooked {fd : Int} (opens : ¬ fd < 0) (domain : Int) (type getfl setfl : BitVec 32) :
    s.socket true domain type fd getfl setfl =
      if setfl = 0#32 then (s.socketMade domain type fd).afterSetfl true fd getfl
      else s.socketMade domain type fd := by
  have whole : (getfl.setWidth 64).setWidth 32 = getfl := by simp
  simp only [socket, Bool.not_true, Bool.false_eq_true, if_false, opens, fcntl_files, whole]
  simp [Cmd.number, socketMade]

theorem socket_failed {fd : Int} (fails : fd < 0) (domain : Int) (type getfl setfl : BitVec 32) :
    s.socket enabled domain type fd getfl setfl = s := by
  simp [socket, opened, fails]

theorem accept_hooked {cli : Int} (opens : ¬ cli < 0) :
    s.accept true cli = (s.opened cli false).allocFileDesc cli := by
  simp [accept, opens]

theorem accept_failed {cli : Int} (fails : cli < 0) : s.accept enabled cli = s := by
  simp [accept, opened, fails]

/-! ### Kernel and table after a call -/

variable {fd other : Int} (flag : Bool) (param : BitVec 32)

theorem opened_kernel (opens : ¬ fd < 0) :
    (s.opened fd flag).kernel = s.kernel.openAt fd flag := by
  rw [opened, if_neg opens]

@[simp] theorem opened_getFileDesc (fd other : Int) :
    (s.opened fd flag).getFileDesc other = s.getFileDesc other := by
  rw [opened]
  split <;> rfl

theorem socketMade_kernel (opens : ¬ fd < 0) (domain : Int) (type : BitVec 32) :
    (s.socketMade domain type fd).kernel = s.kernel.openAt fd (hasNonblock type) := by
  rw [socketMade, assign_kernel, allocFileDesc_kernel, opened_kernel s _ opens]

theorem socketMade_self (inside : InTable fd) (domain : Int) (type : BitVec 32) :
    (s.socketMade domain type fd).getFileDesc fd =
      some { FileDesc.fresh with domain := domain } := by
  rw [socketMade, getFileDesc_assign_self, getFileDesc_allocFileDesc_self _ inside, Option.map_some]

theorem socketMade_other (differs : other ≠ fd) (domain : Int) (type : BitVec 32) :
    (s.socketMade domain type fd).getFileDesc other = s.getFileDesc other := by
  rw [socketMade, getFileDesc_assign_other _ _ differs, getFileDesc_allocFileDesc_other _ differs,
    opened_getFileDesc]

theorem afterSetfl_kernel (fd : Int) :
    (s.afterSetfl enabled fd param).kernel =
      s.kernel.setNonblock fd (hasNonblock (s.flagSent enabled fd param)) := by
  rw [afterSetfl, assign_kernel]

theorem afterSetfl_self (fd : Int) :
    (s.afterSetfl enabled fd param).getFileDesc fd =
      (s.getFileDesc fd).map fun lp => { lp with userFlags := param } := by
  rw [afterSetfl, getFileDesc_assign_self]
  rfl

theorem afterSetfl_other (differs : other ≠ fd) :
    (s.afterSetfl enabled fd param).getFileDesc other = s.getFileDesc other := by
  rw [afterSetfl, getFileDesc_assign_other _ _ differs]
  rfl

theorem close_getFileDesc (f : Files) (enabled : Bool) (fd other : Int) (released : Bool) :
    (f.close enabled fd released).getFileDesc other =
      if enabled = true ∧ other = fd then none else f.getFileDesc other := by
  have kernel_only : (f.close enabled fd released).getFileDesc other =
      (if enabled then f.freeFileDesc fd else f).getFileDesc other := by
    rw [close]
    cases released <;> rfl
  rw [kernel_only]
  cases enabled with
  | false => simp
  | true =>
    by_cases same : other = fd
    · simp [same, getFileDesc_freeFileDesc_self]
    · simp [same, getFileDesc_freeFileDesc_other f same]

theorem close_kernel (f : Files) (enabled : Bool) (fd : Int) (released : Bool) :
    (f.close enabled fd released).kernel =
      if released then f.kernel.release fd else f.kernel := by
  rw [close]
  cases released <;> cases enabled <;> simp

theorem close_overrun (f : Files) (enabled : Bool) (fd : Int) (released : Bool) :
    (f.close enabled fd released).overrun = f.overrun := by
  rw [close]
  cases released <;> cases enabled <;> simp

/-- A hooked call has made `fd`: the other descriptors keep their files and records. -/
structure Opens (f g : Files) (fd : Int) (flag : Bool) : Prop where
  file : g.kernel.file = (f.kernel.openAt fd flag).file
  others : ∀ other, other ≠ fd → g.getFileDesc other = f.getFileDesc other
  overrun : g.overrun = true ↔ f.overrun = true ∨ ¬ InTable fd

theorem socketMade_opens (opens : ¬ fd < 0) (domain : Int) (type : BitVec 32) :
    Opens s (s.socketMade domain type fd) fd (hasNonblock type) where
  file := by rw [socketMade_kernel s opens]
  others _ differs := socketMade_other s differs domain type
  overrun := by
    rw [socketMade, assign_overrun, allocFileDesc_overrun, opened, if_neg opens]

theorem socket_opens (opens : ¬ fd < 0) (domain : Int) (type getfl setfl : BitVec 32) :
    Opens s (s.socket true domain type fd getfl setfl) fd (hasNonblock type) := by
  obtain ⟨file, others, overrun⟩ := socketMade_opens s opens domain type
  rw [socket_hooked s opens]
  split
  · constructor
    · rw [afterSetfl_kernel, Kernel.setNonblock_file, file]
    · intro other differs
      rw [afterSetfl_other _ _ _ differs, others other differs]
    · rw [afterSetfl, assign_overrun]
      exact overrun
  · exact ⟨file, others, overrun⟩

theorem accept_opens (opens : ¬ fd < 0) : Opens s (s.accept true fd) fd false := by
  rw [accept_hooked s opens]
  constructor
  · rw [allocFileDesc_kernel, opened_kernel s false opens]
  · intro other differs
    rw [getFileDesc_allocFileDesc_other _ differs, opened_getFileDesc]
  · rw [allocFileDesc_overrun, opened, if_neg opens]

end Files

end BRoutine
