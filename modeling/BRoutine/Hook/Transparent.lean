import BRoutine.Hook.Blocking

/-!
# The view of the caller

The kernel's files carry `O_NONBLOCK` for the hooks, and `userFlags` keeps apart what the program
asked for. `User` adds to the modelled process what the program last set for each file, which is
the flag that a plain `fcntl` would work on. `transparent_iff` compares the two over whole runs.
-/

namespace BRoutine

/-- The process, and for each open file whether the program last asked for `O_NONBLOCK`. -/
structure User where
  files : Files
  asked : Nat → Bool

namespace User

open Files
open Transition.Machine (guarded_step_iff)

variable {s t : User} {fd cmd : Int} {arg : BitVec 64} {reply : BitVec 32}

/-! ### The plain calls -/

/-- What a plain call makes of the flag that the program asked for. -/
def ask (s : User) : HookedCall → Nat → Bool
  | .socket _ type fd _ _ =>
    if fd < 0 then s.asked
    else Function.update s.asked s.files.kernel.next (hasNonblock type)
  | .accept cli =>
    if cli < 0 then s.asked else Function.update s.asked s.files.kernel.next false
  | .fcntl fd cmd arg reply =>
    match s.files.kernel.file fd with
    | none => s.asked
    | some d =>
      if 0 ≤ fd ∧ cmd = Cmd.setfl.number ∧ reply = 0#32 then
        Function.update s.asked d (hasNonblock (arg.setWidth 32))
      else s.asked

/-- The flag word `flags` with `O_NONBLOCK` as `asked` says. -/
def withAsked (asked : Bool) (flags : BitVec 32) : BitVec 32 :=
  if asked then flags &&& ~~~oNonblock ||| oNonblock else flags &&& ~~~oNonblock

/-- What a plain `fcntl` returns where the kernel has answered `reply`. -/
def plainRet (s : User) (fd cmd : Int) (reply : BitVec 32) : BitVec 32 :=
  if fd < 0 then failure
  else if cmd = Cmd.getfl.number ∧ reply ≠ failure then
    withAsked (((s.files.kernel.file fd).map s.asked).getD false) reply
  else reply

/-- What a plain `fcntl` passes on: the command with its argument. The hook may add `O_NONBLOCK`
to the flags of an `F_SETFL`. -/
def Forwards (cmd : Int) (arg : BitVec 64) (sent : Option (Int × Passed)) : Prop :=
  ∃ param, sent = some (cmd, param) ∧
    match Cmd.ofNumber cmd with
    | none => param = .int (arg.setWidth 32) ∨ param = .flock arg
    | some .setfl => ∃ flags, param = .int flags ∧
        flags &&& ~~~oNonblock = arg.setWidth 32 &&& ~~~oNonblock
    | some c => param = c.vaArg arg

/-- The caller of `fcntl` cannot tell the call from a plain one. -/
def Transparent (s : User) : HookedCall → Prop
  | .fcntl fd cmd arg reply =>
    let done := s.files.fcntl true fd cmd arg reply
    done.ret = s.plainRet fd cmd reply ∧ (0 ≤ fd → Forwards cmd arg done.sent)
  | _ => True

/-- The `O_NONBLOCK` that an `F_GETFL` on `fd` shows when the file has `flag`. -/
def shown (s : Files) (fd : Int) (flag : Bool) : Bool :=
  match s.getFileDesc fd with
  | none => flag
  | some lp => flag && hasNonblock lp.userFlags

/-- Each open descriptor shows what the program asked for. -/
def Views (f : Files) (asked : Nat → Bool) : Prop :=
  ∀ fd d, f.kernel.file fd = some d → shown f fd (f.kernel.nonblock d) = asked d

def Shows (s : User) : Prop := Views s.files s.asked

/-- Calls of routines with hooking enabled, on a process whose files the program has opened and
set as they are. -/
def machine : Transition.Machine User HookedCall :=
  .guarded (fun s => ∃ k : Kernel, s = ⟨unhooked k, k.nonblock⟩)
    (fun s c => c.Answered s.files.kernel) fun s c => ⟨s.files.hooked c, s.ask c⟩

/-! ### The condition -/

/-- `F_SETFL` with `param` through `fd` shows through the other numbers of the file. -/
def SetsForAll (s : User) (fd : Int) (param : BitVec 32) : Prop :=
  match s.files.getFileDesc fd with
  | some _ => hasNonblock param = true ∨
      ∀ other, other ≠ fd → s.files.kernel.file other ≠ s.files.kernel.file fd
  | none => hasNonblock param = true → ∀ other lp, s.files.getFileDesc other = some lp →
      s.files.kernel.file other = s.files.kernel.file fd → hasNonblock lp.userFlags = true

/-- The calls after which the two views still agree. -/
def Agrees (s : User) : HookedCall → Prop
  | .socket _ type fd getfl setfl =>
    ¬ fd < 0 → (setfl = 0#32 → hasNonblock getfl = hasNonblock type) ∧
      (setfl ≠ 0#32 → InTable fd → hasNonblock type = false)
  | .accept _ => True
  | .fcntl fd cmd arg reply =>
    0 ≤ fd ∧ (∃ c : Cmd, cmd = c.number) ∧
    -- -1 is masked like a flag word
    (cmd = Cmd.getfl.number → reply = failure → ∀ lp, s.files.getFileDesc fd = some lp →
      hasNonblock lp.userFlags = true) ∧
    -- a file with several numbers
    (cmd = Cmd.setfl.number → reply = 0#32 → s.SetsForAll fd (arg.setWidth 32)) ∧
    (cmd = Cmd.dupfd.number → reply ≠ failure → ∀ lp d, s.files.getFileDesc fd = some lp →
      s.files.kernel.file fd = some d → s.files.kernel.nonblock d = true →
      hasNonblock lp.userFlags = true)

/-! ### One call of fcntl -/

theorem withAsked_self (flags : BitVec 32) : withAsked (hasNonblock flags) flags = flags := by
  cases set : hasNonblock flags with
  | true => exact clear_or_of_set set
  | false => exact clear_of_unset set

/-- `F_GETFL` returns the kernel's flags with what the descriptor shows. -/
theorem shownFlags_eq (f : Files) (fd : Int) (reply : BitVec 32) :
    f.shownFlags fd reply = withAsked (shown f fd (hasNonblock reply)) reply := by
  rw [shownFlags, shown]
  cases f.getFileDesc fd with
  | none => exact (withAsked_self reply).symm
  | some lp =>
    cases user : hasNonblock lp.userFlags with
    | true => simp [withAsked_self, user]
    | false => simp [withAsked, user]

/-- A failed `F_GETFL` is masked unless the program asked for `O_NONBLOCK`. -/
theorem shownFlags_failure (f : Files) (fd : Int) :
    f.shownFlags fd failure = failure ↔
      ∀ lp, f.getFileDesc fd = some lp → hasNonblock lp.userFlags = true := by
  rw [shownFlags]
  cases f.getFileDesc fd with
  | none => simp
  | some lp =>
    cases user : hasNonblock lp.userFlags with
    | true => simp [user]
    | false =>
      simp only [Bool.false_eq_true, if_false, Option.some.injEq, forall_eq', user, iff_false]
      decide

/-- What is passed on with `F_SETFL` differs in `O_NONBLOCK` only. -/
theorem flagSent_clear (f : Files) (fd : Int) (param : BitVec 32) :
    f.flagSent true fd param &&& ~~~oNonblock = param &&& ~~~oNonblock := by
  rw [flagSent]
  split
  · exact or_clear param
  · rfl

/-- A listed command is passed on as a plain call passes it on. -/
theorem forwards_listed (f : Files) (nonneg : ¬ fd < 0) (c : Cmd) (arg : BitVec 64)
    (reply : BitVec 32) :
    Forwards c.number arg (f.fcntl true fd c.number arg reply).sent := by
  refine ⟨_, (f.fcntl_listed true nonneg c arg reply).2, ?_⟩
  rw [Cmd.ofNumber_number]
  cases c with
  | setfl => exact ⟨_, rfl, flagSent_clear f fd _⟩
  | _ => rfl

/-- The result of `F_GETFL` on what the kernel answers. -/
theorem getfl_plain (shows : s.Shows) (nonneg : ¬ fd < 0)
    (answers : s.files.kernel.Answers fd (some .getfl) reply) :
    s.files.shownFlags fd reply = s.plainRet fd Cmd.getfl.number reply ↔
      (reply = failure → ∀ lp, s.files.getFileDesc fd = some lp →
        hasNonblock lp.userFlags = true) := by
  by_cases failed : reply = failure
  · subst failed
    simp only [plainRet, if_neg nonneg, ne_eq, not_true_eq_false, and_false, if_false, forall_const]
    exact shownFlags_failure s.files fd
  · refine iff_of_true ?_ fun h => absurd h failed
    have flags := (answers.2.1 rfl).resolve_left failed
    obtain ⟨d, named, flag⟩ := Option.map_eq_some_iff.mp flags
    rw [shownFlags_eq, ← flag, shows fd d named]
    simp [plainRet, nonneg, failed, named]

/-- When the caller cannot tell a call of `fcntl` from a plain one. -/
theorem transparent_fcntl_iff (shows : s.Shows)
    (answered : (HookedCall.fcntl fd cmd arg reply).Answered s.files.kernel) :
    s.Transparent (.fcntl fd cmd arg reply) ↔
      0 ≤ fd ∧ (∃ c : Cmd, cmd = c.number) ∧
      (cmd = Cmd.getfl.number → reply = failure → ∀ lp, s.files.getFileDesc fd = some lp →
        hasNonblock lp.userFlags = true) := by
  by_cases negative : fd < 0
  · -- a line number is not a failure
    refine iff_of_false (fun same => ?_) fun h => absurd negative (Int.not_lt.mpr h.1)
    have line : (s.files.fcntl true fd cmd arg reply).ret = 357#32 := by
      rw [Files.fcntl, if_pos negative]
    have plain : s.plainRet fd cmd reply = failure := if_pos negative
    rw [Transparent, line, plain] at same
    exact absurd same.1 (by decide)
  · have nonneg := Int.not_lt.mp negative
    have answers := answered.resolve_left negative
    cases listed : Cmd.ofNumber cmd with
    | none =>
      refine iff_of_false (fun same => ?_) ?_
      · obtain ⟨param, sent, -⟩ := same.2 nonneg
        rw [fcntl_unlisted _ _ negative listed] at sent
        cases sent
      · rintro ⟨-, ⟨c, rfl⟩, -⟩
        rw [Cmd.ofNumber_number] at listed
        cases listed
    | some c =>
      have number := Cmd.ofNumber_some listed
      subst number
      rw [listed] at answers
      have sent := forwards_listed s.files negative c arg reply
      simp only [Transparent, (s.files.fcntl_listed true negative c arg reply).1, nonneg, sent,
        forall_const, and_true, true_and, exists_apply_eq_apply']
      cases c with
      -- no other listed command changes the answer on its way back
      | getfl =>
        rw [if_pos rfl, getfl_plain shows negative answers]
        simp
      | _ => simp [plainRet, negative, Cmd.number]

/-! ### Descriptors and records -/

/-- Every record belongs to an open descriptor, and no file has two of them. -/
structure Placed (f : Files) : Prop where
  opens : ∀ fd lp, f.getFileDesc fd = some lp → ∃ d, f.kernel.file fd = some d
  alone : ∀ fd fd' lp lp', f.getFileDesc fd = some lp → f.getFileDesc fd' = some lp' →
    f.kernel.file fd = f.kernel.file fd' → fd = fd'

variable {f g : Files} {other : Int}

/-- A new descriptor may have a record, the others keep theirs. -/
theorem Placed.made (placed : Placed f) {flag : Bool} (opens : Opens f g fd flag) : Placed g := by
  obtain ⟨file, others, -⟩ := opens
  have self : g.kernel.file fd = some f.kernel.next := by rw [file, Kernel.openAt_file_self]
  -- the new file is none of those that have a record
  have old : ∀ other lp, other ≠ fd → g.getFileDesc other = some lp →
      ∃ d, g.kernel.file other = some d ∧ f.kernel.file other = some d ∧ d ≠ f.kernel.next := by
    intro other lp differs found
    rw [others other differs] at found
    obtain ⟨d, named⟩ := placed.opens other lp found
    refine ⟨d, ?_, named, (f.kernel.known other d named).ne⟩
    rw [file, Kernel.openAt_file_other _ _ differs, named]
  constructor
  · intro other lp found
    by_cases same : other = fd
    · exact ⟨_, same ▸ self⟩
    · obtain ⟨d, named, -, -⟩ := old other lp same found
      exact ⟨d, named⟩
  · intro a b lp lp' found found' shared
    by_cases same : a = fd
    · by_cases same' : b = fd
      · rw [same, same']
      · obtain ⟨d, named, -, differs⟩ := old b lp' same' found'
        rw [same, self, named] at shared
        exact absurd (Option.some.inj shared).symm differs
    · obtain ⟨d, named, before, differs⟩ := old a lp same found
      by_cases same' : b = fd
      · rw [same', self, named] at shared
        exact absurd (Option.some.inj shared) differs
      · obtain ⟨d', named', before', -⟩ := old b lp' same' found'
        rw [others a same] at found
        rw [others b same'] at found'
        refine placed.alone a b lp lp' found found' ?_
        rw [before, before', ← named, ← named', shared]

/-- A call that leaves the files and the places of the records. -/
theorem Placed.kept (placed : Placed f) (file : g.kernel.file = f.kernel.file)
    (records : ∀ fd, (g.getFileDesc fd).isSome = (f.getFileDesc fd).isSome) : Placed g := by
  have back : ∀ fd lp, g.getFileDesc fd = some lp → ∃ lp', f.getFileDesc fd = some lp' := by
    intro fd lp found
    exact Option.isSome_iff_exists.mp (by rw [← records, found]; rfl)
  constructor
  · intro fd lp found
    obtain ⟨lp', found'⟩ := back fd lp found
    rw [file]
    exact placed.opens fd lp' found'
  · intro a b lp lp' found found' shared
    obtain ⟨la, held⟩ := back a lp found
    obtain ⟨lb, held'⟩ := back b lp' found'
    rw [file] at shared
    exact placed.alone a b la lb held held' shared

theorem Placed.setfl (placed : Placed f) {param : BitVec 32} :
    Placed (f.afterSetfl true fd param) := by
  refine placed.kept (by rw [afterSetfl_kernel, Kernel.setNonblock_file]) fun other => ?_
  by_cases same : other = fd
  · rw [same, afterSetfl_self, Option.isSome_map]
  · rw [afterSetfl_other f true param same]

/-- A second number of a file has no record. -/
theorem Placed.shared (placed : Placed f) {new : Int} (unused : f.kernel.file new = none) :
    Placed (f.afterDupfd fd new) := by
  have old : ∀ other lp, f.getFileDesc other = some lp → other ≠ new := by
    rintro other lp found rfl
    obtain ⟨d, named⟩ := placed.opens other lp found
    rw [unused] at named
    cases named
  constructor
  · intro other lp found
    obtain ⟨d, named⟩ := placed.opens other lp found
    exact ⟨d, by
      rw [afterDupfd_kernel, Kernel.shareAt_file_other _ _ (old other lp found), named]⟩
  · intro a b lp lp' found found' shared
    rw [afterDupfd_kernel, Kernel.shareAt_file_other _ _ (old a lp found),
      Kernel.shareAt_file_other _ _ (old b lp' found')] at shared
    exact placed.alone a b lp lp' found found' shared

/-- Every call keeps the records in their places. -/
theorem Placed.hooked (placed : Placed f) {c : HookedCall} (answered : c.Answered f.kernel) :
    Placed (f.hooked c) := by
  cases c with
  | socket domain type fd getfl setfl =>
    by_cases fails : fd < 0
    · rwa [Files.hooked, socket_failed f true fails]
    · exact placed.made (socket_opens f fails domain type getfl setfl)
  | accept cli =>
    by_cases fails : cli < 0
    · rwa [Files.hooked, accept_failed f true fails]
    · exact placed.made (accept_opens f fails)
  | fcntl fd cmd arg reply =>
    rw [Files.hooked, fcntl_files]
    split
    · exact placed
    next nonneg =>
      split
      · exact placed.setfl
      · split
        next dup =>
          have listed : Cmd.ofNumber cmd = some .dupfd := by rw [dup.1, Cmd.ofNumber_number]
          exact placed.shared (((answered.resolve_left nonneg).2.2.2 listed).resolve_left dup.2).2
        · exact placed

/-! ### What the descriptors show after a call -/

theorem shown_congr (same : g.getFileDesc fd = f.getFileDesc fd) (flag : Bool) :
    shown g fd flag = shown f fd flag := by
  rw [shown, shown, same]

/-- After a call with a new descriptor it is the new one that may show something else. -/
theorem shows_made_iff (shows : s.Shows) {flag wanted : Bool}
    (file : g.kernel.file = (s.files.kernel.openAt fd flag).file)
    (old : ∀ d, d ≠ s.files.kernel.next → g.kernel.nonblock d = s.files.kernel.nonblock d)
    (others : ∀ other, other ≠ fd → g.getFileDesc other = s.files.getFileDesc other) :
    Views g (Function.update s.asked s.files.kernel.next wanted) ↔
      shown g fd (g.kernel.nonblock s.files.kernel.next) = wanted := by
  constructor
  · intro after
    have shown_fd := after fd s.files.kernel.next (by rw [file, Kernel.openAt_file_self])
    rwa [Function.update_self] at shown_fd
  · intro shown_fd other d named
    rw [file] at named
    by_cases same : other = fd
    · subst same
      rw [Kernel.openAt_file_self] at named
      cases named
      rw [Function.update_self]
      exact shown_fd
    · rw [Kernel.openAt_file_other _ _ same] at named
      have known := (s.files.kernel.known other d named).ne
      rw [Function.update_of_ne known, old d known, shown_congr (others other same)]
      exact shows other d named

theorem shows_socket_iff (shows : s.Shows) (opens : ¬ fd < 0) {domain : Int}
    {type getfl setfl : BitVec 32} :
    Views (s.files.hooked (.socket domain type fd getfl setfl))
        (s.ask (.socket domain type fd getfl setfl)) ↔
      (setfl = 0#32 → hasNonblock getfl = hasNonblock type) ∧
        (setfl ≠ 0#32 → InTable fd → hasNonblock type = false) := by
  have kernel := socketMade_kernel s.files opens domain type
  have others := fun other (differs : other ≠ fd) => socketMade_other s.files differs domain type
  have outside : ¬ InTable fd → (s.files.socketMade domain type fd).getFileDesc fd = none :=
    fun out => if_neg out
  rw [hooked, socket_hooked s.files opens, ask, if_neg opens]
  -- an accepted `F_SETFL` sends the flags that `F_GETFL` has answered
  by_cases accepted : setfl = 0#32
  · have named : (s.files.socketMade domain type fd).kernel.file fd = some s.files.kernel.next := by
      rw [kernel, Kernel.openAt_file_self]
    have file : ((s.files.socketMade domain type fd).afterSetfl true fd getfl).kernel.file =
        (s.files.kernel.openAt fd (hasNonblock type)).file := by
      rw [afterSetfl_kernel, Kernel.setNonblock_file, kernel]
    rw [if_pos accepted, shows_made_iff shows file]
    · rw [afterSetfl_kernel, Kernel.setNonblock_self _ _ _ named, hasNonblock_flagSent, shown,
        afterSetfl_self]
      by_cases inside : InTable fd
      · simp [socketMade_self s.files inside, accepted]
      · simp [outside inside, accepted]
    · intro d differs
      rw [afterSetfl_kernel, Kernel.setNonblock_other _ _ _ named differs, kernel]
      exact Function.update_of_ne differs ..
    · intro other differs
      rw [afterSetfl_other _ _ _ differs, others other differs]
  · rw [if_neg accepted, shows_made_iff shows (congrArg Kernel.file kernel) ?_ others]
    · rw [kernel, Kernel.openAt_nonblock_new, shown]
      by_cases inside : InTable fd
      · simp [socketMade_self s.files inside, accepted, inside]
      · simp [outside inside, accepted, inside]
    · intro d differs
      rw [kernel]
      exact Function.update_of_ne differs ..

theorem shows_accept (shows : s.Shows) (opens : ¬ fd < 0) :
    Views (s.files.hooked (.accept fd)) (s.ask (.accept fd)) := by
  have kernel : ((s.files.opened fd false).allocFileDesc fd).kernel =
      s.files.kernel.openAt fd false := by
    rw [allocFileDesc_kernel, opened_kernel s.files false opens]
  rw [hooked, accept_hooked s.files opens, ask, if_neg opens,
    shows_made_iff shows (congrArg Kernel.file kernel)]
  · rw [kernel, Kernel.openAt_nonblock_new, shown]
    split <;> rfl
  · intro d differs
    rw [kernel]
    exact Function.update_of_ne differs ..
  · intro other differs
    rw [getFileDesc_allocFileDesc_other _ differs, opened_getFileDesc]

/-- After a successful `F_SETFL` through `fd` only the numbers of this file are in question. -/
theorem views_setfl_iff (shows : s.Shows) {d : Nat} {param : BitVec 32}
    (named : s.files.kernel.file fd = some d) :
    Views (s.files.afterSetfl true fd param) (Function.update s.asked d (hasNonblock param)) ↔
      ∀ other, s.files.kernel.file other = some d →
        shown (s.files.afterSetfl true fd param) other
          ((s.files.getFileDesc fd).isSome || hasNonblock param) = hasNonblock param := by
  have self := s.files.kernel.setNonblock_self fd
    (hasNonblock (s.files.flagSent true fd param)) named
  rw [hasNonblock_flagSent, Bool.true_and] at self
  simp only [Views, afterSetfl_kernel, Kernel.setNonblock_file, hasNonblock_flagSent,
    Bool.true_and]
  constructor
  · intro views other same
    have shown_other := views other d same
    rwa [Function.update_self, self] at shown_other
  · intro whole other d' named'
    by_cases same : d' = d
    · subst same
      rw [Function.update_self, self]
      exact whole other named'
    · have differs : other ≠ fd := by
        rintro rfl
        exact same (Option.some.inj (named'.symm.trans named))
      rw [Function.update_of_ne same, Kernel.setNonblock_other _ _ _ named same,
        shown_congr (afterSetfl_other s.files true param differs)]
      exact shows other d' named'

/-- The number that `F_SETFL` goes through shows the argument. -/
theorem shown_setfl_self (param : BitVec 32) :
    shown (f.afterSetfl true fd param) fd ((f.getFileDesc fd).isSome || hasNonblock param) =
      hasNonblock param := by
  rw [shown, afterSetfl_self]
  cases f.getFileDesc fd with
  | none => rfl
  | some lp => rfl

/-- Through a number with a record: the other numbers of the file have none, and show the
`O_NONBLOCK` of the hooks. -/
theorem setsForAll_recorded (placed : Placed s.files) {d : Nat} {param : BitVec 32}
    (named : s.files.kernel.file fd = some d) {lp : FileDesc}
    (found : s.files.getFileDesc fd = some lp) :
    (∀ other, s.files.kernel.file other = some d →
      shown (s.files.afterSetfl true fd param) other
        ((s.files.getFileDesc fd).isSome || hasNonblock param) = hasNonblock param) ↔
      s.SetsForAll fd param := by
  -- an open file has one record, which is that of `fd`
  have bare : ∀ other, s.files.kernel.file other = some d → other ≠ fd →
      s.files.getFileDesc other = none := by
    intro other shared differs
    cases found' : s.files.getFileDesc other with
    | none => rfl
    | some lp' =>
      exact absurd (placed.alone other fd lp' lp found' found (shared.trans named.symm)) differs
  rw [SetsForAll, found]
  constructor
  · intro whole
    by_contra neither
    simp only [not_or, not_forall, not_not] at neither
    obtain ⟨unset, other, differs, shared⟩ := neither
    -- a number without record shows the non-blocking mode of the file
    have shown_other := whole other (shared.trans named)
    rw [shown, afterSetfl_other s.files true param differs,
      bare other (shared.trans named) differs] at shown_other
    exact unset shown_other.symm
  · intro given other same
    by_cases is_fd : other = fd
    · subst is_fd
      have self := @shown_setfl_self other s.files param
      rwa [found] at self
    · rcases given with set | apart
      · rw [shown, afterSetfl_other s.files true param is_fd, bare other same is_fd]
        exact set.symm
      · exact absurd (same.trans named.symm) (apart other is_fd)

/-- Through a number without one: a number of the file that has a record shows what it keeps. -/
theorem setsForAll_bare {d : Nat} {param : BitVec 32} (named : s.files.kernel.file fd = some d)
    (found : s.files.getFileDesc fd = none) :
    (∀ other, s.files.kernel.file other = some d →
      shown (s.files.afterSetfl true fd param) other
        ((s.files.getFileDesc fd).isSome || hasNonblock param) = hasNonblock param) ↔
      s.SetsForAll fd param := by
  rw [SetsForAll, found, Option.isSome_none, Bool.false_or]
  constructor
  · intro whole set other lp recorded shared
    have differs : other ≠ fd := by
      rintro rfl
      rw [found] at recorded
      cases recorded
    have shown_other := whole other (shared.trans named)
    rw [shown, afterSetfl_other s.files true param differs, recorded, set] at shown_other
    exact shown_other
  · intro given other same
    by_cases is_fd : other = fd
    · subst is_fd
      have self := @shown_setfl_self other s.files param
      rwa [found] at self
    · rw [shown, afterSetfl_other s.files true param is_fd]
      cases found' : s.files.getFileDesc other with
      | none => rfl
      | some lp =>
        cases set : hasNonblock param with
        | false => rfl
        | true => exact given set other lp found' (same.trans named.symm)

/-- After a successful `F_SETFL` through `fd` each number of the file shows the argument, unless a
number with a record and one without see it differently. -/
theorem shows_setfl_iff (shows : s.Shows) (placed : Placed s.files) {d : Nat} {param : BitVec 32}
    (named : s.files.kernel.file fd = some d) :
    Views (s.files.afterSetfl true fd param) (Function.update s.asked d (hasNonblock param)) ↔
      s.SetsForAll fd param := by
  rw [views_setfl_iff shows named]
  cases found : s.files.getFileDesc fd with
  | some lp =>
    rw [← setsForAll_recorded placed named found, found]
  | none =>
    rw [← setsForAll_bare named found, found]

/-- The new number of a file has no record and shows the kernel's flag. -/
theorem shows_dupfd_iff (shows : s.Shows) (placed : Placed s.files) {new : Int}
    (unused : s.files.kernel.file new = none) :
    Views (s.files.afterDupfd fd new) s.asked ↔
      ∀ lp d, s.files.getFileDesc fd = some lp → s.files.kernel.file fd = some d →
        s.files.kernel.nonblock d = true → hasNonblock lp.userFlags = true := by
  -- the kernel gives an unused number, and no record belongs to it
  have bare : s.files.getFileDesc new = none := by
    cases found : s.files.getFileDesc new with
    | none => rfl
    | some lp =>
      obtain ⟨d, named⟩ := placed.opens new lp found
      rw [unused] at named
      cases named
  constructor
  · intro views lp d found named set
    have shown_new := views new d (by rw [afterDupfd_kernel, Kernel.shareAt_file_new, named])
    rw [shown, afterDupfd_getFileDesc, bare] at shown_new
    have shown_fd := shows fd d named
    rw [shown, found, ← shown_new] at shown_fd
    simpa [set] using shown_fd
  · intro given other d named
    rw [shown, afterDupfd_getFileDesc]
    by_cases same : other = new
    · rw [same, afterDupfd_kernel, Kernel.shareAt_file_new] at named
      rw [same, bare, ← shows fd d named, shown]
      cases found : s.files.getFileDesc fd with
      | none => rfl
      | some lp =>
        cases set : s.files.kernel.nonblock d with
        | false => exact set
        | true => exact set.trans (given lp d found named set).symm
    · rw [afterDupfd_kernel, Kernel.shareAt_file_other _ _ same] at named
      exact shows other d named

/-! ### Runs -/

/-- What holds of a process whose calls have all agreed with the plain ones. -/
structure Consistent (s : User) : Prop where
  shows : s.Shows
  placed : Placed s.files

/-- After a successful `F_SETFL` or `F_DUPFD` and after every other call of `fcntl`. -/
theorem Consistent.fcntl_shows_iff (consistent : s.Consistent)
    (answered : (HookedCall.fcntl fd cmd arg reply).Answered s.files.kernel) (nonneg : ¬ fd < 0) :
    Views (s.files.hooked (.fcntl fd cmd arg reply)) (s.ask (.fcntl fd cmd arg reply)) ↔
      (cmd = Cmd.setfl.number → reply = 0#32 → s.SetsForAll fd (arg.setWidth 32)) ∧
      (cmd = Cmd.dupfd.number → reply ≠ failure → ∀ lp d, s.files.getFileDesc fd = some lp →
        s.files.kernel.file fd = some d → s.files.kernel.nonblock d = true →
        hasNonblock lp.userFlags = true) := by
  obtain ⟨shows, placed⟩ := consistent
  have answers := answered.resolve_left nonneg
  rw [hooked, fcntl_files, if_neg nonneg]
  by_cases setfl : cmd = Cmd.setfl.number ∧ reply = 0#32
  · obtain ⟨rfl, accepted⟩ := setfl
    -- the kernel accepts an `F_SETFL` on an open descriptor only
    cases named : s.files.kernel.file fd with
    | none =>
      have failed := answers.1 named
      rw [accepted] at failed
      cases failed
    | some d =>
      simp only [ask, named, accepted, Int.not_lt.mp nonneg, and_self, if_true]
      rw [shows_setfl_iff shows placed named]
      simp [Cmd.number]
  · have asked : s.ask (.fcntl fd cmd arg reply) = s.asked := by
      rw [ask]
      split
      · rfl
      · rw [if_neg fun h => setfl h.2]
    have unset : cmd = Cmd.setfl.number → reply = 0#32 → s.SetsForAll fd (arg.setWidth 32) :=
      fun number accepted => absurd ⟨number, accepted⟩ setfl
    rw [if_neg setfl, asked, and_iff_right unset]
    split
    next dup =>
      have listed : Cmd.ofNumber cmd = some .dupfd := by rw [dup.1, Cmd.ofNumber_number]
      rw [shows_dupfd_iff shows placed ((answers.2.2.2 listed).resolve_left dup.2).2]
      exact ⟨fun h _ _ => h, fun h => h dup.1 dup.2⟩
    next other => exact iff_of_true shows fun number accepted => absurd ⟨number, accepted⟩ other

/-- A call agrees with a plain one, in what it returns and in what the descriptors show after it,
exactly if it meets `Agrees`. -/
theorem Consistent.agrees_iff (consistent : s.Consistent) {c : HookedCall}
    (answered : c.Answered s.files.kernel) :
    s.Transparent c ∧ Views (s.files.hooked c) (s.ask c) ↔ s.Agrees c := by
  cases c with
  | socket domain type fd getfl setfl =>
    by_cases fails : fd < 0
    · refine iff_of_true ⟨trivial, ?_⟩ fun opens => absurd fails opens
      rw [hooked, socket_failed s.files true fails, ask, if_pos fails]
      exact consistent.shows
    · rw [shows_socket_iff consistent.shows fails]
      exact ⟨fun both _ => both.2, fun given => ⟨trivial, given fails⟩⟩
  | accept cli =>
    refine iff_of_true ⟨trivial, ?_⟩ trivial
    by_cases fails : cli < 0
    · rw [hooked, accept_failed s.files true fails, ask, if_pos fails]
      exact consistent.shows
    · exact shows_accept consistent.shows fails
  | fcntl fd cmd arg reply =>
    rw [transparent_fcntl_iff consistent.shows answered]
    by_cases negative : fd < 0
    · exact iff_of_false (fun h => absurd negative (Int.not_lt.mpr h.1.1))
        fun h => absurd negative (Int.not_lt.mpr h.1)
    · rw [consistent.fcntl_shows_iff answered negative, Agrees]
      simp only [and_assoc]

/-- Along a schedule every call of `fcntl` is as a plain one and every descriptor shows what the
program last asked for, exactly if all calls meet `Agrees`. -/
theorem transparent_iff (k : Kernel) (schedule : List HookedCall) :
    ((∀ t, machine.Visits ⟨unhooked k, k.nonblock⟩ schedule t → t.Shows) ∧
      ∀ t c, machine.Takes ⟨unhooked k, k.nonblock⟩ schedule t c → t.Transparent c) ↔
    ∀ t c, machine.Takes ⟨unhooked k, k.nonblock⟩ schedule t c → t.Agrees c := by
  refine machine.safe_and_fine_iff_steps_ok Consistent Agrees ?_ (fun _ => Consistent.shows)
    ?_ ?_ ⟨?_, ?_⟩ schedule
  · intro t c u consistent agrees stepped
    obtain ⟨answered, rfl⟩ := guarded_step_iff.mp stepped
    exact ⟨((consistent.agrees_iff answered).mpr agrees).2, consistent.placed.hooked answered⟩
  · intro t c u consistent agrees stepped
    exact ((consistent.agrees_iff (guarded_step_iff.mp stepped).1).mpr agrees).1
  · intro t c u consistent differs stepped shows transparent
    obtain ⟨answered, rfl⟩ := guarded_step_iff.mp stepped
    exact differs ((consistent.agrees_iff answered).mp ⟨transparent, shows⟩)
  · intro fd d _
    rw [shown, unhooked_getFileDesc]
    rfl
  · constructor <;> intros <;> simp_all

/-- `F_GETFL` on descriptor -1 gets a line number, before any other call. -/
theorem negative_not_transparent :
    ¬ ∀ s, machine.Reachable s → ∀ c t, machine.step s c = some t → s.Transparent c := by
  intro transparent
  have same := (transparent _ (.start ⟨.bare, rfl⟩) (.fcntl (-1) Cmd.getfl.number 0 0) _
    (guarded_step_iff.mpr ⟨Or.inl (by decide), rfl⟩)).1
  exact absurd same (by decide)

end User

end BRoutine
