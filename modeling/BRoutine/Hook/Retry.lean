import BRoutine.Hook.Receive

/-!
# Which failures are retried

The hooked `write`, `send` and `sendto` with the `errno` of each system call that fails. Only
`sendto` looks at it: `retries_iff` says when the three go on after `EAGAIN` alone.
-/

namespace BRoutine.Retry

open Transfer (Buffer Replies Done Progress sendOnce sendLoop)

def eAgain : Int := 11

/-- `Hook_Func(write)`, `Hook_Func(send)` or `Hook_Func(sendto)` with what they pass on. -/
inductive Call where
  | write
  | send (flags : Int)
  | sendto (flags : Int) (destAddr : List (BitVec 8))
  deriving DecidableEq, Repr

/-- What is asked of the kernel: `asked` bytes from `offset` on, with the `errno` that the call
leaves if it fails, or a poll. -/
inductive Asked where
  | sys (call : Call) (offset asked : Nat) (reply errno : Int)
  | poll (timeout : Int)
  deriving DecidableEq, Repr

/-- The `errno` of the call that is made after `issued` others, if it fails. -/
abbrev Errnos : Type := Nat → Int

/-- What a call returns and has asked. -/
structure Outcome where
  ret : Int
  asked : List Asked
  deriving DecidableEq, Repr

def Call.of : Transfer.Sys → Call
  | .write => .write
  | .send flags => .send flags

def Asked.of (errnos : Errnos) (i : Nat) : Transfer.Issued → Asked
  | .sys call offset asked reply => .sys (.of call) offset asked reply (errnos i)
  | .poll timeout => .poll timeout

/-- What has been issued, with the `errno` of each call. -/
def withErrno (errnos : Errnos) (issued : List Transfer.Issued) : List Asked :=
  issued.mapIdx (Asked.of errnos)

def Outcome.of (errnos : Errnos) (done : Done) : Outcome :=
  ⟨done.ret, withErrno errnos done.issued⟩

/-- `write`. -/
def write (s : Files) (enabled : Bool) (fd : Int) (buf : Buffer) (replies : Replies)
    (errnos : Errnos) (fuel : Nat) : Option Outcome :=
  (Transfer.write s enabled fd buf replies fuel).map (Outcome.of errnos)

/-- `send`. -/
def send (s : Files) (enabled : Bool) (fd : Int) (buf : Buffer) (flags : Int) (replies : Replies)
    (errnos : Errnos) (fuel : Nat) : Option Outcome :=
  (Transfer.send s enabled fd buf flags replies fuel).map (Outcome.of errnos)

/-- `sendto`: try, wait, try. -/
def sendto (s : Files) (enabled : Bool) (socket : Int) (buf : Buffer) (flags : Int)
    (destAddr : List (BitVec 8)) (replies : Replies) (errnos : Errnos) : Outcome :=
  let length := buf.bytes.length
  let call := Call.sendto flags destAddr
  let ret := (replies 0 length).val
  let once := ⟨ret, [.sys call 0 length ret (errnos 0)]⟩
  if !enabled then once
  else
    match s.getFileDesc socket with
    | none => once
    | some lp =>
      if hasNonblock lp.userFlags then once
      else if ret < 0 ∧ eAgain = errnos 0 then
        let again := (replies 2 length).val
        ⟨again, [.sys call 0 length ret (errnos 0), .poll (Receive.timeoutOf lp.wtimeout),
          .sys call 0 length again (errnos 2)]⟩
      else once

/-! ### What is promised about errors -/

/-- A system call that has failed with something else than `EAGAIN`. -/
def Asked.Fatal : Asked → Prop
  | .sys _ _ _ reply errno => reply = -1 ∧ errno ≠ eAgain
  | .poll _ => False

/-- How many bytes the kernel has taken. -/
def Asked.sent : Asked → Nat
  | .sys _ _ _ reply _ => reply.toNat
  | .poll _ => 0

def Asked.isSys : Asked → Bool
  | .sys .. => true
  | .poll _ => false

/-- The `errno` that the calls leave to the caller, that of the last one that has failed. -/
def errnoLeft : List Asked → Option Int
  | [] => none
  | .sys _ _ _ reply errno :: rest =>
    (errnoLeft rest).or (if reply < 0 then some errno else none)
  | .poll _ :: rest => errnoLeft rest

/-- No system call follows a fatal one, and the caller sees a fatal one before which nothing was
sent. -/
structure OnlyEagain (o : Outcome) : Prop where
  last : ∀ front fatal back, o.asked = front ++ fatal :: back → fatal.Fatal →
    ∀ later ∈ back, later.isSys = false
  seen : ∀ front call offset asked reply errno back,
    o.asked = front ++ .sys call offset asked reply errno :: back →
    (Asked.sys call offset asked reply errno).Fatal → (∀ earlier ∈ front, earlier.sent = 0) →
    o.ret = -1 ∧ errnoLeft o.asked = some errno

instance : (x : Asked) → Decidable x.Fatal
  | .sys _ _ _ _ _ => inferInstanceAs (Decidable (_ ∧ _))
  | .poll _ => inferInstanceAs (Decidable False)

/-! ### Lists of what was asked -/

theorem withErrno_snoc (errnos : Errnos) (issued : List Transfer.Issued) (x : Transfer.Issued) :
    withErrno errnos (issued ++ [x]) =
      withErrno errnos issued ++ [Asked.of errnos issued.length x] := by
  simp [withErrno, List.mapIdx_append]

theorem errnoLeft_snoc (front : List Asked) (call : Call) (offset asked : Nat)
    {reply : Int} (errno : Int) (failed : reply < 0) :
    errnoLeft (front ++ [.sys call offset asked reply errno]) = some errno := by
  induction front with
  | nil => simp [errnoLeft, failed]
  | cons first front ih =>
    cases first with
    | sys _ _ _ _ _ => simp only [List.cons_append, errnoLeft, ih, Option.some_or]
    | poll _ => exact ih

/-- With a fatal call only at the end, and its reply returned if nothing was sent before it, errors
are treated as promised. -/
theorem OnlyEagain.of_quiet {o : Outcome} (quiet : ∀ x ∈ o.asked.dropLast, ¬ x.Fatal)
    (returned : ∀ front call offset asked errno,
      o.asked = front ++ [.sys call offset asked (-1) errno] →
      (∀ earlier ∈ front, earlier.sent = 0) → o.ret = -1) : OnlyEagain o := by
  -- nothing stands behind a fatal call
  have ends : ∀ front x back, o.asked = front ++ x :: back → x.Fatal → back = [] := by
    intro front x back split fatal
    by_contra more
    refine quiet x ?_ fatal
    rw [split, List.dropLast_append_of_ne_nil (List.cons_ne_nil x back),
      List.dropLast_cons_of_ne_nil more]
    simp
  constructor
  · intro front x back split fatal later behind
    rw [ends front x back split fatal] at behind
    cases behind
  · intro front call offset asked reply errno back split fatal unsent
    obtain rfl := ends _ _ _ split fatal
    obtain rfl : reply = -1 := fatal.1
    refine ⟨returned front call offset asked errno split unsent, ?_⟩
    rw [split]
    exact errnoLeft_snoc front call offset asked errno (by decide)

/-! ### The loop of write and send -/

variable (call : Transfer.Sys) (replies : Replies) (errnos : Errnos) {nbyte : Nat}

theorem sendOnce_issued (nbyte : Nat) (p : Progress) :
    ∃ offset asked, (sendOnce call replies nbyte p).issued =
      p.issued ++ [.sys call offset asked (sendOnce call replies nbyte p).writeret] :=
  ⟨_, _, rfl⟩

/-- The loop keeps what was issued before it. -/
theorem sendLoop_issued {timeout : Int} {fuel : Nat} {p q : Progress}
    (ended : sendLoop call replies timeout nbyte fuel p = some q) :
    ∃ more, q.issued = p.issued ++ more := by
  induction fuel generalizing p with
  | zero => cases ended
  | succ fuel ih =>
    rw [sendLoop] at ended
    split at ended
    · obtain ⟨offset, asked, issued⟩ := sendOnce_issued call replies nbyte
        { p with issued := p.issued ++ [.poll timeout] }
      simp only at ended
      split at ended
      · cases ended
        rw [issued]
        exact ⟨_, List.append_assoc ..⟩
      · obtain ⟨more, grown⟩ := ih ended
        rw [grown, issued]
        exact ⟨_, by rw [List.append_assoc, List.append_assoc]⟩
    · cases ended
      exact ⟨[], (List.append_nil _).symm⟩

/-- A loop with something left to send polls and makes a system call. -/
theorem sendLoop_calls {timeout : Int} {fuel : Nat} {p q : Progress} (left : p.wrotelen < nbyte)
    (ended : sendLoop call replies timeout nbyte fuel p = some q) :
    ∃ offset asked reply more,
      q.issued = p.issued ++ .poll timeout :: .sys call offset asked reply :: more := by
  match fuel with
  | 0 => cases ended
  | fuel + 1 =>
    rw [sendLoop, if_pos left] at ended
    obtain ⟨offset, asked, issued⟩ := sendOnce_issued call replies nbyte
      { p with issued := p.issued ++ [.poll timeout] }
    generalize sendOnce call replies nbyte { p with issued := p.issued ++ [.poll timeout] } = next
      at issued ended
    simp only at ended
    split at ended
    · cases ended
      exact ⟨offset, asked, q.writeret, [], by simp [issued]⟩
    · obtain ⟨more, grown⟩ := sendLoop_issued call replies ended
      exact ⟨offset, asked, next.writeret, more, by simp [grown, issued]⟩

/-- The loop stops at the first call that fails, so only its last call can be fatal. -/
theorem sendLoop_quiet {timeout : Int} {fuel : Nat} {p q : Progress}
    (ended : sendLoop call replies timeout nbyte fuel p = some q)
    (quiet : ∀ x ∈ withErrno errnos p.issued, ¬ x.Fatal) :
    ∀ x ∈ (withErrno errnos q.issued).dropLast, ¬ x.Fatal := by
  induction fuel generalizing p with
  | zero => cases ended
  | succ fuel ih =>
    rw [sendLoop] at ended
    split at ended
    · obtain ⟨offset, asked, issued⟩ := sendOnce_issued call replies nbyte
        { p with issued := p.issued ++ [.poll timeout] }
      -- a poll is never fatal
      have polled : ∀ x ∈ withErrno errnos (p.issued ++ [.poll timeout]), ¬ x.Fatal := by
        intro x member
        rw [withErrno_snoc, List.mem_append, List.mem_singleton] at member
        rcases member with before | rfl
        · exact quiet x before
        · exact id
      simp only at ended
      split at ended
      · cases ended
        rw [issued, withErrno_snoc, List.dropLast_concat]
        exact polled
      next goesOn =>
        refine ih ended fun x member => ?_
        rw [issued, withErrno_snoc, List.mem_append, List.mem_singleton] at member
        rcases member with before | rfl
        · exact polled x before
        · rintro ⟨failed, -⟩
          omega
    · cases ended
      exact fun x member => quiet x (List.mem_of_mem_dropLast member)

/-! ### write and send -/

theorem sent_eq (errnos : Errnos) (issued : List Transfer.Issued) :
    ((withErrno errnos issued).map Asked.sent).sum = Transfer.total (Transfer.slices issued) := by
  induction issued using List.reverseRecOn with
  | nil => rfl
  | append_singleton issued x ih =>
    rw [withErrno_snoc, List.map_append, List.sum_append, ih, Transfer.slices_append]
    cases x with
    | sys call offset asked reply =>
      by_cases taken : reply > 0
      · simp [Transfer.slices, taken, Transfer.total, Asked.of, Asked.sent]
      · have none : reply.toNat = 0 := by omega
        simp [Transfer.slices, taken, Asked.of, Asked.sent, none]
    | poll timeout => simp [Transfer.slices, Asked.of, Asked.sent]

theorem lastReply_of_withErrno {issued : List Transfer.Issued} {front : List Asked} {call : Call}
    {offset asked : Nat} {reply errno : Int}
    (split : withErrno errnos issued = front ++ [.sys call offset asked reply errno]) :
    Transfer.lastReply issued = some reply := by
  obtain rfl | ⟨init, x, rfl⟩ := List.eq_nil_or_concat issued
  · simp [withErrno] at split
  · rw [List.concat_eq_append] at split ⊢
    rw [withErrno_snoc] at split
    have same := (List.append_inj' split rfl).2
    cases x with
    | sys _ _ _ _ =>
      simp only [Asked.of, List.cons.injEq, Asked.sys.injEq] at same
      rw [Transfer.lastReply_snoc, same.1.2.2.2.1]
    | poll _ => simp [Asked.of] at same

/-- A call that reports what it has sent and has failed fatally only at its end treats errors as
promised. -/
theorem onlyEagain_of_reports {buf : Buffer} {done : Done} (reports : Transfer.Reports buf done)
    (quiet : ∀ x ∈ (withErrno errnos done.issued).dropLast, ¬ x.Fatal) :
    OnlyEagain (Outcome.of errnos done) := by
  refine .of_quiet quiet fun front call offset asked errno split unsent => ?_
  have nothing : Transfer.total (Transfer.slices done.issued) = 0 := by
    change withErrno errnos done.issued = _ at split
    have unsentSum : (front.map Asked.sent).sum = 0 :=
      List.sum_eq_zero fun n member => by
        obtain ⟨earlier, before, rfl⟩ := List.mem_map.mp member
        exact unsent earlier before
    rw [← sent_eq errnos, split, List.map_append, List.sum_append, unsentSum]
    rfl
  have last := reports.none_sent nothing
  rw [lastReply_of_withErrno errnos split] at last
  exact (Option.some.inj last).symm

variable {s : Files} {fd : Int} {lp : FileDesc} {buf : Buffer} {fuel : Nat} {done : Done}

/-- The first system call fails with something else than `EAGAIN`. -/
def FirstFatal (buf : Buffer) (replies : Replies) (errnos : Errnos) : Prop :=
  (replies 0 buf.bytes.length).val = -1 ∧ errnos 0 ≠ eAgain

theorem transfer_blocking (found : s.getFileDesc fd = some lp)
    (blocking : hasNonblock lp.userFlags = false)
    (ended : Transfer.transfer call s true fd buf replies fuel = some done) :
    let first := sendOnce call replies buf.bytes.length ⟨0, 0, []⟩
    (first.writeret = 0 ∧ done.issued = first.issued) ∨
      ∃ q, sendLoop call replies (Receive.timeoutOf lp.wtimeout) buf.bytes.length fuel first =
        some q ∧ done.issued = q.issued := by
  intro first
  simp only [Transfer.transfer, found, blocking, Bool.not_true, Bool.false_eq_true, if_false]
    at ended
  split at ended
  next zero =>
    cases ended
    exact .inl ⟨zero, rfl⟩
  · obtain ⟨q, looped, rfl⟩ := Option.map_eq_some_iff.mp ended
    exact .inr ⟨q, looped, rfl⟩

theorem sendOnce_first (buf : Buffer) :
    sendOnce call replies buf.bytes.length ⟨0, 0, []⟩ =
      let reply := (replies 0 buf.bytes.length).val
      ⟨if reply > 0 then reply.toNat % Transfer.sizeMax else 0, reply,
        [.sys call 0 buf.bytes.length reply]⟩ := by
  rw [sendOnce, Transfer.asked_eq (Transfer.sent_start buf.bytes.length) buf.fits]
  simp only [Nat.zero_add]
  rfl

/-- Without a fatal first call only the last call can be fatal. -/
theorem transfer_quiet (found : s.getFileDesc fd = some lp)
    (blocking : hasNonblock lp.userFlags = false)
    (ended : Transfer.transfer call s true fd buf replies fuel = some done)
    (first : ¬ (FirstFatal buf replies errnos ∧ 0 < buf.bytes.length)) :
    ∀ x ∈ (withErrno errnos done.issued).dropLast, ¬ x.Fatal := by
  have cases := transfer_blocking call replies found blocking ended
  rw [sendOnce_first] at cases
  -- either the first call was the last one, or the loop was entered
  obtain ⟨-, issued⟩ | ⟨q, looped, issued⟩ := cases
  · rw [issued]
    simp [withErrno]
  · rw [issued]
    by_cases fatal : FirstFatal buf replies errnos
    · -- nothing is to be sent, and the loop ends at once
      have nothing : buf.bytes.length = 0 := Nat.eq_zero_of_not_pos fun some => first ⟨fatal, some⟩
      match fuel with
      | 0 => cases looped
      | fuel + 1 =>
        rw [sendLoop, if_neg (by simp [nothing])] at looped
        cases looped
        simp [withErrno]
    · refine sendLoop_quiet call replies errnos looped fun x member => ?_
      simp only [withErrno, List.mapIdx_cons, List.mapIdx_nil, List.mem_singleton] at member
      rw [member]
      exact fatal

/-- A fatal first call with something to send is followed by another call. -/
theorem transfer_retries (found : s.getFileDesc fd = some lp)
    (blocking : hasNonblock lp.userFlags = false)
    (ended : Transfer.transfer call s true fd buf replies fuel = some done)
    (fatal : FirstFatal buf replies errnos) (some : 0 < buf.bytes.length) :
    ¬ OnlyEagain (Outcome.of errnos done) := by
  have cases := transfer_blocking call replies found blocking ended
  rw [sendOnce_first] at cases
  obtain ⟨zero, -⟩ | ⟨q, looped, issued⟩ := cases
  · exact absurd (fatal.1.symm.trans zero) (by decide)
  · have unsent : ¬ (replies 0 buf.bytes.length).val > 0 := by rw [fatal.1]; decide
    obtain ⟨offset, asked, reply, more, grown⟩ :=
      sendLoop_calls call replies (by simpa [unsent] using some) looped
    -- the promise would make the first call the last one
    intro promised
    have split : withErrno errnos done.issued = [] ++
        .sys (.of call) 0 buf.bytes.length (replies 0 buf.bytes.length).val (errnos 0) ::
        .poll (Receive.timeoutOf lp.wtimeout) :: .sys (.of call) offset asked reply (errnos 2) ::
        more.mapIdx fun i => Asked.of errnos (i + 3) := by
      rw [issued, grown]
      simp [withErrno, List.mapIdx_cons, Asked.of]
    have later := promised.last _ _ _ split fatal (.sys (.of call) offset asked reply (errnos 2))
      (by simp)
    cases later

/-- `write` and `send` treat errors as promised unless their first call fails fatally with bytes to
send. -/
theorem transfer_iff (found : s.getFileDesc fd = some lp)
    (blocking : hasNonblock lp.userFlags = false) (buf : Buffer) :
    ∃ o, (∀ fuel, buf.bytes.length < fuel →
        (Transfer.transfer call s true fd buf replies fuel).map (Outcome.of errnos) = some o) ∧
      (OnlyEagain o ↔ ¬ (FirstFatal buf replies errnos ∧ 0 < buf.bytes.length)) := by
  obtain ⟨done, reports, -, ends⟩ := Transfer.transfer_reports call replies buf found blocking
  have ended := ends (buf.bytes.length + 1) (Nat.lt_succ_self _)
  refine ⟨Outcome.of errnos done, fun fuel enough => by rw [ends fuel enough]; rfl, ?_⟩
  constructor
  · rintro promised ⟨fatal, some⟩
    exact transfer_retries call replies errnos found blocking ended fatal some promised
  · intro first
    exact onlyEagain_of_reports errnos reports
      (transfer_quiet call replies errnos found blocking ended first)

/-! ### sendto -/

/-- `sendto` makes a second call only after `EAGAIN`. -/
theorem sendto_onlyEagain (found : s.getFileDesc fd = some lp)
    (blocking : hasNonblock lp.userFlags = false) (buf : Buffer) (flags : Int)
    (destAddr : List (BitVec 8)) :
    OnlyEagain (sendto s true fd buf flags destAddr replies errnos) := by
  simp only [sendto, found, blocking, Bool.not_true, Bool.false_eq_true, if_false]
  split
  next retried =>
    refine .of_quiet (fun x member => ?_) fun front call offset asked errno split _ => ?_
    · -- the first call has failed with `EAGAIN`
      simp only [List.dropLast_cons_cons, List.dropLast_singleton, List.mem_cons, List.not_mem_nil,
        or_false] at member
      rcases member with rfl | rfl
      · exact fun fatal => fatal.2 retried.2.symm
      · exact id
    · have last := congrArg List.getLast? split
      simp only [List.getLast?_concat, List.getLast?_cons_cons, List.getLast?_singleton,
        Option.some.injEq, Asked.sys.injEq] at last
      exact last.2.2.2.1
  · refine .of_quiet (by simp) fun front call offset asked errno split _ => ?_
    have last := congrArg List.getLast? split
    simp only [List.getLast?_concat, List.getLast?_singleton, Option.some.injEq,
      Asked.sys.injEq] at last
    exact last.2.2.2.1

/-- On a descriptor that the program has left blocking, `sendto` goes on only after `EAGAIN`;
`write` and `send` do unless their first call fails with something else and bytes to send. -/
theorem retries_iff (found : s.getFileDesc fd = some lp)
    (blocking : hasNonblock lp.userFlags = false) (buf : Buffer) (replies : Replies)
    (errnos : Errnos) :
    let spared := ¬ (FirstFatal buf replies errnos ∧ 0 < buf.bytes.length)
    (∃ o, (∀ fuel, buf.bytes.length < fuel →
        write s true fd buf replies errnos fuel = some o) ∧ (OnlyEagain o ↔ spared)) ∧
      (∀ flags, ∃ o, (∀ fuel, buf.bytes.length < fuel →
        send s true fd buf flags replies errnos fuel = some o) ∧ (OnlyEagain o ↔ spared)) ∧
      ∀ flags destAddr, OnlyEagain (sendto s true fd buf flags destAddr replies errnos) :=
  ⟨transfer_iff .write replies errnos found blocking buf,
    fun flags => transfer_iff (.send flags) replies errnos found blocking buf,
    sendto_onlyEagain replies errnos found blocking buf⟩

/-- The kernel takes nothing and leaves `errno` to say why. -/
def refusing : Replies := fun _ asked => ⟨-1, by omega, by omega⟩

/-- Two bytes for a full socket: `EAGAIN` twice. -/
theorem retries_iff_full :
    ∃ o, write .accepted true 3 ⟨[1, 2], by decide⟩ refusing (fun _ => 11) 3 = some o ∧
      OnlyEagain o := by
  obtain ⟨o, ended, promised⟩ := (retries_iff Files.accepted_record rfl ⟨[1, 2], by decide⟩
    refusing fun _ => 11).1
  exact ⟨o, ended 3 (by decide), promised.mpr fun first => first.1.2 rfl⟩

/-- Two bytes for a socket that the peer has closed: `write` gets `EPIPE`, waits and gets it
again. -/
theorem write_retries_epipe :
    write .accepted true 3 ⟨[1, 2], by decide⟩ refusing (fun _ => 32) 3 =
        some ⟨-1, [.sys .write 0 2 (-1) 32, .poll 1000, .sys .write 0 2 (-1) 32]⟩ ∧
      ¬ OnlyEagain ⟨-1, [.sys .write 0 2 (-1) 32, .poll 1000, .sys .write 0 2 (-1) 32]⟩ := by
  constructor
  · rfl
  · intro promised
    have later := promised.last [] _ _ rfl (by decide) (.sys .write 0 2 (-1) 32) (by simp)
    cases later

end BRoutine.Retry
