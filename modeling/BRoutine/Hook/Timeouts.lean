import BRoutine.Hook.Retry
import BRoutine.Hook.Poll

/-!
# The timeouts of the socket calls

The `int` that the hooked calls of a socket make of the `timeval` of `setsockopt` and pass to
`poll`. `waits_iff` says for which `timeval` it makes the routine wait.
-/

namespace BRoutine.Timeouts

open Files (solSocket soRcvtimeo soSndtimeo)
open Transfer (Buffer Replies)

/-- The two options of `setsockopt` that the hook keeps. -/
inductive Timeo where
  | rcv
  | snd
  deriving DecidableEq, Repr

def Timeo.optionName : Timeo → Int
  | rcv => soRcvtimeo
  | snd => soSndtimeo

/-- A call of one of the six functions, without its descriptor. -/
inductive SocketCall where
  | read (nbyte : Nat)
  | recv (length : Nat) (flags : Int)
  | recvfrom (length : Nat) (flags : Int)
  | write (buf : Buffer)
  | send (buf : Buffer) (flags : Int)
  | sendto (buf : Buffer) (flags : Int) (destAddr : List (BitVec 8))

def SocketCall.timeo : SocketCall → Timeo
  | read .. | recv .. | recvfrom .. => .rcv
  | write .. | send .. | sendto .. => .snd

/-- What the kernel and the polls answer to a call: the `reply` to one that receives, the
`replies` with their `errnos` to one that sends. -/
structure Answers where
  polls : Receive.Polls
  reply : Int
  replies : Replies
  errnos : Retry.Errnos

/-- The timeouts with which a call that receives polls. -/
def ofReceive (run : Receive.Run) : List Int :=
  run.issued.filterMap fun
    | .poll timeout => some timeout
    | .sys .. => none

/-- The timeouts with which a call that sends polls. -/
def ofSend (o : Retry.Outcome) : List Int :=
  o.asked.filterMap fun
    | .poll timeout => some timeout
    | .sys .. => none

/-- The timeouts of the polls that a call makes. -/
def polled (s : Files) (fd : Int) (a : Answers) (fuel : Nat) : SocketCall → List Int
  | .read nbyte => ofReceive (Receive.read s true fd nbyte a.polls a.reply fuel)
  | .recv length flags => ofReceive (Receive.recv s true fd length flags a.polls a.reply fuel)
  | .recvfrom length flags => ofReceive (Receive.recvfrom s true fd length flags a.reply)
  | .write buf => ((Retry.write s true fd buf a.replies a.errnos fuel).map ofSend).getD []
  | .send buf flags =>
    ((Retry.send s true fd buf flags a.replies a.errnos fuel).map ofSend).getD []
  | .sendto buf flags destAddr =>
    ofSend (Retry.sendto s true fd buf flags destAddr a.replies a.errnos)

/-- What `setsockopt` has stored for an option. -/
def stored (lp : FileDesc) : Timeo → Timeval
  | .rcv => lp.rtimeout
  | .snd => lp.wtimeout

/-- `poll` goes on to its suspending branch: not
`if (!isEnableHook() || timeout == 0) return Hook_Func(poll)(fds, nfds, timeout);`. -/
def suspends (enabled : Bool) (timeout : Int) : Bool := !(!enabled || timeout == 0)

/-- What the suspending branch asks the wheel for: `timeout < 0 ? INTMAX_MAX : timeout`. -/
def wanted (timeout : Int) : Int := if timeout < 0 then Hook.intmaxMax else timeout

/-- The milliseconds of a `timeval`. -/
def milliseconds (t : Timeval) : Int := t.sec * 1000 + t.usec / 1000

/-- A `timeval` that the kernel accepts for a timeout. -/
structure Valid (t : Timeval) : Prop where
  sec : 0 ≤ t.sec
  usec : 0 ≤ t.usec
  below : t.usec < 1000000

/-! ### The polls of a call -/

theorem mem_ofReceive {run : Receive.Run} {t : Int} :
    t ∈ ofReceive run ↔ .poll t ∈ run.issued := by
  rw [ofReceive, List.mem_filterMap]
  constructor
  · rintro ⟨x, member, same⟩
    cases x <;> cases same
    exact member
  · exact fun member => ⟨_, member, rfl⟩

theorem mem_ofSend {o : Retry.Outcome} {t : Int} : t ∈ ofSend o ↔ .poll t ∈ o.asked := by
  rw [ofSend, List.mem_filterMap]
  constructor
  · rintro ⟨x, member, same⟩
    cases x <;> cases same
    exact member
  · exact fun member => ⟨_, member, rfl⟩

theorem poll_mem_withErrno {errnos : Retry.Errnos} {issued : List Transfer.Issued} {t : Int}
    (member : .poll t ∈ Retry.withErrno errnos issued) : .poll t ∈ issued := by
  obtain ⟨i, below, same⟩ := List.mem_mapIdx.mp member
  have there : issued[i] ∈ issued := List.getElem_mem below
  generalize issued[i] = x at same there
  cases x <;> cases same
  exact there

theorem poll_mem_pollLoop {polls : Receive.Polls} {timeout t : Int} {fuel k : Nat}
    (member : .poll t ∈ (Receive.pollLoop polls timeout fuel k).1) : t = timeout := by
  induction fuel generalizing k with
  | zero => cases member
  | succ fuel ih =>
    rw [Receive.pollLoop] at member
    split at member
    · rcases List.mem_cons.mp member with same | later
      · cases same
        rfl
      · exact ih later
    · cases List.mem_singleton.mp member
      rfl

variable {s : Files} {fd : Int} {lp : FileDesc} {a : Answers} {fuel : Nat} {t : Int}

theorem receive_polled (found : s.getFileDesc fd = some lp)
    (blocking : hasNonblock lp.userFlags = false) {call : Receive.Sys} {nbyte : Nat}
    (member : t ∈ ofReceive (Receive.receive call s true fd nbyte a.polls a.reply fuel)) :
    t = Receive.timeoutOf lp.rtimeout := by
  rw [mem_ofReceive, Receive.receive_blocking call nbyte a.reply found blocking] at member
  simp only at member
  split at member
  · rcases List.mem_append.mp member with polled | called
    · exact poll_mem_pollLoop polled
    · cases List.mem_singleton.mp called
  · exact poll_mem_pollLoop member

/-- The loop of `write` and `send` polls with one timeout. -/
theorem sendLoop_polled {call : Transfer.Sys} {replies : Replies} {timeout : Int} {nbyte : Nat}
    {p q : Transfer.Progress} (ended : Transfer.sendLoop call replies timeout nbyte fuel p = some q)
    (before : ∀ t, .poll t ∈ p.issued → t = timeout) : ∀ t, .poll t ∈ q.issued → t = timeout := by
  induction fuel generalizing p with
  | zero => cases ended
  | succ fuel ih =>
    rw [Transfer.sendLoop] at ended
    split at ended
    · obtain ⟨offset, asked, issued⟩ := Retry.sendOnce_issued call replies nbyte
        { p with issued := p.issued ++ [.poll timeout] }
      -- the turn adds its poll and a system call
      have after : ∀ t, .poll t ∈ (Transfer.sendOnce call replies nbyte
          { p with issued := p.issued ++ [.poll timeout] }).issued → t = timeout := by
        intro t member
        rw [issued, List.mem_append, List.mem_append, List.mem_singleton, List.mem_singleton]
          at member
        rcases member with (old | same) | called
        · exact before t old
        · cases same
          rfl
        · cases called
      simp only at ended
      split at ended
      · cases ended
        exact after
      · exact ih ended after
    · cases ended
      exact before

theorem transfer_polled (found : s.getFileDesc fd = some lp)
    (blocking : hasNonblock lp.userFlags = false) {call : Transfer.Sys} {buf : Buffer}
    {errnos : Retry.Errnos}
    (member : t ∈ (((Transfer.transfer call s true fd buf a.replies fuel).map
      (Retry.Outcome.of errnos)).map ofSend).getD []) :
    t = Receive.timeoutOf lp.wtimeout := by
  obtain ⟨done, ended⟩ : ∃ done,
      Transfer.transfer call s true fd buf a.replies fuel = some done := by
    by_contra none
    rw [Option.eq_none_iff_forall_ne_some.mpr fun done ended => none ⟨done, ended⟩] at member
    cases member
  rw [ended] at member
  have issuedPoll := poll_mem_withErrno (mem_ofSend.mp member)
  have cases := Retry.transfer_blocking call a.replies found blocking ended
  rw [Retry.sendOnce_first] at cases
  obtain ⟨-, issued⟩ | ⟨q, looped, issued⟩ := cases
  · rw [issued] at issuedPoll
    cases List.mem_singleton.mp issuedPoll
  · rw [issued] at issuedPoll
    refine sendLoop_polled looped (fun t first => ?_) t issuedPoll
    cases List.mem_singleton.mp first

/-- A call polls with the timeout that it makes of what is stored for its option. -/
theorem polled_eq (found : s.getFileDesc fd = some lp)
    (blocking : hasNonblock lp.userFlags = false) (c : SocketCall)
    (member : t ∈ polled s fd a fuel c) : t = Receive.timeoutOf (stored lp c.timeo) := by
  -- `recvfrom` and `sendto` poll once, the others in a loop
  cases c with
  | read nbyte => exact receive_polled found blocking member
  | recv length flags => exact receive_polled found blocking member
  | recvfrom length flags =>
    simp only [polled, Receive.recvfrom_blocking length a.reply found blocking] at member
    rcases List.mem_cons.mp (mem_ofReceive.mp member) with same | called
    · cases same
      rfl
    · cases List.mem_singleton.mp called
  | write buf => exact transfer_polled found blocking member
  | send buf flags => exact transfer_polled found blocking member
  | sendto buf flags destAddr =>
    simp only [polled, Retry.sendto, found, blocking, mem_ofSend, Bool.not_true,
      Bool.false_eq_true, if_false] at member
    split at member
    · rcases List.mem_cons.mp member with called | member
      · cases called
      · rcases List.mem_cons.mp member with same | called
        · cases same
          rfl
        · cases List.mem_singleton.mp called
    · cases List.mem_singleton.mp member

/-- For each option there is a call that polls. -/
theorem some_polled (found : s.getFileDesc fd = some lp)
    (blocking : hasNonblock lp.userFlags = false) (o : Timeo) :
    ∃ (c : SocketCall) (a : Answers) (fuel : Nat), c.timeo = o ∧
      Receive.timeoutOf (stored lp o) ∈ polled s fd a fuel c := by
  let a : Answers := ⟨fun _ => 1, 0, Retry.refusing, fun _ => Retry.eAgain⟩
  cases o with
  | rcv =>
    refine ⟨.read 0, a, 1, rfl, mem_ofReceive.mpr ?_⟩
    rw [Receive.read, Receive.receive_returns .read 0 a.reply found blocking (by simp)
      (show a.polls 0 ≠ 0 by decide) Nat.one_pos]
    exact List.mem_cons_self
  | snd =>
    refine ⟨.sendto ⟨[], by decide⟩ 0 [], a, 0, rfl, mem_ofSend.mpr ?_⟩
    simp [Retry.sendto, found, blocking, a, Retry.refusing, stored]

/-! ### The value -/

theorem timeoutOf_eq {t : Timeval} (valid : Valid t) :
    Receive.timeoutOf t = (milliseconds t).bmod (2 ^ 32) := by
  rw [Receive.timeoutOf, Transfer.toInt, BitVec.toInt_ofInt, Int.tdiv_eq_ediv_of_nonneg valid.usec]
  rfl

/-- The `int` is the number of milliseconds, or more, and not 0, exactly where it is in range. -/
theorem exact_iff {ms : Int} (nonneg : 0 ≤ ms) :
    suspends true (ms.bmod (2 ^ 32)) = true ∧ ms ≤ ms.bmod (2 ^ 32) ↔ 1 ≤ ms ∧ ms < 2 ^ 31 := by
  rw [suspends, Int.bmod_def]
  split <;> simp <;> omega

/-- The wheel is asked for at least the number of milliseconds also where the `int` is negative. -/
theorem wanted_iff {ms : Int} (nonneg : 0 ≤ ms) :
    suspends true (ms.bmod (2 ^ 32)) = true ∧ ms ≤ wanted (ms.bmod (2 ^ 32)) ↔
      1 ≤ ms ∧ (ms < 2 ^ 31 ∨ 2 ^ 31 ≤ ms % 2 ^ 32 ∧ ms < 2 ^ 63) := by
  rw [suspends, wanted, Int.bmod_def, Hook.intmaxMax]
  split <;> simp <;> omega

/-- Every call of the option `o` that polls waits, for as long as `enough` says. -/
def Waits (s : Files) (fd : Int) (o : Timeo) (enough : Int → Prop) : Prop :=
  ∀ (c : SocketCall) (a : Answers) (fuel : Nat), c.timeo = o → ∀ t ∈ polled s fd a fuel c,
    suspends true t = true ∧ enough t

/-- All polls of an option have the timeout of its `timeval`. -/
theorem waits_timeoutOf (found : s.getFileDesc fd = some lp)
    (blocking : hasNonblock lp.userFlags = false) (o : Timeo) (enough : Int → Prop) :
    Waits s fd o enough ↔
      suspends true (Receive.timeoutOf (stored lp o)) = true ∧
        enough (Receive.timeoutOf (stored lp o)) := by
  constructor
  · intro waits
    obtain ⟨c, a, fuel, same, polls⟩ := some_polled found blocking o
    exact waits c a fuel same _ polls
  · rintro waits c a fuel rfl t member
    rw [polled_eq found blocking c member]
    exact waits

theorem stored_setsockopt (found : s.getFileDesc fd = some lp) (o : Timeo) (val : Timeval) :
    ∃ lp', (s.setsockopt true fd solSocket o.optionName val).getFileDesc fd = some lp' ∧
      lp'.userFlags = lp.userFlags ∧ stored lp' o = val := by
  refine ⟨_, s.getFileDesc_setsockopt found o.optionName val, ?_⟩
  cases o <;> exact ⟨rfl, rfl⟩

/-- For a stored `timeval` all calls of its option wait, and not less than it says, exactly where
it has a millisecond and fits into an `int`. With the endless wait of a negative `int` as a longer
one, also where it wraps to a negative one. -/
theorem waits_iff (found : s.getFileDesc fd = some lp)
    (blocking : hasNonblock lp.userFlags = false) (o : Timeo) (val : Timeval)
    (valid : Valid val) :
    let set := s.setsockopt true fd solSocket o.optionName val
    let ms := milliseconds val
    (Waits set fd o (fun t => ms ≤ t) ↔ 1 ≤ ms ∧ ms < 2 ^ 31) ∧
      (Waits set fd o (fun t => ms ≤ wanted t) ↔
        1 ≤ ms ∧ (ms < 2 ^ 31 ∨ 2 ^ 31 ≤ ms % 2 ^ 32 ∧ ms < 2 ^ 63)) := by
  intro set ms
  obtain ⟨lp', record, flags, value⟩ := stored_setsockopt found o val
  have waits := waits_timeoutOf record (flags ▸ blocking) o
  have nonneg : 0 ≤ ms := by
    have sec := valid.sec
    have usec := valid.usec
    simp only [ms, milliseconds]
    omega
  rw [waits, waits, value, timeoutOf_eq valid]
  exact ⟨exact_iff nonneg, wanted_iff nonneg⟩

/-- Two seconds and a half for the receiving calls. -/
theorem waits_iff_accepted :
    Waits (Files.accepted.setsockopt true 3 solSocket soRcvtimeo ⟨2, 500000⟩) 3 .rcv
      (fun t => 2500 ≤ t) := by
  have both := waits_iff Files.accepted_record rfl .rcv ⟨2, 500000⟩
    ⟨by decide, by decide, by decide⟩
  exact both.1.mpr (by decide)

/-- Half a millisecond makes `read` poll without waiting, again and again. 4294968 seconds make it
wait 704 milliseconds. -/
theorem read_spins :
    (Valid ⟨0, 500⟩ ∧ suspends true 0 = false ∧ ∀ fuel,
      Receive.read (Files.accepted.setsockopt true 3 solSocket soRcvtimeo ⟨0, 500⟩) true 3 100
        (fun _ => 0) (-1) fuel = ⟨List.replicate fuel (.poll 0), none⟩) ∧
    Valid ⟨4294968, 0⟩ ∧
      Receive.recvfrom (Files.accepted.setsockopt true 3 solSocket soRcvtimeo ⟨4294968, 0⟩) true
        3 100 0 (-1) = Receive.afterFirst (.recvfrom 0) 704 100 (-1) := by
  refine ⟨⟨⟨by decide, by decide, by decide⟩, rfl, fun fuel => ?_⟩,
    ⟨by decide, by decide, by decide⟩, rfl⟩
  have record : (Files.accepted.setsockopt true 3 solSocket soRcvtimeo ⟨0, 500⟩).getFileDesc 3 =
      some { FileDesc.fresh with rtimeout := ⟨0, 500⟩ } := rfl
  exact Receive.receive_waits .read 100 (-1) record rfl fun _ _ => rfl

end BRoutine.Timeouts
