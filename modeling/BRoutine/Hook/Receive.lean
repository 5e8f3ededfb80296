import BRoutine.Hook.Transfer

/-!
# read, recv and recvfrom

The hooked `read`, `recv` and `recvfrom` wait for their descriptor before they make the system
call. `read` and `recv` poll again after each timeout, `recvfrom` polls once. `honours_iff` compares
the three on every sequence of poll outcomes.
-/

namespace BRoutine.Receive

open Files (solSocket soRcvtimeo)

/-- `Hook_Func(read)`, `Hook_Func(recv)` or `Hook_Func(recvfrom)` with its flags. -/
inductive Sys where
  | read
  | recv (flags : Int)
  | recvfrom (flags : Int)
  deriving DecidableEq, Repr

/-- What a call issues: a poll, or the system call for `asked` bytes with its reply. -/
inductive Issued where
  | poll (timeout : Int)
  | sys (call : Sys) (asked : Nat) (reply : Int)
  deriving DecidableEq, Repr

/-- What a call has issued so far and, once it has returned, its result. -/
structure Run where
  issued : List Issued
  ret : Option Int
  deriving DecidableEq, Repr

/-- The results of the polls of one call, in turn: 0 is a timeout. -/
abbrev Polls : Type := Nat → Int

/-- `(tv_sec * 1000) + (tv_usec / 1000)` stored in an `int`. -/
def timeoutOf (t : Timeval) : Int := Transfer.toInt (t.sec * 1000 + t.usec.tdiv 1000)

/-- `while (0 == poll(&pf, 1, timeout));` from poll `k` on, for at most `fuel` polls: what it
issues and whether it has ended. -/
def pollLoop (polls : Polls) (timeout : Int) : Nat → Nat → List Issued × Bool
  | 0, _ => ([], false)
  | fuel + 1, k =>
    if polls k = 0 then
      let (more, ended) := pollLoop polls timeout fuel (k + 1)
      (.poll timeout :: more, ended)
    else ([.poll timeout], true)

/-- The system call of a descriptor that the hooks leave alone. -/
def direct (call : Sys) (nbyte : Nat) (reply : Int) : Run :=
  ⟨[.sys call nbyte reply], some reply⟩

/-- What `read` and `recv` share. -/
def receive (call : Sys) (s : Files) (enabled : Bool) (fd : Int) (nbyte : Nat) (polls : Polls)
    (reply : Int) (fuel : Nat) : Run :=
  if !enabled then direct call nbyte reply
  else
    match s.getFileDesc fd with
    | none => direct call nbyte reply
    | some lp =>
      if hasNonblock lp.userFlags then direct call nbyte reply
      else
        let (waited, ended) := pollLoop polls (timeoutOf lp.rtimeout) fuel 0
        if ended then ⟨waited ++ [.sys call nbyte reply], some reply⟩ else ⟨waited, none⟩

/-- `read`. -/
def read (s : Files) (enabled : Bool) (fd : Int) (nbyte : Nat) (polls : Polls) (reply : Int)
    (fuel : Nat) : Run :=
  receive .read s enabled fd nbyte polls reply fuel

/-- `recv`. -/
def recv (s : Files) (enabled : Bool) (socket : Int) (length : Nat) (flags : Int) (polls : Polls)
    (reply : Int) (fuel : Nat) : Run :=
  receive (.recv flags) s enabled socket length polls reply fuel

/-- `recvfrom`, which does not look at the result of its poll. -/
def recvfrom (s : Files) (enabled : Bool) (socket : Int) (length : Nat) (flags : Int)
    (reply : Int) : Run :=
  if !enabled then direct (.recvfrom flags) length reply
  else
    match s.getFileDesc socket with
    | none => direct (.recvfrom flags) length reply
    | some lp =>
      if hasNonblock lp.userFlags then direct (.recvfrom flags) length reply
      else
        ⟨[.poll (timeoutOf lp.rtimeout), .sys (.recvfrom flags) length reply], some reply⟩

/-- The call makes its system call after the first poll that returns, and returns its reply. -/
def afterFirst (call : Sys) (timeout : Int) (nbyte : Nat) (reply : Int) : Run :=
  ⟨[.poll timeout, .sys call nbyte reply], some reply⟩

/-! ### The loop -/

variable {polls : Polls} {timeout : Int}

/-- The loop ends with the first poll that is not a timeout. -/
theorem pollLoop_ends {quiet k fuel : Nat} (timeouts : ∀ j < quiet, polls (k + j) = 0)
    (event : polls (k + quiet) ≠ 0) (enough : quiet < fuel) :
    pollLoop polls timeout fuel k = (List.replicate (quiet + 1) (.poll timeout), true) := by
  induction quiet generalizing k fuel with
  | zero =>
    obtain ⟨fuel, rfl⟩ : ∃ n, fuel = n + 1 := ⟨fuel - 1, by omega⟩
    rw [Nat.add_zero] at event
    rw [pollLoop, if_neg event]
    rfl
  | succ quiet ih =>
    obtain ⟨fuel, rfl⟩ : ∃ n, fuel = n + 1 := ⟨fuel - 1, by omega⟩
    have first : polls k = 0 := timeouts 0 (by omega)
    -- what follows is a loop with one timeout less
    have rest := @ih (k + 1) fuel
      (fun j below => by rw [Nat.add_right_comm]; exact timeouts (j + 1) (by omega))
      (by rw [Nat.add_right_comm]; exact event) (by omega)
    rw [pollLoop, if_pos first, rest]
    rfl

/-- As long as all polls time out the loop goes on. -/
theorem pollLoop_waits {k fuel : Nat} (timeouts : ∀ j < fuel, polls (k + j) = 0) :
    pollLoop polls timeout fuel k = (List.replicate fuel (.poll timeout), false) := by
  induction fuel generalizing k with
  | zero => rfl
  | succ fuel ih =>
    have first : polls k = 0 := timeouts 0 (by omega)
    have rest := @ih (k + 1)
      (fun j below => by rw [Nat.add_right_comm]; exact timeouts (j + 1) (by omega))
    rw [pollLoop, if_pos first, rest]
    rfl

/-- After a timeout the loop polls again. -/
theorem pollLoop_again {k : Nat} (timedOut : polls k = 0) (fuel : Nat) :
    ∃ more ended, pollLoop polls timeout (fuel + 2) k =
      (.poll timeout :: .poll timeout :: more, ended) := by
  rw [pollLoop, if_pos timedOut, pollLoop]
  by_cases second : polls (k + 1) = 0
  · rw [if_pos second]
    exact ⟨_, _, rfl⟩
  · rw [if_neg second]
    exact ⟨_, _, rfl⟩

/-! ### The calls -/

variable {s : Files} {fd : Int} {lp : FileDesc} (call : Sys) (nbyte : Nat) (reply : Int)

theorem receive_blocking (found : s.getFileDesc fd = some lp)
    (blocking : hasNonblock lp.userFlags = false) (fuel : Nat) :
    receive call s true fd nbyte polls reply fuel =
      let (waited, ended) := pollLoop polls (timeoutOf lp.rtimeout) fuel 0
      if ended then ⟨waited ++ [.sys call nbyte reply], some reply⟩ else ⟨waited, none⟩ := by
  simp [receive, found, blocking]

/-- `read` and `recv` make their system call after the first poll that is not a timeout. -/
theorem receive_returns (found : s.getFileDesc fd = some lp)
    (blocking : hasNonblock lp.userFlags = false) {quiet fuel : Nat}
    (timeouts : ∀ j < quiet, polls j = 0) (event : polls quiet ≠ 0) (enough : quiet < fuel) :
    receive call s true fd nbyte polls reply fuel =
      ⟨List.replicate (quiet + 1) (.poll (timeoutOf lp.rtimeout)) ++ [.sys call nbyte reply],
        some reply⟩ := by
  have waited := @pollLoop_ends polls (timeoutOf lp.rtimeout) quiet 0 fuel
    (by simpa using timeouts) (by simpa using event) enough
  rw [receive_blocking call nbyte reply found blocking, waited]
  rfl

/-- While only timeouts come `read` and `recv` do not return. -/
theorem receive_waits (found : s.getFileDesc fd = some lp)
    (blocking : hasNonblock lp.userFlags = false) {fuel : Nat}
    (timeouts : ∀ j < fuel, polls j = 0) :
    receive call s true fd nbyte polls reply fuel =
      ⟨List.replicate fuel (.poll (timeoutOf lp.rtimeout)), none⟩ := by
  have waited := @pollLoop_waits polls (timeoutOf lp.rtimeout) 0 fuel (by simpa using timeouts)
  rw [receive_blocking call nbyte reply found blocking, waited]
  rfl

/-- `read` and `recv` return after the first poll exactly where it is not a timeout. -/
theorem receive_first_iff (found : s.getFileDesc fd = some lp)
    (blocking : hasNonblock lp.userFlags = false) :
    (∃ fuel, receive call s true fd nbyte polls reply fuel =
        afterFirst call (timeoutOf lp.rtimeout) nbyte reply) ↔ polls 0 ≠ 0 := by
  constructor
  · rintro ⟨fuel, returned⟩ timeout
    -- the call has not returned or has polled twice
    rw [receive_blocking call nbyte reply found blocking] at returned
    match fuel with
    | 0 => simp [pollLoop, afterFirst] at returned
    | 1 => simp [pollLoop, timeout, afterFirst] at returned
    | fuel + 2 =>
      obtain ⟨more, ended, again⟩ := @pollLoop_again polls (timeoutOf lp.rtimeout) 0 timeout fuel
      rw [again] at returned
      cases ended <;> simp [afterFirst] at returned
  · intro event
    exact ⟨1, receive_returns call nbyte reply found blocking (by simp) event Nat.one_pos⟩

theorem recvfrom_blocking (found : s.getFileDesc fd = some lp)
    (blocking : hasNonblock lp.userFlags = false) (flags : Int) :
    recvfrom s true fd nbyte flags reply =
      afterFirst (.recvfrom flags) (timeoutOf lp.rtimeout) nbyte reply := by
  simp [recvfrom, found, blocking, afterFirst]

/-- After `SO_RCVTIMEO` has been set to `val`, each of the three makes its system call after its
first poll exactly where that poll is no timeout. -/
theorem honours_iff (found : s.getFileDesc fd = some lp)
    (blocking : hasNonblock lp.userFlags = false) (val : Timeval) (polls : Polls)
    (nbyte : Nat) (flags reply : Int) :
    let set := s.setsockopt true fd solSocket soRcvtimeo val
    let first := fun call => afterFirst call (timeoutOf val) nbyte reply
    ((∃ fuel, read set true fd nbyte polls reply fuel = first .read) ∧
      (∃ fuel, recv set true fd nbyte flags polls reply fuel = first (.recv flags)) ∧
      recvfrom set true fd nbyte flags reply = first (.recvfrom flags)) ↔
    polls 0 ≠ 0 := by
  intro set first
  have record : set.getFileDesc fd = some { lp with rtimeout := val } :=
    s.getFileDesc_setsockopt found soRcvtimeo val
  have reads := @receive_first_iff polls set fd _ .read nbyte reply record blocking
  have recvs := @receive_first_iff polls set fd _ (.recv flags) nbyte reply record blocking
  constructor
  · rintro ⟨returned, -, -⟩
    exact reads.mp returned
  · intro event
    exact ⟨reads.mpr event, recvs.mpr event, recvfrom_blocking nbyte reply record blocking flags⟩

/-- An accepted descriptor with five seconds, on which every poll has an event. -/
theorem honours_iff_accepted :
    ∃ fuel, read (Files.accepted.setsockopt true 3 solSocket soRcvtimeo ⟨5, 0⟩) true 3 100
      (fun _ => 1) 100 fuel = afterFirst .read 5000 100 100 := by
  have all := (honours_iff Files.accepted_record rfl ⟨5, 0⟩ (fun _ => 1) 100 0 100).mpr (by decide)
  exact all.1

/-- With five seconds set and no event, `recvfrom` returns after one poll, `read` and `recv` after
none. -/
theorem read_waits_on :
    let set := Files.accepted.setsockopt true 3 solSocket soRcvtimeo ⟨5, 0⟩
    (recvfrom set true 3 100 0 (-1)).ret = some (-1) ∧
      (∀ fuel, (read set true 3 100 (fun _ => 0) (-1) fuel).ret = none) ∧
      ∀ fuel, (recv set true 3 100 0 (fun _ => 0) (-1) fuel).ret = none := by
  intro set
  have record : set.getFileDesc 3 = some { FileDesc.fresh with rtimeout := ⟨5, 0⟩ } := rfl
  refine ⟨rfl, fun fuel => ?_, fun fuel => ?_⟩
  · exact congrArg Run.ret (receive_waits .read 100 (-1) record rfl fun _ _ => rfl)
  · exact congrArg Run.ret (receive_waits (.recv 0) 100 (-1) record rfl fun _ _ => rfl)

end BRoutine.Receive
