import BRoutine.Hook.Calls
import Mathlib.Algebra.BigOperators.Group.List.Basic

/-!
# write and send

The hooked `write` and `send` differ in the system call they make: both try once, then poll and try
again with what is left until everything is sent or a call gives nothing. `transfer_reports` says
what has been sent by then and what they return.
-/

namespace BRoutine.Transfer

/-- The bytes to send. An object of C has less than `2 ^ 63` of them. -/
structure Buffer where
  bytes : List (BitVec 8)
  fits : bytes.length < 2 ^ 63

/-- What a system call can answer to `asked` bytes: -1 or how many it has taken. -/
def Reply (asked : Nat) : Type := { r : Int // -1 ≤ r ∧ r ≤ asked }

/-- The answer to the call that is made after `issued` others, for `asked` bytes. -/
abbrev Replies : Type := (issued asked : Nat) → Reply asked

/-- `Hook_Func(write)` or `Hook_Func(send)` with its flags. -/
inductive Sys where
  | write
  | send (flags : Int)
  deriving DecidableEq, Repr

/-- What is asked of the kernel: `asked` bytes from `offset` on, or a poll. -/
inductive Issued where
  | sys (call : Sys) (offset asked : Nat) (reply : Int)
  | poll (timeout : Int)
  deriving DecidableEq, Repr

/-- The locals `wrotelen` and `writeret`, and what has been issued. -/
structure Progress where
  wrotelen : Nat
  writeret : Int
  issued : List Issued
  deriving DecidableEq, Repr

/-- What a call returns and has issued. -/
structure Done where
  ret : Int
  issued : List Issued
  deriving DecidableEq, Repr

def sizeMax : Nat := 2 ^ 64

/-- A `size_t` returned as `ssize_t`. -/
def toSsize (n : Nat) : Int := if n < 2 ^ 63 then n else n - 2 ^ 64

/-- A `long` stored in an `int`. -/
def toInt (n : Int) : Int := (BitVec.ofInt 32 n).toInt

/-- One system call with what is left of the `nbyte` bytes. -/
def sendOnce (call : Sys) (replies : Replies) (nbyte : Nat) (p : Progress) : Progress :=
  let asked := (nbyte + sizeMax - p.wrotelen) % sizeMax
  let writeret := (replies p.issued.length asked).val
  { wrotelen := if writeret > 0 then (p.wrotelen + writeret.toNat) % sizeMax else p.wrotelen
    writeret := writeret
    issued := p.issued ++ [.sys call p.wrotelen asked writeret] }

/-- The loop, at most `fuel` times. -/
def sendLoop (call : Sys) (replies : Replies) (timeout : Int) (nbyte : Nat) :
    Nat → Progress → Option Progress
  | 0, _ => none
  | fuel + 1, p =>
    if p.wrotelen < nbyte then
      let next := sendOnce call replies nbyte { p with issued := p.issued ++ [.poll timeout] }
      if next.writeret ≤ 0 then some next else sendLoop call replies timeout nbyte fuel next
    else some p

/-- The direct call of a descriptor that the hooks leave alone. -/
def direct (call : Sys) (replies : Replies) (nbyte : Nat) : Done :=
  let reply := (replies 0 nbyte).val
  ⟨reply, [.sys call 0 nbyte reply]⟩

/-- What `write` and `send` share. Nothing is the result of a loop that has not ended. -/
def transfer (call : Sys) (s : Files) (enabled : Bool) (fd : Int) (buf : Buffer)
    (replies : Replies) (fuel : Nat) : Option Done :=
  let nbyte := buf.bytes.length
  if !enabled then some (direct call replies nbyte)
  else
    match s.getFileDesc fd with
    | none => some (direct call replies nbyte)
    | some lp =>
      if hasNonblock lp.userFlags then some (direct call replies nbyte)
      else
        let timeout := toInt (lp.wtimeout.sec * 1000 + lp.wtimeout.usec.tdiv 1000)
        let first := sendOnce call replies nbyte ⟨0, 0, []⟩
        if first.writeret = 0 then some ⟨first.writeret, first.issued⟩
        else
          (sendLoop call replies timeout nbyte fuel first).map fun p =>
            ⟨if p.writeret ≤ 0 ∧ p.wrotelen = 0 then p.writeret else toSsize p.wrotelen, p.issued⟩

/-- `write`. -/
def write (s : Files) (enabled : Bool) (fd : Int) (buf : Buffer) (replies : Replies)
    (fuel : Nat) : Option Done :=
  transfer .write s enabled fd buf replies fuel

/-- `send`. -/
def send (s : Files) (enabled : Bool) (fd : Int) (buf : Buffer) (flags : Int) (replies : Replies)
    (fuel : Nat) : Option Done :=
  transfer (.send flags) s enabled fd buf replies fuel

/-! ### What the kernel has taken -/

/-- The slices that the kernel has taken, with where they start and how long they are. -/
def slices : List Issued → List (Nat × Nat)
  | [] => []
  | .sys _ offset _ reply :: rest =>
    if reply > 0 then (offset, reply.toNat) :: slices rest else slices rest
  | .poll _ :: rest => slices rest

/-- The answer of the last system call. -/
def lastReply : List Issued → Option Int
  | [] => none
  | .sys _ _ _ reply :: rest => (lastReply rest).or (some reply)
  | .poll _ :: rest => lastReply rest

/-- Each slice starts where the one before it ends, the first at `start`. -/
def Consecutive : Nat → List (Nat × Nat) → Prop
  | _, [] => True
  | start, (offset, count) :: rest => offset = start ∧ Consecutive (start + count) rest

/-- How much the kernel has taken. -/
def total (taken : List (Nat × Nat)) : Nat := (taken.map Prod.snd).sum

/-- The bytes that the kernel has taken, in the order in which it has. -/
def received (bytes : List (BitVec 8)) (taken : List (Nat × Nat)) : List (BitVec 8) :=
  taken.flatMap fun (offset, count) => (bytes.drop offset).take count

/-- What a call may report: the kernel has taken a prefix of the buffer in consecutive slices, and
the result is its length, or the last answer if it is empty. A result below the length means that
the last call has failed or taken nothing. -/
structure Reports (buf : Buffer) (done : Done) : Prop where
  consecutive : Consecutive 0 (slices done.issued)
  within : total (slices done.issued) ≤ buf.bytes.length
  bytes : received buf.bytes (slices done.issued) = buf.bytes.take (total (slices done.issued))
  some_sent : 0 < total (slices done.issued) → done.ret = total (slices done.issued)
  none_sent : total (slices done.issued) = 0 → lastReply done.issued = some done.ret
  below : done.ret < buf.bytes.length →
    lastReply done.issued = some (-1) ∨ lastReply done.issued = some 0

/-- Each system call is `call`, for what is left of the `nbyte` bytes from its offset on, and has
got the answer that `replies` gives it. -/
def Answered (call : Sys) (replies : Replies) (nbyte : Nat) (issued : List Issued) : Prop :=
  ∀ i called offset asked reply, issued[i]? = some (.sys called offset asked reply) →
    called = call ∧ offset + asked = nbyte ∧ reply = (replies i asked).val

/-! ### Slices -/

theorem consecutive_snoc {start : Nat} {taken : List (Nat × Nat)}
    (consecutive : Consecutive start taken) (count : Nat) :
    Consecutive start (taken ++ [(start + total taken, count)]) := by
  induction taken generalizing start with
  | nil => exact ⟨by simp [total], trivial⟩
  | cons slice rest ih =>
    obtain ⟨offset, held⟩ := slice
    obtain ⟨first, others⟩ := consecutive
    refine ⟨first, ?_⟩
    have next := ih others
    rwa [show start + held + total rest = start + total ((offset, held) :: rest) by
      simp [total, Nat.add_assoc]] at next

theorem total_snoc (taken : List (Nat × Nat)) (offset count : Nat) :
    total (taken ++ [(offset, count)]) = total taken + count := by
  simp [total]

/-- Consecutive slices are one piece of the buffer. -/
theorem received_consecutive {start : Nat} {taken : List (Nat × Nat)}
    (consecutive : Consecutive start taken) (bytes : List (BitVec 8)) :
    received bytes taken = (bytes.drop start).take (total taken) := by
  induction taken generalizing start with
  | nil => simp [received, total]
  | cons slice rest ih =>
    obtain ⟨offset, count⟩ := slice
    obtain ⟨rfl, others⟩ := consecutive
    have sum : total ((offset, count) :: rest) = count + total rest := by simp [total]
    have tail := ih others
    rw [received] at tail
    rw [received, List.flatMap_cons, tail, sum, List.take_add, List.drop_drop]

theorem slices_append (front back : List Issued) :
    slices (front ++ back) = slices front ++ slices back := by
  induction front with
  | nil => rfl
  | cons first front ih =>
    cases first with
    | sys call offset asked reply =>
      simp only [List.cons_append, slices, ih]
      split <;> rfl
    | poll timeout => exact ih

theorem lastReply_snoc (front : List Issued) (call : Sys) (offset asked : Nat) (reply : Int) :
    lastReply (front ++ [.sys call offset asked reply]) = some reply := by
  induction front with
  | nil => rfl
  | cons first front ih =>
    cases first with
    | sys _ _ _ _ => simp only [List.cons_append, lastReply, ih, Option.some_or]
    | poll timeout => exact ih

/-! ### One call -/

variable (call : Sys) (replies : Replies) {nbyte : Nat} {p : Progress}

/-- `wrotelen` counts the consecutive slices that the kernel has taken. -/
structure Sent (nbyte : Nat) (p : Progress) : Prop where
  consecutive : Consecutive 0 (slices p.issued)
  counted : total (slices p.issued) = p.wrotelen
  bound : p.wrotelen ≤ nbyte

/-- `writeret` is the last answer. -/
structure Heard (p : Progress) : Prop where
  last : lastReply p.issued = some p.writeret
  least : -1 ≤ p.writeret
  taken : 0 < p.writeret → 0 < p.wrotelen

theorem sent_start (nbyte : Nat) : Sent nbyte ⟨0, 0, []⟩ := ⟨trivial, rfl, Nat.zero_le _⟩

theorem Sent.poll (sent : Sent nbyte p) (timeout : Int) :
    Sent nbyte { p with issued := p.issued ++ [.poll timeout] } := by
  have same : slices (p.issued ++ [.poll timeout]) = slices p.issued := by
    rw [slices_append]
    exact List.append_nil _
  exact ⟨by rw [same]; exact sent.consecutive, by rw [same]; exact sent.counted, sent.bound⟩

/-- Within the bounds of a buffer the arithmetic of `size_t` is that of numbers. -/
theorem asked_eq (sent : Sent nbyte p) (fits : nbyte < 2 ^ 63) :
    (nbyte + sizeMax - p.wrotelen) % sizeMax = nbyte - p.wrotelen := by
  have bound := sent.bound
  simp only [sizeMax]
  omega

theorem Sent.once (sent : Sent nbyte p) (fits : nbyte < 2 ^ 63) :
    Sent nbyte (sendOnce call replies nbyte p) ∧ Heard (sendOnce call replies nbyte p) ∧
      (0 < (sendOnce call replies nbyte p).writeret →
        p.wrotelen < (sendOnce call replies nbyte p).wrotelen) := by
  -- `nbyte - wrotelen` does not wrap, and neither does the sum with what is taken
  obtain ⟨consecutive, counted, bound⟩ := sent
  have asked := asked_eq ⟨consecutive, counted, bound⟩ fits
  rw [sendOnce, asked]
  obtain ⟨least, most⟩ := (replies p.issued.length (nbyte - p.wrotelen)).property
  generalize (replies p.issued.length (nbyte - p.wrotelen)).val = reply at least most
  by_cases taken : reply > 0
  · have plain : (p.wrotelen + reply.toNat) % sizeMax = p.wrotelen + reply.toNat := by
      simp only [sizeMax]
      omega
    -- the new slice starts where the taken ones end
    have grown : slices (p.issued ++ [.sys call p.wrotelen (nbyte - p.wrotelen) reply]) =
        slices p.issued ++ [(p.wrotelen, reply.toNat)] := by
      rw [slices_append]
      simp [slices, taken]
    refine ⟨⟨?_, ?_, ?_⟩, ⟨lastReply_snoc .., least, ?_⟩, ?_⟩
    · have next := consecutive_snoc consecutive reply.toNat
      rw [Nat.zero_add, counted] at next
      rw [grown]
      exact next
    · simp only [grown, total_snoc, counted, taken, if_true, plain]
    · simp only [taken, if_true, plain]
      omega
    · simp only [taken, if_true, plain]
      omega
    · simp only [taken, if_true, plain]
      omega
  · have same : slices (p.issued ++ [.sys call p.wrotelen (nbyte - p.wrotelen) reply]) =
        slices p.issued := by
      rw [slices_append]
      simp [slices, taken]
    refine ⟨⟨?_, ?_, ?_⟩, ⟨lastReply_snoc .., least, ?_⟩, ?_⟩
    · rw [same]
      exact consecutive
    · simp only [same, counted, taken, if_false]
    · simpa only [taken, if_false] using bound
    · exact fun more => absurd more taken
    · exact fun more => absurd more taken

variable {call replies} in
theorem Answered.poll {issued : List Issued} (answered : Answered call replies nbyte issued)
    (timeout : Int) : Answered call replies nbyte (issued ++ [.poll timeout]) := by
  intro i called offset asked reply listed
  by_cases before : i < issued.length
  · rw [List.getElem?_append_left before] at listed
    exact answered i called offset asked reply listed
  · -- the new entry is no system call
    rw [List.getElem?_append_right (Nat.le_of_not_lt before)] at listed
    have last := List.mem_of_getElem? listed
    simp at last

variable {call replies} in
theorem Answered.once (answered : Answered call replies nbyte p.issued) (sent : Sent nbyte p)
    (fits : nbyte < 2 ^ 63) :
    Answered call replies nbyte (sendOnce call replies nbyte p).issued := by
  intro i called offset asked reply listed
  rw [sendOnce, asked_eq sent fits] at listed
  by_cases before : i < p.issued.length
  · rw [List.getElem?_append_left before] at listed
    exact answered i called offset asked reply listed
  · rw [List.getElem?_append_right (Nat.le_of_not_lt before)] at listed
    have last : i - p.issued.length = 0 := by
      by_contra later
      obtain ⟨k, after⟩ := Nat.exists_eq_succ_of_ne_zero later
      simp [after] at listed
    obtain rfl : i = p.issued.length := by omega
    simp only [Nat.sub_self, List.getElem?_cons_zero, Option.some.injEq, Issued.sys.injEq] at listed
    obtain ⟨rfl, rfl, rfl, rfl⟩ := listed
    have bound := sent.bound
    exact ⟨rfl, by omega, rfl⟩

theorem sendOnce_still (nbyte : Nat) (p : Progress)
    (nothing : (sendOnce call replies nbyte p).writeret ≤ 0) :
    (sendOnce call replies nbyte p).wrotelen = p.wrotelen :=
  if_neg (Int.not_lt.mpr nothing)

/-! ### The loop -/

/-- The loop ends with everything sent or after a call that gave nothing. -/
theorem sendLoop_ends (fits : nbyte < 2 ^ 63) (timeout : Int) (sent : Sent nbyte p)
    (heard : Heard p) (answered : Answered call replies nbyte p.issued) :
    ∃ q, (∀ fuel, nbyte - p.wrotelen < fuel →
        sendLoop call replies timeout nbyte fuel p = some q) ∧
      Sent nbyte q ∧ Heard q ∧ (q.wrotelen < nbyte → q.writeret ≤ 0) ∧
      Answered call replies nbyte q.issued := by
  -- each turn that goes on has sent something
  induction left : nbyte - p.wrotelen using Nat.strong_induction_on generalizing p with
  | _ n ih =>
    by_cases more : p.wrotelen < nbyte
    · have polled := sent.poll timeout
      obtain ⟨sent', heard', grown⟩ := polled.once call replies fits
      have answered' := (answered.poll timeout).once (p := { p with issued := _ }) polled fits
      generalize next_eq : sendOnce call replies nbyte
        { p with issued := p.issued ++ [.poll timeout] } = next at sent' heard' grown answered'
      by_cases stops : next.writeret ≤ 0
      · refine ⟨next, fun fuel enough => ?_, sent', heard', fun _ => stops, answered'⟩
        obtain ⟨fuel, rfl⟩ : ∃ k, fuel = k + 1 := ⟨fuel - 1, by omega⟩
        rw [sendLoop, if_pos more, next_eq]
        exact if_pos stops
      · have further := grown (Int.not_le.mp stops)
        simp only at further
        obtain ⟨q, ends, rest⟩ := ih (nbyte - next.wrotelen) (by omega) sent' heard' answered' rfl
        refine ⟨q, fun fuel enough => ?_, rest⟩
        obtain ⟨fuel, rfl⟩ : ∃ k, fuel = k + 1 := ⟨fuel - 1, by omega⟩
        rw [sendLoop, if_pos more, next_eq]
        simp only [stops, if_false]
        exact ends fuel (by omega)
    · refine ⟨p, fun fuel enough => ?_, sent, heard, fun less => absurd less more, answered⟩
      obtain ⟨fuel, rfl⟩ : ∃ k, fuel = k + 1 := ⟨fuel - 1, by omega⟩
      rw [sendLoop, if_neg more]

/-- What is reported where the loop ends. -/
theorem reports_of_sent {buf : Buffer} (sent : Sent buf.bytes.length p) (heard : Heard p)
    (ended : p.wrotelen < buf.bytes.length → p.writeret ≤ 0) :
    Reports buf
      ⟨if p.writeret ≤ 0 ∧ p.wrotelen = 0 then p.writeret else toSsize p.wrotelen, p.issued⟩ := by
  obtain ⟨consecutive, counted, bound⟩ := sent
  have fits := buf.fits
  have plain : toSsize p.wrotelen = p.wrotelen := if_pos (by omega)
  -- with nothing sent the last call has failed or taken nothing
  have nothing : p.wrotelen = 0 → p.writeret ≤ 0 := by
    intro none
    by_contra some
    exact absurd (heard.taken (Int.not_le.mp some)) (by omega)
  constructor
  · exact consecutive
  · rw [counted]
    exact bound
  · rw [received_consecutive consecutive, List.drop_zero]
  · intro positive
    rw [counted] at positive ⊢
    rw [if_neg (by omega), plain]
  · intro empty
    rw [counted] at empty
    rw [if_pos ⟨nothing empty, empty⟩]
    exact heard.last
  · intro less
    have stopped : p.writeret ≤ 0 := by
      by_cases empty : p.wrotelen = 0
      · exact nothing empty
      · simp only [empty, and_false, if_false, plain] at less
        exact ended (by omega)
    have least := heard.least
    rcases (by omega : p.writeret = -1 ∨ p.writeret = 0) with failed | zero
    · exact .inl (by rw [heard.last, failed])
    · exact .inr (by rw [heard.last, zero])

variable {s : Files} {fd : Int} {lp : FileDesc}

/-- On a descriptor that the program has left blocking the call ends and reports what it sent. -/
theorem transfer_reports (call : Sys) (replies : Replies) (buf : Buffer)
    (found : s.getFileDesc fd = some lp) (blocking : hasNonblock lp.userFlags = false) :
    ∃ done, Reports buf done ∧ Answered call replies buf.bytes.length done.issued ∧
      ∀ fuel, buf.bytes.length < fuel →
        transfer call s true fd buf replies fuel = some done := by
  have fits := buf.fits
  have answered : Answered call replies buf.bytes.length
      (sendOnce call replies buf.bytes.length ⟨0, 0, []⟩).issued :=
    Answered.once (fun i called offset asked reply listed => by simp at listed)
      (sent_start buf.bytes.length) fits
  obtain ⟨sent, heard, -⟩ := (sent_start buf.bytes.length).once call replies fits
  have still := sendOnce_still call replies buf.bytes.length ⟨0, 0, []⟩
  simp only [transfer, found, blocking]
  generalize sendOnce call replies buf.bytes.length ⟨0, 0, []⟩ = first at sent heard still answered
  by_cases zero : first.writeret = 0
  · have reports := reports_of_sent sent heard fun _ => zero.le
    rw [if_pos ⟨zero.le, still zero.le⟩] at reports
    exact ⟨_, reports, answered, fun fuel _ => by simp [zero]⟩
  · obtain ⟨q, ends, sent', heard', ended, answered'⟩ := sendLoop_ends call replies fits
      (toInt (lp.wtimeout.sec * 1000 + lp.wtimeout.usec.tdiv 1000)) sent heard answered
    refine ⟨_, reports_of_sent sent' heard' ended, answered', fun fuel enough => ?_⟩
    rw [ends fuel (by omega)]
    simp [zero]

/-- `write` and `send` on a descriptor that the program has left blocking: they end, with the system
calls answered as `replies` has it, and report what the kernel has taken. -/
theorem reports_sent (found : s.getFileDesc fd = some lp)
    (blocking : hasNonblock lp.userFlags = false) (buf : Buffer) (replies : Replies) :
    (∃ done, Reports buf done ∧ Answered .write replies buf.bytes.length done.issued ∧
      ∀ fuel, buf.bytes.length < fuel → write s true fd buf replies fuel = some done) ∧
    ∀ flags, ∃ done, Reports buf done ∧
      Answered (.send flags) replies buf.bytes.length done.issued ∧
      ∀ fuel, buf.bytes.length < fuel → send s true fd buf flags replies fuel = some done :=
  ⟨transfer_reports .write replies buf found blocking,
    fun flags => transfer_reports (.send flags) replies buf found blocking⟩

/-- Three bytes on an accepted descriptor, of which the kernel takes one at a time. -/
theorem reports_sent_accepted :
    ∃ done, write .accepted true 3 ⟨[1, 2, 3], by decide⟩
      (fun _ asked => ⟨min 1 asked, by omega, by omega⟩) 4 = some done ∧ done.ret = 3 := by
  obtain ⟨done, -, -, ends⟩ := (reports_sent Files.accepted_record rfl ⟨[1, 2, 3], by decide⟩
    (fun _ asked => ⟨min 1 asked, by omega, by omega⟩)).1
  have ran := ends 4 (by decide)
  exact ⟨done, ran, by cases ran; rfl⟩

end BRoutine.Transfer
