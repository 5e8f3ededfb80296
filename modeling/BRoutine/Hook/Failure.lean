import BRoutine.Hook.Calls

/-!
# Failed calls and the record

`setsockopt` and `connect` write into the record whatever the kernel has to say, and `close` frees
it before the kernel is asked; `fcntl` looks at the answer first. `spares_iff` says which failed
calls leave the record of their descriptor as it was.
-/

namespace BRoutine.Files

/-- The calls that change the record of a descriptor, with the answers of the kernel. -/
inductive RecordCall where
  | setsockopt (level optionName : Int) (val : Timeval) (ret : Int)
  | setfl (arg : BitVec 64) (reply : BitVec 32)
  | connect (address : Nat → BitVec 8) (addressLen : Nat) (ret errno : Int)
      (polls : Fin 3 → Int × Bool) (got err : Int)
  | close (ret : Int) (released : Bool)

/-- The kernel refuses what it is asked. A `connect` in progress is not refused. -/
def RecordCall.Fails : RecordCall → Prop
  | .setsockopt _ _ _ ret => ret < 0
  | .setfl _ reply => reply ≠ 0#32
  | .connect _ _ ret errno _ _ _ => ret < 0 ∧ errno ≠ eInprogress
  | .close ret _ => ret < 0

def perform (s : Files) (enabled : Bool) (fd : Int) : RecordCall → Files
  | .setsockopt level optionName val _ => s.setsockopt enabled fd level optionName val
  | .setfl arg reply => (s.fcntl enabled fd Cmd.setfl.number arg reply).files
  | .connect address addressLen ret errno polls got err =>
    (s.connect enabled fd address addressLen ret errno polls got err).2
  | .close _ released => s.close enabled fd released

/-- The call has nothing to change in the record `lp`. -/
def Spares (enabled : Bool) (lp : FileDesc) : RecordCall → Prop
  | .setsockopt level optionName val _ =>
    enabled = true → level = solSocket →
      (optionName = soRcvtimeo → lp.rtimeout = val) ∧ (optionName = soSndtimeo → lp.wtimeout = val)
  | .setfl _ _ => True
  | .connect address addressLen _ _ _ _ _ =>
    enabled = true → addressLen ≤ 16 → ∀ i : Fin 16, i.val < addressLen → lp.addr i = address i
  | .close _ _ => enabled = false

variable {s : Files} {enabled : Bool} {fd : Int} {lp : FileDesc}

/-- A record that is written to stays the same if the change does not touch it. -/
theorem assign_same_iff (found : s.getFileDesc fd = some lp) (change : FileDesc → FileDesc) :
    (s.assign fd change).getFileDesc fd = some lp ↔ change lp = lp := by
  rw [getFileDesc_assign_self, found, Option.map_some, Option.some.injEq]

theorem setsockopt_same_iff (found : s.getFileDesc fd = some lp) (level optionName : Int)
    (val : Timeval) :
    (s.setsockopt enabled fd level optionName val).getFileDesc fd = some lp ↔
      (enabled = true → level = solSocket →
        (optionName = soRcvtimeo → lp.rtimeout = val) ∧
        (optionName = soSndtimeo → lp.wtimeout = val)) := by
  cases enabled with
  | false => exact iff_of_true found fun on => by cases on
  | true =>
    rw [setsockopt, found]
    by_cases socket : solSocket = level
    · -- the two option names differ, so at most one branch writes
      by_cases receive : soRcvtimeo = optionName
      · subst receive socket
        simp only [Bool.not_true, Bool.false_eq_true, if_false, if_true]
        rw [assign_same_iff found]
        cases lp
        simp [soRcvtimeo, soSndtimeo, eq_comm]
      · by_cases send : soSndtimeo = optionName
        · subst send socket
          simp only [Bool.not_true, Bool.false_eq_true, if_false, if_true, receive]
          rw [assign_same_iff found]
          cases lp
          simp [soRcvtimeo, soSndtimeo, eq_comm]
        · simp [socket, receive, send, found, Ne.symm receive, Ne.symm send]
    · simp [socket, found, Ne.symm socket]

theorem connect_same_iff (found : s.getFileDesc fd = some lp) (address : Nat → BitVec 8)
    (addressLen : Nat) (ret errno : Int) (polls : Fin 3 → Int × Bool) (got err : Int) :
    (s.connect enabled fd address addressLen ret errno polls got err).2.getFileDesc fd = some lp ↔
      (enabled = true → addressLen ≤ 16 →
        ∀ i : Fin 16, i.val < addressLen → lp.addr i = address i) := by
  cases enabled with
  | false => exact iff_of_true found fun on => by cases on
  | true =>
    -- only the copy of the address writes, and it comes before every call
    have files : (s.connect true fd address addressLen ret errno polls got err).2 =
        if addressLen ≤ 16 then
          s.assign fd fun lp =>
            { lp with addr := fun i => if i.val < addressLen then address i else lp.addr i }
        else s := by
      rw [connect, found]
      simp only [Bool.not_true, Bool.false_eq_true, if_false]
      split
      · rfl
      · split
        · rfl
        · split <;> rfl
    rw [files]
    by_cases fits : addressLen ≤ 16
    · rw [if_pos fits, assign_same_iff found]
      simp only [fits, forall_const]
      constructor
      · intro same i below
        have byte := congrFun (congrArg FileDesc.addr same) i
        simp only [below, if_true] at byte
        exact byte.symm
      · intro same
        have whole : (fun i : Fin 16 => if i.val < addressLen then address i else lp.addr i) =
            lp.addr := by
          funext i
          split
          next below => exact (same i below).symm
          · rfl
        rw [whole]
    · simp [fits, found]

/-- A failed call leaves the record as it was exactly if it has nothing to change in it. -/
theorem spares_iff (found : s.getFileDesc fd = some lp) {c : RecordCall} (fails : c.Fails) :
    (s.perform enabled fd c).getFileDesc fd = some lp ↔ Spares enabled lp c := by
  cases c with
  | setsockopt level optionName val ret => exact setsockopt_same_iff found level optionName val
  | setfl arg reply =>
    refine iff_of_true ?_ trivial
    have refused : reply ≠ 0#32 := fails
    rw [perform, fcntl_files]
    simp [refused, Cmd.number, found]
  | connect address addressLen ret errno polls got err =>
    exact connect_same_iff found address addressLen ret errno polls got err
  | close ret released =>
    rw [perform, close_getFileDesc, Spares]
    cases enabled with
    | false => simpa using found
    | true => simp

/-- The kernel refuses a timeout of five seconds, and then a change of the flags. -/
theorem spares_iff_accepted :
    (accepted.perform true 3 (.setsockopt solSocket soRcvtimeo ⟨5, 0⟩ (-1))).getFileDesc 3 ≠
        some .fresh ∧
      (accepted.perform true 3 (.setfl 0 failure)).getFileDesc 3 = some .fresh := by
  constructor
  · have refused : (RecordCall.setsockopt solSocket soRcvtimeo ⟨5, 0⟩ (-1)).Fails :=
      show (-1 : Int) < 0 by decide
    rw [ne_eq, spares_iff accepted_record refused]
    intro spares
    exact absurd ((spares rfl rfl).1 rfl) (by decide)
  · have refused : (RecordCall.setfl 0 failure).Fails := show failure ≠ 0#32 by decide
    exact (spares_iff accepted_record refused).mpr trivial

/-- A `close` of descriptor 3 that fails. -/
theorem failed_calls_change :
    ¬ ∀ (s : Files) (fd : Int) (lp : FileDesc) (c : RecordCall), s.getFileDesc fd = some lp →
      c.Fails → (s.perform true fd c).getFileDesc fd = some lp := by
  intro same
  have gone := same accepted 3 .fresh (.close (-1) false) accepted_record
    (show (-1 : Int) < 0 by decide)
  rw [perform, close_getFileDesc, if_pos ⟨rfl, rfl⟩] at gone
  cases gone

end BRoutine.Files
