import Mathlib.Data.BitVec

/-!
# Event bits

The event bits of `poll` and of `epoll` and the two conversions of `b_hook.cc` between them.
Each conversion tests six bits and drops the others.
-/

namespace BRoutine.Hook

def pollIn : BitVec 16 := 0x001
def pollPri : BitVec 16 := 0x002
def pollOut : BitVec 16 := 0x004
def pollErr : BitVec 16 := 0x008
def pollHup : BitVec 16 := 0x010
def pollRdHup : BitVec 16 := 0x2000

def epollIn : BitVec 32 := 0x001
def epollPri : BitVec 32 := 0x002
def epollOut : BitVec 32 := 0x004
def epollErr : BitVec 32 := 0x008
def epollHup : BitVec 32 := 0x010
def epollRdHup : BitVec 32 := 0x2000

/-- One test of a conversion: `if (events & flag) result |= flag'`. -/
def test {v w : Nat} (events flag : BitVec v) (flag' result : BitVec w) : BitVec w :=
  if events &&& flag ≠ 0 then result ||| flag' else result

/-- `epoll_to_poll_events`. -/
def epollToPollEvents (epollEvents : BitVec 32) : BitVec 16 :=
  let pollEvents := 0
  let pollEvents := test epollEvents epollIn pollIn pollEvents
  let pollEvents := test epollEvents epollOut pollOut pollEvents
  let pollEvents := test epollEvents epollPri pollPri pollEvents
  let pollEvents := test epollEvents epollErr pollErr pollEvents
  let pollEvents := test epollEvents epollHup pollHup pollEvents
  test epollEvents epollRdHup pollRdHup pollEvents

/-- `poll_to_epoll_events`. -/
def pollToEpollEvents (pollEvents : BitVec 16) : BitVec 32 :=
  let epollEvents := 0
  let epollEvents := test pollEvents pollIn epollIn epollEvents
  let epollEvents := test pollEvents pollOut epollOut epollEvents
  let epollEvents := test pollEvents pollPri epollPri epollEvents
  let epollEvents := test pollEvents pollErr epollErr epollEvents
  let epollEvents := test pollEvents pollHup epollHup epollEvents
  test pollEvents pollRdHup epollRdHup epollEvents

/-- The six bits that the conversions know. -/
def known : BitVec 16 := 0x201f

/-- Where the two flags are the same bit, a test copies it. -/
theorem test_twoPow {v w k : Nat} (events : BitVec v) (result : BitVec w) (inside : k < v) :
    test events (BitVec.twoPow v k) (BitVec.twoPow w k) result =
      result ||| (events &&& BitVec.twoPow v k).setWidth w := by
  have flag : BitVec.twoPow v k ≠ 0 := by
    intro zero
    have bit := congrArg (BitVec.getLsbD · k) zero
    simp [inside] at bit
  have copied : (BitVec.twoPow v k).setWidth w = BitVec.twoPow w k := by
    ext i low
    simp [BitVec.getLsbD_twoPow, BitVec.getElem_twoPow, inside, eq_comm]
  rw [test, BitVec.and_twoPow]
  cases set : events.getLsbD k with
  | true => simp only [if_true]; rw [if_pos flag, copied]
  | false => simp

/-- Where the two flags of each test are the same bit, six tests copy six bits. -/
theorem six_tests {v w : Nat} (events : BitVec v) (i j k l m n : Nat)
    (inside : ∀ b ∈ [i, j, k, l, m, n], b < v) :
    test events (BitVec.twoPow v n) (BitVec.twoPow w n)
      (test events (BitVec.twoPow v m) (BitVec.twoPow w m)
      (test events (BitVec.twoPow v l) (BitVec.twoPow w l)
      (test events (BitVec.twoPow v k) (BitVec.twoPow w k)
      (test events (BitVec.twoPow v j) (BitVec.twoPow w j)
      (test events (BitVec.twoPow v i) (BitVec.twoPow w i) 0))))) =
    (events &&& (BitVec.twoPow v i ||| BitVec.twoPow v j ||| BitVec.twoPow v k |||
      BitVec.twoPow v l ||| BitVec.twoPow v m ||| BitVec.twoPow v n)).setWidth w := by
  simp only [List.mem_cons, List.not_mem_nil, or_false, forall_eq_or_imp, forall_eq] at inside
  obtain ⟨hi, hj, hk, hl, hm, hn⟩ := inside
  rw [test_twoPow _ _ hi, test_twoPow _ _ hj, test_twoPow _ _ hk, test_twoPow _ _ hl,
    test_twoPow _ _ hm, test_twoPow _ _ hn, show (0 : BitVec w) = 0#w from rfl, BitVec.zero_or]
  simp only [BitVec.and_or_distrib_left, BitVec.setWidth_or]

theorem epollToPollEvents_eq (epollEvents : BitVec 32) :
    epollToPollEvents epollEvents = epollEvents.setWidth 16 &&& known := by
  have copied : epollToPollEvents epollEvents = _ :=
    six_tests epollEvents 0 2 1 3 4 13 (by decide)
  rw [copied, BitVec.setWidth_and]
  rfl

theorem pollToEpollEvents_eq (pollEvents : BitVec 16) :
    pollToEpollEvents pollEvents = (pollEvents &&& known).setWidth 32 := by
  have copied : pollToEpollEvents pollEvents = _ :=
    six_tests pollEvents 0 2 1 3 4 13 (by decide)
  rw [copied]
  rfl

/-- The bits of `ready` that epoll reports to an entry with the events `events`: those of its
registration, and the two it always reports. -/
def reported (events ready : BitVec 16) : BitVec 32 :=
  ready.setWidth 32 &&& (pollToEpollEvents events ||| epollErr ||| epollHup)

theorem reported_eq (events ready : BitVec 16) :
    reported events ready = (ready &&& (events &&& known ||| pollErr ||| pollHup)).setWidth 32 := by
  have err : epollErr = pollErr.setWidth 32 := rfl
  have hup : epollHup = pollHup.setWidth 32 := rfl
  rw [reported, pollToEpollEvents_eq, err, hup]
  simp only [BitVec.setWidth_and, BitVec.setWidth_or]

theorem epollToPollEvents_reported (events ready : BitVec 16) :
    epollToPollEvents (reported events ready) =
      ready &&& (events &&& known ||| pollErr ||| pollHup) := by
  have inside : (events &&& known ||| pollErr ||| pollHup) &&& known =
      events &&& known ||| pollErr ||| pollHup := by
    simp only [BitVec.and_or_distrib_right, BitVec.and_assoc, BitVec.and_self]
    rfl
  rw [reported_eq, epollToPollEvents_eq, BitVec.setWidth_setWidth_of_le _ (by decide),
    BitVec.setWidth_eq, BitVec.and_assoc, inside]

/-- An event that epoll reports is one that the conversion keeps. -/
theorem reported_eq_zero (events ready : BitVec 16) :
    reported events ready = 0 ↔ epollToPollEvents (reported events ready) = 0 := by
  rw [epollToPollEvents_reported, reported_eq]
  constructor
  · intro zero
    have back := congrArg (BitVec.setWidth 16) zero
    rw [BitVec.setWidth_setWidth_of_le _ (by decide), BitVec.setWidth_eq] at back
    exact back
  · intro zero
    rw [zero]
    rfl

theorem and_not_zero (events : BitVec 16) : events &&& ~~~(0 : BitVec 16) = events := by
  rw [show ~~~(0 : BitVec 16) = BitVec.allOnes 16 from rfl, BitVec.and_allOnes]

/-- Two results of bit operations vanish together if they do so bit by bit. -/
theorem zero_iff_of_bits {a b : BitVec 16}
    (bits : ∀ i, i < 16 → (a.getLsbD i = false ↔ b.getLsbD i = false)) : a = 0 ↔ b = 0 := by
  have bitwise : ∀ c : BitVec 16, c = 0 ↔ ∀ i, i < 16 → c.getLsbD i = false := by
    intro c
    constructor
    · rintro rfl i -
      exact BitVec.getLsbD_zero
    · intro clear
      apply BitVec.eq_of_getLsbD_eq
      intro i inside
      exact (clear i inside).trans BitVec.getLsbD_zero.symm
  rw [bitwise, bitwise]
  exact forall₂_congr bits

/-- Of the events that an entry asked for and that are ready, exactly those outside the known
bits are not reported to it. -/
theorem missed_iff (events ready : BitVec 16) :
    events &&& ready &&& ~~~epollToPollEvents (reported events ready) = 0 ↔
      events &&& ready &&& ~~~known = 0 := by
  -- errors and hang-ups are reported without being asked for, but they are known bits too
  have always : ∀ i : Fin 16, pollErr.getLsbD i || pollHup.getLsbD i → known.getLsbD i := by
    decide
  rw [epollToPollEvents_reported]
  apply zero_iff_of_bits
  intro i inside
  have sure := always ⟨i, inside⟩
  simp only [BitVec.getLsbD_and, BitVec.getLsbD_or, BitVec.getLsbD_not, inside, decide_true,
    Bool.true_and]
  grind

end BRoutine.Hook
