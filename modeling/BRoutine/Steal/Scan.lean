import Mathlib.Data.List.Perm.Basic
import BRoutine.Steal.Steal

/-!
# The scan of stealTaskRoutine

`stealTaskRoutine` goes through the queues of the other schedulers from the one behind its own. Its
loop is written for any state of the queues: what it reads and when it ends depends on the numbers
alone, and `scans_iff` says for which numbers it visits each other queue once.
-/

namespace BRoutine.Steal

/-- The operations of the queues by number, as `stealTaskRoutine` uses them. -/
structure QueueOps (σ I : Type) where
  try2stealTask : σ → Nat → Option I × σ
  pushBack : σ → Nat → I → σ
  popHead : σ → Nat → Option I × σ

/-- How the loop ends: with the queues and the numbers it has called `Try2stealTask` on, or where it
reads `ActiveTasks` at `id` behind the registered ones. -/
inductive Scanned (σ : Type) where
  | ended (queues : σ) (visited : List Nat)
  | outside (id : Nat)

variable {σ I : Type}

/-- The loop of the scheduler `self` among `size` registered ones, at most `fuel` tests. -/
def scanLoop (ops : QueueOps σ I) (size self : Nat) :
    Nat → Nat → σ → List Nat → Option (Scanned σ)
  | 0, _, _, _ => none
  | fuel + 1, id, queues, visited =>
    if id = self then some (.ended queues visited)
    else if id < size then
      let (p, queues) := ops.try2stealTask queues id
      let queues :=
        match p with
        | some p => ops.pushBack queues self p
        | none => queues
      scanLoop ops size self fuel (id + 1) queues (visited ++ [id])
    else some (.outside id)

/-- `stealTaskRoutine` up to its `popHead`. -/
def scan (ops : QueueOps σ I) (size self fuel : Nat) (queues : σ) : Option (Scanned σ) :=
  scanLoop ops size self fuel ((self + 1) % size) queues []

/-- `stealTaskRoutine`; nothing if the loop does not end or leaves the array. -/
def stealTaskRoutine (ops : QueueOps σ I) (size self fuel : Nat) (queues : σ) :
    Option (Option I × σ) :=
  match scan ops size self fuel queues with
  | some (.ended queues _) => some (ops.popHead queues self)
  | _ => none

/-- What one call of `Try2stealTask` finds: the first load of `ItemCount` and its trylocks. -/
structure Found where
  seen : BitVec 32
  headFree : Bool
  tailFree : Bool

/-- The queues in memory; nothing is left of them after a null pointer has been followed. -/
def heapOps [DecidableEq I] (isMain : I → Bool) (found : Nat → Found) :
    QueueOps (Option (Heap I Nat)) I where
  try2stealTask queues id :=
    let tried := queues.bind fun h => Steal.try2stealTask isMain h id (found id).seen
      (found id).headFree (found id).tailFree
    (tried.bind Prod.fst, tried.map Prod.snd)
  pushBack queues id p := queues.bind fun h => h.pushBackUnsafe id p
  popHead queues id :=
    let popped := queues.bind fun h => h.popHeadUnsafe id
    (popped.bind Prod.fst, popped.map Prod.snd)

/-- The loop ends within `size` turns inside the array, with one visit to each queue but its
own. -/
def Scans (ops : QueueOps σ I) (size self : Nat) (queues : σ) : Prop :=
  ∃ after visited, (∀ fuel, size < fuel →
      scan ops size self fuel queues = some (.ended after visited)) ∧
    visited.Perm ((List.range size).erase self)

variable (ops : QueueOps σ I) {size self : Nat}

/-- From below its own number the loop counts up to it. -/
theorem scanLoop_below (inside : self < size) {id : Nat} (below : id ≤ self) (queues : σ) :
    ∃ after, ∀ fuel, self - id < fuel →
      scanLoop ops size self fuel id queues (List.range id) =
        some (.ended after (List.range self)) := by
  -- each turn comes one closer to `self`
  induction left : self - id generalizing id queues with
  | zero =>
    have same : id = self := by omega
    refine ⟨queues, fun fuel enough => ?_⟩
    obtain ⟨fuel, rfl⟩ : ∃ k, fuel = k + 1 := ⟨fuel - 1, by omega⟩
    rw [scanLoop, if_pos same, same]
  | succ n ih =>
    have differs : id ≠ self := by omega
    have further := @ih (id + 1) (by omega)
    rw [List.range_succ] at further
    obtain ⟨after, ends⟩ := further
      (match (ops.try2stealTask queues id).1 with
        | some p => ops.pushBack (ops.try2stealTask queues id).2 self p
        | none => (ops.try2stealTask queues id).2) (by omega)
    refine ⟨after, fun fuel enough => ?_⟩
    obtain ⟨fuel, rfl⟩ : ∃ k, fuel = k + 1 := ⟨fuel - 1, by omega⟩
    rw [scanLoop, if_neg differs, if_pos (by omega)]
    exact ends fuel (by omega)

/-- From above its own number the loop never comes back to it. -/
theorem scanLoop_above (fuel : Nat) {id : Nat} (above : self < id) (queues : σ)
    (visited : List Nat) (after : σ) (seen : List Nat) :
    scanLoop ops size self fuel id queues visited ≠ some (.ended after seen) := by
  induction fuel generalizing id queues visited with
  | zero => simp [scanLoop]
  | succ fuel ih =>
    rw [scanLoop, if_neg (by omega)]
    split
    · exact ih (by omega) _ _
    · simp

/-- The scan is right for the scheduler that was registered last, and for no other: there is no
`% size` where the loop counts up. -/
theorem scans_iff (queues : σ) (registered : self < size) :
    Scans ops size self queues ↔ self + 1 = size := by
  constructor
  · rintro ⟨after, visited, ends, -⟩
    by_contra earlier
    have start : (self + 1) % size = self + 1 := Nat.mod_eq_of_lt (by omega)
    have ended := ends (size + 1) (by omega)
    rw [scan, start] at ended
    exact scanLoop_above ops (size + 1) (by omega) queues [] after visited ended
  · rintro rfl
    obtain ⟨after, ends⟩ := scanLoop_below ops registered (Nat.zero_le self) queues
    refine ⟨after, List.range self, fun fuel enough => ?_, ?_⟩
    · rw [scan, Nat.mod_self]
      exact ends fuel (by omega)
    · rw [List.range_succ, List.erase_append_right _ (by simp)]
      simp

/-- The operations on queues that are all empty. -/
def emptyOps : QueueOps (Option (Heap Unit Nat)) Unit :=
  heapOps (fun _ => false) fun _ => ⟨0#32, true, true⟩

/-- The last of three schedulers. -/
theorem scans_iff_last : Scans emptyOps 3 2 (some emptyHeap) :=
  (scans_iff emptyOps (some emptyHeap) (by decide : 2 < 3)).mpr rfl

/-- The first of two schedulers visits queue 1 and reads on behind it. -/
theorem scan_overruns :
    ¬ ∀ (size self : Nat), self < size →
      Scans emptyOps size self (some emptyHeap) := by
  intro scans
  obtain ⟨after, visited, ends, -⟩ := scans 2 0 (by decide)
  have ended := ends 3 (by decide)
  cases ended

end BRoutine.Steal
