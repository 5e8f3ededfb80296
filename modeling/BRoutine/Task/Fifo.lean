import BRoutine.Task.QueueSteps

/-!
# pushBack and popHead as a queue

With two locks the list is meant to be a queue for any number of threads. It is one in every run
without a collision, and a collision takes a null pointer to the thread that links behind the tail.
-/

namespace BRoutine.TwoLock

variable {T I : Type}

/-- Following `next` from `head` leads through the items `L` and ends at `tail`. -/
structure Linked (m : Mem I) (L : List I) : Prop where
  head : m.head = L.head?
  tail : m.tail = L.getLast?
  chain : L.IsChain fun a b => m.next a = some b
  last : ∀ a, L.getLast? = some a → m.next a = none
  nodup : L.Nodup

/-- No null pointer is dereferenced, each pushed item is returned once at most, the items leave in
the order in which they were linked, and between the calls the linked items are the ones pushed
and not yet popped. -/
structure Fifo (s : State T I) : Prop where
  no_null : s.crashed = false
  once : s.twice = false
  order : s.left <+: s.linked
  at_rest : (∀ t, s.pc t = .idle) →
    ∃ L, Linked s.mem L ∧ s.linked = s.left ++ L ∧ ∀ i, i ∈ L ↔ s.busy i = true

theorem Owned_free {holds : Pc I → Bool} {pc : T → Pc I} {mutex : Option T}
    (owned : Custody.Owned holds pc mutex) (free : ∀ t, holds (pc t) = false) : mutex = none := by
  cases mutex with
  | none => rfl
  | some t => exact absurd ((owned t).mp rfl) (by simp [free t])

theorem Inv.fifo {s : State T I} {L : List I} (inv : Inv s L) : Fifo s where
  no_null := inv.running
  once := inv.once
  order := ⟨L, inv.history.symm⟩
  at_rest := by
    intro idle
    have heads : s.headMutex = none := Owned_free inv.heads fun t => by rw [idle t]; rfl
    have tails : s.tailMutex = none := Owned_free inv.tails fun t => by rw [idle t]; rfl
    have layout := inv.layout
    have back : s.back = .quiet := by rw [State.back, tails, Custody.atHolder_none]
    have front : s.front = .quiet := by rw [State.front, heads, Custody.atHolder_none]
    rw [back, front] at layout
    refine ⟨L, ⟨layout.head, layout.tail, layout.chain, layout.last, inv.kept.nodup⟩,
      inv.history, ?_⟩
    intro i
    constructor
    · exact inv.kept.stored_busy i
    · intro busy
      rcases inv.kept.conserved i busy with inside | ⟨t, at_hand⟩
      · exact inside
      · rw [idle t] at at_hand
        cases at_hand

variable [DecidableEq T] [DecidableEq I]

theorem reachable_inv {s : State T I}
    (reached : (machine T I).ReachableBy (fun s _ => s.collides = false) s)
    (calm : s.collides = false) : ∃ L, Inv s L := by
  refine reached.invariant (fun s => s.collides = false → ∃ L, Inv s L) ?_ ?_ calm
  · intro s starts _
    cases starts
    exact ⟨[], initial_inv⟩
  · intro s label t inv before stepped after
    obtain ⟨L, inv⟩ := inv before
    exact step_inv inv after stepped

/-- For any threads, items and order of their steps: in every run that visits no collision
`pushBack` and `popHead` make a queue of the list. -/
theorem fifo_of_calm {s : State T I}
    (reached : (machine T I).ReachableBy (fun s _ => s.collides = false) s)
    (calm : s.collides = false) : Fifo s := by
  -- `L` is what has been linked and not taken out, whatever the pointers hold at this moment
  obtain ⟨L, inv⟩ := reachable_inv reached calm
  exact inv.fifo

/-- The steps of one thread. -/
def steps (n : Nat) (t : Nat) : List (Label Nat Nat) := List.replicate n (.run t)

/-- A `pushBack` of 12 with `TailMutex` only overlaps with a `popHead` with `HeadMutex` only. -/
theorem fifo_of_calm_overlap :
    ∃ s : State Nat Nat, s.left = [10] ∧ s.linked = [10, 11, 12] ∧ Fifo s := by
  let schedule := [.pushBack 0 10] ++ steps 12 0 ++ [.pushBack 0 11] ++ steps 15 0 ++
    [.pushBack 1 12] ++ steps 6 1 ++ [.popHead 0] ++ steps 12 0 ++ steps 7 1 ++ steps 7 0
  have run : ((machine Nat Nat).execWhile (fun s _ => s.collides = false) initial schedule).map
      (fun s => (s.left, s.linked, s.collides)) = some ([10], [10, 11, 12], false) := by
    decide +kernel
  obtain ⟨s, ran, seen⟩ := Option.map_eq_some_iff.mp run
  simp only [Prod.mk.injEq] at seen
  obtain ⟨left, linked, calm⟩ := seen
  exact ⟨s, left, linked, fifo_of_calm (Transition.Machine.execWhile_reachableBy
    (m := machine Nat Nat) (fun s _ => s.collides = false) (.start rfl) schedule ran) calm⟩

/-- On the list of 10 and 11 a `pushBack` of 12 has counted its item and found the list not empty
when two calls of `popHead` take both items out: the second removes the tail, and `tail->next = i`
dereferences null. -/
theorem fifo_fails : ¬ ∀ s : State Nat Nat, (machine Nat Nat).Reachable s → Fifo s := by
  intro claim
  let schedule := [.pushBack 0 10] ++ steps 12 0 ++ [.pushBack 0 11] ++ steps 15 0 ++
    [.pushBack 1 12] ++ steps 5 1 ++ [.popHead 0] ++ steps 19 0 ++ [.popHead 0] ++ steps 13 0 ++
    steps 2 1
  have run : ((machine Nat Nat).exec initial schedule).map State.crashed = some true := by
    decide +kernel
  obtain ⟨s, ran, crashed⟩ := Option.map_eq_some_iff.mp run
  have reached := Transition.Machine.exec_reachable (m := machine Nat Nat) (.start rfl) ran
  have no_null := (claim s reached).no_null
  rw [crashed] at no_null
  cases no_null

end BRoutine.TwoLock
