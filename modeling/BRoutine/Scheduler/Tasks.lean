import BRoutine.Filing
import BRoutine.Scheduler.Pairing

/-!
# The task items of a run

What goes through the ready queues are `TaskItem`s: allocated by `TaskItem::New` in `Resume`,
`yield`, `poll` and wherever a waiter is woken, linked by `AddTask`, unlinked by `popHead` or
`Try2stealTask`, and freed by `ProcessBegin` once the routine has given the thread back. This file
follows these items through the runs of any number of schedulers. Those that `poll` allocates for
its descriptors, which are never linked and never freed, and that of `timeWait` are left out.

An item is known by the number of its allocation, and every item is at one place at a time: in a
ready queue, in the timer wheel, in the hands of the code that is to call `AddTask` for it, in the
variable `task` of a loop, or freed.
-/

namespace BRoutine.Scheduler

/-- Where an item can be. -/
inductive Place where
  /-- linked in `ActivetaskItems` of the scheduler `k` -/
  | queue (k : Nat)
  /-- linked in a bucket of the timer -/
  | wheel
  /-- a local variable of code on the thread `k` that is to call `AddTask` -/
  | hand (k : Nat)
  /-- the variable `task` in `ProcessBegin` on the thread `k` -/
  | task (k : Nat)
  | freed
  deriving DecidableEq, Repr

/-- The items allocated so far, the `self` of each, and the items at each place. -/
structure Tasks where
  made : Nat
  self : Nat → Routine
  items : Place → List Nat

namespace Tasks

/-- `TaskItem::New`, with `self = r` and the item left at `p`. -/
def new (t : Tasks) (p : Place) (r : Routine) : Tasks where
  made := t.made + 1
  self := Function.update t.self t.made r
  items := Function.update t.items p (t.items p ++ [t.made])

/-- The first item at `p` goes to the end of those at `q`. -/
def move (t : Tasks) (p q : Place) : Tasks :=
  match t.items p with
  | [] => t
  | i :: rest => { t with
      items := Function.update (Function.update t.items p rest) q (t.items q ++ [i]) }

/-- `popHead` of the queue of `k`, the result in `task`. -/
def popHead (t : Tasks) (k : Nat) : Tasks := t.move (.queue k) (.task k)

/-- `AddTask` on the thread `k` while the static `i` is `index`. -/
def addTask (t : Tasks) (k index : Nat) : Tasks := t.move (.hand k) (.queue index)

/-- `TaskItem::Delete(task)` on the thread `k`. -/
def delete (t : Tasks) (k : Nat) : Tasks := t.move (.task k) .freed

/-- `Deal` on the thread `k` takes the item of `r` out of the timer. -/
def expire (t : Tasks) (k : Nat) (r : Routine) : Tasks :=
  match (t.items .wheel).find? fun i => t.self i = r with
  | none => t
  | some i => { t with
      items := Function.update (Function.update t.items .wheel ((t.items .wheel).erase i))
        (.hand k) (t.items (.hand k) ++ [i]) }

/-- `Try2stealTask` of the queue of `id` by the thread `k`, and the `pushBack` of what it
returns. -/
def steal (t : Tasks) (k id : Nat) (locked : Bool) : Tasks :=
  if !locked then t else
  match t.items (.queue id) with
  | [] => t
  | [a] =>
    if t.self a = .main then
      -- pushed back, and returned all the same
      { t with items := Function.update t.items (.queue k) (t.items (.queue k) ++ [a]) }
    else t.move (.queue id) (.queue k)
  | a :: b :: rest =>
    if t.self a = .main then
      { t with items := Function.update t.items (.queue id) (b :: rest ++ [a]) }
    else t.move (.queue id) (.queue k)

end Tasks

/-- What a call of the routine that occupies `k` does to the items: that of `poll` is the `task` of
its `poll_message`. -/
def followCall (s : State) (t : Tasks) (k : Nat) : Op → Tasks
  | .resume target => (t.new (.hand k) target).new (.hand k) (s.occupyRoutine k)
  | .yield => t.new (.hand k) (s.occupyRoutine k)
  | .wait _ => t
  | .wake list =>
    match s.lists list with
    | [] => t
    | r :: _ => t.new (.hand k) r
  | .poll => t.new .wheel (s.occupyRoutine k)
  | .finish => t

/-- What a step does to the items. -/
def follow (s : State) (t : Tasks) : Label → Tasks
  | .register => t
  | .run k =>
    match s.pc k with
    | .take => t.popHead k
    | .scan _ => t.popHead k
    | .add (r :: _) _ => if r.isProgress then t else t.addTask k s.index
    -- the loop goes on behind its `SwapContext`
    | .load => if (s.occupyRoutine k).isProgress then t.delete k else t
    | _ => t
  | .call k op => followCall s t k op
  | .deal k r => t.expire k r
  | .steal k locked =>
    match s.pc k with
    | .scan id => if s.size ≤ id then t else t.steal k id locked
    | _ => t

structure Tasked where
  base : State
  tasks : Tasks

/-- The first `SwapContext` of main has pushed the first item. -/
def Tasks.initial : Tasks where
  made := 1
  self := fun _ => .main
  items := fun p => if p = .queue 0 then [0] else []

/-- At most `n` schedulers, with the items that their steps allocate, link and free. -/
def tasked (n : Nat) : Transition.Machine Tasked Label where
  start s := s = ⟨initial, .initial⟩
  step s label := (step n s.base label).map fun base => ⟨base, follow s.base s.tasks label⟩

/-- Every allocated item is at exactly one place, and there once. -/
def Owned (t : Tasks) : Prop :=
  ∃ place, Filing.Filed t.items place ∧ ∀ i, place i = none ↔ t.made ≤ i

/-- `Try2stealTask` locks a queue whose only task is one of main. -/
def copiesMain (s : State) : Label → Prop
  | .steal k locked =>
    locked = true ∧ ∃ id, s.pc k = .scan id ∧ id ≠ k ∧ id < s.size ∧ s.activeTasks id = [.main]
  | _ => False

/-! ### One owner -/

namespace Owned

variable {t : Tasks}

theorem initial : Owned .initial := by
  have filed := (Filing.Filed.empty (K := Place) (I := Nat)).put (k := .queue 0) (i := 0) rfl
  refine ⟨Function.update (fun _ => none) 0 (some (.queue 0)), ?_, fun i => ?_⟩
  · have same : Tasks.initial.items = Function.update (fun _ => []) (.queue 0) [0] := by
      funext p
      by_cases here : p = .queue 0 <;> simp [Tasks.initial, Function.update, here]
    rw [same]
    exact filed
  · by_cases first : i = 0
    · simp [first, Tasks.initial]
    · simp [first, Tasks.initial]
      omega

/-- Nothing that is at a place is new. -/
theorem lt_made (owned : Owned t) {p : Place} {i : Nat} (inside : i ∈ t.items p) : i < t.made := by
  obtain ⟨place, filed, made⟩ := owned
  by_contra new
  have outside := (made i).mpr (by omega)
  exact filed.not_mem outside p inside

theorem new (owned : Owned t) (p : Place) (r : Routine) : Owned (t.new p r) := by
  obtain ⟨place, filed, made⟩ := owned
  refine ⟨_, filed.put (k := p) ((made t.made).mpr (le_refl _)), fun i => ?_⟩
  by_cases mine : i = t.made
  · simp [mine, Tasks.new]
  · rw [Function.update_of_ne mine, made]
    simp only [Tasks.new]
    omega

/-- An item taken from one place and put at the end of another. -/
theorem handOver {p q : Place} {i : Nat} {rest : List Nat} (owned : Owned t) (other : q ≠ p)
    (inside : i ∈ t.items p) (left : (t.items p).Perm (i :: rest)) :
    Owned { t with
      items := Function.update (Function.update t.items p rest) q (t.items q ++ [i]) } := by
  have old := owned.lt_made inside
  obtain ⟨place, filed, made⟩ := owned
  refine ⟨_, filed.handOver other inside left, fun j => ?_⟩
  by_cases mine : j = i
  · subst mine
    simp [old]
  · rw [Function.update_of_ne mine]
    exact made j

theorem move (owned : Owned t) {p q : Place} (other : q ≠ p) : Owned (t.move p q) := by
  unfold Tasks.move
  split
  · exact owned
  next i rest front =>
    exact owned.handOver other (by rw [front]; exact List.mem_cons_self) (by rw [front])

theorem expire (owned : Owned t) (k : Nat) (r : Routine) : Owned (t.expire k r) := by
  unfold Tasks.expire
  split
  · exact owned
  next i found =>
    have inside := List.mem_of_find?_eq_some found
    exact owned.handOver (by simp) inside (List.perm_cons_erase inside)

/-- The items of a queue in another order. -/
theorem reorder (owned : Owned t) {p : Place} {items : List Nat} (same : (t.items p).Perm items) :
    Owned { t with items := Function.update t.items p items } := by
  obtain ⟨place, filed, made⟩ := owned
  exact ⟨place, filed.reorder same, made⟩

theorem steal (owned : Owned t) {k id : Nat} {locked : Bool} (other : id ≠ k)
    (plain : locked = true → (t.items (.queue id)).map t.self ≠ [.main]) :
    Owned (t.steal k id locked) := by
  have away : Place.queue k ≠ .queue id := fun same => other (Place.queue.inj same).symm
  unfold Tasks.steal
  split
  · exact owned
  next locks =>
    split
    · exact owned
    next a alone =>
      split
      next main =>
        -- the only task of the queue is not one of main
        exact absurd (by rw [alone]; simp [main]) (plain (by simpa using locks))
      next => exact owned.move away
    next a b rest front =>
      split
      next => exact owned.reorder (by rw [front]; exact (List.perm_append_singleton a _).symm)
      next => exact owned.move away

/-- A task of main that is returned and still linked has two owners. -/
theorem not_copied {k id a : Nat} (other : id ≠ k) (alone : t.items (.queue id) = [a])
    (main : t.self a = .main) : ¬ Owned (t.steal k id true) := by
  rintro ⟨place, filed, -⟩
  have away : Place.queue id ≠ .queue k := fun same => other (Place.queue.inj same)
  simp only [Tasks.steal, alone, Bool.not_true, Bool.false_eq_true, if_false, main, if_true]
    at filed
  have still : a ∈ (Function.update t.items (Place.queue k) (t.items (.queue k) ++ [a]))
      (.queue id) := by
    rw [Function.update_of_ne away, alone]
    exact List.mem_singleton_self a
  have also : a ∈ (Function.update t.items (Place.queue k) (t.items (.queue k) ++ [a]))
      (.queue k) := by
    simp
  exact away (filed.unique still also)

end Owned

end BRoutine.Scheduler
