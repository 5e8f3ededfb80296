import BRoutine.Intrusive
import BRoutine.Transition

/-!
# The wait list of a condition in memory

`bMutexCondTaskList` with its entries as `new` and `delete` make and end them, and the signals of
`bCond` that pop them. `signals_iff` says in which runs the list is the list of those who wait and
the signals wake them in order.
-/

namespace BRoutine.BCond.WaitList

open Intrusive

variable {N R : Type} [DecidableEq N] [DecidableEq R]

/-- `bMutexCondTask`. -/
structure Task (N R : Type) where
  prev : Option N
  next : Option N
  routine : R
  deriving DecidableEq, Repr

/-- `bMutexCondTaskList` and the entries that are allocated; `made` counts the calls of `new`. -/
structure TaskList (N R : Type) where
  task : N → Option (Task N R)
  head : Option N
  tail : Option N
  made : Nat

namespace TaskList

def empty : TaskList N R := ⟨fun _ => none, none, none, 0⟩

/-- `add` of an entry at the address that `new` gives. Nothing if it follows a null pointer. -/
def add (l : TaskList N R) (i : N) (r : R) : Option (TaskList N R) :=
  let task := Function.update l.task i (some ⟨none, none, r⟩)
  match l.tail with
  | none => some { task := task, head := some i, tail := some i, made := l.made + 1 }
  | some tail =>
    (task tail).map fun last =>
      let linked := Function.update task tail (some { last with next := some i })
      { l with
        task := Function.update linked i ((linked i).map fun new => { new with prev := some tail })
        tail := some i
        made := l.made + 1 }

/-- `pop`: its result and the list after it. Nothing if it follows a null pointer. -/
def pop (l : TaskList N R) : Option (Option N × TaskList N R) :=
  match l.head with
  | none => some (none, l)
  | some result =>
    if some result = l.tail then some (some result, { l with head := none, tail := none })
    else
      (l.task result).bind fun first => first.next.bind fun head => (l.task head).map fun second =>
        let task := Function.update l.task head (some { second with prev := none })
        let cleared := (task result).map fun t => { t with next := none }
        (some result, { l with head := some head, task := Function.update task result cleared })

/-- `delete` of an entry. -/
def delete (l : TaskList N R) (i : N) : TaskList N R :=
  { l with task := Function.update l.task i none }

def next (l : TaskList N R) (i : N) : Option N := (l.task i).bind (·.next)

def prev (l : TaskList N R) (i : N) : Option N := (l.task i).bind (·.prev)

def routine (l : TaskList N R) (i : N) : Option R := (l.task i).map (·.routine)

end TaskList

/-- The list, the routines of the tasks handed to `AddTask` in order, and who waits. The last is not
stored in the source: the routines in a `wait` or `timeWait` since their `add`, in that order, until
a task of theirs is handed to `AddTask`; `timed` says of each which of the two it called last. -/
structure State (N R : Type) where
  list : TaskList N R
  ready : List R
  waiting : List R
  timed : R → Bool
  crashed : Bool

/-- `wait` and `timeWait` with the address that `new` gives, the end of a `timeWait` by its timeout,
and the signals. -/
inductive Op (N R : Type) where
  | wait (r : R) (i : N)
  | timeWait (r : R) (i : N)
  | timeout (r : R)
  | signalOnce
  | signalAll

def initial : State N R := ⟨.empty, [], [], fun _ => false, false⟩

/-- `AddTask` of a task whose `self` is `r`. -/
def State.addTask (s : State N R) (r : R) : State N R :=
  { s with ready := s.ready ++ [r], waiting := s.waiting.erase r }

/-- A null pointer was followed. -/
def State.crash (s : State N R) : State N R := { s with crashed := true }

/-- What `wait` and `timeWait` do to the list before their `SwapContext`. -/
def State.add (s : State N R) (r : R) (i : N) (timed : Bool) : State N R :=
  match s.list.add i r with
  | none => s.crash
  | some list => { s with
    list := list, waiting := s.waiting ++ [r], timed := Function.update s.timed r timed }

/-- `AddTask` for the routine of the entry `t`, then `delete t`. -/
def State.wake (s : State N R) (t : N) : Option (State N R) :=
  (s.list.routine t).map fun r => { s.addTask r with list := s.list.delete t }

def signalOnce (s : State N R) : State N R :=
  match s.list.pop with
  | none => s.crash
  -- `t->routine` reads through the null pointer that `pop` returned
  | some (none, _) => s.crash
  | some (some t, list) => (State.wake { s with list := list } t).getD s.crash

/-- The loop of `signalAll`, at most `fuel` times. -/
def signalAllLoop : Nat → State N R → Option (State N R)
  | 0, _ => none
  | fuel + 1, s =>
    match s.list.pop with
    | none => none
    | some (none, list) => some { s with list := list }
    | some (some t, list) => (State.wake { s with list := list } t).bind (signalAllLoop fuel)

/-- `signalAll`. A list has no more entries than were ever made. -/
def signalAll (s : State N R) : State N R :=
  (signalAllLoop (s.list.made + 1) s).getD s.crash

/-- A routine that waits calls nothing, and only a `timeWait` times out. -/
def Enabled (s : State N R) : Op N R → Prop
  | .wait r i | .timeWait r i => r ∉ s.waiting ∧ s.list.task i = none
  | .timeout r => r ∈ s.waiting ∧ s.timed r = true
  | .signalOnce | .signalAll => True

def next (s : State N R) : Op N R → State N R
  | .wait r i => s.add r i false
  | .timeWait r i => s.add r i true
  -- `Deal` hands the task of the timer to `AddTask`
  | .timeout r => s.addTask r
  | .signalOnce => signalOnce s
  | .signalAll => signalAll s

instance (s : State N R) : (op : Op N R) → Decidable (Enabled s op)
  | .wait _ _ | .timeWait _ _ => inferInstanceAs (Decidable (_ ∧ _))
  | .timeout _ => inferInstanceAs (Decidable (_ ∧ _))
  | .signalOnce | .signalAll => inferInstanceAs (Decidable True)

/-- Any sequence of operations, up to the first null pointer that is followed. -/
def machine (N R : Type) [DecidableEq N] [DecidableEq R] :
    Transition.Machine (State N R) (Op N R) :=
  .guarded (· = initial) (fun s op => s.crashed = false ∧ Enabled s op) next

/-! ### The list -/

/-- The list is linked through `entries`, which are those of the routines `rs`. -/
structure Holds (l : TaskList N R) (entries : List N) (rs : List R) : Prop where
  linked : Linked l.next l.prev l.head l.tail entries
  routines : entries.map l.routine = rs.map some
  bound : entries.length ≤ l.made

variable {l : TaskList N R} {entries : List N} {rs : List R} {i : N} {r : R}

omit [DecidableEq N] [DecidableEq R] in
/-- An entry of the list is allocated. -/
theorem Holds.allocated (holds : Holds l entries rs) {n : N} (member : n ∈ entries) :
    ∃ t, l.task n = some t := by
  have routine : l.routine n ∈ rs.map some := by
    rw [← holds.routines]
    exact List.mem_map_of_mem member
  obtain ⟨r, -, same⟩ := List.mem_map.mp routine
  obtain ⟨t, found, -⟩ := Option.map_eq_some_iff.mp same.symm
  exact ⟨t, found⟩

omit [DecidableEq N] [DecidableEq R] in
theorem Holds.fresh (holds : Holds l entries rs) (free : l.task i = none) : i ∉ entries := by
  intro member
  obtain ⟨t, found⟩ := holds.allocated member
  rw [free] at found
  cases found

omit [DecidableEq N] [DecidableEq R] in
theorem empty_holds : Holds (.empty : TaskList N R) [] [] := ⟨.nil, rfl, Nat.le_refl 0⟩

omit [DecidableEq R] in
/-- `add` behind the last entry. -/
theorem add_behind {last : N} {t : Task N R} (tail : l.tail = some last)
    (found : l.task last = some t) (differs : last ≠ i) (r : R) :
    l.add i r = some { l with
      task := Function.update (Function.update l.task last (some { t with next := some i })) i
        (some ⟨some last, none, r⟩)
      tail := some i
      made := l.made + 1 } := by
  simp only [TaskList.add, tail, Function.update_of_ne differs, found, Option.map_some,
    Function.update_of_ne differs.symm, Function.update_self]
  rw [Function.update_comm differs, Function.update_idem, Function.update_comm differs.symm]

omit [DecidableEq R] in
/-- `add` puts the entry at the end. -/
theorem Holds.add (holds : Holds l entries rs) (free : l.task i = none) (r : R) :
    ∃ l', l.add i r = some l' ∧ Holds l' (entries ++ [i]) (rs ++ [r]) := by
  have fresh := holds.fresh free
  have linked := holds.linked
  -- no tail means no entries, and then `add` sets both ends
  cases tail : l.tail with
  | none =>
    have none : entries = [] := List.getLast?_eq_none_iff.mp (linked.tail_eq.symm.trans tail)
    have nobody : rs = [] := by simpa [none] using holds.routines
    subst none nobody
    refine ⟨_, by rw [TaskList.add, tail], ⟨.single ?_ ?_, ?_, ?_⟩⟩
    · simp [TaskList.next]
    · simp [TaskList.prev]
    · simp [TaskList.routine]
    · simp
  | some last =>
    have member : last ∈ entries := List.mem_of_getLast? (linked.tail_eq.symm.trans tail)
    have differs : last ≠ i := fun same => fresh (same ▸ member)
    obtain ⟨t, found⟩ := holds.allocated member
    refine ⟨_, add_behind tail found differs r, ⟨?_, ?_, ?_⟩⟩
    · -- the links of the old entries stay, but for the next of the last one
      rw [tail] at linked
      refine (linked.push fresh).congr (fun n _ => ?_) fun n _ => ?_
      · by_cases new : n = i
        · simp [TaskList.next, new]
        · by_cases old : n = last
          · simp [TaskList.next, old, differs]
          · simp [TaskList.next, new, old]
      · by_cases new : n = i
        · simp [TaskList.prev, new]
        · by_cases old : n = last
          · simp [TaskList.prev, old, differs, found]
          · simp [TaskList.prev, new, old]
    · -- the entry that `add` writes behind keeps its routine
      rw [List.map_append, List.map_append, ← holds.routines]
      refine congrArg₂ _ (List.map_congr_left fun n inside => ?_) (by simp [TaskList.routine])
      have other : n ≠ i := fun same => fresh (same ▸ inside)
      by_cases old : n = last
      · simp [TaskList.routine, old, differs, found]
      · simp [TaskList.routine, other, old]
    · rw [List.length_append]
      exact Nat.succ_le_succ holds.bound

omit [DecidableEq R] in
/-- `pop` of the first of several entries. -/
theorem pop_first {x y : N} {first second : Task N R} (head : l.head = some x)
    (tail : l.tail ≠ some x) (found : l.task x = some first) (forth : first.next = some y)
    (found' : l.task y = some second) (differs : x ≠ y) :
    l.pop = some (some x, { l with
      head := some y
      task := Function.update (Function.update l.task y (some { second with prev := none })) x
        (some { first with next := none }) }) := by
  simp only [TaskList.pop, head, tail.symm, found, forth, found', if_false, Option.bind_some,
    Option.map_some, Function.update_of_ne differs]

omit [DecidableEq R] in
/-- `pop` and `delete` take the first entry out. -/
theorem Holds.pop {n : N} {ns : List N} (holds : Holds l (n :: ns) (r :: rs)) :
    ∃ l', l.pop = some (some n, l') ∧ l'.routine n = some r ∧ Holds (l'.delete n) ns rs ∧
      l'.made = l.made := by
  have linked := holds.linked
  obtain ⟨mine, others⟩ := List.cons_eq_cons.mp holds.routines
  have fresh := (List.nodup_cons.mp linked.nodup).1
  have head : l.head = some n := linked.head_eq
  cases ns with
  | nil =>
    have tail : l.tail = some n := linked.tail_eq
    refine ⟨{ l with head := none, tail := none }, ?_, mine, ⟨.nil, others, Nat.zero_le _⟩, rfl⟩
    rw [TaskList.pop, head]
    exact if_pos tail.symm
  | cons y ns =>
    have differs : n ≠ y := fun same => fresh (same ▸ List.mem_cons_self)
    have tail : l.tail ≠ some n := by
      rw [linked.tail_eq, List.getLast?_cons_cons]
      exact fun last => fresh (List.mem_of_getLast? last)
    -- `pop` writes to the first two entries, which are allocated
    obtain ⟨first, found⟩ := holds.allocated (n := n) List.mem_cons_self
    obtain ⟨second, found'⟩ := holds.allocated (n := y) (by simp)
    have forth : first.next = some y := by
      have next : l.next n = some y := linked.chained.2.1
      rwa [TaskList.next, found] at next
    refine ⟨_, pop_first head tail found forth found' differs, ?_, ⟨?_, ?_, ?_⟩, rfl⟩
    · simpa [TaskList.routine, found] using mine
    · -- behind the deleted entry the links are those that `pop` leaves
      rw [head] at linked
      refine linked.pop.congr (fun z inside => ?_) fun z inside => ?_
      · have other : z ≠ n := fun same => fresh (same ▸ inside)
        by_cases first : z = y
        · simp [TaskList.next, TaskList.delete, first, differs.symm, found']
        · simp [TaskList.next, TaskList.delete, first, other]
      · have other : z ≠ n := fun same => fresh (same ▸ inside)
        by_cases first : z = y
        · simp [TaskList.prev, TaskList.delete, first, differs.symm]
        · simp [TaskList.prev, TaskList.delete, first, other]
    · rw [← others]
      refine List.map_congr_left fun z inside => ?_
      have other : z ≠ n := fun same => fresh (same ▸ inside)
      by_cases first : z = y
      · simp [TaskList.routine, TaskList.delete, first, differs.symm, found']
      · simp [TaskList.routine, TaskList.delete, first, other]
    · exact Nat.le_of_succ_le holds.bound

/-! ### The signals -/

/-- The list is that of those who wait, each of them once. -/
structure Formed (s : State N R) : Prop where
  running : s.crashed = false
  once : s.waiting.Nodup
  holds : ∃ entries, Holds s.list entries s.waiting

/-- What the signals are for. -/
def Acts (s : State N R) : Op N R → Prop
  | .signalOnce =>
    match s.waiting with
    | [] => signalOnce s = s
    | r :: rest => (signalOnce s).ready = s.ready ++ [r] ∧ (signalOnce s).waiting = rest
  | .signalAll =>
    (signalAll s).ready = s.ready ++ s.waiting ∧ (signalAll s).waiting = [] ∧
      (signalAll s).list.head = none ∧ (signalAll s).list.tail = none
  | .wait .. | .timeWait .. | .timeout _ => True

/-- A `signalOnce` has somebody to wake, and no `timeWait` ends by its timeout, which leaves its
entry in the list. -/
def Spared (s : State N R) : Op N R → Prop
  | .signalOnce => s.waiting ≠ []
  | .timeout _ => False
  | .wait .. | .timeWait .. | .signalAll => True

variable {s : State N R}

omit [DecidableEq N] [DecidableEq R] in
theorem Holds.lengths (holds : Holds l entries rs) : entries.length = rs.length := by
  have same := congrArg List.length holds.routines
  rwa [List.length_map, List.length_map] at same

theorem Formed.add (formed : Formed s) (outside : r ∉ s.waiting) (free : s.list.task i = none)
    (timed : Bool) : Formed (s.add r i timed) := by
  obtain ⟨running, once, entries, holds⟩ := formed
  obtain ⟨l', added, holds'⟩ := holds.add free r
  rw [State.add, added]
  refine ⟨running, ?_, _, holds'⟩
  rw [List.nodup_append]
  refine ⟨once, List.nodup_singleton r, fun q member q' last same => outside ?_⟩
  rwa [← List.mem_singleton.mp last, ← same]

/-- One `pop` with the `AddTask` and the `delete` behind it. -/
theorem wake_first {n : N} {ns : List N} (holds : Holds s.list (n :: ns) (r :: rs))
    (waiting : s.waiting = r :: rs) :
    ∃ l' list, s.list.pop = some (some n, l') ∧ Holds list ns rs ∧ list.made = s.list.made ∧
      State.wake { s with list := l' } n =
        some { s with list := list, ready := s.ready ++ [r], waiting := rs } := by
  obtain ⟨l', popped, routine, holds', made⟩ := holds.pop
  refine ⟨l', l'.delete n, popped, holds', made, ?_⟩
  simp only [State.wake, routine, Option.map_some, State.addTask, waiting, List.erase_cons_head]

/-- With a waiter `signalOnce` wakes the one that has waited longest. -/
theorem Formed.wakesFirst (formed : Formed s) {rest : List R} (waiting : s.waiting = r :: rest) :
    Formed (signalOnce s) ∧ (signalOnce s).ready = s.ready ++ [r] ∧
      (signalOnce s).waiting = rest := by
  obtain ⟨running, once, entries, holds⟩ := formed
  rw [waiting] at holds once
  cases entries with
  | nil => cases holds.lengths
  | cons n ns =>
    obtain ⟨l', list, popped, holds', -, woken⟩ := wake_first holds waiting
    have after : signalOnce s =
        { s with list := list, ready := s.ready ++ [r], waiting := rest } := by
      simp only [signalOnce, popped, woken, Option.getD_some]
    rw [after]
    exact ⟨⟨running, once.of_cons, ns, holds'⟩, rfl, rfl⟩

/-- Without a waiter `signalOnce` follows a null pointer. -/
theorem Formed.crashes (formed : Formed s) (nobody : s.waiting = []) :
    (signalOnce s).crashed = true := by
  obtain ⟨-, -, entries, holds⟩ := formed
  -- nobody waits, so `pop` gives null and `->routine` is read from it
  have none : entries = [] := List.eq_nil_of_length_eq_zero (by rw [holds.lengths, nobody]; rfl)
  have head := holds.linked.head_eq
  rw [none] at head
  simp only [signalOnce, TaskList.pop, head, List.head?_nil, State.crash]

/-- The loop of `signalAll` wakes all who wait in order. -/
theorem signalAllLoop_wakes (holds : Holds s.list entries rs) (waiting : s.waiting = rs)
    {fuel : Nat} (enough : rs.length < fuel) :
    ∃ list, signalAllLoop fuel s =
        some { s with list := list, ready := s.ready ++ rs, waiting := [] } ∧
      Holds list [] [] := by
  -- one turn for each routine that waits, and one that finds the list empty
  induction rs generalizing s entries fuel with
  | nil =>
    obtain rfl : entries = [] := List.eq_nil_of_length_eq_zero holds.lengths
    have head := holds.linked.head_eq
    obtain ⟨fuel, rfl⟩ : ∃ k, fuel = k + 1 := ⟨fuel - 1, by omega⟩
    refine ⟨s.list, ?_, holds⟩
    simp [signalAllLoop, TaskList.pop, head, waiting]
  | cons r rs ih =>
    cases entries with
    | nil => cases holds.lengths
    | cons n ns =>
      obtain ⟨fuel, rfl⟩ : ∃ k, fuel = k + 1 := ⟨fuel - 1, by omega⟩
      obtain ⟨l', list, popped, holds', -, woken⟩ := wake_first holds waiting
      let woke : State N R := { s with list := list, ready := s.ready ++ [r], waiting := rs }
      obtain ⟨last, ended, empty⟩ :=
        @ih ns woke holds' rfl fuel (Nat.lt_of_succ_lt_succ enough)
      refine ⟨last, ?_, empty⟩
      rw [List.append_assoc] at ended
      simp only [signalAllLoop, popped, woken]
      exact ended

theorem Formed.wakesAll (formed : Formed s) : Formed (signalAll s) ∧ Acts s .signalAll := by
  obtain ⟨running, -, entries, holds⟩ := formed
  have enough : s.waiting.length < s.list.made + 1 := by
    rw [← holds.lengths]
    exact Nat.lt_succ_of_le holds.bound
  obtain ⟨list, ended, empty⟩ := signalAllLoop_wakes holds rfl enough
  have after : signalAll s =
      { s with list := list, ready := s.ready ++ s.waiting, waiting := [] } := by
    simp only [signalAll, ended, Option.getD_some]
  rw [Acts, after]
  exact ⟨⟨running, .nil, [], empty⟩, rfl, rfl, empty.linked.head_eq, empty.linked.tail_eq⟩

/-! ### Runs -/

omit [DecidableEq N] [DecidableEq R] in
theorem initial_formed : Formed (initial : State N R) := ⟨rfl, .nil, [], empty_holds⟩

/-- What the spared operations keep. -/
theorem Formed.kept (formed : Formed s) {op : Op N R} (enabled : Enabled s op)
    (spared : Spared s op) : Formed (next s op) ∧ Acts s op := by
  cases op with
  | wait r i => exact ⟨formed.add enabled.1 enabled.2 false, trivial⟩
  | timeWait r i => exact ⟨formed.add enabled.1 enabled.2 true, trivial⟩
  | timeout r => exact absurd spared id
  | signalOnce =>
    obtain ⟨r, rest, waiting⟩ := List.exists_cons_of_ne_nil spared
    obtain ⟨formed', wakes⟩ := formed.wakesFirst waiting
    refine ⟨formed', ?_⟩
    rw [Acts, waiting]
    exact wakes
  | signalAll => exact formed.wakesAll

/-- The operations that are not spared leave a list that is not that of those who wait. -/
theorem Formed.sharp (formed : Formed s) {op : Op N R} (enabled : Enabled s op)
    (forbidden : ¬ Spared s op) : ¬ Formed (next s op) := by
  intro formed'
  cases op with
  | timeout r =>
    obtain ⟨-, -, entries, holds⟩ := formed
    obtain ⟨-, -, entries', holds'⟩ := formed'
    -- the list has not changed, but `r` waits no more
    have same : entries' = entries := holds'.linked.unique holds.linked
    have fewer : (s.waiting.erase r).length = s.waiting.length := by
      rw [← holds.lengths, ← same, holds'.lengths]
      rfl
    rw [List.length_erase_of_mem enabled.1] at fewer
    have positive := List.length_pos_of_mem enabled.1
    omega
  | signalOnce =>
    have crashed := formed.crashes (not_not.mp forbidden)
    have running := formed'.running
    rw [next, crashed] at running
    cases running
  | wait _ _ | timeWait _ _ | signalAll => exact forbidden trivial

/-- In a run the list always holds those who wait in order, and the signals wake the first and all
of them, exactly where no `signalOnce` finds nobody and no `timeWait` ends by its timeout. -/
theorem signals_iff (schedule : List (Op N R)) :
    ((∀ s, (machine N R).Visits initial schedule s → Formed s) ∧
      ∀ s op, (machine N R).Takes initial schedule s op → Acts s op) ↔
    ∀ s op, (machine N R).Takes initial schedule s op → Spared s op := by
  refine Transition.Machine.safe_and_fine_iff_steps_ok Formed Spared ?_ (fun _ => id) ?_ ?_
    initial_formed schedule
  · intro s op t formed spared stepped
    obtain ⟨⟨-, enabled⟩, rfl⟩ := Transition.Machine.guarded_step_iff.mp stepped
    exact (formed.kept enabled spared).1
  · intro s op t formed spared stepped
    obtain ⟨⟨-, enabled⟩, rfl⟩ := Transition.Machine.guarded_step_iff.mp stepped
    exact (formed.kept enabled spared).2
  · intro s op t formed forbidden stepped formed'
    obtain ⟨⟨-, enabled⟩, rfl⟩ := Transition.Machine.guarded_step_iff.mp stepped
    exact absurd formed' (formed.sharp enabled forbidden)

/-- `signalOnce` without a waiter follows a null pointer. After a timeout it wakes the routine that
has stopped waiting. -/
theorem signalOnce_fails :
    (∃ s, (machine Nat Nat).exec initial [.signalOnce] = some s ∧ s.crashed = true) ∧
      ∃ s, (machine Nat Nat).exec initial [.timeWait 1 10, .wait 2 20, .timeout 1, .signalOnce] =
        some s ∧ s.ready = [1, 1] ∧ s.waiting = [2] :=
  ⟨⟨_, rfl, rfl⟩, _, rfl, rfl, rfl⟩

end BRoutine.BCond.WaitList
