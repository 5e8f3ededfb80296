import BRoutine.Cond.WaitList
import BRoutine.Monitor

/-!
# The wait list among threads

`bMutexCondTaskList` as `lock`, `unlock`, `wait` and the signals use it on any number of threads,
one statement at a time. `add` and `pop` work under the mutex of the list, which they try to lock
and yield in between; but what a `pop` has returned is read and deleted without it, while others are
inside. `waitList_serves` says that the list is a queue of routines all the same, which takes each
call when it unlocks: apart from the entries on their way out it is an object behind a mutex, and no
statement of an operation gets to see those.
-/

namespace BRoutine.BCond.Shared

open Monitor WaitList Transition

variable {T N R : Type}

/-- A call of `add` with a routine, or of `pop` with the use of its result. -/
inductive Call (R : Type)
  | add (r : R)
  | pop

/-- The call with the address of the entry that `add` has got from `new`. -/
inductive Op (N R : Type)
  | add (r : R) (i : N)
  | pop
  deriving DecidableEq

/-- The statements under the mutex; `result` is the local variable of `pop`. -/
inductive Line (N R : Type)
  /-- `new bMutexCondTask` and `i->routine = r` -/
  | addNew (r : R) (i : N)
  /-- `tail == NULL` -/
  | addTail (i : N)
  /-- `head = i` and `tail = i` in an empty list -/
  | onlyHead (i : N)
  | onlyTail (i : N)
  /-- `tail->next = i`, `i->prev = tail` and `tail = i` in any other -/
  | lastNext (i : N)
  | lastPrev (i : N)
  | lastTail (i : N)
  /-- `head == NULL` -/
  | popHead
  /-- `head == tail` -/
  | popTail
  /-- `result = head`, `head = NULL` and `tail = NULL` where there is one entry -/
  | oneResult
  | oneHead (result : Option N)
  | oneTail (result : Option N)
  /-- `result = head`, `head = head->next`, `head->prev = NULL` and `result->next = NULL` -/
  | firstResult
  | firstHead (result : Option N)
  | firstPrev (result : Option N)
  | firstNext (result : Option N)

variable [DecidableEq N]

/-- A read of the entry at `i`. -/
def load {L A : Type} (l : TaskList N R) (i : Option N)
    (rest : Task N R → Outcome (TaskList N R) L A) : Outcome (TaskList N R) L A :=
  match i.bind l.task with
  | none => .crash
  | some task => rest task

/-- A write to the entry at `i`. -/
def store {L A : Type} (l : TaskList N R) (i : Option N) (change : Task N R → Task N R)
    (rest : TaskList N R → Outcome (TaskList N R) L A) : Outcome (TaskList N R) L A :=
  match i with
  | none => .crash
  | some n =>
    match l.task n with
    | none => .crash
    | some task => rest { l with task := Function.update l.task n (some (change task)) }

def statement (l : TaskList N R) : Line N R → Outcome (TaskList N R) (Line N R) (Option N)
  | .addNew r i =>
    .next { l with
      task := Function.update l.task i (some ⟨none, none, r⟩), made := l.made + 1 } (.addTail i)
  | .addTail i => if l.tail = none then .next l (.onlyHead i) else .next l (.lastNext i)
  | .onlyHead i => .next { l with head := some i } (.onlyTail i)
  | .onlyTail i => .done { l with tail := some i } none
  | .lastNext i =>
    store l l.tail (fun task => { task with next := some i }) (.next · (.lastPrev i))
  | .lastPrev i =>
    store l (some i) (fun task => { task with prev := l.tail }) (.next · (.lastTail i))
  | .lastTail i => .done { l with tail := some i } none
  | .popHead => if l.head = none then .done l none else .next l .popTail
  | .popTail => if l.head = l.tail then .next l .oneResult else .next l .firstResult
  | .oneResult => .next l (.oneHead l.head)
  | .oneHead result => .next { l with head := none } (.oneTail result)
  | .oneTail result => .done { l with tail := none } result
  | .firstResult => .next l (.firstHead l.head)
  | .firstHead result =>
    load l l.head fun task => .next { l with head := task.next } (.firstPrev result)
  | .firstPrev result =>
    store l l.head (fun task => { task with prev := none }) (.next · (.firstNext result))
  | .firstNext result => store l result (fun task => { task with next := none }) (.done · result)

def entry : Op N R → Line N R
  | .add r i => .addNew r i
  | .pop => .popHead

/-- `new` gives the address of no allocated entry. -/
def legal (l : TaskList N R) : Op N R → Prop
  | .add _ i => l.task i = none
  | .pop => True

instance (l : TaskList N R) : (o : Op N R) → Decidable (legal l o)
  | .add _ _ => decidable_of_iff _ Option.isNone_iff_eq_none
  | .pop => inferInstanceAs (Decidable True)

/-! ### The threads -/

/-- Where a thread is. -/
inductive Pc (N R : Type)
  | idle
  /-- at the `pthread_mutex_trylock` -/
  | calling (c : Call R)
  /-- at the `new`, with the mutex -/
  | allocating (r : R)
  | inside (o : Op N R) (line : Line N R)
  /-- at the `pthread_mutex_unlock` -/
  | done (o : Op N R) (result : Option N)
  /-- at the read of `mt->routine`, and then at `delete mt` -/
  | reading (o : Op N R) (mt : N)
  | deleting (o : Op N R) (mt : N) (routine : R)
  | returning (o : Op N R) (result : Option R)

structure State (T N R : Type) where
  mutex : Option T
  list : TaskList N R
  pc : T → Pc N R
  crashed : Bool

/-- A thread calls an operation, or runs the next step of its call, where `new` would give
`address`. -/
inductive Label (T N R : Type)
  | call (t : T) (c : Call R)
  | run (t : T) (address : N)

variable [DecidableEq T]

namespace State

def goto (s : State T N R) (t : T) (pc : Pc N R) : State T N R :=
  { s with pc := Function.update s.pc t pc }

/-- A null pointer or one to a deleted entry is followed. -/
def crash (s : State T N R) : State T N R := { s with crashed := true }

/-- What the outcome of a statement of `t` makes of the state. -/
def take (s : State T N R) (t : T) (o : Op N R) :
    Outcome (TaskList N R) (Line N R) (Option N) → State T N R
  | .crash => s.crash
  | .next list line => { s.goto t (.inside o line) with list := list }
  | .done list result => { s.goto t (.done o result) with list := list }

end State

def run (s : State T N R) (t : T) (address : N) : Option (State T N R) :=
  match s.pc t with
  | .idle => none
  | .calling c =>
    match s.mutex, c with
    | none, .add r => some { s.goto t (.allocating r) with mutex := some t }
    | none, .pop => some { s.goto t (.inside .pop .popHead) with mutex := some t }
    -- the `trylock` fails, and the routine yields and tries again
    | some _, _ => some s
  | .allocating r =>
    if legal s.list (.add r address) then
      some (s.take t (.add r address) (statement s.list (.addNew r address)))
    else none
  | .inside o line => some (s.take t o (statement s.list line))
  | .done o none => some { s.goto t (.returning o none) with mutex := none }
  | .done o (some mt) => some { s.goto t (.reading o mt) with mutex := none }
  | .reading o mt =>
    match s.list.task mt with
    | none => some s.crash
    | some task => some (s.goto t (.deleting o mt task.routine))
  | .deleting o mt routine =>
    match s.list.task mt with
    | none => some s.crash
    | some _ => some { s.goto t (.returning o (some routine)) with list := s.list.delete mt }
  | .returning _ _ => some (s.goto t .idle)

def step (s : State T N R) (label : Label T N R) : Option (State T N R) :=
  if s.crashed then none else
  match label with
  | .call t c =>
    match s.pc t with
    | .idle => some (s.goto t (.calling c))
    | _ => none
  | .run t address => run s t address

/-- A list with its mutex initialised. -/
def start : State T N R := ⟨none, .empty, fun _ => .idle, false⟩

def machine (T N R : Type) [DecidableEq T] [DecidableEq N] :
    Machine (State T N R) (Label T N R) where
  start := (· = start)
  step := step

/-! ### The same without the entries on their way out -/

/-- The last statement of `pop` with the read and the `delete` that come after the unlock. -/
def handOver : Outcome (TaskList N R) (Line N R) (Option N) →
    Outcome (TaskList N R) (Line N R) (Option R)
  | .crash => .crash
  | .next list line => .next list line
  | .done list none => .done list none
  | .done list (some mt) =>
    load list (some mt) fun task => .done (list.delete mt) (some task.routine)

/-- The operations as if they took the entry out before they unlock. -/
def code : Code Unit Unit (Op N R) (TaskList N R) (Line N R) (Option R) where
  object _ := ()
  mutex _ := ()
  entry := entry
  legal := legal
  statement l line := handOver (statement l line)

instance (l : TaskList N R) (o : Op N R) : Decidable (code.legal l o) :=
  inferInstanceAs (Decidable (legal l o))

/-- What the operations are for. -/
def perform (routines : List R) : Op N R → List R × Option R
  | .add r _ => (routines ++ [r], none)
  | .pop => (routines.tail, routines.head?)

/-- The entries that are linked are all that are allocated. -/
def Represents (l : TaskList N R) (routines : List R) : Prop :=
  ∃ entries, Holds l entries routines ∧ ∀ n, (l.task n).isSome ↔ n ∈ entries

abbrev Queue (T N R : Type) := Atomic T Unit (Op N R) (Option R) (List R)

/-- What is waited for, with each call in one step. -/
def queue : Machine (Queue T N R) (T × Deed (Op N R)) := atomic code perform []

/-- What a step is to the queue: an `add` is called where it has its entry, and both are performed
where they unlock. -/
def deeds (s : State T N R) : Label T N R → List (T × Deed (Op N R))
  | .call t .pop => [(t, .call .pop)]
  | .call _ (.add _) => []
  | .run t address =>
    match s.pc t with
    | .allocating r => [(t, .call (.add r address))]
    | .done _ _ => [(t, .perform)]
    | .returning _ _ => [(t, .ret)]
    | .idle | .calling _ | .inside _ _ | .reading _ _ | .deleting _ _ _ => []

/-! ### One thread alone -/

section Alone

variable {l l' : TaskList N R} {n i : N} {r : R}

omit [DecidableEq T] in
/-- The statements of `add` are `TaskList.add`. -/
theorem add_runs (added : l.add i r = some l') :
    runs code 7 l (.addNew r i) = some (l', none) := by
  cases tail : l.tail with
  | none =>
    simp only [TaskList.add, tail, Option.some.injEq] at added
    subst added
    simp [runs, code, handOver, statement, tail]
  | some last =>
    simp only [TaskList.add, tail] at added
    obtain ⟨task, found, rfl⟩ := Option.map_eq_some_iff.mp added
    by_cases same : last = i
    · subst same
      rw [Function.update_self, Option.some.injEq] at found
      subst found
      simp [runs, code, handOver, statement, store, tail]
    · rw [Function.update_of_ne same] at found
      simp [runs, code, handOver, statement, store, tail, same, Ne.symm same, found]

/-- The statements of `pop`, with what comes after, are `TaskList.pop` and `delete`. -/
theorem pop_runs (popped : l.pop = some (some n, l')) (routine : l'.routine n = some r) :
    runs code 8 l .popHead = some (l'.delete n, some r) := by
  obtain ⟨task, found, rfl⟩ := Option.map_eq_some_iff.mp routine
  cases head : l.head with
  | none => simp [TaskList.pop, head] at popped
  | some result =>
    simp only [TaskList.pop, head] at popped
    split at popped
    next last =>
      cases popped
      have found : l.task n = some task := found
      simp [runs, code, handOver, statement, load, head, ← last, found]
    next more =>
      obtain ⟨first, found_first, popped⟩ := Option.bind_eq_some_iff.mp popped
      obtain ⟨y, forth, popped⟩ := Option.bind_eq_some_iff.mp popped
      obtain ⟨second, found_second, popped⟩ := Option.map_eq_some_iff.mp popped
      cases popped
      by_cases same : n = y
      · subst same
        rw [found_first, Option.some.injEq] at found_second
        subst found_second
        simp only [Function.update_self, Option.map_some, Option.some.injEq] at found
        subst found
        simp [runs, code, handOver, statement, load, store, head, more, found_first, forth]
      · simp only [Function.update_of_ne same, found_first, Option.map_some, Function.update_self,
          Option.some.injEq] at found
        subst found
        simp [runs, code, handOver, statement, load, store, head, more, found_first, forth,
          found_second, same]

omit [DecidableEq T] in
/-- `add` allocates its entry only. -/
theorem add_allocated (added : l.add i r = some l') (m : N) :
    (l'.task m).isSome ↔ m = i ∨ (l.task m).isSome := by
  cases tail : l.tail with
  | none =>
    simp only [TaskList.add, tail, Option.some.injEq] at added
    subst added
    by_cases new : m = i <;> simp [new]
  | some last =>
    simp only [TaskList.add, tail] at added
    obtain ⟨task, found, rfl⟩ := Option.map_eq_some_iff.mp added
    by_cases new : m = i
    · subst new
      by_cases same : m = last <;> simp [same]
    · by_cases same : m = last
      · subst same
        rw [Function.update_of_ne new] at found
        simp [new, found]
      · simp [new, same]

omit [DecidableEq T] in
/-- `pop` allocates nothing and deletes nothing. -/
theorem pop_allocated (popped : l.pop = some (some n, l')) (m : N) :
    (l'.task m).isSome ↔ (l.task m).isSome := by
  cases head : l.head with
  | none => simp [TaskList.pop, head] at popped
  | some result =>
    simp only [TaskList.pop, head] at popped
    split at popped
    · cases popped
      rfl
    · obtain ⟨first, found_first, popped⟩ := Option.bind_eq_some_iff.mp popped
      obtain ⟨y, forth, popped⟩ := Option.bind_eq_some_iff.mp popped
      obtain ⟨second, found_second, popped⟩ := Option.map_eq_some_iff.mp popped
      cases popped
      by_cases mine : m = n
      · subst mine
        by_cases same : m = y
        · subst same
          simp [found_second]
        · simp [same, found_first]
      · by_cases same : m = y
        · subst same
          simp [mine, found_second]
        · simp [mine, same]

omit [DecidableEq T] [DecidableEq N] in
theorem empty_represents : Represents (.empty : TaskList N R) [] :=
  ⟨[], empty_holds, by simp [TaskList.empty]⟩

omit [DecidableEq T] in
/-- Alone, the operations keep a queue. -/
theorem code_correct :
    Correct (code : Code Unit Unit (Op N R) _ _ _) Represents perform := by
  rintro l routines o ⟨entries, holds, allocated⟩ legal
  cases o with
  | add r i =>
    have free : l.task i = none := legal
    obtain ⟨l', added, after⟩ := holds.add free r
    refine ⟨l', .of_runs (add_runs added), entries ++ [i], after, fun m => ?_⟩
    rw [add_allocated added, allocated, List.mem_append, List.mem_singleton, or_comm]
  | pop =>
    cases entries with
    | nil =>
      have nothing : routines = [] := by simpa using holds.routines
      have head : l.head = none := holds.linked.head_eq
      subst nothing
      have ran : runs code 1 l .popHead = some (l, (none : Option R)) := by
        simp [runs, code, handOver, statement, head]
      exact ⟨l, .of_runs ran, [], holds, allocated⟩
    | cons n ns =>
      cases routines with
      | nil => simpa using holds.routines
      | cons r rs =>
        have fresh := (List.nodup_cons.mp holds.linked.nodup).1
        obtain ⟨l', popped, routine, after, -⟩ := holds.pop
        refine ⟨l'.delete n, .of_runs (pop_runs popped routine), ns, after, fun m => ?_⟩
        by_cases gone : m = n
        · subst gone
          simp [TaskList.delete, fresh]
        · have left := pop_allocated popped m
          rw [allocated, List.mem_cons, or_iff_right gone] at left
          simpa [TaskList.delete, gone] using left

end Alone

/-! ### The entries on their way out -/

/-- The entry that a thread has taken out and not deleted yet. -/
def Pc.taken : Pc N R → Option N
  | .done _ result => result
  | .reading _ mt | .deleting _ mt _ => some mt
  | .idle | .calling _ | .allocating _ | .inside _ _ | .returning _ _ => none

def State.out (s : State T N R) (n : N) : Prop := ∃ t, (s.pc t).taken = some n

/-- `l'` is `l` without the entries of `out`. -/
structure Masked (out : N → Prop) (l l' : TaskList N R) : Prop where
  head : l'.head = l.head
  tail : l'.tail = l.tail
  made : l'.made = l.made
  left : ∀ n, ¬ out n → l'.task n = l.task n
  gone : ∀ n, out n → l'.task n = none

/-- What a statement makes of `l` and of `l'`, if it finds all that it needs in `l'`: nothing that
is masked changes. -/
def Agrees (out : N → Prop) (l : TaskList N R) :
    Outcome (TaskList N R) (Line N R) (Option N) → Outcome (TaskList N R) (Line N R) (Option N) →
      Prop
  | .crash, _ => True
  | .next l' line, outcome => ∃ after, outcome = .next after line ∧ Masked out after l' ∧
      ∀ n, out n → after.task n = l.task n
  | .done l' result, outcome => ∃ after, outcome = .done after result ∧ Masked out after l' ∧
      ∀ n, out n → after.task n = l.task n

section Masks

variable {out : N → Prop} {l l' : TaskList N R}

omit [DecidableEq N] in
theorem Masked.congr {out' : N → Prop} (masked : Masked out l l') (same : ∀ n, out' n ↔ out n) :
    Masked out' l l' :=
  ⟨masked.head, masked.tail, masked.made, fun n here => masked.left n ((same n).not.mp here),
    fun n away => masked.gone n ((same n).mp away)⟩

omit [DecidableEq N] in
theorem Masked.next (masked : Masked out l l') (line : Line N R) :
    Agrees out l (.next l' line) (.next l line) :=
  ⟨l, rfl, masked, fun _ _ => rfl⟩

omit [DecidableEq N] in
theorem Masked.done (masked : Masked out l l') (result : Option N) :
    Agrees out l (.done l' result) (.done l result) :=
  ⟨l, rfl, masked, fun _ _ => rfl⟩

omit [DecidableEq N] in
theorem Masked.setHead (masked : Masked out l l') (head : Option N) :
    Masked out { l with head := head } { l' with head := head } :=
  ⟨rfl, masked.tail, masked.made, masked.left, masked.gone⟩

omit [DecidableEq N] in
theorem Masked.setTail (masked : Masked out l l') (tail : Option N) :
    Masked out { l with tail := tail } { l' with tail := tail } :=
  ⟨masked.head, rfl, masked.made, masked.left, masked.gone⟩

/-- An entry that is not masked is written. -/
theorem Masked.write (masked : Masked out l l') {n : N} (seen : ¬ out n)
    (task : Option (Task N R)) : Masked out { l with task := Function.update l.task n task }
      { l' with task := Function.update l'.task n task } := by
  refine ⟨masked.head, masked.tail, masked.made, fun m here => ?_, fun m away => ?_⟩
  · by_cases same : m = n
    · simp [same]
    · simp [same, masked.left m here]
  · have other : m ≠ n := fun same => seen (same ▸ away)
    simp [other, masked.gone m away]

omit [DecidableEq N] in
theorem Masked.load (masked : Masked out l l') (i : Option N)
    {rest rest' : Task N R → Outcome (TaskList N R) (Line N R) (Option N)}
    (agree : ∀ task, Agrees out l (rest' task) (rest task)) :
    Agrees out l (Shared.load l' i rest') (Shared.load l i rest) := by
  cases found : i.bind l'.task with
  | none =>
    rw [Shared.load, found]
    trivial
  | some task =>
    obtain ⟨n, rfl, there⟩ := Option.bind_eq_some_iff.mp found
    have seen : ¬ out n := fun away => by simp [masked.gone n away] at there
    have same : l.task n = some task := by rw [← masked.left n seen, there]
    simpa [Shared.load, there, same] using agree task

omit [DecidableEq N] in
theorem Agrees.since {m : TaskList N R}
    {outcome' outcome : Outcome (TaskList N R) (Line N R) (Option N)}
    (agrees : Agrees out m outcome' outcome) (kept : ∀ n, out n → m.task n = l.task n) :
    Agrees out l outcome' outcome := by
  cases outcome' with
  | crash => trivial
  | next | done =>
    obtain ⟨after, same, masked, still⟩ := agrees
    exact ⟨after, same, masked, fun n away => (still n away).trans (kept n away)⟩

/-- A write finds its entry in both, or there is none in the masked list. -/
theorem Masked.store (masked : Masked out l l') (i : Option N) (change : Task N R → Task N R)
    {rest : TaskList N R → Outcome (TaskList N R) (Line N R) (Option N)}
    (agree : ∀ m m', Masked out m m' → Agrees out m (rest m') (rest m)) :
    Agrees out l (Shared.store l' i change rest) (Shared.store l i change rest) := by
  cases i with
  | none => trivial
  | some n =>
    cases there : l'.task n with
    | none =>
      simp only [Shared.store, there]
      trivial
    | some task =>
      have seen : ¬ out n := fun away => by simp [masked.gone n away] at there
      have same : l.task n = some task := by rw [← masked.left n seen, there]
      simp only [Shared.store, there, same]
      refine (agree _ _ (masked.write seen _)).since fun m away => ?_
      have other : m ≠ n := fun same => seen (same ▸ away)
      simp [other]

/-- A statement does to a list what it does to the list without the masked entries. -/
theorem Masked.statement (masked : Masked out l l') (line : Line N R)
    (fresh : ∀ r i, line = .addNew r i → ¬ out i) :
    Agrees out l (Shared.statement l' line) (Shared.statement l line) := by
  cases line with
  | addNew r i =>
    have seen := fresh r i rfl
    have written := masked.write seen (some ⟨none, none, r⟩)
    refine ⟨_, rfl, ⟨written.head, written.tail, by rw [masked.made], written.left, written.gone⟩,
      fun n away => ?_⟩
    have other : n ≠ i := fun same => seen (same ▸ away)
    simp [other]
  | addTail i =>
    simp only [Shared.statement, masked.tail]
    split
    · exact masked.next _
    · exact masked.next _
  | popHead =>
    simp only [Shared.statement, masked.head]
    split
    · exact masked.done none
    · exact masked.next _
  | popTail =>
    simp only [Shared.statement, masked.head, masked.tail]
    split
    · exact masked.next _
    · exact masked.next _
  | oneResult | firstResult =>
    simp only [Shared.statement, masked.head]
    exact masked.next _
  | onlyHead i => exact ((masked.setHead (some i)).next _).since fun _ _ => rfl
  | oneHead result => exact ((masked.setHead none).next _).since fun _ _ => rfl
  | onlyTail i | lastTail i => exact ((masked.setTail (some i)).done none).since fun _ _ => rfl
  | oneTail result => exact ((masked.setTail none).done result).since fun _ _ => rfl
  | lastNext i =>
    simp only [Shared.statement, masked.tail]
    exact masked.store _ _ fun m m' after => after.next _
  | lastPrev i =>
    simp only [Shared.statement, masked.tail]
    exact masked.store _ _ fun m m' after => after.next _
  | firstPrev result =>
    simp only [Shared.statement, masked.head]
    exact masked.store _ _ fun m m' after => after.next _
  | firstNext result => exact masked.store _ _ fun m m' after => after.done result
  | firstHead result =>
    simp only [Shared.statement, masked.head]
    exact masked.load _ fun task => ((masked.setHead task.next).next _).since fun _ _ => rfl

end Masks

/-! ### All threads -/

/-- What a thread does, seen as if `add` began with its entry and `pop` took its own out before the
unlock. -/
def Pc.view (l : TaskList N R) : Pc N R → Monitor.Pc (Op N R) (Line N R) (Option R)
  | .idle | .calling (.add _) | .allocating _ => .idle
  | .calling .pop => .calling .pop
  | .inside o line => .inside o line
  | .done o result => .done o (result.bind l.routine)
  | .reading o mt => .returning o (l.routine mt)
  | .deleting o _ routine => .returning o (some routine)
  | .returning o result => .returning o result

def Pc.allocates : Pc N R → Bool
  | .allocating _ => true
  | _ => false

/-- The thread that has the mutex and is not at its `new`. -/
def owning (mutex : Option T) (pc : T → Pc N R) : Option T :=
  mutex.filter fun t => !(pc t).allocates

omit [DecidableEq N] [DecidableEq T] in
@[simp] theorem owning_none (pc : T → Pc N R) : owning none pc = none := rfl

omit [DecidableEq N] [DecidableEq T] in
@[simp] theorem owning_some (t : T) (pc : T → Pc N R) :
    owning (some t) pc = if (pc t).allocates then none else some t := by
  cases at_new : (pc t).allocates <;> simp [owning, Option.filter, at_new]

abbrev Guarded (T N R : Type) :=
  Monitor.State T Unit Unit (Op N R) (TaskList N R) (Line N R) (Option R)

/-- A state beside the one without the entries on their way out, and the queue. -/
structure Seen (s : State T N R) (m : Guarded T N R) (q : Queue T N R) : Prop where
  running : s.crashed = false
  owner : m.mutex () = owning s.mutex s.pc
  allocating : ∀ t r, s.pc t = .allocating r → s.mutex = some t
  pc : ∀ t, m.pc t = (s.pc t).view s.list
  masked : Masked s.out s.list (m.mem ())
  once : ∀ t u n, (s.pc t).taken = some n → (s.pc u).taken = some n → t = u
  allocated : ∀ n, s.out n → (s.list.task n).isSome
  begun : ∀ t o r i, s.pc t ≠ .inside o (.addNew r i)
  related : Related code Represents perform m q

section Steps

variable {s next : State T N R} {m m' : Guarded T N R} {q q' : Queue T N R} {t : T} {p : Pc N R}
  {address : N}

omit [DecidableEq T] [DecidableEq N] in
theorem Pc.view_congr {l l' : TaskList N R} (same : ∀ n, p.taken = some n → l'.task n = l.task n) :
    p.view l' = p.view l := by
  cases p with
  | done o result =>
    cases result with
    | none => rfl
    | some n => simp [Pc.view, TaskList.routine, same n rfl]
  | reading o mt => simp [Pc.view, TaskList.routine, same mt rfl]
  | calling c => cases c <;> rfl
  | idle | allocating | inside | deleting | returning => rfl

/-- A step of `t` that takes an entry out, deletes one, or writes to the list. -/
theorem Seen.moved (seen : Seen s m q) {list : TaskList N R} {mutex : Option T}
    (related : Related code Represents perform m' q')
    (held : m'.mutex () = owning mutex (Function.update s.pc t p))
    (pc : m'.pc = Function.update m.pc t (p.view list))
    (masked : Masked (fun n => p.taken = some n ∨ ∃ u, u ≠ t ∧ (s.pc u).taken = some n) list
      (m'.mem ()))
    (mine : ∀ n, p.taken = some n →
      (list.task n).isSome ∧ ∀ u, u ≠ t → (s.pc u).taken ≠ some n)
    (kept : ∀ u n, u ≠ t → (s.pc u).taken = some n → list.task n = s.list.task n)
    (allocating : ∀ r, p = .allocating r → mutex = some t)
    (others : ∀ u r, u ≠ t → s.pc u = .allocating r → mutex = some u)
    (begun : ∀ o r i, p ≠ .inside o (.addNew r i)) :
    Seen { s.goto t p with list := list, mutex := mutex } m' q' := by
  have out (n : N) : State.out { s.goto t p with list := list, mutex := mutex } n ↔
      p.taken = some n ∨ ∃ u, u ≠ t ∧ (s.pc u).taken = some n := by
    constructor
    · rintro ⟨u, taken⟩
      by_cases same : u = t
      · subst same
        exact .inl (by simpa [State.goto] using taken)
      · exact .inr ⟨u, same, by simpa [State.goto, same] using taken⟩
    · rintro (taken | ⟨u, other, taken⟩)
      · exact ⟨t, by simpa [State.goto] using taken⟩
      · exact ⟨u, by simpa [State.goto, other] using taken⟩
  refine ⟨seen.running, held, fun u r at_new => ?_, fun u => ?_, ?_,
    fun u v n first second => ?_, fun n away => ?_, fun u o r i adds => ?_, related⟩
  · simp only [State.goto] at at_new
    by_cases same : u = t
    · subst same
      exact allocating r (by simpa using at_new)
    · rw [Function.update_of_ne same] at at_new
      exact others u r same at_new
  · rw [pc]
    by_cases same : u = t
    · subst same
      simp [State.goto]
    · simp only [State.goto, Function.update_of_ne same, seen.pc]
      exact (Pc.view_congr fun n taken => kept u n same taken).symm
  · exact masked.congr out
  · simp only [State.goto] at first second
    by_cases one : u = t
    · by_cases two : v = t
      · exact one.trans two.symm
      · rw [one, Function.update_self] at first
        rw [Function.update_of_ne two] at second
        exact absurd second ((mine n first).2 v two)
    · by_cases two : v = t
      · rw [two, Function.update_self] at second
        rw [Function.update_of_ne one] at first
        exact absurd first ((mine n second).2 u one)
      · rw [Function.update_of_ne one] at first
        rw [Function.update_of_ne two] at second
        exact seen.once u v n first second
  · rcases (out n).mp away with taken | ⟨u, other, taken⟩
    · exact (mine n taken).1
    · rw [kept u n other taken]
      exact seen.allocated n ⟨u, taken⟩
  · simp only [State.goto] at adds
    by_cases same : u = t
    · subst same
      exact begun o r i (by simpa using adds)
    · rw [Function.update_of_ne same] at adds
      exact seen.begun u o r i adds

/-- A step of `t` that leaves the list and the entry that `t` has. -/
theorem Seen.still (seen : Seen s m q) {mutex : Option T}
    (related : Related code Represents perform m' q')
    (held : m'.mutex () = owning mutex (Function.update s.pc t p))
    (pc : m'.pc = Function.update m.pc t (p.view s.list)) (mem : m'.mem () = m.mem ())
    (taken : p.taken = (s.pc t).taken) (allocating : ∀ r, p = .allocating r → mutex = some t)
    (others : ∀ u r, u ≠ t → s.pc u = .allocating r → mutex = some u)
    (begun : ∀ o r i, p ≠ .inside o (.addNew r i)) :
    Seen { s.goto t p with mutex := mutex } m' q' := by
  refine seen.moved related held pc ?_ (fun n mine => ?_) (fun _ _ _ _ => rfl)
    allocating others begun
  · rw [mem]
    refine seen.masked.congr fun n => ?_
    constructor
    · rintro (mine | ⟨u, -, theirs⟩)
      · exact ⟨t, taken ▸ mine⟩
      · exact ⟨u, theirs⟩
    · rintro ⟨u, theirs⟩
      by_cases same : u = t
      · exact .inl (by rw [taken, ← same, theirs])
      · exact .inr ⟨u, same, theirs⟩
  · rw [taken] at mine
    exact ⟨seen.allocated n ⟨t, mine⟩, fun u other theirs => other (seen.once u t n theirs mine)⟩

/-- A step of `t` from and to where it is not at the `new` leaves the owner. -/
theorem Seen.owner_kept (seen : Seen s m q) (before : (s.pc t).allocates = false)
    (after : p.allocates = false) : m.mutex () = owning s.mutex (Function.update s.pc t p) := by
  rw [seen.owner, owning, owning]
  congr 1
  funext u
  by_cases same : u = t
  · simp [same, before, after]
  · rw [Function.update_of_ne same]

/-- A step of the guarded operations takes the queue along its deed. -/
theorem follow_deed (related : Related code Represents perform m q) {event : Event (Op N R)}
    (stepped : (Monitor.machine code .empty).step m (t, event) = some m') :
    ∃ q', queue.exec q (deed (t, event)).toList = some q' ∧ Related code Represents perform m' q' :=
  follows code_correct .empty [] m q _ m' related (matched_of_one (fun _ _ _ => rfl) m _) stepped

omit [DecidableEq T] in
/-- The owner is where the guarded operation has the mutex. -/
theorem Seen.held (seen : Seen s m q) (holds : (m.pc t).holds code () = true) :
    m.mutex () = some t ∧ s.mutex = some t := by
  have owned := (seen.related.owned () t).mpr holds
  refine ⟨owned, ?_⟩
  rw [seen.owner, owning, Option.filter_eq_some_iff] at owned
  exact owned.1

/-- The statements that are left of an operation. -/
def Line.left : Line N R → Nat
  | .addNew _ _ => 7
  | .addTail _ | .popHead => 6
  | .popTail => 5
  | .firstResult | .lastNext _ => 4
  | .oneResult | .firstHead _ | .lastPrev _ => 3
  | .onlyHead _ | .oneHead _ | .firstPrev _ => 2
  | .onlyTail _ | .lastTail _ | .oneTail _ | .firstNext _ => 1

omit [DecidableEq T] in
theorem next_left {l l' : TaskList N R} {line line' : Line N R}
    (taken : statement l line = .next l' line') : line'.left < line.left := by
  cases line with
  | addTail | popHead | popTail =>
    simp only [statement] at taken
    split at taken <;> cases taken <;> simp [Line.left]
  | lastNext | firstPrev | firstNext =>
    simp only [statement, store] at taken
    split at taken
    · cases taken
    · split at taken <;> cases taken <;> simp [Line.left]
  | lastPrev =>
    simp only [statement, store] at taken
    split at taken
    · cases taken
    · cases taken
      simp [Line.left]
  | firstHead =>
    simp only [statement, load] at taken
    split at taken
    · cases taken
    · cases taken
      simp [Line.left]
  | _ => cases taken <;> simp [Line.left]

omit [DecidableEq T] [DecidableEq N] in
theorem Line.left_le (line : Line N R) : line.left ≤ 7 := by
  cases line <;> simp [Line.left]

/-- A statement of `t`, for which the guarded operation is ready. -/
theorem Seen.advance (seen : Seen s m q) {o : Op N R} {line : Line N R}
    (related : Related code Represents perform m' q')
    (ready : m'.pc = Function.update m.pc t (.inside o line)) (mem : m'.mem () = m.mem ())
    (locked : m'.mutex () = some t) (held : s.mutex = some t) (empty : (s.pc t).taken = none)
    (fresh : ∀ r i, line = .addNew r i → ¬ s.out i) :
    ∃ m', Seen (s.take t o (Shared.statement s.list line)) m' q' := by
  -- the statement does not go wrong without the entries on their way out
  have related' : Related code Represents perform
      (m'.take t o () (handOver (Shared.statement (m.mem ()) line))) q' := by
    have inside : m'.pc t = .inside o line := by rw [ready, Function.update_self]
    have stated := related.statement inside
    rwa [show m'.mem (code.object o) = m.mem () from mem] at stated
  have fine := related'.running
  have agrees := seen.masked.statement line fresh
  have owner (p : Pc N R) (past : p.allocates = false) :
      m'.mutex () = owning s.mutex (Function.update s.pc t p) := by
    simp [held, past, locked]
  have out (n : N) : s.out n ↔ ∃ u, u ≠ t ∧ (s.pc u).taken = some n := by
    constructor
    · rintro ⟨u, theirs⟩
      exact ⟨u, fun same => by simp [same, empty] at theirs, theirs⟩
    · rintro ⟨u, -, theirs⟩
      exact ⟨u, theirs⟩
  cases taken : Shared.statement (m.mem ()) line with
  | crash => simp [taken, handOver, Monitor.State.take] at fine
  | next l' line' =>
    rw [taken] at agrees related'
    obtain ⟨after, same, masked, kept⟩ := agrees
    rw [same]
    refine ⟨_, seen.moved (p := .inside o line') related' (owner _ rfl) ?_ ?_ (by simp [Pc.taken])
      (fun u n _ theirs => kept n ⟨u, theirs⟩) (fun r new => by cases new)
      (fun u r _ => seen.allocating u r) fun o' r i new => ?_⟩
    · simp [Monitor.State.take, Monitor.State.goto, handOver, ready, Pc.view]
    · refine masked.congr fun n => ?_
      simp [Pc.taken, out]
    · cases new
      -- `new` is only called first
      have less : 7 < line.left := next_left taken
      exact absurd line.left_le (Nat.not_le.mpr less)
  | done l' result =>
    rw [taken] at agrees related' fine
    obtain ⟨after, same, masked, kept⟩ := agrees
    rw [same]
    cases result with
    | none =>
      refine ⟨_, seen.moved (p := .done o none) related' (owner _ rfl) ?_ ?_ (by simp [Pc.taken])
        (fun u n _ theirs => kept n ⟨u, theirs⟩) (fun r new => by cases new)
        (fun u r _ => seen.allocating u r) fun o' r i new => by cases new⟩
      · simp [Monitor.State.take, Monitor.State.goto, handOver, ready, Pc.view]
      · refine masked.congr fun n => ?_
        simp [Pc.taken, out]
    | some n =>
      cases found : l'.task n with
      | none => simp [handOver, load, found, Monitor.State.take] at fine
      | some task =>
        -- the entry goes out with its routine, and is no other thread's
        have visible : ¬ s.out n := fun away => by simp [masked.gone n away] at found
        have there : after.task n = some task := by rw [← masked.left n visible, found]
        have handed : handOver (.done l' (some n)) =
            .done (l'.delete n) (some task.routine) := by simp [handOver, load, found]
        rw [handed] at related'
        refine ⟨_, seen.moved (p := .done o (some n)) related' (owner _ rfl) ?_ ?_
          (fun i mine => ?_) (fun u n _ theirs => kept n ⟨u, theirs⟩) (fun r new => by cases new)
          (fun u r _ => seen.allocating u r) fun o' r i new => by cases new⟩
        · simp [Monitor.State.take, Monitor.State.goto, ready, Pc.view, TaskList.routine, there]
        · refine ⟨masked.head, masked.tail, masked.made, fun i here => ?_, fun i away => ?_⟩
          · obtain ⟨differs, here⟩ := not_or.mp here
            have other : i ≠ n := fun same => differs (by rw [same, Pc.taken])
            simpa [Monitor.State.take, TaskList.delete, other] using
              masked.left i ((out i).not.mpr here)
          · by_cases same : i = n
            · simp [Monitor.State.take, TaskList.delete, same]
            · have theirs := away.resolve_left fun mine =>
                same (by simpa [Pc.taken, eq_comm] using mine)
              simpa [Monitor.State.take, TaskList.delete, same] using
                masked.gone i ((out i).mpr theirs)
        · obtain rfl : n = i := by simpa [Pc.taken] using mine
          exact ⟨by simp [there], fun u _ theirs => visible ⟨u, theirs⟩⟩

/-- A statement under the mutex. -/
theorem Seen.statement (seen : Seen s m q) {o : Op N R} {line : Line N R}
    (at_pc : s.pc t = .inside o line) :
    ∃ m', Seen (s.take t o (Shared.statement s.list line)) m' q := by
  have view : m.pc t = .inside o line := by rw [seen.pc, at_pc, Pc.view]
  have held := seen.held (t := t) (by simp [view, Monitor.Pc.holds, code])
  refine seen.advance seen.related ?_ rfl held.1 held.2 (by rw [at_pc, Pc.taken]) fun r i adds => ?_
  · rw [← view, Function.update_eq_self]
  · exact absurd (by rw [at_pc, adds]) (seen.begun t o r i)

/-- The `new`: only now, to the guarded operation, the `add` is called and locks the mutex. -/
theorem Seen.allocate (seen : Seen s m q) {r : R} {address : N} (at_new : s.pc t = .allocating r)
    (free : s.list.task address = none) :
    ∃ m' q', queue.exec q [(t, .call (.add r address))] = some q' ∧
      Seen (s.take t (.add r address) (Shared.statement s.list (.addNew r address))) m' q' := by
  have held := seen.allocating t r at_new
  have view : m.pc t = .idle := by rw [seen.pc, at_new, Pc.view]
  have unlocked : m.mutex () = none := by simp [seen.owner, held, at_new, Pc.allocates]
  have hidden : ¬ s.out address := fun away => by simpa [free] using seen.allocated address away
  have called : (Monitor.machine code .empty).step m (t, .call (.add r address)) =
      some (m.goto t (.calling (.add r address))) := by
    simp [Monitor.machine, Monitor.step, seen.related.running, view]
  obtain ⟨q', performed, related⟩ := follow_deed seen.related called
  have legal : code.legal (m.mem ()) (.add r address) :=
    (seen.masked.left address hidden).trans free
  have locked : (Monitor.machine code .empty).step (m.goto t (.calling (.add r address)))
      (t, .lock) = some { m.goto t (.inside (.add r address) (.addNew r address)) with
        mutex := Function.update m.mutex () (some t) } := by
    simp only [Monitor.machine, Monitor.step, Monitor.State.goto, seen.related.running,
      Function.update_self, Bool.false_eq_true, if_false]
    rw [if_pos ⟨unlocked, legal⟩, Function.update_idem]
    rfl
  obtain ⟨q₁, same, related⟩ := follow_deed related locked
  obtain rfl : q' = q₁ := Option.some.inj same
  obtain ⟨m', seen'⟩ := seen.advance related rfl rfl (by simp) held (by rw [at_new, Pc.taken])
    fun r' i new => by
      cases new
      exact hidden
  exact ⟨m', q', performed, seen'⟩

/-- The `trylock` that succeeds. -/
theorem Seen.lock (seen : Seen s m q) {c : Call R} (calling : s.pc t = .calling c)
    (free : s.mutex = none) (address : N) :
    ∃ next m', run s t address = some next ∧ Seen next m' q := by
  have unlocked : m.mutex () = none := by simp [seen.owner, free]
  have none_allocates (u : T) (r : R) : s.pc u ≠ .allocating r := fun at_new => by
    simpa [free] using seen.allocating u r at_new
  cases c with
  | add r =>
    have view : m.pc t = .idle := by rw [seen.pc, calling, Pc.view]
    refine ⟨{ s.goto t (.allocating r) with mutex := some t }, m, by simp [run, calling, free],
      seen.still (p := .allocating r) seen.related ?_ ?_ rfl (by rw [calling]; rfl)
      (fun _ _ => rfl) (fun u r' _ at_new => absurd at_new (none_allocates u r'))
      fun o r' i new => by cases new⟩
    · simp [Pc.allocates, unlocked]
    · rw [Pc.view, ← view, Function.update_eq_self]
  | pop =>
    have view : m.pc t = .calling .pop := by rw [seen.pc, calling, Pc.view]
    have locked : (Monitor.machine code .empty).step m (t, .lock) =
        some { m.goto t (.inside .pop .popHead) with
          mutex := Function.update m.mutex () (some t) } := by
      simp only [Monitor.machine, Monitor.step, seen.related.running, view, Bool.false_eq_true,
        if_false]
      exact if_pos ⟨unlocked, trivial⟩
    obtain ⟨q', same, related⟩ := follow_deed seen.related locked
    obtain rfl : q = q' := Option.some.inj same
    refine ⟨{ s.goto t (.inside .pop .popHead) with mutex := some t }, _,
      by simp [run, calling, free],
      seen.still (p := .inside .pop .popHead) related ?_ rfl rfl
      (by rw [calling]; rfl) (fun r new => by cases new)
      (fun u r _ at_new => absurd at_new (none_allocates u r)) fun o r i new => by cases new⟩
    simp [Pc.allocates]

/-- The `delete` of an entry that is out. -/
theorem Seen.delete (seen : Seen s m q) {o : Op N R} {mt : N} {routine : R}
    (deleting : s.pc t = .deleting o mt routine) :
    ∃ m', Seen { s.goto t (.returning o (some routine)) with list := s.list.delete mt } m' q := by
  have mine : (s.pc t).taken = some mt := by rw [deleting, Pc.taken]
  have differs {u : T} {n : N} (other : u ≠ t) (theirs : (s.pc u).taken = some n) : n ≠ mt :=
    fun same => other (seen.once u t n theirs (same ▸ mine))
  have view : m.pc t = .returning o (some routine) := by rw [seen.pc, deleting, Pc.view]
  refine ⟨m, seen.moved (p := .returning o (some routine)) seen.related
    (seen.owner_kept (by rw [deleting]; rfl) rfl) ?_ ?_ (fun n taken => by cases taken)
    (fun u n other theirs => ?_) (fun r new => by cases new) (fun u r _ => seen.allocating u r)
    fun o' r i new => by cases new⟩
  · rw [Pc.view, ← view, Function.update_eq_self]
  · refine ⟨seen.masked.head, seen.masked.tail, seen.masked.made, fun n here => ?_,
      fun n away => ?_⟩
    · by_cases same : n = mt
      · -- what is deleted was masked
        simpa [TaskList.delete, same] using seen.masked.gone mt ⟨t, mine⟩
      · have visible : ¬ s.out n := by
          rintro ⟨u, theirs⟩
          by_cases self : u = t
          · rw [self, mine, Option.some.injEq] at theirs
            exact same theirs.symm
          · exact here (.inr ⟨u, self, theirs⟩)
        simpa [TaskList.delete, same] using seen.masked.left n visible
    · obtain ⟨u, -, theirs⟩ := away.resolve_left fun taken => by cases taken
      exact seen.masked.gone n ⟨u, theirs⟩
  · simp [TaskList.delete, differs other theirs]

/-- The `pthread_mutex_unlock`. -/
theorem Seen.unlock (seen : Seen s m q) {o : Op N R} {result : Option N}
    (done : s.pc t = .done o result) (past : p.allocates = false)
    (view : p.view s.list = .returning o (result.bind s.list.routine))
    (taken : p.taken = result) (begun : ∀ o r i, p ≠ .inside o (.addNew r i)) :
    ∃ m' q', queue.exec q [(t, .perform)] = some q' ∧
      Seen { s.goto t p with mutex := none } m' q' := by
  have at_unlock : m.pc t = .done o (result.bind s.list.routine) := by rw [seen.pc, done, Pc.view]
  have held := (seen.held (t := t) (by simp [at_unlock, Monitor.Pc.holds, code])).2
  have unlocked : (Monitor.machine code .empty).step m (t, .unlock) =
      some { m.goto t (.returning o (result.bind s.list.routine)) with
        mutex := Function.update m.mutex () none } := by
    simp [Monitor.machine, Monitor.step, seen.related.running, at_unlock, code]
  obtain ⟨q', performed, related⟩ := follow_deed seen.related unlocked
  refine ⟨_, q', performed, seen.still related (by simp) ?_ rfl (by rw [done, taken, Pc.taken])
    (fun r new => ?_) (fun u r other at_new => ?_) begun⟩
  · rw [view]
    rfl
  · rw [new] at past
    cases past
  · have theirs := seen.allocating u r at_new
    rw [held, Option.some.injEq] at theirs
    exact absurd theirs.symm other

/-- A step of `t` that only moves it, between lines where it is not at the `new`. -/
theorem Seen.walk (seen : Seen s m q) (related : Related code Represents perform m' q')
    (before : (s.pc t).allocates = false) (after : p.allocates = false)
    (mutex : m'.mutex () = m.mutex ()) (pc : m'.pc = Function.update m.pc t (p.view s.list))
    (mem : m'.mem () = m.mem ()) (taken : p.taken = (s.pc t).taken)
    (begun : ∀ o r i, p ≠ .inside o (.addNew r i)) : Seen (s.goto t p) m' q' := by
  refine seen.still related (mutex.trans (seen.owner_kept before after)) pc mem taken
    (fun r new => ?_) (fun u r _ => seen.allocating u r) begun
  rw [new] at after
  cases after

/-- A call, which the guarded operations take over where it is a `pop`. -/
theorem Seen.call (seen : Seen s m q) (idle : s.pc t = .idle) (c : Call R) :
    ∃ m' q', queue.exec q (deeds s (.call t c)) = some q' ∧ Seen (s.goto t (.calling c)) m' q' := by
  have view : m.pc t = .idle := by rw [seen.pc, idle, Pc.view]
  cases c with
  | add r =>
    refine ⟨m, q, rfl, seen.walk (p := .calling (.add r)) seen.related (by rw [idle]; rfl) rfl rfl
      ?_ rfl (by rw [idle]; rfl) fun o r i new => by cases new⟩
    rw [Pc.view, ← view, Function.update_eq_self]
  | pop =>
    have called : (Monitor.machine code .empty).step m (t, .call .pop) =
        some (m.goto t (.calling .pop)) := by
      simp [Monitor.machine, Monitor.step, seen.related.running, view]
    obtain ⟨q', performed, related⟩ := follow_deed seen.related called
    exact ⟨_, q', performed, seen.walk (p := .calling .pop) related (by rw [idle]; rfl) rfl rfl rfl
      rfl (by rw [idle]; rfl) fun o r i new => by cases new⟩

/-- Every step takes the queue along its deeds. -/
theorem machine_follows : (machine T N R).Follows queue (fun _ _ => True) deeds
    fun s q => ∃ m, Seen s m q := by
  rintro s q label next ⟨m, seen⟩ - stepped
  simp only [machine, step, seen.running, Bool.false_eq_true, if_false] at stepped
  cases label with
  | call t c =>
    simp only at stepped
    split at stepped
    next idle =>
      cases stepped
      obtain ⟨m', q', performed, seen'⟩ := seen.call idle c
      exact ⟨q', performed, m', seen'⟩
    · cases stepped
  | run t address =>
    simp only at stepped
    cases at_pc : s.pc t with
    | idle => simp [run, at_pc] at stepped
    | calling c =>
      refine ⟨q, by simp [deeds, at_pc], ?_⟩
      cases mutex : s.mutex with
      | none =>
        obtain ⟨after, m', ran, seen'⟩ := seen.lock at_pc mutex address
        rw [ran] at stepped
        cases stepped
        exact ⟨m', seen'⟩
      | some holder =>
        simp only [run, at_pc, mutex] at stepped
        cases stepped
        exact ⟨m, seen⟩
    | allocating r =>
      simp only [run, at_pc] at stepped
      split at stepped
      next free =>
        cases stepped
        obtain ⟨m', q', performed, seen'⟩ := seen.allocate at_pc free
        exact ⟨q', by rw [deeds, at_pc, performed], m', seen'⟩
      · cases stepped
    | inside o line =>
      simp only [run, at_pc] at stepped
      cases stepped
      exact ⟨q, by simp [deeds, at_pc], seen.statement at_pc⟩
    | done o result =>
      cases result with
      | none =>
        simp only [run, at_pc] at stepped
        cases stepped
        obtain ⟨m', q', performed, seen'⟩ := seen.unlock (p := .returning o none) at_pc rfl rfl rfl
          fun o r i new => by cases new
        exact ⟨q', by rw [deeds, at_pc, performed], m', seen'⟩
      | some mt =>
        simp only [run, at_pc] at stepped
        cases stepped
        obtain ⟨m', q', performed, seen'⟩ := seen.unlock (p := .reading o mt) at_pc rfl rfl rfl
          fun o r i new => by cases new
        exact ⟨q', by rw [deeds, at_pc, performed], m', seen'⟩
    | reading o mt =>
      obtain ⟨task, found⟩ :=
        Option.isSome_iff_exists.mp (seen.allocated mt ⟨t, by rw [at_pc]; rfl⟩)
      simp only [run, at_pc, found] at stepped
      cases stepped
      have view : m.pc t = .returning o (some task.routine) := by
        rw [seen.pc, at_pc, Pc.view, TaskList.routine, found, Option.map_some]
      refine ⟨q, by simp [deeds, at_pc], m, seen.walk (p := .deleting o mt task.routine)
        seen.related (by rw [at_pc]; rfl) rfl rfl ?_ rfl (by rw [at_pc]; rfl)
        fun o r i new => by cases new⟩
      rw [Pc.view, ← view, Function.update_eq_self]
    | deleting o mt routine =>
      obtain ⟨task, found⟩ :=
        Option.isSome_iff_exists.mp (seen.allocated mt ⟨t, by rw [at_pc]; rfl⟩)
      simp only [run, at_pc, found] at stepped
      cases stepped
      exact ⟨q, by simp [deeds, at_pc], seen.delete at_pc⟩
    | returning o result =>
      simp only [run, at_pc] at stepped
      cases stepped
      have view : m.pc t = .returning o result := by rw [seen.pc, at_pc, Pc.view]
      have returned : (Monitor.machine code .empty).step m (t, .ret) = some (m.goto t .idle) := by
        simp [Monitor.machine, Monitor.step, seen.related.running, view]
      obtain ⟨q', performed, related⟩ := follow_deed seen.related returned
      exact ⟨q', by rw [deeds, at_pc]; exact performed, _, seen.walk (p := .idle) related
        (by rw [at_pc]; rfl) rfl rfl rfl rfl (by rw [at_pc]; rfl) fun o r i new => by cases new⟩

/-! ### Runs -/

omit [DecidableEq T] in
theorem start_seen : Seen (start : State T N R) (Monitor.start .empty) (.start []) where
  running := rfl
  owner := rfl
  allocating t r new := by cases new
  pc _ := rfl
  masked := by
    refine ⟨rfl, rfl, rfl, fun _ _ => rfl, fun n away => ?_⟩
    simp [State.out, start, Pc.taken] at away
  once t u n taken := by simp [start, Pc.taken] at taken
  allocated n away := by simp [State.out, start, Pc.taken] at away
  begun t o r i adds := by cases adds
  related := start_related empty_represents

omit [DecidableEq N] in
/-- What is linked, for one who does not see the entries on their way out, is linked. -/
theorem Masked.represents {out : N → Prop} {l l' : TaskList N R} {routines : List R}
    (masked : Masked out l l') (allocated : ∀ n, out n → (l.task n).isSome)
    (stands : Represents l' routines) : ∃ entries, Holds l entries routines ∧
      ∀ n, (l.task n).isSome ↔ n ∈ entries ∨ out n := by
  obtain ⟨entries, holds, all⟩ := stands
  have same (n : N) (inside : n ∈ entries) : l.task n = l'.task n := by
    have there := (all n).mpr inside
    have visible : ¬ out n := fun away => by simp [masked.gone n away] at there
    exact (masked.left n visible).symm
  refine ⟨entries, ⟨?_, ?_, ?_⟩, fun n => ?_⟩
  · rw [← masked.head, ← masked.tail]
    refine holds.linked.congr (fun n inside => ?_) fun n inside => ?_
    · rw [TaskList.next, TaskList.next, same n inside]
    · rw [TaskList.prev, TaskList.prev, same n inside]
  · rw [← holds.routines]
    refine List.map_congr_left fun n inside => ?_
    rw [TaskList.routine, TaskList.routine, same n inside]
  · rw [← masked.made]
    exact holds.bound
  · by_cases away : out n
    · simp [away, allocated n away]
    · rw [← masked.left n away, all n, or_iff_left away]

/-- The thread that has the mutex goes on, whatever free address `new` gives. -/
theorem Seen.holder_goes_on (seen : Seen s m q) (held : s.mutex = some t)
    (free : s.list.task address = none) :
    ∃ next, step s (.run t address) = some next ∧ next.crashed = false ∧ next.pc t ≠ s.pc t := by
  have moves (next : State T N R) (ran : run s t address = some next) :
      step s (.run t address) = some next := by simp [step, seen.running, ran]
  have elsewhere (past : (s.pc t).allocates = false)
      (outside : ((s.pc t).view s.list).holds code () = false) : False := by
    have owner : m.mutex () = some t := by simp [seen.owner, held, past]
    have holds := (seen.related.owned () t).mp owner
    rw [seen.pc, outside] at holds
    cases holds
  cases at_pc : s.pc t with
  | allocating r =>
    have ran : run s t address =
        some (s.take t (.add r address) (Shared.statement s.list (.addNew r address))) := by
      simp only [run, at_pc]
      exact if_pos free
    obtain ⟨m', q', -, after⟩ := seen.allocate at_pc free
    exact ⟨_, moves _ ran, after.running, by simp [Shared.statement, State.take, State.goto]⟩
  | inside o line =>
    have stepped := moves _ (by rw [run, at_pc])
    obtain ⟨m', after⟩ := seen.statement at_pc
    refine ⟨_, stepped, after.running, ?_⟩
    cases taken : Shared.statement s.list line with
    | crash =>
      have fine := after.running
      simp [taken, State.take, State.crash] at fine
    | next l line' =>
      have less := next_left taken
      simp only [State.take, State.goto, Function.update_self, ne_eq, Pc.inside.injEq, true_and]
      exact fun same => by simp [same] at less
    | done l result => simp [State.take, State.goto]
  | done o result =>
    cases result with
    | none =>
      have ran : run s t address = some { s.goto t (.returning o none) with mutex := none } := by
        simp [run, at_pc]
      exact ⟨_, moves _ ran, seen.running, by simp [State.goto]⟩
    | some mt =>
      have ran : run s t address = some { s.goto t (.reading o mt) with mutex := none } := by
        simp [run, at_pc]
      exact ⟨_, moves _ ran, seen.running, by simp [State.goto]⟩
  | calling c => cases c <;> exact (elsewhere (by rw [at_pc]; rfl) (by rw [at_pc]; rfl)).elim
  | idle | reading | deleting | returning =>
    exact (elsewhere (by rw [at_pc]; rfl) (by rw [at_pc]; rfl)).elim

/-- In every interleaving of any number of threads: no null pointer and no deleted entry is followed
and none is deleted twice; every call returns what a queue of routines returns that takes the calls
of this interleaving one after another, each when it unlocks; the list in memory is that queue
whenever its mutex is free, and what is allocated besides is an entry that a thread has popped and
not deleted yet; and the thread that has the mutex goes on. -/
theorem waitList_serves (schedule : List (Label T N R)) (s : State T N R)
    (ran : (machine T N R).exec start schedule = some s) :
    ∃ q : Queue T N R,
      queue.exec (.start []) ((machine T N R).shown deeds start schedule) = some q ∧
      s.crashed = false ∧ (∀ t, q.pc t = ((s.pc t).view s.list).seen) ∧
      (s.mutex = none → ∃ entries, Holds s.list entries (q.object ()) ∧
        ∀ n, (s.list.task n).isSome ↔ n ∈ entries ∨ s.out n) ∧
      ∀ t address, s.mutex = some t → s.list.task address = none → ∃ next,
        step s (.run t address) = some next ∧ next.crashed = false ∧ next.pc t ≠ s.pc t := by
  obtain ⟨q, followed, m, seen⟩ :=
    machine_follows.exec ⟨_, start_seen⟩ (fun _ _ _ => trivial) ran
  refine ⟨q, followed, seen.running, fun t => ?_, fun free => ?_,
    fun t address held unused => seen.holder_goes_on held unused⟩
  · rw [seen.related.seen, seen.pc]
  · have unlocked : m.mutex () = none := by simp [seen.owner, free]
    refine seen.masked.represents seen.allocated (seen.related.quiet () fun t => ?_)
    exact seen.related.alone_of_free (o := Op.pop) (fun _ _ _ _ => rfl) unlocked t

end Steps

/-- One thread pops the entry at `0`, and deletes it while another is between the `trylock` and the
`new`, which gives the address `0` again. -/
def handedOver : List (Label Bool Nat Nat) :=
  .call true (.add 7) :: List.replicate 7 (.run true 0) ++
    .call false .pop :: List.replicate 7 (.run false 0) ++
    [.call true (.add 8), .run true 0, .run false 0, .run false 0] ++
    List.replicate 5 (.run true 0)

/-- The `pop` has the first routine, and the second is in the list. -/
theorem waitList_serves_handedOver : ∃ (s : State Bool Nat Nat) (q : Queue Bool Nat Nat),
    (machine Bool Nat Nat).exec start handedOver = some s ∧
      queue.exec (.start []) ((machine Bool Nat Nat).shown deeds start handedOver) = some q ∧
      q.pc false = some (.pop, some (some 7)) ∧ s.list.routine 0 = some 8 ∧
      ∃ entries, Holds s.list entries (q.object ()) ∧ 0 ∈ entries := by
  have all : ((machine Bool Nat Nat).exec start handedOver).map (fun s =>
      (((s.pc false).view s.list).seen, s.mutex.isNone, s.list.routine 0)) =
        some (some (.pop, some (some 7)), true, some 8) := by
    decide +kernel
  have nobody : ((machine Bool Nat Nat).exec start handedOver).map (fun s =>
      ((s.pc false).taken, (s.pc true).taken)) = some (none, none) := by
    decide +kernel
  obtain ⟨s, ran, all⟩ := Option.map_eq_some_iff.mp all
  simp only [ran, Option.map_some, Option.some.injEq, Prod.mk.injEq] at all nobody
  obtain ⟨returned, free, routine⟩ := all
  obtain ⟨first, second⟩ := nobody
  obtain ⟨q, followed, -, seen, stands, -⟩ := waitList_serves handedOver s ran
  obtain ⟨entries, holds, allocated⟩ := stands (Option.isNone_iff_eq_none.mp free)
  have there : (s.list.task 0).isSome := by
    rw [TaskList.routine, Option.map_eq_some_iff] at routine
    obtain ⟨task, found, -⟩ := routine
    simp [found]
  have visible : ¬ s.out 0 := by
    rintro ⟨t, taken⟩
    cases t
    · simp [first] at taken
    · simp [second] at taken
  exact ⟨s, q, ran, followed, (seen false).trans returned, routine, entries, holds,
    ((allocated 0).mp there).resolve_right visible⟩

end BRoutine.BCond.Shared
