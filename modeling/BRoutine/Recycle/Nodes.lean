import BRoutine.Intrusive
import BRoutine.Monitor

/-!
# `List<T>` in memory

The list of the pools with its nodes as `new` and `delete` make and end them, one statement at a
time. `correct` says that alone, `push` and the guarded `pop` of the pools keep a queue.
-/

namespace BRoutine.Nodes

open Intrusive Monitor

variable {N V : Type} [DecidableEq N]

/-- `ListNode` -/
structure ListNode (N V : Type) where
  next : Option N
  prev : Option N
  value : Option V
  deriving DecidableEq, Repr

/-- `List` with the nodes that are allocated -/
structure NodeList (N V : Type) where
  node : N → Option (ListNode N V)
  head : Option N
  tail : Option N
  size : Nat

/-- `push` of a value, with the address that `new` gives, and `pop` as the pools call it -/
inductive Op (N V : Type)
  | push (val : V) (i : N)
  | pop

/-- The statements; `i` is the local variable of that name. -/
inductive Line (N V : Type)
  /-- `DoneRoutines.size() != 0` -/
  | popSize
  /-- `Head == nullptr` -/
  | popHead
  /-- `_size--` -/
  | popDec
  /-- `Tail == Head` -/
  | popTail
  /-- `auto i = Head`, `Head = nullptr` and `Tail = nullptr` where there is one node -/
  | oneNode
  | oneHead (i : Option N)
  | oneTail (i : Option N)
  /-- `auto i = Head`, `Head = Head->next` and `Head->prev = nullptr` where there are more -/
  | firstNode
  | firstHead (i : Option N)
  | firstPrev (i : Option N)
  /-- `auto ret = i->value` -/
  | popValue (i : Option N)
  /-- `delete (i)` -/
  | popDelete (i : Option N) (ret : Option V)
  /-- `_size++` -/
  | pushInc (val : V) (i : N)
  /-- `new (ListNode<T>)` -/
  | pushNew (val : V) (i : N)
  /-- `Tail == nullptr` -/
  | pushTail (val : V) (i : N)
  /-- `Head = i` and `Tail = i` in an empty list -/
  | onlyHead (val : V) (i : N)
  | onlyTail (val : V) (i : N)
  /-- `Tail->next = i`, `i->prev = Tail` and `this->Tail = i` in any other -/
  | lastNext (val : V) (i : N)
  | lastPrev (val : V) (i : N)
  | lastTail (val : V) (i : N)
  /-- `i->value = val` -/
  | pushValue (val : V) (i : N)

namespace NodeList

def empty : NodeList N V := ⟨fun _ => none, none, none, 0⟩

/-- A read of the node at `i`. -/
def load (l : NodeList N V) (i : Option N)
    (rest : ListNode N V → Outcome (NodeList N V) (Line N V) (Option V)) :
    Outcome (NodeList N V) (Line N V) (Option V) :=
  match i.bind l.node with
  | none => .crash
  | some node => rest node

/-- A write to the node at `i`. -/
def store (l : NodeList N V) (i : Option N) (change : ListNode N V → ListNode N V)
    (rest : NodeList N V → Outcome (NodeList N V) (Line N V) (Option V)) :
    Outcome (NodeList N V) (Line N V) (Option V) :=
  match i with
  | none => .crash
  | some n =>
    match l.node n with
    | none => .crash
    | some node => rest { l with node := Function.update l.node n (some (change node)) }

/-- `delete` of the node at `n` -/
def delete (l : NodeList N V) (n : N) : NodeList N V :=
  { l with node := Function.update l.node n none }

def statement (l : NodeList N V) : Line N V → Outcome (NodeList N V) (Line N V) (Option V)
  | .popSize => if l.size ≠ 0 then .next l .popHead else .done l none
  | .popHead => if l.head = none then .done l none else .next l .popDec
  | .popDec => .next { l with size := l.size - 1 } .popTail
  | .popTail => if l.tail = l.head then .next l .oneNode else .next l .firstNode
  | .oneNode => .next l (.oneHead l.head)
  | .oneHead i => .next { l with head := none } (.oneTail i)
  | .oneTail i => .next { l with tail := none } (.popValue i)
  | .firstNode => .next l (.firstHead l.head)
  | .firstHead i => l.load l.head fun node => .next { l with head := node.next } (.firstPrev i)
  | .firstPrev i => l.store l.head (fun node => { node with prev := none }) (.next · (.popValue i))
  | .popValue i => l.load i fun node => .next l (.popDelete i node.value)
  | .popDelete none ret => .done l ret
  | .popDelete (some n) ret => l.load (some n) fun _ => .done (l.delete n) ret
  | .pushInc val i => .next { l with size := l.size + 1 } (.pushNew val i)
  | .pushNew val i =>
    .next { l with node := Function.update l.node i (some ⟨none, none, none⟩) } (.pushTail val i)
  | .pushTail val i =>
    if l.tail = none then .next l (.onlyHead val i) else .next l (.lastNext val i)
  | .onlyHead val i => .next { l with head := some i } (.onlyTail val i)
  | .onlyTail val i => .next { l with tail := some i } (.pushValue val i)
  | .lastNext val i =>
    l.store l.tail (fun node => { node with next := some i }) (.next · (.lastPrev val i))
  | .lastPrev val i =>
    l.store (some i) (fun node => { node with prev := l.tail }) (.next · (.lastTail val i))
  | .lastTail val i => .next { l with tail := some i } (.pushValue val i)
  | .pushValue val i =>
    l.store (some i) (fun node => { node with value := some val }) (.done · none)

/-- `new` gives the address of no allocated node. -/
def legal (l : NodeList N V) : Op N V → Prop
  | .push _ i => l.node i = none
  | .pop => True

instance (l : NodeList N V) : (o : Op N V) → Decidable (l.legal o)
  | .push _ _ => decidable_of_iff _ Option.isNone_iff_eq_none
  | .pop => inferInstanceAs (Decidable True)

def entry : Op N V → Line N V
  | .push val i => .pushInc val i
  | .pop => .popSize

def next (l : NodeList N V) (i : N) : Option N := (l.node i).bind (·.next)

def prev (l : NodeList N V) (i : N) : Option N := (l.node i).bind (·.prev)

def value (l : NodeList N V) (i : N) : Option V := (l.node i).bind (·.value)

end NodeList

/-- The list is linked through `entries`, which are all the nodes there are and carry `values`. -/
structure Holds (l : NodeList N V) (entries : List N) (values : List V) : Prop where
  linked : Linked l.next l.prev l.head l.tail entries
  carried : entries.map l.value = values.map some
  size : l.size = entries.length
  allocated : ∀ n, (l.node n).isSome ↔ n ∈ entries

def Represents (l : NodeList N V) (values : List V) : Prop := ∃ entries, Holds l entries values

/-- What the operations are for. -/
def perform (values : List V) : Op N V → List V × Option V
  | .push val _ => (values ++ [val], none)
  | .pop => (values.tail, values.head?)

/-- The statements of operations that are a `push` or a `pop` of some list behind some mutex. -/
def behind {X K O : Type} (object : O → X) (mutex : O → K) (op : O → Op N V) :
    Code X K O (NodeList N V) (Line N V) (Option V) where
  object := object
  mutex := mutex
  entry o := NodeList.entry (op o)
  legal l o := l.legal (op o)
  statement := NodeList.statement

instance {X K O : Type} (object : O → X) (mutex : O → K) (op : O → Op N V) (l : NodeList N V)
    (o : O) : Decidable ((behind object mutex op).legal l o) :=
  inferInstanceAs (Decidable (l.legal (op o)))

/-! ### The operations alone -/

variable {X K O : Type} {object : O → X} {mutex : O → K} {op : O → Op N V} {l : NodeList N V}
  {entries : List N} {values : List V}

omit [DecidableEq N] in
theorem empty_holds : Holds (.empty : NodeList N V) [] [] :=
  ⟨.nil, rfl, rfl, by simp [NodeList.empty]⟩

omit [DecidableEq N] in
theorem Holds.member (holds : Holds l entries values) {n : N} (member : n ∈ entries) :
    ∃ node, l.node n = some node :=
  Option.isSome_iff_exists.mp ((holds.allocated n).mpr member)

theorem pop_empty (empty : l.size = 0) :
    runs (behind object mutex op) 1 l .popSize = some (l, none) := by
  simp [runs, behind, NodeList.statement, empty]

theorem pop_one {n : N} {v : V} {node : ListNode N V} (size : l.size ≠ 0) (head : l.head = some n)
    (tail : l.tail = some n) (found : l.node n = some node) (value : node.value = some v) :
    runs (behind object mutex op) 9 l .popSize =
      some ({ l with head := none, tail := none, size := l.size - 1 }.delete n, some v) := by
  simp [runs, behind, NodeList.statement, NodeList.load, size, head, tail, found, value]

theorem pop_first {n m : N} {v : V} {node second : ListNode N V} (size : l.size ≠ 0)
    (head : l.head = some n) (tail : l.tail ≠ some n) (found : l.node n = some node)
    (value : node.value = some v) (forth : node.next = some m) (found' : l.node m = some second)
    (differs : n ≠ m) :
    runs (behind object mutex op) 9 l .popSize =
      some (NodeList.delete { l with
        head := some m
        size := l.size - 1
        node := Function.update l.node m (some { second with prev := none }) } n, some v) := by
  simp [runs, behind, NodeList.statement, NodeList.load, NodeList.store, size, head, tail, found,
    value, forth, found', differs]

theorem push_only {i : N} {val : V} (tail : l.tail = none) :
    runs (behind object mutex op) 6 l (.pushInc val i) =
      some ({ l with
        node := Function.update l.node i (some ⟨none, none, some val⟩)
        head := some i
        tail := some i
        size := l.size + 1 }, none) := by
  simp [runs, behind, NodeList.statement, NodeList.store, tail]

theorem push_last {i last : N} {val : V} {node : ListNode N V} (tail : l.tail = some last)
    (found : l.node last = some node) (differs : last ≠ i) :
    runs (behind object mutex op) 7 l (.pushInc val i) =
      some ({ l with
        node := Function.update (Function.update l.node last (some { node with next := some i })) i
          (some ⟨none, some last, some val⟩)
        tail := some i
        size := l.size + 1 }, none) := by
  -- the new node is written before and after the link to it
  have nodes (first second : ListNode N V) :
      Function.update (Function.update (Function.update l.node i (some first)) last
        (some { node with next := some i })) i (some second) =
      Function.update (Function.update l.node last (some { node with next := some i })) i
        (some second) := by
    rw [Function.update_comm differs, Function.update_idem, Function.update_comm differs.symm]
  simp [runs, behind, NodeList.statement, NodeList.store, tail, found, differs, differs.symm, nodes]

/-- `push` links a new node at the end. -/
theorem Holds.push (holds : Holds l entries values) {i : N} (free : l.node i = none) (val : V) :
    ∃ fuel l', runs (behind object mutex op) fuel l (.pushInc val i) = some (l', none) ∧
      Holds l' (entries ++ [i]) (values ++ [val]) := by
  have fresh : i ∉ entries := fun member => by simpa [free] using (holds.allocated i).mpr member
  have linked := holds.linked
  cases tail : l.tail with
  | none =>
    have nobody : entries = [] := List.getLast?_eq_none_iff.mp (linked.tail_eq.symm.trans tail)
    have nothing : values = [] := by simpa [nobody] using holds.carried
    subst nobody nothing
    refine ⟨6, _, push_only tail, .single ?_ ?_, ?_, ?_, fun n => ?_⟩
    · simp [NodeList.next]
    · simp [NodeList.prev]
    · simp [NodeList.value]
    · simp [holds.size]
    · by_cases new : n = i
      · simp [new]
      · simpa [new] using holds.allocated n
  | some last =>
    have member : last ∈ entries := List.mem_of_getLast? (linked.tail_eq.symm.trans tail)
    have differs : last ≠ i := fun same => fresh (same ▸ member)
    obtain ⟨node, found⟩ := holds.member member
    refine ⟨7, _, push_last tail found differs, ?_, ?_, ?_, fun n => ?_⟩
    · -- the links of the old nodes stay, but for the next of the last one
      rw [tail] at linked
      refine (linked.push fresh).congr (fun n _ => ?_) fun n _ => ?_
      · by_cases new : n = i
        · simp [NodeList.next, new]
        · by_cases old : n = last
          · simp [NodeList.next, old, differs]
          · simp [NodeList.next, new, old]
      · by_cases new : n = i
        · simp [NodeList.prev, new]
        · by_cases old : n = last
          · simp [NodeList.prev, old, differs, found]
          · simp [NodeList.prev, new, old]
    · rw [List.map_append, List.map_append, ← holds.carried]
      refine congrArg₂ _ (List.map_congr_left fun n inside => ?_) (by simp [NodeList.value])
      have other : n ≠ i := fun same => fresh (same ▸ inside)
      by_cases old : n = last
      · simp [NodeList.value, old, differs, found]
      · simp [NodeList.value, other, old]
    · simp [holds.size]
    · by_cases new : n = i
      · simp [new]
      · by_cases old : n = last
        · simp [old, differs, member]
        · simpa [new, old] using holds.allocated n

/-- `pop` takes the first node out and frees it. -/
theorem Holds.pop {n : N} {ns : List N} {v : V} {vs : List V}
    (holds : Holds l (n :: ns) (v :: vs)) :
    ∃ fuel l', runs (behind object mutex op) fuel l .popSize = some (l', some v) ∧
      Holds l' ns vs := by
  have linked := holds.linked
  obtain ⟨mine, others⟩ := List.cons_eq_cons.mp holds.carried
  have fresh := (List.nodup_cons.mp linked.nodup).1
  have head : l.head = some n := linked.head_eq
  have size : l.size ≠ 0 := by simp [holds.size]
  obtain ⟨node, found⟩ := holds.member (n := n) List.mem_cons_self
  have value : node.value = some v := by rwa [NodeList.value, found] at mine
  have off (z : N) (inside : z ∈ ns) : z ≠ n := fun same => fresh (same ▸ inside)
  -- what is allocated apart from `n`
  have left (z : N) : z ≠ n → ((l.node z).isSome ↔ z ∈ ns) := by
    intro other
    rw [holds.allocated z, List.mem_cons, or_iff_right other]
  cases ns with
  | nil =>
    have tail : l.tail = some n := linked.tail_eq
    refine ⟨9, _, pop_one size head tail found value, .nil, others, ?_, fun z => ?_⟩
    · simp [NodeList.delete, holds.size]
    · by_cases gone : z = n
      · simp [NodeList.delete, gone]
      · simpa [NodeList.delete, gone] using left z gone
  | cons m ns =>
    have differs : n ≠ m := fun same => fresh (same ▸ List.mem_cons_self)
    have tail : l.tail ≠ some n := by
      rw [linked.tail_eq, List.getLast?_cons_cons]
      exact fun last => fresh (List.mem_of_getLast? last)
    obtain ⟨second, found'⟩ := holds.member (n := m) (by simp)
    have forth : node.next = some m := by
      have next : l.next n = some m := linked.chained.2.1
      rwa [NodeList.next, found] at next
    refine ⟨9, _, pop_first size head tail found value forth found' differs, ?_, ?_, ?_,
      fun z => ?_⟩
    · rw [head] at linked
      refine linked.pop.congr (fun z inside => ?_) fun z inside => ?_
      · by_cases first : z = m
        · simp [NodeList.next, NodeList.delete, first, differs.symm, found']
        · simp [NodeList.next, NodeList.delete, first, off z inside]
      · by_cases first : z = m
        · simp [NodeList.prev, NodeList.delete, first, differs.symm]
        · simp [NodeList.prev, NodeList.delete, first, off z inside]
    · rw [← others]
      refine List.map_congr_left fun z inside => ?_
      by_cases first : z = m
      · simp [NodeList.value, NodeList.delete, first, differs.symm, found']
      · simp [NodeList.value, NodeList.delete, first, off z inside]
    · simp [NodeList.delete, holds.size]
    · by_cases gone : z = n
      · simp [NodeList.delete, gone, fresh]
      · by_cases first : z = m
        · simp [NodeList.delete, first, differs.symm]
        · simpa [NodeList.delete, gone, first] using left z gone

/-- Alone, the operations keep the list and give what they should. -/
theorem correct :
    Correct (behind object mutex op) Represents fun values o => perform values (op o) := by
  rintro l values o ⟨entries, holds⟩ legal
  change l.legal (op o) at legal
  show ∃ l', Leads (behind object mutex op) l' (perform values (op o)).2 l
    (NodeList.entry (op o)) ∧ Represents l' (perform values (op o)).1
  cases called : op o with
  | push val i =>
    rw [called] at legal
    obtain ⟨fuel, l', ran, after⟩ := holds.push legal val
    exact ⟨l', .of_runs ran, _, after⟩
  | pop =>
    cases entries with
    | nil =>
      have nothing : values = [] := by simpa using holds.carried
      subst nothing
      exact ⟨l, .of_runs (pop_empty holds.size), [], holds⟩
    | cons n ns =>
      cases values with
      | nil => simpa using holds.carried
      | cons v vs =>
        obtain ⟨fuel, l', ran, after⟩ := holds.pop
        exact ⟨l', .of_runs ran, ns, after⟩

end BRoutine.Nodes
