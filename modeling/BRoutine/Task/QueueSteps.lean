import BRoutine.Task.QueueInvariant

/-!
# The steps of pushBack and popHead

Each write keeps the memory in the shape that belongs to how far the threads with the two mutexes
are, and with that each step keeps the invariant. The exception is a step into a collision: because
`ItemCount` counts the item of a `pushBack` that is not linked yet, a `popHead` that has only
`HeadMutex` can find that its item is the tail while the `pushBack` links behind that tail.
-/

namespace BRoutine.TwoLock

open Custody

variable {T I : Type} {m : Mem I} {L : List I} {back : Back I} {front : Front I}

/-! ### Writes at the back -/

theorem Layout.inc (layout : Layout m L .quiet front) : Layout m.inc L .counted front where
  head := layout.head
  tail := layout.tail
  chain := layout.chain
  last := layout.last
  outside := layout.outside
  owner := fun a inside _ => layout.owner a inside (by simp)
  dying_owner := layout.dying_owner
  filled := by simp [Back.fills]
  count := by
    have count := layout.count
    simp only [Mem.inc, Back.pending] at count ⊢
    omega
  small := Nat.mod_lt _ (by decide)

/-- A test of `head` or `tail` changes what the thread with `TailMutex` is going to do. -/
theorem Layout.look {back' : Back I} (layout : Layout m L back front)
    (head : back'.head L = back.head L) (hanging : back'.hanging = back.hanging)
    (pending : back'.pending = back.pending) (unlinked : ∀ a, back ≠ .linked a)
    (filled : back'.fills = true → front.dies = none) : Layout m L back' front where
  head := layout.head.trans head.symm
  tail := layout.tail
  chain := layout.chain
  last := fun a is_last => (layout.last a is_last).trans hanging.symm
  outside := layout.outside
  owner := fun a inside _ => layout.owner a inside (unlinked a)
  dying_owner := layout.dying_owner
  filled := filled
  count := pending ▸ layout.count
  small := layout.small

/-- `head = i` on the empty list. -/
theorem Layout.setHead (layout : Layout m [] .filling front) (i : I) :
    Layout { m with head := some i } [] (.headed i) front where
  head := rfl
  tail := layout.tail
  chain := .nil
  last := by simp
  outside := layout.outside
  owner := by simp
  dying_owner := layout.dying_owner
  filled := layout.filled
  count := layout.count
  small := layout.small

/-- `tail = i` on the empty list. -/
theorem Layout.setTail {i : I} (layout : Layout m [] (.headed i) front) (clean : front ≠ .dirty i) :
    Layout { m with tail := some i } [i] (.linked i) front where
  head := layout.head
  tail := by rw [layout.filled rfl]; rfl
  chain := .singleton i
  last := by
    intro a is_last
    obtain rfl : i = a := by simpa using is_last
    exact layout.outside i (by simp) clean
  outside := fun a _ other => layout.outside a (by simp) other
  owner := by simp
  dying_owner := layout.dying_owner
  filled := by simp [Back.fills]
  count := layout.count
  small := layout.small

/-- `tail = i` behind the old tail. -/
theorem Layout.moveTail {i : I} (layout : Layout m L (.nexted i) front) (nonempty : L ≠ [])
    (alive : front.dies = none) (fresh : i ∉ L) (clean : front ≠ .dirty i) :
    Layout { m with tail := some i } (L ++ [i]) (.linked i) front where
  head := by
    obtain ⟨first, rest, rfl⟩ := List.exists_cons_of_ne_nil nonempty
    exact layout.head
  tail := by simp [alive]
  chain := by
    refine layout.chain.append (.singleton i) ?_
    intro a is_last b first
    -- the new item is the only one behind the old tail
    obtain rfl : i = b := by simpa using first
    exact layout.last a is_last
  last := by
    intro a is_last
    obtain rfl : i = a := by simpa using is_last
    exact layout.outside i fresh clean
  outside := by
    intro a outside other
    exact layout.outside a (fun inside => outside (List.mem_append_left _ inside)) other
  owner := by
    intro a inside other
    rw [List.mem_append, List.mem_singleton] at inside
    rcases inside with inside | rfl
    · exact layout.owner a inside (by simp)
    · exact absurd rfl other
  dying_owner := layout.dying_owner
  filled := by simp [Back.fills]
  count := by
    have count := layout.count
    simp only [Back.pending, List.length_append, List.length_singleton] at count ⊢
    omega
  small := layout.small

/-! ### Writes at the front -/

theorem Layout.dec (layout : Layout m L back .quiet) : Layout m.dec L back .claimed where
  head := layout.head
  tail := layout.tail
  chain := layout.chain
  last := layout.last
  outside := fun a outside _ => layout.outside a outside (by simp)
  owner := layout.owner
  dying_owner := by simp
  filled := fun _ => rfl
  count := by
    have count := layout.count
    have small := layout.small
    simp only [Mem.dec, Front.claims] at count ⊢
    split <;> omega
  small := by
    have small := layout.small
    simp only [Mem.dec]
    split <;> omega

/-- `head = nullptr` takes the only item out. -/
theorem Layout.clearHead {i : I} (layout : Layout m [i] back .claimed)
    (plain : back = .quiet ∨ back = .counted) :
    Layout { m with head := none } [] back (.dying i) where
  head := by rcases plain with rfl | rfl <;> rfl
  tail := layout.tail
  chain := .nil
  last := by simp
  outside := by
    intro a _ _
    by_cases same : a = i
    · subst same
      have last := layout.last a rfl
      rcases plain with rfl | rfl <;> exact last
    · exact layout.outside a (by simpa using same) (by simp)
  owner := by simp
  dying_owner := by
    intro a same
    obtain rfl : i = a := by simpa using same
    exact layout.owner i (by simp) (by rcases plain with rfl | rfl <;> simp)
  filled := by rcases plain with rfl | rfl <;> simp [Back.fills]
  count := by
    have count := layout.count
    have small := layout.small
    simp only [Front.claims, List.length_singleton] at count
    simp only [Front.claims, List.length_nil]
    omega
  small := layout.small

/-- `tail = nullptr` after it. -/
theorem Layout.clearTail {i : I} (layout : Layout m [] back (.dying i)) :
    Layout { m with tail := none } [] back (.dirty i) where
  head := layout.head
  tail := rfl
  chain := .nil
  last := by simp
  outside := fun a outside _ => layout.outside a outside (by simp)
  owner := by simp
  dying_owner := by simp
  filled := fun _ => rfl
  count := layout.count
  small := layout.small

/-- `head = i->next` takes the first of several items out. -/
theorem Layout.dropHead {i n : I} {rest : List I} (layout : Layout m (i :: n :: rest) back .claimed)
    (headed : ∀ j, back ≠ .headed j) :
    Layout { m with head := some n } (n :: rest) back (.dirty i) where
  head := by
    cases back with
    | headed j => exact absurd rfl (headed j)
    | _ => rfl
  tail := by simpa [Front.dies] using layout.tail
  chain := (List.isChain_cons_cons.mp layout.chain).2
  last := fun a is_last => layout.last a (by simpa using is_last)
  outside := by
    intro a outside other
    refine layout.outside a ?_ (by simp)
    rw [List.mem_cons, not_or]
    exact ⟨fun same => other (by rw [same]), outside⟩
  owner := fun a inside => layout.owner a (List.mem_cons_of_mem i inside)
  dying_owner := by simp
  filled := fun _ => rfl
  count := by
    have count := layout.count
    simp only [Front.claims, List.length_cons] at count ⊢
    omega
  small := layout.small

/-! ### Writes to the items -/

section Items

variable [DecidableEq I]

theorem Layout.setPrev (layout : Layout m L back front) (i : I) (prev : Option I) :
    Layout (m.setPrev i prev) L back front where
  head := layout.head
  tail := layout.tail
  chain := layout.chain
  last := layout.last
  outside := layout.outside
  owner := layout.owner
  dying_owner := layout.dying_owner
  filled := layout.filled
  count := layout.count
  small := layout.small

/-- A new `next` for an item that leads to no item of the list. -/
theorem chain_setNext {j : I} {next : Option I} (chain : L.IsChain fun a b => m.next a = some b)
    (loose : j ∈ L → m.next j = none) :
    L.IsChain fun a b => (m.setNext j next).next a = some b := by
  refine chain.imp_of_mem_imp ?_
  intro a b inside _ leads
  have other : a ≠ j := by
    rintro rfl
    rw [loose inside] at leads
    cases leads
  simpa [Mem.setNext, other] using leads

/-- `tail->next = i`. -/
theorem Layout.setNext {last i : I} (layout : Layout m L .behind front)
    (is_last : L.getLast? = some last) :
    Layout (m.setNext last (some i)) L (.nexted i) front where
  head := layout.head
  tail := layout.tail
  chain := chain_setNext layout.chain fun _ => layout.last last is_last
  last := by
    intro a a_last
    obtain rfl : last = a := Option.some.inj (is_last.symm.trans a_last)
    simp [Mem.setNext, Back.hanging]
  outside := by
    intro a outside clean
    have other : a ≠ last := by
      rintro rfl
      exact outside (List.mem_of_getLast? is_last)
    simpa [Mem.setNext, other] using layout.outside a outside clean
  owner := fun a inside _ => layout.owner a inside (by simp)
  dying_owner := layout.dying_owner
  filled := by simp [Back.fills]
  count := layout.count
  small := layout.small

/-- `i->next = nullptr` of the new tail changes nothing. -/
theorem Layout.clearLast {i : I} (layout : Layout m L (.linked i) front)
    (is_last : L.getLast? = some i) : Layout (m.setNext i none) L (.linked i) front := by
  have same : m.setNext i none = m := by
    have none : m.next i = none := layout.last i is_last
    rw [Mem.setNext, ← none, Function.update_eq_self]
  rw [same]
  exact layout

/-- `i->owner = this`. -/
theorem Layout.setOwner {i : I} (layout : Layout m L (.linked i) front) :
    Layout (m.setOwner i true) L .quiet front where
  head := layout.head
  tail := layout.tail
  chain := layout.chain
  last := layout.last
  outside := layout.outside
  owner := by
    intro a inside _
    by_cases same : a = i
    · subst same
      simp [Mem.setOwner]
    · simpa [Mem.setOwner, same] using layout.owner a inside (by simp [Ne.symm same])
  dying_owner := by
    intro a dying
    by_cases same : a = i
    · subst same
      simp [Mem.setOwner]
    · simpa [Mem.setOwner, same] using layout.dying_owner a dying
  filled := by simp [Back.fills]
  count := layout.count
  small := layout.small

/-- `i->next = NULL` of an item that is out. -/
theorem Layout.clearNext {i : I} (layout : Layout m L back (.dirty i)) (out : i ∉ L) :
    Layout (m.setNext i none) L back .quiet where
  head := layout.head
  tail := layout.tail
  chain := chain_setNext layout.chain fun inside => absurd inside out
  last := by
    intro a is_last
    have other : a ≠ i := by
      rintro rfl
      exact out (List.mem_of_getLast? is_last)
    simpa [Mem.setNext, other] using layout.last a is_last
  outside := by
    intro a outside _
    by_cases same : a = i
    · simp [Mem.setNext, same]
    · simpa [Mem.setNext, same] using layout.outside a outside (by simp [Ne.symm same])
  owner := layout.owner
  dying_owner := by simp
  filled := fun _ => rfl
  count := layout.count
  small := layout.small

/-- `i->owner = NULL` of an item that is out. -/
theorem Layout.clearOwner {i : I} (layout : Layout m L back .quiet) (out : i ∉ L) :
    Layout (m.setOwner i false) L back .quiet where
  head := layout.head
  tail := layout.tail
  chain := layout.chain
  last := layout.last
  outside := layout.outside
  owner := by
    intro a inside linked
    have other : a ≠ i := by
      rintro rfl
      exact out inside
    simpa [Mem.setOwner, other] using layout.owner a inside linked
  dying_owner := by simp
  filled := layout.filled
  count := layout.count
  small := layout.small

end Items

/-! ### What a thread finds -/

variable {s u : State T I} {t : T} {i : I} {lockHead lockTail : Bool}

/-- The first of two items or more points to the second. -/
theorem Inv.second (inv : Inv s L) (first : L.head? = some i) (two : 2 ≤ L.length) :
    ∃ n rest, s.mem.next i = some n ∧ L = i :: n :: rest := by
  obtain ⟨rest, rfl⟩ := List.head?_eq_some_iff.mp first
  cases rest with
  | nil => simp at two
  | cons n rest => exact ⟨n, rest, (List.isChain_cons_cons.mp inv.layout.chain).1, rfl⟩

theorem only_item {rest : List I} (nodup : (i :: rest).Nodup)
    (is_last : (i :: rest).getLast? = some i) : rest = [] := by
  cases rest with
  | nil => rfl
  | cons n rest =>
    have inside : i ∈ n :: rest := List.mem_of_getLast? (by simpa using is_last)
    exact absurd inside (List.nodup_cons.mp nodup).1

/-- The item at hand is not the one that a `popHead` is about to clean. -/
theorem Inv.clean {o : Pc I} (inv : Inv s L) (at_pc : s.pc t = o) (token : o.token = some i)
    (other : o.front ≠ .dirty i) : s.front ≠ .dirty i := by
  intro dirty
  obtain ⟨v, -, same, -⟩ := inv.front_known (by simp [dirty])
  rw [dirty] at same
  have token_v : (s.pc v).token = some i := by
    cases pc : s.pc v with
    | pop lockTail at_ =>
      rw [pc] at same
      cases at_ with
      | clearNext j => cases same; rfl
      | _ => cases same
    | _ => simp [pc, Pc.front] at same
  obtain rfl : t = v := inv.kept.unique t v i (by rw [at_pc, token]) token_v
  exact other (at_pc ▸ same)

/-- With `HeadMutex` the count is at most what is linked or pending. -/
theorem Inv.enough_of_count {o : Pc I} (inv : Inv s L) (at_pc : s.pc t = o)
    (holds : o.holdsHead = true) (quiet : o.front = .quiet) (counted : 2 ≤ s.mem.itemCount) :
    Enough lockTail L s.back.pending := by
  intro _
  have count := inv.layout.count
  have small := inv.layout.small
  rw [(inv.front_eq at_pc holds).trans quiet] at count
  simp only [Front.claims] at count
  omega

/-- The first linked item belongs to the list: an item whose `owner` is not set is a second one. -/
theorem Inv.front_owner {at_ : PopPc I} (inv : Inv s L) (at_pc : s.pc t = .pop lockTail at_)
    (enough : Enough lockTail L s.back.pending) (first : L.head? = some i)
    (holds : at_.holdsTail lockTail = lockTail) : s.mem.owner i = true := by
  refine inv.layout.owner i (List.mem_of_head? first) ?_
  intro linked
  have is_last := inv.last_of_linked linked
  cases lockTail with
  | true =>
    have quiet := inv.back_eq at_pc holds
    rw [linked] at quiet
    cases quiet
  | false =>
    have two := enough rfl
    obtain ⟨rest, rfl⟩ := List.head?_eq_some_iff.mp first
    rw [only_item inv.kept.nodup is_last, linked] at two
    simp [Back.pending] at two

/-- A thread that empties the list has `HeadMutex` only, and the thread with `TailMutex` has not
found out yet whether the list is empty. -/
theorem Pc.empties_spec {p : Pc I} (empties : p.empties = true) (knows : p.Knows L back) :
    p.holdsHead = true ∧ p.holdsTail = false ∧ (back = .counted ∨ back = .empty) := by
  cases p with
  | pop lockTail at_ =>
    cases lockTail with
    | true => cases at_ <;> cases empties
    | false =>
      cases at_ with
      | clearHead j => exact ⟨rfl, rfl, .inl (knows.2 rfl)⟩
      | clearTail j => exact ⟨rfl, rfl, knows.2 rfl⟩
      | _ => cases empties
  | _ => cases empties

/-- A thread that has taken the only item out does not mind that the other finds `head` null. -/
theorem Pc.knows_of_empties {p : Pc I} (empties : p.empties = true) (knows : p.Knows [] back) :
    p.Knows [] .empty := by
  cases p with
  | pop lockTail at_ =>
    cases lockTail with
    | true => cases at_ <;> cases empties
    | false =>
      cases at_ with
      | clearHead j => exact absurd knows.1 (by simp)
      | clearTail j => exact ⟨rfl, fun _ => .inr rfl⟩
      | _ => cases empties
  | _ => cases empties

/-- A `pushBack` before its tests knows nothing about the list. -/
theorem Pc.knows_counted {p : Pc I} (counted : p.back = .counted) (L : List I) (back : Back I) :
    p.Knows L back := by
  cases p with
  | push i lockHead at_ =>
    cases at_ with
    | testHead => trivial
    | _ => cases counted
  | _ => cases counted

/-- A `pushBack` past its tests that does not have `HeadMutex` links behind the tail. -/
theorem Pc.appends_of_back {p : Pc I} (head : p.holdsHead = false)
    (behind : p.back = .behind ∨ ∃ j, p.back = .nexted j) : p.appends = true := by
  cases p with
  | push k lockHead at_ =>
    cases lockHead with
    | true =>
      cases at_ with
      | unlockTail => simp [Pc.back, PushPc.back] at behind
      | _ => cases head
    | false =>
      cases at_ with
      | readTail | setNext tail | rereadTail | setPrev tail | moveTail => rfl
      | _ => simp [Pc.back, PushPc.back] at behind
  | _ => simp [Pc.back] at behind

theorem Inv.alive (inv : Inv s L) (nonempty : L ≠ []) : s.front.dies = none := by
  cases front : s.front with
  | dying j => exact absurd (inv.front_empty front) nonempty
  | _ => rfl

/-- On the empty list a thread that empties it has cleared `head` and not `tail`. -/
theorem Inv.dies_of_empties (inv : Inv s []) {v : T} (empties : (s.pc v).empties = true) :
    s.front.dies ≠ none := by
  have knows := inv.knows v
  have spec := Pc.empties_spec empties knows
  rw [State.front, (inv.heads v).mpr spec.1, Custody.atHolder_some]
  cases pc : s.pc v with
  | pop lockTail at_ =>
    rw [pc] at knows empties
    cases at_ with
    | clearHead j => exact absurd knows.1 (by simp)
    | clearTail j => simp [Pc.front, PopPc.front, Front.dies]
    | _ => cases lockTail <;> cases empties
  | _ => simp [pc, Pc.empties] at empties

/-- A thread with `TailMutex` that sees an item leave sees a thread that has `HeadMutex` only. -/
theorem Inv.empties_of_dies {o : Pc I} {a : I} (inv : Inv s L) (at_pc : s.pc t = o)
    (tail : o.holdsTail = true) (quiet : o.front = .quiet) (dies : s.front.dies = some a) :
    ∃ v, v ≠ t ∧ (s.pc v).empties = true := by
  obtain ⟨v, -, same, -⟩ := inv.front_known (by rintro front; simp [front, Front.dies] at dies)
  have other : v ≠ t := by
    rintro rfl
    rw [at_pc, quiet] at same
    simp [← same, Front.dies] at dies
  refine ⟨v, other, ?_⟩
  have free := inv.others_free_tail at_pc tail other
  rw [← same] at dies
  cases pc : s.pc v with
  | pop lockTail at_ =>
    rw [pc] at dies free
    cases at_ with
    | clearTail j =>
      cases lockTail with
      | true => cases free
      | false => rfl
    | _ => cases dies
  | _ => simp [pc, Pc.front, Front.dies] at dies

/-! ### Collisions -/

section Collisions

variable [DecidableEq T] {o p : Pc I}

/-- A `pushBack` that goes on to link behind the tail would collide with a `popHead` that
empties the list. -/
theorem Inv.empties_of_readTail {a : PushPc I} (inv : Inv s L)
    (at_pc : s.pc t = .push i lockHead a) (tail : a.holdsTail = true)
    (head : (Pc.push i lockHead a).holdsHead = lockHead)
    (calm : (s.goto t (.push i lockHead .readTail)).collides = false) {v : T} (other : v ≠ t) :
    (s.pc v).empties = false := by
  by_contra found
  have empties : (s.pc v).empties = true := by simpa using found
  have spec := Pc.empties_spec empties (inv.knows v)
  have alone : lockHead = false := by
    by_contra holds
    have free := inv.others_free_head at_pc (head.trans (by simpa using holds)) other
    rw [spec.1] at free
    cases free
  have heads : s.headMutex = some v := (inv.heads v).mpr spec.1
  have tails : s.tailMutex = some t := (inv.holdsTail_iff at_pc).mpr tail
  subst alone
  simp [State.collides, State.goto, heads, tails, other, empties, Pc.appends] at calm

/-- A `popHead` without `TailMutex` that goes on to empty the list collides with a `pushBack`
that links behind the tail. -/
theorem Inv.appends_of_empties (inv : Inv s L) (at_pc : s.pc t = o) (head : o.holdsHead = true)
    (empties : p.empties = true) (calm : (s.goto t p).collides = false) {v : T} (other : v ≠ t)
    (tails : s.tailMutex = some v) : (s.pc v).appends = false := by
  have heads : s.headMutex = some t := (inv.holdsHead_iff at_pc).mpr head
  simpa [State.collides, State.goto, heads, tails, other, empties] using calm

/-- A linked item that the `popHead` without `TailMutex` finds to be the tail leaves the
`pushBack` before its test of `head`. -/
theorem Inv.counted_of_calm (inv : Inv s [i]) (at_pc : s.pc t = o) (head : o.holdsHead = true)
    (tail : o.holdsTail = false) (enough : 2 ≤ [i].length + s.back.pending)
    (empties : p.empties = true) (calm : (s.goto t p).collides = false) : s.back = .counted := by
  have busy : s.back ≠ .quiet := by
    intro quiet
    simp [quiet, Back.pending] at enough
  obtain ⟨v, tails, same, -⟩ := inv.back_known busy
  have other : v ≠ t := by
    rintro rfl
    rw [inv.holdsTail_iff at_pc, tail] at tails
    cases tails
  have appends := inv.appends_of_empties at_pc head empties calm other tails
  have free := inv.others_free_head at_pc head other
  cases back : s.back with
  | quiet => exact absurd back busy
  | counted => rfl
  | empty => cases inv.back_empty (i := i) (.inl back)
  | filling => cases inv.back_empty (i := i) (.inr (.inl back))
  | headed j => cases inv.back_empty (.inr (.inr back))
  | linked j => simp [back, Back.pending] at enough
  | behind =>
    rw [Pc.appends_of_back free (.inl (same.trans back))] at appends
    cases appends
  | nexted j =>
    rw [Pc.appends_of_back free (.inr ⟨j, same.trans back⟩)] at appends
    cases appends

end Collisions

/-! ### Steps -/

section Steps

variable [DecidableEq T]

/-- A write of `pushBack` that links nothing. -/
theorem Inv.pushWrite {a b : PushPc I} (inv : Inv s L) (at_pc : s.pc t = .push i lockHead a)
    (holds : a.holdsTail = true)
    (like : (Pc.push i lockHead b).outline =
      ((Pc.push i lockHead a).holdsHead, a.holdsTail, a.token i, b.back i, .quiet))
    (grows : (a.back i).pending ≤ (b.back i).pending)
    (layout : Layout s.mem L (a.back i) s.front → Layout m L (b.back i) s.front)
    (past : a.back i ≠ .counted ∧ a.back i ≠ .empty)
    (mine : b.Knows i lockHead L) : ∃ L', Inv (s.write m t (.push i lockHead b)) L' := by
  have back := inv.back_eq at_pc holds
  have before := inv.layout
  rw [back] at before
  have token : b.token i = a.token i := congrArg (·.2.2.1) like
  refine ⟨L, inv.stepTail at_pc holds (like.trans (by rw [← token]; rfl)) inv.history
    (inv.kept.move (by rw [at_pc]; exact token)) List.prefix_rfl (Nat.add_le_add_left grows _)
    (layout before) mine ?_⟩
  intro v _ empties
  have spec := (Pc.empties_spec empties (inv.knows v)).2.2
  rw [back] at spec
  exact absurd spec (not_or.mpr past)

/-- The write of `pushBack` that links the item. -/
theorem Inv.pushLink {a b : PushPc I} (inv : Inv s L) (at_pc : s.pc t = .push i lockHead a)
    (holds : a.holdsTail = true)
    (like : (Pc.push i lockHead b).outline =
      ((Pc.push i lockHead a).holdsHead, a.holdsTail, none, b.back i, .quiet))
    (token : a.token i = some i) (pending : (a.back i).pending = 1)
    (layout : Layout s.mem L (a.back i) s.front → i ∉ L → s.front ≠ .dirty i →
      Layout m (L ++ [i]) (b.back i) s.front)
    (past : a.back i ≠ .counted ∧ a.back i ≠ .empty)
    (mine : b.Knows i lockHead (L ++ [i])) :
    ∃ L', Inv ({ s with linked := s.linked ++ [i] }.write m t (.push i lockHead b)) L' := by
  have back := inv.back_eq at_pc holds
  have before := inv.layout
  rw [back] at before
  have at_hand : (s.pc t).token = some i := by rw [at_pc]; exact token
  have clean : s.front ≠ .dirty i := inv.clean at_pc token (by simp [Pc.front])
  have given : b.token i = none := congrArg (·.2.2.1) like
  refine ⟨L ++ [i], inv.stepTail at_pc holds (like.trans (by rw [← given]; rfl)) ?_
    (inv.kept.store at_hand given) (List.prefix_append L [i]) ?_
    (layout before (inv.kept.apart t i at_hand) clean) mine ?_⟩
  · rw [inv.history, List.append_assoc]
  · change L.length + (a.back i).pending ≤ _
    rw [pending, List.length_append, List.length_singleton]
    omega
  · intro v _ empties
    have spec := (Pc.empties_spec empties (inv.knows v)).2.2
    rw [back] at spec
    exact absurd spec (not_or.mpr past)

/-- A test of `pushBack` that decides how the item is linked. -/
theorem Inv.pushLook {a b : PushPc I} (inv : Inv s L) (at_pc : s.pc t = .push i lockHead a)
    (holds : a.holdsTail = true)
    (like : (Pc.push i lockHead b).outline =
      ((Pc.push i lockHead a).holdsHead, a.holdsTail, a.token i, b.back i, .quiet))
    (looks : (b.back i).head L = (a.back i).head L ∧ (b.back i).hanging = (a.back i).hanging ∧
      (b.back i).pending = (a.back i).pending)
    (unlinked : ∀ j, a.back i ≠ .linked j)
    (filled : (b.back i).fills = true → s.front.dies = none)
    (mine : b.Knows i lockHead L)
    (empties : ∀ v, v ≠ t → (s.pc v).empties = true → (s.pc v).Knows L (b.back i)) :
    ∃ L', Inv (s.goto t (.push i lockHead b)) L' := by
  have before := inv.layout
  rw [inv.back_eq at_pc holds] at before
  have token : b.token i = a.token i := congrArg (·.2.2.1) like
  exact ⟨L, inv.stepTail at_pc holds (like.trans (by rw [← token]; rfl)) inv.history
    (inv.kept.move (by rw [at_pc]; exact token)) List.prefix_rfl
    (Nat.add_le_add_left (Nat.le_of_eq looks.2.2.symm) _)
    (before.look looks.1 looks.2.1 looks.2.2 unlinked filled) mine empties⟩

/-- A read of `popHead`. -/
theorem Inv.popMove {a b : PopPc I} (inv : Inv s L) (at_pc : s.pc t = .pop lockTail a)
    (like : (Pc.pop lockTail b).outline = (Pc.pop lockTail a).outline)
    (knows : b.Knows lockTail L s.back) : ∃ L', Inv (s.goto t (.pop lockTail b)) L' :=
  ⟨L, inv.move at_pc like knows⟩

/-- A write of `popHead` that takes nothing out. -/
theorem Inv.popWrite {a b : PopPc I} (inv : Inv s L) (at_pc : s.pc t = .pop lockTail a)
    (holds : a.holdsHead = true)
    (like : (Pc.pop lockTail b).outline =
      (a.holdsHead, a.holdsTail lockTail, a.token, .quiet, b.front))
    (layout : Layout s.mem L s.back a.front → Layout m L s.back b.front)
    (mine : b.Knows lockTail L s.back) : ∃ L', Inv (s.write m t (.pop lockTail b)) L' := by
  have before := inv.layout
  rw [inv.front_eq at_pc holds] at before
  have token : b.token = a.token := congrArg (·.2.2.1) like
  exact ⟨L, inv.stepHead at_pc holds (like.trans (by rw [← token]; rfl)) inv.history
    (inv.kept.move (by rw [at_pc]; exact token)) (layout before) mine (fun v _ _ => inv.knows v)⟩

variable [DecidableEq I]

theorem pushStep_inv {at_ : PushPc I} (inv : Inv s L) (at_pc : s.pc t = .push i lockHead at_)
    (calm : u.collides = false) (stepped : pushStep s t i lockHead at_ = some u) :
    ∃ L', Inv u L' := by
  have knows := inv.knows t
  rw [at_pc] at knows
  cases at_ with
  | load =>
    cases stepped
    split
    · exact ⟨L, inv.move at_pc rfl trivial⟩
    · exact ⟨L, inv.move at_pc rfl trivial⟩
  | lockHead =>
    simp only [pushStep] at stepped
    split at stepped
    next free => cases stepped; exact ⟨L, inv.lockHead at_pc free rfl trivial⟩
    · cases stepped
  | lockTail =>
    simp only [pushStep] at stepped
    split at stepped
    next free => cases stepped; exact ⟨L, inv.lockTail at_pc free rfl trivial⟩
    · cases stepped
  | check =>
    cases stepped
    split
    · exact ⟨L, inv.move at_pc rfl trivial⟩
    next stays =>
      refine ⟨L, inv.move at_pc rfl fun without => ?_⟩
      refine inv.nonempty_of_count (inv.back_eq at_pc rfl) ?_
      by_contra few
      exact stays ⟨by omega, without⟩
  | retry =>
    cases stepped
    exact ⟨L, inv.unlockTail at_pc rfl rfl rfl trivial⟩
  | inc =>
    cases stepped
    exact inv.pushWrite at_pc rfl rfl (Nat.zero_le _) Layout.inc
      (by simp [PushPc.back]) trivial
  | testHead =>
    cases stepped
    have layout := inv.layout
    rw [inv.back_eq at_pc rfl] at layout
    split at calm
    next null =>
      rw [if_pos null]
      have empty : L = [] := List.head?_eq_none_iff.mp (layout.head.symm.trans null)
      subst empty
      refine inv.pushLook at_pc rfl rfl ⟨rfl, rfl, rfl⟩ (by simp [PushPc.back])
        (by simp [PushPc.back, Back.fills]) rfl ?_
      intro v _ empties
      exact Pc.knows_of_empties empties (inv.knows v)
    next some =>
      rw [if_neg some]
      have nonempty : L ≠ [] := by
        rintro rfl
        exact some layout.head
      refine inv.pushLook at_pc rfl rfl ⟨rfl, rfl, rfl⟩ (by simp [PushPc.back])
        (by simp [PushPc.back, Back.fills]) nonempty ?_
      intro v other empties
      rw [inv.empties_of_readTail at_pc rfl rfl calm other] at empties
      cases empties
  | testTail =>
    have empty : L = [] := knows
    subst empty
    have tail : s.mem.tail = s.front.dies := by rw [inv.layout.tail]; simp
    cases dies : s.front.dies with
    | none =>
      rw [dies] at tail
      cases stepped
      rw [if_pos tail]
      refine inv.pushLook at_pc rfl rfl ⟨rfl, rfl, rfl⟩ (by simp [PushPc.back])
        (fun _ => dies) rfl ?_
      intro v _ empties
      exact absurd (inv.dies_of_empties empties) (by simp [dies])
    | some a =>
      -- the other thread has cleared `head` and not `tail`, so this one takes the wrong branch
      rw [dies] at tail
      cases stepped
      rw [if_neg (by simp [tail])] at calm
      obtain ⟨v, other, empties⟩ := inv.empties_of_dies at_pc rfl rfl dies
      rw [inv.empties_of_readTail at_pc rfl rfl calm other] at empties
      cases empties
  | setHead =>
    cases stepped
    have empty : L = [] := knows
    subst empty
    exact inv.pushWrite at_pc rfl rfl (Nat.le_refl _) (·.setHead i)
      (by simp [PushPc.back]) rfl
  | setTail =>
    cases stepped
    have empty : L = [] := knows
    subst empty
    exact inv.pushLink at_pc rfl rfl rfl rfl (fun layout _ => layout.setTail)
      (by simp [PushPc.back]) rfl
  | readTail =>
    cases stepped
    have tail : s.mem.tail = L.getLast? := inv.tail_eq knows
    obtain ⟨last, is_last⟩ :=
      Option.ne_none_iff_exists'.mp (List.getLast?_eq_none_iff.not.mpr knows)
    exact ⟨L, inv.move at_pc rfl ⟨last, tail.trans is_last, is_last⟩⟩
  | setNext tail =>
    obtain ⟨last, rfl, is_last⟩ := knows
    cases stepped
    have nonempty : L ≠ [] := by
      rintro rfl
      cases is_last
    exact inv.pushWrite at_pc rfl rfl (Nat.le_refl _) (·.setNext is_last)
      (by simp [PushPc.back]) nonempty
  | rereadTail =>
    cases stepped
    exact ⟨L, inv.move at_pc rfl knows⟩
  | setPrev tail =>
    cases stepped
    exact inv.pushWrite at_pc rfl rfl (Nat.le_refl _) (·.setPrev i tail)
      (by simp [PushPc.back]) knows
  | moveTail =>
    cases stepped
    exact inv.pushLink at_pc rfl rfl rfl rfl (·.moveTail knows (inv.alive knows))
      (by simp [PushPc.back]) List.getLast?_concat
  | clearNext =>
    cases stepped
    exact inv.pushWrite at_pc rfl rfl (Nat.le_refl _) (·.clearLast knows)
      (by simp [PushPc.back]) knows
  | setOwner =>
    cases stepped
    cases lockHead with
    | true =>
      exact inv.pushWrite at_pc rfl rfl (Nat.le_refl _) Layout.setOwner
        (by simp [PushPc.back]) rfl
    | false =>
      exact inv.pushWrite at_pc rfl rfl (Nat.le_refl _) Layout.setOwner
        (by simp [PushPc.back]) trivial
  | unlockHead =>
    cases stepped
    exact ⟨L, inv.unlockHead at_pc knows rfl rfl trivial⟩
  | unlockTail =>
    cases stepped
    exact ⟨L, inv.unlockTail at_pc rfl rfl rfl trivial⟩

/-- The test of `popHead` for the last item. -/
theorem Inv.popIsTail {i : I} (inv : Inv s L) (at_pc : s.pc t = .pop lockTail (.isTail i))
    (calm : u.collides = false) (stepped : popStep s t lockTail (.isTail i) = some u) :
    ∃ L', Inv u L' := by
  have knows := inv.knows t
  rw [at_pc] at knows
  have owner := inv.front_owner at_pc knows.1 knows.2 rfl
  obtain ⟨rest, rfl⟩ : ∃ rest, L = i :: rest := List.head?_eq_some_iff.mp knows.2
  have tail := inv.tail_eq (List.cons_ne_nil i rest)
  simp only [popStep, owner, Bool.true_eq_false, if_false] at stepped
  cases stepped
  split at calm
  next last =>
    rw [if_pos last]
    have only : rest = [] := only_item inv.kept.nodup (tail.symm.trans last)
    subst only
    refine inv.popMove at_pc rfl ⟨rfl, fun without => ?_⟩
    subst without
    -- it holds `headMutex` alone, and nobody is about to link another item
    exact inv.counted_of_calm at_pc rfl rfl (knows.1 rfl) rfl calm
  next more =>
    rw [if_neg more]
    have two : 2 ≤ (i :: rest).length := by
      cases rest with
      | nil => exact absurd tail more
      | cons n rest => simp
    exact inv.popMove at_pc rfl ⟨rfl, two⟩

/-- The last item goes: `popHead` clears the head. -/
theorem Inv.popClearHead {i : I} (inv : Inv s L) (at_pc : s.pc t = .pop lockTail (.clearHead i))
    (stepped : popStep s t lockTail (.clearHead i) = some u) : ∃ L', Inv u L' := by
  have knows := inv.knows t
  rw [at_pc] at knows
  obtain ⟨rfl, alone⟩ := knows
  have enough : Enough lockTail [i] s.back.pending := by
    intro without
    simp [alone without, Back.pending]
  have owner := inv.front_owner at_pc enough rfl rfl
  have layout := inv.layout
  rw [inv.front_eq at_pc rfl] at layout
  simp only [popStep, owner, Bool.true_eq_false, if_false] at stepped
  cases stepped
  -- whoever holds `tailMutex` has done no more than count its item
  have plain : s.back = .quiet ∨ s.back = .counted := by
    cases lockTail with
    | true => exact .inl (inv.back_eq at_pc rfl)
    | false => exact .inr (alone rfl)
  refine ⟨[], inv.stepHead at_pc rfl rfl ?_ ?_ (layout.clearHead plain) ?_ ?_⟩
  · rw [inv.history, List.append_nil]
  · exact inv.kept.take (by rw [at_pc]; rfl) rfl
  · exact ⟨rfl, fun without => .inl (alone without)⟩
  · intro v other tails
    cases lockTail with
    | true =>
      rw [inv.others_free_tail at_pc rfl other] at tails
      cases tails
    | false => exact Pc.knows_counted ((inv.back_eq rfl tails).symm.trans (alone rfl)) [] s.back

/-- The first item goes: its successor becomes the head. -/
theorem Inv.popSetHead {i : I} {next : Option I} (inv : Inv s L)
    (at_pc : s.pc t = .pop lockTail (.setHead i next))
    (stepped : popStep s t lockTail (.setHead i next) = some u) : ∃ L', Inv u L' := by
  have knows := inv.knows t
  rw [at_pc] at knows
  obtain ⟨n, rest, rfl, rfl⟩ := knows
  have owner := inv.front_owner at_pc (fun _ => by simp; omega) rfl rfl
  have layout := inv.layout
  rw [inv.front_eq at_pc rfl] at layout
  simp only [popStep, owner, Bool.true_eq_false, if_false] at stepped
  cases stepped
  refine ⟨n :: rest, inv.stepHead at_pc rfl rfl ?_ ?_ (layout.dropHead ?_) trivial ?_⟩
  · rw [inv.history, List.append_assoc]
    rfl
  · exact inv.kept.take (by rw [at_pc]; rfl) rfl
  · -- an item is made the head only of an empty list
    exact fun j headed => absurd (inv.back_empty (.inr (.inr headed))) (List.cons_ne_nil i _)
  · intro v other _
    exact Pc.knows_of_pop (inv.others_free_head at_pc rfl other) (List.suffix_cons i _)
      (List.cons_ne_nil n rest) (inv.knows v)

theorem popStep_inv {at_ : PopPc I} (inv : Inv s L) (at_pc : s.pc t = .pop lockTail at_)
    (calm : u.collides = false) (stepped : popStep s t lockTail at_ = some u) :
    ∃ L', Inv u L' := by
  have knows := inv.knows t
  rw [at_pc] at knows
  -- what the thread knows at its point carries each step
  cases at_ with
  | load =>
    cases stepped
    have alone : lockTail = false := knows
    subst alone
    split
    · exact inv.popMove at_pc rfl trivial
    · exact inv.popMove at_pc rfl rfl
  | lockHead =>
    simp only [popStep] at stepped
    split at stepped
    next free => cases stepped; exact ⟨L, inv.lockHead at_pc free rfl knows⟩
    · cases stepped
  | check =>
    cases stepped
    split
    · exact inv.popMove at_pc rfl knows
    next many =>
      -- two items or more leave one between this thread and a push
      have enough : Enough lockTail L s.back.pending :=
        inv.enough_of_count at_pc rfl rfl (by omega)
      exact inv.popMove at_pc rfl enough
  | lockTail =>
    simp only [popStep] at stepped
    split at stepped
    next free =>
      cases stepped
      have alone : lockTail = false := knows
      subst alone
      exact ⟨L, inv.lockTail at_pc free rfl fun without => by cases without⟩
    · cases stepped
  | count =>
    cases stepped
    split
    · exact inv.popMove at_pc rfl trivial
    · exact inv.popMove at_pc rfl knows
  | testTail =>
    cases stepped
    split
    · exact inv.popMove at_pc rfl trivial
    next some =>
      have nonempty : L ≠ [] := by
        rintro rfl
        have tail := inv.layout.tail
        rw [inv.front_eq at_pc rfl] at tail
        exact some tail
      exact inv.popMove at_pc rfl ⟨knows, nonempty⟩
  | testHead =>
    cases stepped
    split
    · exact inv.popMove at_pc rfl trivial
    · exact inv.popMove at_pc rfl knows
  | dec =>
    cases stepped
    exact inv.popWrite at_pc rfl rfl Layout.dec knows
  | readHead =>
    obtain ⟨first, is_first⟩ :=
      Option.ne_none_iff_exists'.mp (List.head?_eq_none_iff.not.mpr knows.2)
    have head : s.mem.head = some first := (inv.head_eq knows.2).trans is_first
    simp only [popStep, head] at stepped
    cases stepped
    exact inv.popMove at_pc rfl ⟨knows.1, is_first⟩
  | testOwner i =>
    cases stepped
    have owner := inv.front_owner at_pc knows.1 knows.2 rfl
    rw [if_neg (by simp [owner])]
    exact inv.popMove at_pc rfl knows
  | isHead i =>
    have owner := inv.front_owner at_pc knows.1 knows.2 rfl
    have nonempty : L ≠ [] := by
      rintro rfl
      cases knows.2
    have head : s.mem.head = some i := (inv.head_eq nonempty).trans knows.2
    simp only [popStep, owner, head] at stepped
    cases stepped
    exact inv.popMove at_pc rfl knows
  | isTail i => exact inv.popIsTail at_pc calm stepped
  | clearHead i => exact inv.popClearHead at_pc stepped
  | clearTail i =>
    obtain ⟨rfl, alone⟩ := knows
    have layout := inv.layout
    rw [inv.front_eq at_pc rfl] at layout
    -- the item that is being taken out is the one the thread has read from `head`
    have owner := layout.dying_owner i rfl
    simp only [popStep, owner, Bool.true_eq_false, if_false] at stepped
    cases stepped
    exact inv.popWrite at_pc rfl rfl Layout.clearTail trivial
  | readNext i =>
    cases stepped
    exact inv.popMove at_pc rfl (inv.second knows.1 knows.2)
  | clearPrev i next =>
    obtain ⟨n, rest, rfl, rfl⟩ := knows
    cases stepped
    exact inv.popWrite at_pc rfl rfl (·.setPrev n none) ⟨rfl, by simp⟩
  | rereadNext i =>
    cases stepped
    exact inv.popMove at_pc rfl (inv.second knows.1 knows.2)
  | setHead i next => exact inv.popSetHead at_pc stepped
  | clearNext i =>
    cases stepped
    have out := inv.kept.apart t i (by rw [at_pc]; rfl)
    exact inv.popWrite at_pc rfl rfl (·.clearNext out) trivial
  | clearOwner i =>
    cases stepped
    have out := inv.kept.apart t i (by rw [at_pc]; rfl)
    exact inv.popWrite at_pc rfl rfl (·.clearOwner out) trivial
  | inner i at_ => exact knows.elim
  | unlockHead result =>
    cases stepped
    cases lockTail with
    | true => exact ⟨L, inv.unlockHead at_pc rfl rfl rfl trivial⟩
    | false => exact ⟨L, inv.unlockHead at_pc rfl rfl rfl trivial⟩
  | unlockTail result =>
    cases stepped
    exact ⟨L, inv.unlockTail at_pc rfl rfl rfl trivial⟩
  | ret result =>
    cases result with
    | none =>
      cases stepped
      exact ⟨L, inv.move at_pc rfl trivial⟩
    | some i =>
      cases stepped
      have at_hand : (s.pc t).token = some i := by rw [at_pc]; rfl
      -- the item was busy in this thread, so it is returned once
      have once : (s.twice || !s.busy i) = false := by
        simp [inv.once, inv.kept.token_busy t i at_hand]
      exact ⟨L, inv.handOver at_pc rfl once (inv.kept.surrender at_hand rfl) trivial⟩

theorem step_inv {label : Label T I} (inv : Inv s L) (calm : u.collides = false)
    (stepped : step s label = some u) : ∃ L', Inv u L' := by
  cases label with
  | pushBack t i =>
    rw [step, if_neg (by simp [inv.running])] at stepped
    split at stepped
    next fresh =>
      cases stepped
      have token : (s.pc t).token = none := by rw [fresh.1]; rfl
      exact ⟨L, inv.handOver fresh.1 rfl inv.once
        (inv.kept.receive fresh.2 token rfl) trivial⟩
    · cases stepped
  | popHead t =>
    rw [step, if_neg (by simp [inv.running])] at stepped
    split at stepped
    next at_pc =>
      cases stepped
      exact ⟨L, inv.move at_pc rfl rfl⟩
    · cases stepped
  | run t =>
    rw [step, if_neg (by simp [inv.running])] at stepped
    cases at_pc : s.pc t with
    | idle => simp [at_pc] at stepped
    | push i lockHead at_ =>
      simp only [at_pc] at stepped
      exact pushStep_inv inv at_pc calm stepped
    | pop lockTail at_ =>
      simp only [at_pc] at stepped
      exact popStep_inv inv at_pc calm stepped

end Steps

end BRoutine.TwoLock
