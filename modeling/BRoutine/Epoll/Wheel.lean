import BRoutine.Epoll.Timer
import BRoutine.Task.PushAll
import BRoutine.Transition

/-!
# The wheel in memory

`bEpTimer` with the links of its buckets and of the lists that its merges return. `keeps_apart`
says that a registered task is linked in one bucket, or removed, or in the result of one merge,
and in which order a merge returns tasks.
-/

namespace BRoutine.Wheel

open Steal Steal.Heap

variable {I : Type} [DecidableEq I]

/-- A bucket of the wheel, or the list that a merge has made. -/
inductive Place where
  | bucket (i : Nat)
  | result (k : Nat)
  deriving DecidableEq, Repr

/-- The wheel with its memory. The last four fields are not in the source: the number of merges,
the registered tasks in order, the bucket that `getBucket` chose for each of them, and those that
have been removed. -/
structure State (I : Type) where
  heap : Heap I Place
  taskItemBucketSize : Nat
  lastCheckTime : Nat
  bucketPosNow : Nat
  merges : Nat
  registered : List I
  chosen : I → Nat
  removed : I → Bool

/-- A merge has the number of tests of its loop condition after which it is given up. -/
inductive Label (I : Type) where
  | register (i : I) (msWant : Nat)
  | remove (i : I)
  | merge (now : Reading) (fuel : Nat)

/-- `bEpTimer::New`. -/
def new (now : Reading) : State I where
  heap := ⟨fun _ => none, fun _ => none, fun _ => none, fun _ => none, fun _ => none, fun _ => 0⟩
  taskItemBucketSize := 1000 * timeWaitSeconds
  lastCheckTime := now
  bucketPosNow := 0
  merges := 0
  registered := []
  chosen := fun _ => 0
  removed := fun _ => false

namespace State

/-- The index of the bucket that `getBucket(ms_want)` returns. -/
def getBucket (s : State I) (msWant : Nat) : Nat :=
  let msWant := if msWant > s.taskItemBucketSize then s.taskItemBucketSize else msWant
  (s.bucketPosNow + msWant) % 2 ^ 64 % s.taskItemBucketSize

/-- `getBucket(ms_want)->pushBack(i)`. -/
def register (s : State I) (i : I) (msWant : Nat) : Option (State I) :=
  let index := s.getBucket msWant
  (s.heap.pushBackUnsafe (.bucket index) i).map fun heap =>
    { s with
      heap := heap
      registered := s.registered ++ [i]
      chosen := Function.update s.chosen i index }

/-- `RemoveSelfFromOwnerlink(i)`. -/
def remove (s : State I) (i : I) : Option (State I) :=
  (s.heap.removeSelfFromOwnerlink (some i)).map fun (_, heap) =>
    { s with heap := heap, removed := Function.update s.removed i true }

/-- `target_pos` of a merge at the reading `nowMs`. -/
def targetPos (s : State I) (nowMs : Nat) : Nat :=
  (nowMs + 2 ^ 64 - s.lastCheckTime + s.bucketPosNow) % 2 ^ 64 % s.taskItemBucketSize

/-- The loop of `NewMergeUpdate2Now` from index `i`, for a wheel of `size` buckets in which no list
has more than `most` tasks. -/
def mergeLoop (size most targetPos k : Nat) : Nat → Nat → Heap I Place → Option (Heap I Place)
  | 0, _, _ => none
  | fuel + 1, i, heap =>
    if i ≤ targetPos then
      (pushAll2Loop (.bucket i) (.result k) (most + 1) heap).bind
        (mergeLoop size most targetPos k fuel ((i + 1) % size))
    else some heap

/-- `TaskItemsList::New`. -/
def newList (heap : Heap I Place) (p : Place) : Heap I Place :=
  { heap with
    head := Function.update heap.head p none
    tail := Function.update heap.tail p none
    itemCount := Function.update heap.itemCount p 0#32 }

/-- `NewMergeUpdate2Now` at the reading `nowMs`. -/
def merge (s : State I) (nowMs fuel : Nat) : Option (State I) :=
  (mergeLoop s.taskItemBucketSize s.registered.length (s.targetPos nowMs) s.merges fuel
      (s.bucketPosNow + 1) (newList s.heap (.result s.merges))).map fun heap =>
    { s with
      heap := heap
      bucketPosNow := s.targetPos nowMs
      lastCheckTime := nowMs
      merges := s.merges + 1 }

end State

/-- A task is registered once, and removed while it is linked. -/
def step (s : State I) : Label I → Option (State I)
  | .register i msWant => if i ∉ s.registered then s.register i msWant else none
  | .remove i => if s.heap.owner i ≠ none then s.remove i else none
  | .merge now fuel => s.merge now fuel

/-- Any sequence of registrations, removals and merges that return. -/
def machine (I : Type) [DecidableEq I] : Transition.Machine (State I) (Label I) where
  start s := ∃ now, s = new now
  step := step

/-! ### Where the tasks are -/

/-- The tasks linked in each list, and what links them. -/
structure Placed (s : State I) (content : Place → List I) : Prop where
  shaped : s.heap.Shaped content
  inside : s.bucketPosNow < s.taskItemBucketSize
  fresh : ∀ i, i ∉ s.registered → s.heap.Loose i
  known : ∀ p, ∀ i ∈ content p, i ∈ s.registered
  bucket : ∀ b, ∀ i ∈ content (.bucket b), b = s.chosen i
  order : ∀ b, (content (.bucket b)).Sublist s.registered
  removed : ∀ i, s.removed i = true ↔ i ∈ s.registered ∧ ∀ p, i ∉ content p
  results : ∀ k, s.merges ≤ k → content (.result k) = []
  once : s.registered.Nodup

variable {s : State I} {content : Place → List I}

/-! ### The loop of a merge -/

/-- The contents after the `n` buckets from `i` on have been moved to the result `k`. -/
def drained (content : Place → List I) (k i n : Nat) : Place → List I
  | .bucket b => if i ≤ b ∧ b < i + n then [] else content (.bucket b)
  | .result k' =>
    if k' = k then
      content (.result k) ++ (List.range' i n).flatMap fun b => content (.bucket b)
    else content (.result k')

omit [DecidableEq I] in
theorem drained_zero (content : Place → List I) (k i : Nat) : drained content k i 0 = content := by
  funext p
  cases p with
  | bucket b => exact if_neg (by omega)
  | result k' =>
    by_cases same : k' = k
    · simp [drained, same]
    · simp [drained, same]

omit [DecidableEq I] in
/-- Moving the first bucket and then the others. -/
theorem drained_succ (content : Place → List I) (k i n : Nat) :
    drained (movedAll content (.bucket i) (.result k)) k (i + 1) n =
      drained content k i (n + 1) := by
  have later : ∀ b, b ≠ i →
      movedAll content (.bucket i) (.result k) (.bucket b) = content (.bucket b) := by
    intro b other
    simp [movedAll, other]
  funext p
  cases p with
  | bucket b =>
    by_cases first : b = i
    · simp [drained, movedAll, first]
    · simp only [drained, later b first]
      exact if_congr (by omega) rfl rfl
  | result k' =>
    by_cases same : k' = k
    · -- the buckets behind `i` are as they were
      have rest : (List.range' (i + 1) n).flatMap
          (fun b => movedAll content (.bucket i) (.result k) (.bucket b)) =
          (List.range' (i + 1) n).flatMap fun b => content (.bucket b) := by
        apply List.flatMap_congr
        intro b member
        have behind := (List.mem_range'_1.mp member).1
        exact later b (by omega)
      simp only [drained, same, if_true, rest, List.range'_succ, List.flatMap_cons]
      simp [movedAll]
    · simp [drained, movedAll, same]

omit [DecidableEq I] in
theorem mem_drained {k i n : Nat} {x : I} :
    (∃ p, x ∈ drained content k i n p) ↔ ∃ p, x ∈ content p := by
  -- a task that moved is in the result, and the result has no others
  constructor
  · rintro ⟨b | k', member⟩
    · simp only [drained] at member
      split at member
      · cases member
      · exact ⟨_, member⟩
    · simp only [drained] at member
      split at member
      · rcases List.mem_append.mp member with old | moved
        · exact ⟨_, old⟩
        · obtain ⟨b, -, there⟩ := List.mem_flatMap.mp moved
          exact ⟨_, there⟩
      · exact ⟨_, member⟩
  · rintro ⟨b | k', member⟩
    · by_cases moved : i ≤ b ∧ b < i + n
      · refine ⟨.result k, ?_⟩
        simp only [drained, if_true]
        exact List.mem_append_right _
          (List.mem_flatMap.mpr ⟨b, List.mem_range'_1.mpr moved, member⟩)
      · exact ⟨.bucket b, by rw [drained, if_neg moved]; exact member⟩
    · by_cases same : k' = k
      · subst same
        exact ⟨.result k', by simp only [drained, if_true]; exact List.mem_append_left _ member⟩
      · exact ⟨.result k', by rw [drained, if_neg same]; exact member⟩

/-- One turn moves the bucket `i`, in at most `most + 1` turns of `pushAll2`. -/
theorem mergeLoop_turn {most k i : Nat} {heap : Heap I Place} (shaped : heap.Shaped content)
    (lengths : ∀ b, (content (.bucket b)).length ≤ most) :
    ∃ heap', pushAll2Loop (.bucket i) (.result k) (most + 1) heap = some heap' ∧
      heap'.Shaped (movedAll content (.bucket i) (.result k)) ∧
      (∀ b, (movedAll content (.bucket i) (.result k) (.bucket b)).length ≤ most) ∧
      ∀ y, heap.Loose y → heap'.Loose y := by
  have differs : Place.bucket i ≠ .result k := by simp
  obtain ⟨heap', moved, shaped', -, others⟩ :=
    shaped.pushAll2 differs (Nat.lt_succ_of_le (lengths i))
  refine ⟨heap', moved, shaped', fun b => ?_, others⟩
  by_cases first : b = i
  · simp [movedAll, first]
  · simpa [movedAll, first] using lengths b

/-- A loop that does not have to drain the last bucket and returns has moved the buckets up to
`targetPos`. -/
theorem mergeLoop_drains {size most targetPos k fuel i : Nat} {heap heap' : Heap I Place}
    (short : targetPos + 1 < size) (start : i ≤ targetPos + 1)
    (shaped : heap.Shaped content) (lengths : ∀ b, (content (.bucket b)).length ≤ most)
    (returned : State.mergeLoop size most targetPos k fuel i heap = some heap') :
    heap'.Shaped (drained content k i (targetPos + 1 - i)) ∧ ∀ y, heap.Loose y → heap'.Loose y := by
  induction fuel generalizing i heap content with
  | zero => cases returned
  | succ fuel ih =>
    rw [State.mergeLoop] at returned
    split at returned
    next more =>
      obtain ⟨heap₁, moved, shaped₁, lengths₁, others⟩ := mergeLoop_turn (k := k) shaped lengths
      rw [moved, Option.bind_some, Nat.mod_eq_of_lt (by omega)] at returned
      obtain ⟨shaped', others'⟩ := ih (by omega) shaped₁ lengths₁ returned
      refine ⟨?_, fun y loose => others' y (others y loose)⟩
      rw [show targetPos + 1 - i = targetPos + 1 - (i + 1) + 1 by omega, ← drained_succ]
      exact shaped'
    next ended =>
      cases returned
      rw [show targetPos + 1 - i = 0 by omega, drained_zero]
      exact ⟨shaped, fun y loose => loose⟩

/-- Such a loop returns after one turn for each bucket. -/
theorem mergeLoop_returns {size most targetPos k fuel i : Nat} {heap : Heap I Place}
    (short : targetPos + 1 < size) (start : i ≤ targetPos + 1) (enough : targetPos + 2 ≤ fuel + i)
    (shaped : heap.Shaped content) (lengths : ∀ b, (content (.bucket b)).length ≤ most) :
    (State.mergeLoop size most targetPos k fuel i heap).isSome := by
  induction fuel generalizing i heap content with
  | zero => omega
  | succ fuel ih =>
    rw [State.mergeLoop]
    split
    next more =>
      obtain ⟨heap₁, moved, shaped₁, lengths₁, -⟩ := mergeLoop_turn (k := k) shaped lengths
      rw [moved, Option.bind_some, Nat.mod_eq_of_lt (by omega)]
      exact ih (by omega) (by omega) shaped₁ lengths₁
    next => rfl

/-- A loop that has to drain the last bucket does not return. -/
theorem mergeLoop_spins {size most targetPos k fuel i : Nat} {heap : Heap I Place}
    (last : targetPos + 1 = size) (inside : i ≤ targetPos) :
    State.mergeLoop size most targetPos k fuel i heap = none := by
  induction fuel generalizing i heap with
  | zero => rfl
  | succ fuel ih =>
    rw [State.mergeLoop, if_pos inside]
    have below := Nat.mod_lt (i + 1) (show 0 < size by omega)
    cases pushAll2Loop (.bucket i) (.result k) (most + 1) heap with
    | none => rfl
    | some heap₁ => exact ih (by omega)

/-! ### Each operation -/

omit [DecidableEq I] in
theorem new_placed (now : Reading) : Placed (new now : State I) fun _ => [] where
  shaped := ⟨fun _ => .nil, fun _ _ => by simp [new]⟩
  inside := by simp [new, timeWaitSeconds]
  fresh := fun _ _ => ⟨rfl, rfl, rfl⟩
  known := fun _ _ member => by cases member
  bucket := fun _ _ member => by cases member
  order := fun _ => List.Sublist.refl _
  removed := fun _ => by simp [new]
  results := fun _ _ => rfl
  once := .nil

/-- A registration links the task at the end of the bucket that `getBucket` chooses. -/
theorem Placed.register (placed : Placed s content) {i : I} (fresh : i ∉ s.registered)
    (msWant : Nat) :
    ∃ s', s.register i msWant = some s' ∧ Placed s' (Function.update content
      (.bucket (s.getBucket msWant)) (content (.bucket (s.getBucket msWant)) ++ [i])) := by
  obtain ⟨heap, pushed, shaped, -, others⟩ :=
    placed.shaped.push (placed.fresh i fresh) (.bucket (s.getBucket msWant))
  -- a task is registered once, so it is in no list yet
  have absent : ∀ p, i ∉ content p := fun p member => fresh (placed.known p i member)
  refine ⟨{ s with
    heap := heap
    registered := s.registered ++ [i]
    chosen := Function.update s.chosen i (s.getBucket msWant) }, ?_, ?_⟩
  · rw [State.register, pushed]
    rfl
  constructor
  · exact shaped
  · exact placed.inside
  · intro y unknown
    rw [List.mem_append, not_or, List.mem_singleton] at unknown
    exact others y unknown.2 (placed.fresh y unknown.1)
  · intro p y member
    rw [List.mem_append, List.mem_singleton]
    exact (mem_pushed.mp member).imp (placed.known p y) And.right
  · intro b y member
    rcases mem_pushed.mp member with old | ⟨same, rfl⟩
    · have other : y ≠ i := fun same => absent _ (same ▸ old)
      change b = Function.update s.chosen i (s.getBucket msWant) y
      rw [Function.update_of_ne other]
      exact placed.bucket b y old
    · change b = Function.update s.chosen y (s.getBucket msWant) y
      rw [Function.update_self]
      exact Place.bucket.inj same
  · intro b
    -- the chosen bucket grows at its end, as the order of registration does
    by_cases same : b = s.getBucket msWant
    · rw [same, Function.update_self]
      exact (placed.order _).append (List.Sublist.refl [i])
    · have other : Place.bucket b ≠ .bucket (s.getBucket msWant) := fun eq =>
        same (Place.bucket.inj eq)
      rw [Function.update_of_ne other]
      exact (placed.order b).trans (List.sublist_append_left _ _)
  · intro y
    rw [placed.removed y, List.mem_append, List.mem_singleton]
    simp only [mem_pushed]
    by_cases new : y = i
    · subst new
      exact iff_of_false (fun removed => fresh removed.1) fun removed =>
        removed.2 _ (.inr ⟨rfl, rfl⟩)
    · simp [new]
  · intro k later
    have other : Place.result k ≠ .bucket (s.getBucket msWant) := by simp
    rw [Function.update_of_ne other]
    exact placed.results k later
  · rw [List.nodup_append]
    refine ⟨placed.once, List.nodup_singleton i, fun y member z last same => fresh ?_⟩
    rwa [← List.mem_singleton.mp last, ← same]

/-- A removal takes a linked task out of the list it is in. -/
theorem Placed.remove (placed : Placed s content) {i : I} (linked : s.heap.owner i ≠ none) :
    ∃ s' content', s.remove i = some s' ∧ Placed s' content' ∧
      ∀ p y, y ∈ content' p ↔ y ∈ content p ∧ y ≠ i := by
  obtain ⟨p, owns⟩ := Option.ne_none_iff_exists'.mp linked
  have member := (placed.shaped.filed i p).mp owns
  obtain ⟨front, back, items⟩ := List.append_of_mem member
  obtain ⟨heap, removed, shaped, -, -, others⟩ := placed.shaped.remove items
  -- every other task stays where it is
  have left := fun y p' => @Shaped.mem_without I Place s.heap content p i _ placed.shaped front back
    items y p'
  refine ⟨{ s with heap := heap, removed := Function.update s.removed i true },
    Function.update content p (front ++ back), ?_, ?_, fun p' y => left y p'⟩
  · rw [State.remove, removed]
    rfl
  constructor
  · exact shaped
  · exact placed.inside
  · exact fun y unknown => others y (placed.fresh y unknown)
  · exact fun p' y there => placed.known p' y ((left y p').mp there).1
  · exact fun b y there => placed.bucket b y ((left y (.bucket b)).mp there).1
  · intro b
    by_cases same : Place.bucket b = p
    · rw [same, Function.update_self]
      have shorter : (front ++ back).Sublist (content p) := by
        rw [items]
        exact (List.Sublist.refl front).append (List.sublist_cons_self i back)
      exact shorter.trans (same ▸ placed.order b)
    · rw [Function.update_of_ne same]
      exact placed.order b
  · intro y
    simp only [left]
    by_cases mine : y = i
    · subst mine
      simp [placed.known p y member]
    · rw [Function.update_of_ne mine, placed.removed y]
      simp [mine]
  · intro k later
    -- a list that no merge has made yet has nothing to take out
    have empty := placed.results k later
    have other : Place.result k ≠ p := by
      rintro rfl
      rw [empty] at member
      cases member
    rw [Function.update_of_ne other]
    exact empty
  · exact placed.once

omit [DecidableEq I] in
theorem targetPos_lt (inside : s.bucketPosNow < s.taskItemBucketSize) (nowMs : Nat) :
    s.targetPos nowMs < s.taskItemBucketSize :=
  Nat.mod_lt _ (by omega)

/-- What a merge that returns puts into its result: the buckets behind the position up to the
target, in order. -/
def returns (s : State I) (content : Place → List I) (nowMs : Nat) : List I :=
  (List.range' (s.bucketPosNow + 1) (s.targetPos nowMs - s.bucketPosNow)).flatMap fun b =>
    content (.bucket b)

omit [DecidableEq I] in
theorem Placed.newList (placed : Placed s content) :
    (State.newList s.heap (.result s.merges)).Shaped content := by
  refine ⟨fun p => ?_, placed.shaped.filed⟩
  have linked := placed.shaped.linked p
  by_cases mine : p = .result s.merges
  · subst mine
    rw [placed.results s.merges (Nat.le_refl _)]
    simp only [State.newList, Function.update_self]
    exact .nil
  · simp only [State.newList, Function.update_of_ne mine]
    exact linked

/-- A merge that returns moves the buckets it drains to its result. -/
theorem Placed.merge (placed : Placed s content) {s' : State I} {nowMs fuel : Nat}
    (returned : s.merge nowMs fuel = some s') :
    ∃ content', Placed s' content' ∧ content' (.result s.merges) = returns s content nowMs := by
  obtain ⟨heap, looped, rfl⟩ := Option.map_eq_some_iff.mp returned
  have inside := targetPos_lt placed.inside nowMs
  have loose : ∀ y, s.heap.Loose y → (State.newList s.heap (.result s.merges)).Loose y :=
    fun y free => ⟨free.next, free.prev, free.owner⟩
  have shaped := placed.newList
  have moved : heap.Shaped (drained content s.merges (s.bucketPosNow + 1)
      (s.targetPos nowMs - s.bucketPosNow)) ∧ ∀ y, s.heap.Loose y → heap.Loose y := by
    by_cases forward : s.bucketPosNow + 1 ≤ s.targetPos nowMs
    · -- a loop that returns does not have to drain the last bucket
      have short : s.targetPos nowMs + 1 < s.taskItemBucketSize := by
        by_contra last
        rw [mergeLoop_spins (by omega) forward] at looped
        cases looped
      obtain ⟨shaped', others⟩ := mergeLoop_drains short (by omega) shaped
        (fun b => (placed.order b).length_le) looped
      rw [Nat.add_sub_add_right] at shaped'
      exact ⟨shaped', fun y free => others y (loose y free)⟩
    · have none : s.targetPos nowMs - s.bucketPosNow = 0 := by omega
      rw [none, drained_zero]
      match fuel with
      | 0 => cases looped
      | fuel + 1 =>
        rw [State.mergeLoop, if_neg forward] at looped
        cases looped
        exact ⟨shaped, loose⟩
  rw [returns]
  -- from here only the number of drained buckets matters
  generalize s.targetPos nowMs - s.bucketPosNow = n at moved ⊢
  generalize s.targetPos nowMs = target at inside ⊢
  have same := fun y => @mem_drained I content s.merges (s.bucketPosNow + 1) n y
  refine ⟨_, ⟨moved.1, inside, fun y unknown => moved.2 y (placed.fresh y unknown),
    fun p y member => ?_, fun b y member => ?_, fun b => ?_, fun y => ?_, fun k later => ?_,
    placed.once⟩, ?_⟩
  · obtain ⟨p', there⟩ := (same y).mp ⟨p, member⟩
    exact placed.known p' y there
  · -- a drained bucket is empty, and the others keep their tasks
    simp only [drained] at member
    split at member
    · cases member
    · exact placed.bucket b y member
  · simp only [drained]
    split
    · exact List.nil_sublist _
    · exact placed.order b
  · rw [placed.removed y, ← not_exists, ← not_exists, same y]
  · have below : s.merges + 1 ≤ k := later
    have other : k ≠ s.merges := by omega
    simp only [drained, if_neg other]
    exact placed.results k (by omega)
  · have empty := placed.results s.merges (Nat.le_refl _)
    rw [drained, if_pos rfl, empty, List.nil_append]

/-! ### Runs -/

/-- After a removal the task is removed, and linked nowhere. -/
theorem Placed.removes (placed : Placed s content) {i : I} {s' : State I}
    (stepped : step s (.remove i) = some s') :
    ∃ content', Placed s' content' ∧ s'.removed i = true ∧ s'.heap.owner i = none ∧
      ∀ p y, y ∈ content' p ↔ y ∈ content p ∧ y ≠ i := by
  simp only [step] at stepped
  split at stepped
  next linked =>
    obtain ⟨s₁, content', removed, placed', left⟩ := placed.remove linked
    rw [removed] at stepped
    cases stepped
    obtain ⟨p, owns⟩ := Option.ne_none_iff_exists'.mp linked
    have known := placed.known p i ((placed.shaped.filed i p).mp owns)
    have nowhere (q : Place) : i ∉ content' q := fun there => ((left q i).mp there).2 rfl
    refine ⟨content', placed', ?_, ?_, left⟩
    · apply (placed'.removed i).mpr
      refine ⟨?_, nowhere⟩
      obtain ⟨heap, -, rfl⟩ := Option.map_eq_some_iff.mp removed
      exact known
    · refine Option.eq_none_iff_forall_ne_some.mpr fun q owns' => ?_
      exact nowhere q ((placed'.shaped.filed i q).mp owns')
  · cases stepped

theorem step_placed (placed : Placed s content) {label : Label I} {s' : State I}
    (stepped : step s label = some s') : ∃ content', Placed s' content' := by
  -- each operation keeps the tasks placed
  cases label with
  | register i msWant =>
    simp only [step] at stepped
    split at stepped
    next fresh =>
      obtain ⟨s₁, registered, placed'⟩ := placed.register fresh msWant
      rw [registered] at stepped
      cases stepped
      exact ⟨_, placed'⟩
    · cases stepped
  | remove i =>
    obtain ⟨content', placed', -⟩ := placed.removes stepped
    exact ⟨content', placed'⟩
  | merge now fuel =>
    obtain ⟨content', placed', -⟩ := placed.merge stepped
    exact ⟨content', placed'⟩

theorem reachable_placed (reached : (machine I).Reachable s) : ∃ content, Placed s content := by
  refine Transition.Machine.ReachableBy.invariant (fun s => ∃ content, Placed s content) ?_ ?_
    reached
  · rintro s ⟨now, rfl⟩
    exact ⟨_, new_placed now⟩
  · rintro s label s' ⟨content, placed⟩ - stepped
    exact step_placed placed stepped

/-- A merge returns unless it has to drain the last bucket: no other turn of it can fail. -/
theorem merge_returns_iff (reached : (machine I).Reachable s) (now : Reading) :
    (∃ fuel, (step s (.merge now fuel)).isSome) ↔
      s.targetPos now + 1 < s.taskItemBucketSize ∨ s.targetPos now ≤ s.bucketPosNow := by
  obtain ⟨content, placed⟩ := reachable_placed reached
  have inside := targetPos_lt placed.inside now
  simp only [step, State.merge, Option.isSome_map]
  constructor
  · rintro ⟨fuel, returned⟩
    by_contra last
    rw [mergeLoop_spins (by omega) (by omega)] at returned
    cases returned
  · intro ends
    by_cases forward : s.bucketPosNow + 1 ≤ s.targetPos now
    · have short := ends.resolve_right (by omega)
      exact ⟨s.targetPos now + 2, mergeLoop_returns short (by omega) (by omega) placed.newList
        fun b => (placed.order b).length_le⟩
    · -- with nothing to drain the first test ends the loop
      exact ⟨1, by rw [State.mergeLoop, if_neg forward]; rfl⟩

/-- Exactly one of the three holds. -/
def ExactlyOne (a b c : Prop) : Prop := (a ∧ ¬ b ∧ ¬ c) ∨ (¬ a ∧ b ∧ ¬ c) ∨ (¬ a ∧ ¬ b ∧ c)

/-- Every registered task is linked in a bucket, or removed, or in the result of a merge. A bucket
it is linked in is the one that `getBucket` chose, and it is in no two results. -/
structure Apart (s : State I) (content : Place → List I) : Prop where
  one : ∀ i ∈ s.registered, ExactlyOne (∃ b, i ∈ content (.bucket b)) (s.removed i = true)
    (∃ k < s.merges, i ∈ content (.result k))
  chosen : ∀ i b, i ∈ content (.bucket b) → b = s.chosen i
  result : ∀ i k k', i ∈ content (.result k) → i ∈ content (.result k') → k = k'

omit [DecidableEq I] in
theorem Placed.apart (placed : Placed s content) : Apart s content where
  one i known := by
    have unique := fun p p' => @Intrusive.Filed.unique I Place s.heap.owner content
      placed.shaped.filed i p p'
    -- a task that is linked nowhere has been removed
    by_cases linked : ∃ p, i ∈ content p
    · obtain ⟨p, member⟩ := linked
      have kept : s.removed i ≠ true := fun removed =>
        ((placed.removed i).mp removed).2 p member
      cases p with
      | bucket b =>
        refine .inl ⟨⟨b, member⟩, kept, ?_⟩
        rintro ⟨k, -, there⟩
        cases unique _ _ member there
      | result k =>
        have made : k < s.merges := by
          by_contra later
          rw [placed.results k (by omega)] at member
          cases member
        refine .inr (.inr ⟨?_, kept, k, made, member⟩)
        rintro ⟨b, there⟩
        cases unique _ _ member there
    · rw [not_exists] at linked
      have gone : s.removed i = true := (placed.removed i).mpr ⟨known, linked⟩
      exact .inr (.inl ⟨fun ⟨b, there⟩ => linked _ there, gone,
        fun ⟨k, _, there⟩ => linked _ there⟩)
  chosen i b member := placed.bucket b i member
  result i k k' here there := Place.result.inj (placed.shaped.filed.unique here there)

/-- In every run each registered task is in one bucket, or removed, or in the result of one merge;
the buckets have their tasks in the order of registration; a removal leaves its task removed and
unlinked, and all others where they are; and a merge returns the buckets it drains one after the
other. -/
theorem keeps_apart (reached : (machine I).Reachable s) :
    ∃ content, s.heap.Shaped content ∧ Apart s content ∧
      (∀ b, (content (.bucket b)).Sublist s.registered) ∧
      (∀ i s', step s (.remove i) = some s' →
        s'.removed i = true ∧ s'.heap.owner i = none ∧
          ∃ content', s'.heap.Shaped content' ∧ Apart s' content' ∧
            ∀ p y, y ∈ content' p ↔ y ∈ content p ∧ y ≠ i) ∧
      ∀ (now : Reading) fuel s', step s (.merge now fuel) = some s' →
        ∃ content', s'.heap.Shaped content' ∧ Apart s' content' ∧
          content' (.result s.merges) = returns s content now := by
  obtain ⟨content, placed⟩ := reachable_placed reached
  refine ⟨content, placed.shaped, placed.apart, placed.order, fun i s' stepped => ?_,
    fun now fuel s' stepped => ?_⟩
  · obtain ⟨content', placed', removed, unlinked, left⟩ := placed.removes stepped
    exact ⟨removed, unlinked, content', placed'.shaped, placed'.apart, left⟩
  · obtain ⟨content', placed', result⟩ := placed.merge stepped
    exact ⟨content', placed'.shaped, placed'.apart, result⟩

/-- Two tasks in one bucket, of which the first is removed before a merge. -/
def oneLeft : List (Label Nat) := [.register 5 3, .register 6 3, .remove 5, .merge ⟨4, by decide⟩ 6]

theorem keeps_apart_oneLeft :
    ∃ s, (machine Nat).exec (new 0) oneLeft = some s ∧
      ∃ content, s.heap.Shaped content ∧ Apart s content := by
  obtain ⟨s, ran⟩ : ∃ s, (machine Nat).exec (new 0) oneLeft = some s := ⟨_, rfl⟩
  obtain ⟨content, shaped, apart, -⟩ :=
    keeps_apart (Transition.Machine.exec_reachable (.start ⟨0, rfl⟩) ran)
  exact ⟨s, ran, content, shaped, apart⟩

end BRoutine.Wheel
