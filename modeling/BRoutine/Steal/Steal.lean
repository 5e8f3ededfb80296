import BRoutine.Steal.Queues

/-!
# Stealing a task

`Try2stealTask` of `b_routine_env.cc` on a queue of any length, with every outcome of its trylocks.
`steals_iff` says when it takes a task out of the queue or leaves all of them in it.
-/

namespace BRoutine.Steal

variable {I Q : Type} [DecidableEq I] [DecidableEq Q]

/-- `Try2stealTask` with the pointer it returns; nothing where it follows a null pointer. `seen` is
what it finds in `ItemCount` before it has locked anything, `headFree` and `tailFree` say whether
its trylocks succeed, and `isMain` whether the routine of a task is a main one. -/
def try2stealTask (isMain : I → Bool) (h : Heap I Q) (activeTask : Q) (seen : BitVec 32)
    (headFree tailFree : Bool) : Option (Option I × Heap I Q) :=
  if seen = 0#32 then some (none, h)
  else if !headFree then some (none, h)
  else if h.itemCount activeTask < 2#32 then
    if h.itemCount activeTask = 0#32 then some (none, h)
    else if !tailFree then some (none, h)
    else
      match h.popHeadUnsafe activeTask with
      | some (some a, h) =>
        if isMain a then (h.pushBackUnsafe activeTask a).map fun h => (some a, h)
        else some (some a, h)
      | _ => none
  else
    match h.popHeadUnsafe activeTask with
    | some (some a, h) =>
      -- here the tail is locked by waiting for it
      if isMain a then (h.pushBackUnsafe activeTask a).map fun h => (none, h)
      else some (some a, h)
    | _ => none

/-- Every task of `content` is in exactly one queue of `content'`, and there only once. -/
def KeepsEach (content content' : Q → List I) : Prop :=
  ∀ i, (∃ q, i ∈ content q) →
    ∃ q, (content' q).count i = 1 ∧ ∀ q', i ∈ content' q' → q' = q

/-- The queues after `i` is pushed into `thief`. -/
def pushedTo (content : Q → List I) (thief : Q) (i : I) : Q → List I :=
  Function.update content thief (content thief ++ [i])

/-- What a steal from `activeTask` may do to the queues: with null it keeps the tasks of the queue,
perhaps in another order; a task that it returns is not a main one, was the first of the queue, is
linked nowhere, and can be pushed into any queue with every task in exactly one queue then. -/
def Clean (isMain : I → Bool) (content : Q → List I) (h : Heap I Q) (activeTask : Q) :
    Option I × Heap I Q → Prop
  | (none, h') => ∃ xs, xs.Perm (content activeTask) ∧
      h'.WellFormed (Function.update content activeTask xs) ∧ h'.itemCount = h.itemCount
  | (some i, h') => isMain i = false ∧ ∃ xs, content activeTask = i :: xs ∧
      h'.WellFormed (Function.update content activeTask xs) ∧ h'.owner i = none ∧
      h'.itemCount = Function.update h.itemCount activeTask (h.itemCount activeTask - 1#32) ∧
      ∀ thief, ∃ h'', h'.pushBackUnsafe thief i = some h'' ∧
        h''.WellFormed (pushedTo (Function.update content activeTask xs) thief i) ∧
        KeepsEach content (pushedTo (Function.update content activeTask xs) thief i)

variable {isMain : I → Bool} {h h' : Heap I Q} {content content' : Q → List I} {activeTask : Q}
  {x : I} {xs : List I}

/-! ### Tasks in exactly one queue -/

omit [DecidableEq Q] in
theorem keepsEach_of_formed (formed : h.WellFormed content')
    (members : ∀ i q, i ∈ content q → ∃ q', i ∈ content' q') : KeepsEach content content' := by
  rintro i ⟨q, member⟩
  obtain ⟨q', here⟩ := members i q member
  refine ⟨q', List.count_eq_one_of_mem (formed.linked q').nodup here, fun other there => ?_⟩
  exact formed.filed.unique there here

/-- The first task of one queue at the end of another. -/
theorem moved_member (items : content activeTask = x :: xs) (thief : Q) {i : I} {q : Q}
    (member : i ∈ content q) :
    ∃ q', i ∈ pushedTo (Function.update content activeTask xs) thief x q' := by
  by_cases moved : i = x
  · refine ⟨thief, ?_⟩
    rw [pushedTo, Function.update_self, moved]
    simp
  · have kept : i ∈ Function.update content activeTask xs q := by
      by_cases same : q = activeTask
      · rw [same, items] at member
        rw [same, Function.update_self]
        exact (List.mem_cons.mp member).resolve_left moved
      · rwa [Function.update_of_ne same]
    refine ⟨q, ?_⟩
    by_cases same : q = thief
    · rw [pushedTo, same, Function.update_self]
      exact List.mem_append_left _ (same ▸ kept)
    · rwa [pushedTo, Function.update_of_ne same]

/-! ### The paths of Try2stealTask -/

/-- A task that is taken out. -/
theorem clean_taken (items : content activeTask = x :: xs) (plain : isMain x = false)
    (formed : h'.WellFormed (Function.update content activeTask xs)) (loose : h'.Loose x)
    (count : h'.itemCount =
      Function.update h.itemCount activeTask (h.itemCount activeTask - 1#32)) :
    Clean isMain content h activeTask (some x, h') := by
  refine ⟨plain, xs, items, formed, loose.owner, count, fun thief => ?_⟩
  obtain ⟨h'', pushed, formed', -⟩ := formed.push loose thief
  exact ⟨h'', pushed, formed',
    keepsEach_of_formed formed' fun i q member => moved_member items thief member⟩

/-- A main task that goes back to the end. -/
theorem clean_returned (items : content activeTask = x :: xs)
    (formed : h'.WellFormed (Function.update content activeTask xs)) (loose : h'.Loose x)
    (count : h'.itemCount =
      Function.update h.itemCount activeTask (h.itemCount activeTask - 1#32)) :
    ∃ h'', h'.pushBackUnsafe activeTask x = some h'' ∧
      Clean isMain content h activeTask (none, h'') := by
  obtain ⟨h'', pushed, formed', count'⟩ := formed.push loose activeTask
  rw [Function.update_self, Function.update_idem] at formed'
  refine ⟨h'', pushed, xs ++ [x], ?_, formed', ?_⟩
  · rw [items]
    exact List.perm_append_singleton x xs
  · rw [count', count, Function.update_self, BitVec.sub_add_cancel, Function.update_idem,
      Function.update_eq_self]

/-- A queue that is left alone. -/
theorem clean_untouched (formed : h.WellFormed content) (isMain : I → Bool) (activeTask : Q) :
    Clean isMain content h activeTask (none, h) :=
  ⟨content activeTask, .refl _, by rwa [Function.update_eq_self], rfl⟩

theorem one_of_lt_two {n : BitVec 32} (small : n < 2#32) (positive : n ≠ 0#32) : n = 1#32 := by
  bv_omega

/-- The path of a queue with one task, once both ends are locked. The branch returns the task
whether it has pushed it back or not. -/
theorem steals_one_iff {seen : BitVec 32} (nothing : seen ≠ 0#32)
    (one : h.itemCount activeTask = 1#32) (items : content activeTask = x :: xs)
    (popped : h.popHeadUnsafe activeTask = some (some x, h'))
    (formed : h'.WellFormed (Function.update content activeTask xs)) (loose : h'.Loose x)
    (count : h'.itemCount =
      Function.update h.itemCount activeTask (h.itemCount activeTask - 1#32)) :
    (∃ out, try2stealTask isMain h activeTask seen true true = some out ∧
      Clean isMain content h activeTask out) ↔ isMain x = false := by
  have steal : try2stealTask isMain h activeTask seen true true =
      if isMain x then (h'.pushBackUnsafe activeTask x).map fun h => (some x, h)
      else some (some x, h') := by
    simp [try2stealTask, nothing, one, popped]
  rw [steal]
  cases main : isMain x with
  | true =>
    refine iff_of_false ?_ (by decide)
    rintro ⟨out, ran, clean⟩
    obtain ⟨h'', -, rfl⟩ := Option.map_eq_some_iff.mp ran
    rw [clean.1] at main
    cases main
  | false => exact iff_of_true ⟨_, rfl, clean_taken items main formed loose count⟩ rfl

/-- The path of a longer queue, which puts a main task back and returns null. -/
theorem steals_many {seen : BitVec 32} (nothing : seen ≠ 0#32)
    (many : ¬ h.itemCount activeTask < 2#32) (tailFree : Bool)
    (items : content activeTask = x :: xs)
    (popped : h.popHeadUnsafe activeTask = some (some x, h'))
    (formed : h'.WellFormed (Function.update content activeTask xs)) (loose : h'.Loose x)
    (count : h'.itemCount =
      Function.update h.itemCount activeTask (h.itemCount activeTask - 1#32)) :
    ∃ out, try2stealTask isMain h activeTask seen true tailFree = some out ∧
      Clean isMain content h activeTask out := by
  have steal : try2stealTask isMain h activeTask seen true tailFree =
      if isMain x then (h'.pushBackUnsafe activeTask x).map fun h => (none, h)
      else some (some x, h') := by
    simp [try2stealTask, nothing, many, popped]
  rw [steal]
  cases main : isMain x with
  | true =>
    obtain ⟨h'', pushed, clean⟩ := clean_returned items formed loose count
    exact ⟨(none, h''), by rw [pushed]; rfl, clean⟩
  | false => exact ⟨_, rfl, clean_taken items main formed loose count⟩

/-- On every well formed queue the steal is clean, unless it locks both ends of a queue whose only
task is a main one: that task is pushed back and returned all the same. -/
theorem steals_iff (formed : h.WellFormed content) (isMain : I → Bool) (activeTask : Q)
    (seen : BitVec 32) (headFree tailFree : Bool) :
    (∃ out, try2stealTask isMain h activeTask seen headFree tailFree = some out ∧
      Clean isMain content h activeTask out) ↔
    ¬ (seen ≠ 0#32 ∧ headFree = true ∧ tailFree = true ∧ h.itemCount activeTask = 1#32 ∧
      ∃ i xs, content activeTask = i :: xs ∧ isMain i = true) := by
  have untouched := clean_untouched formed isMain activeTask
  by_cases nothing : seen = 0#32
  · refine iff_of_true ⟨(none, h), ?_, untouched⟩ fun bad => bad.1 nothing
    rw [try2stealTask, if_pos nothing]
  cases headFree with
  | false =>
    refine iff_of_true ⟨(none, h), ?_, untouched⟩ fun bad => by cases bad.2.1
    simp [try2stealTask]
  | true =>
    by_cases empty : h.itemCount activeTask = 0#32
    · refine iff_of_true ⟨(none, h), ?_, untouched⟩ fun bad => ?_
      · simp [try2stealTask, empty]
      · rw [empty] at bad
        exact absurd bad.2.2.2.1 (by decide)
    obtain ⟨x, xs, items⟩ := formed.first empty
    obtain ⟨h', popped, formed', loose, count⟩ := formed.pop items empty
    by_cases small : h.itemCount activeTask < 2#32
    · have one := one_of_lt_two small empty
      cases tailFree with
      | false =>
        refine iff_of_true ⟨(none, h), ?_, untouched⟩ fun bad => by cases bad.2.2.1
        simp [try2stealTask, small]
      | true =>
        rw [steals_one_iff nothing one items popped formed' loose count, items]
        simp [nothing, one]
    · -- with two tasks or more the condition does not speak about `x`
      refine iff_of_true ?_ fun bad => small (by rw [bad.2.2.2.1]; decide)
      exact steals_many nothing small tailFree items popped formed' loose count

/-! ### Runs on small queues -/

/-- No task is linked anywhere. -/
def emptyHeap : Heap I Q :=
  ⟨fun _ => none, fun _ => none, fun _ => none, fun _ => none, fun _ => none, fun _ => 0#32⟩

omit [DecidableEq I] [DecidableEq Q] in
theorem emptyHeap_formed : (emptyHeap : Heap I Q).WellFormed fun _ => [] :=
  ⟨fun _ => .nil, fun _ _ => by simp [emptyHeap], fun _ => rfl⟩

/-- A heap whose only task is in the only queue. -/
theorem single_formed :
    ∃ h : Heap Unit Unit, h.WellFormed (fun _ => [()]) ∧ h.itemCount () = 1#32 := by
  obtain ⟨h, -, formed, count⟩ := (emptyHeap_formed (I := Unit) (Q := Unit)).push ⟨rfl, rfl, rfl⟩ ()
  have content : Function.update (fun _ : Unit => ([] : List Unit)) () ([] ++ [()]) =
      fun _ => [()] := by
    funext u
    exact Function.update_self ..
  rw [content] at formed
  exact ⟨h, formed, by rw [count, Function.update_self]; rfl⟩

/-- The only task of a queue is stolen when it is not a main one. -/
theorem steals_iff_single : ∃ (h : Heap Unit Unit) (out : Option Unit × Heap Unit Unit),
    try2stealTask (fun _ => false) h () 1#32 true true = some out ∧
      Clean (fun _ => false) (fun _ => [()]) h () out := by
  obtain ⟨h, formed, -⟩ := single_formed
  obtain ⟨out, ran, clean⟩ := (steals_iff formed (fun _ => false) () 1#32 true true).mpr
    fun bad => by
      obtain ⟨_, _, -, main⟩ := bad.2.2.2.2
      cases main
  exact ⟨h, out, ran, clean⟩

/-- The only task of a queue is a main one, and both trylocks succeed. -/
theorem main_stolen :
    ¬ ∀ (isMain : Unit → Bool) (h : Heap Unit Unit) (content : Unit → List Unit) (q : Unit)
      (seen : BitVec 32) (headFree tailFree : Bool), h.WellFormed content →
      ∃ out, try2stealTask isMain h q seen headFree tailFree = some out ∧
        Clean isMain content h q out := by
  intro clean
  obtain ⟨h, formed, count⟩ := single_formed
  obtain ⟨h', popped, -, -, -⟩ := formed.pop (q := ()) rfl (by rw [count]; decide)
  obtain ⟨out, ran, fine⟩ := clean (fun _ => true) h _ () 1#32 true true formed
  simp only [try2stealTask, count, popped] at ran
  obtain ⟨h'', -, rfl⟩ := Option.map_eq_some_iff.mp ran
  cases fine.1

end BRoutine.Steal
