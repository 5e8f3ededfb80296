import Mathlib.Data.List.Nodup
import Mathlib.Logic.Function.Basic

/-!
# Intrusive queues

Nodes of a type `I` carry the links `next` and `prev` and the queue that owns them; a queue has a
head and a tail. `Linked` ties these to the list of the nodes of one queue, `Filed` the owners to
the lists of all queues. The lemmas say what taking the head off and linking a node at the end do
to them, and that the other queues do not notice.
-/

namespace Intrusive

variable {I Q : Type*} {next prev next' prev' : I → Option I} {before : Option I}

/-- The nodes of a list are linked both ways; `before` is in front of the first. -/
def Chained (next prev : I → Option I) : Option I → List I → Prop
  | _, [] => True
  | before, x :: xs => prev x = before ∧ next x = xs.head? ∧ Chained next prev (some x) xs

/-- A queue from head to tail. -/
structure Linked (next prev : I → Option I) (head tail : Option I) (xs : List I) : Prop where
  head_eq : head = xs.head?
  tail_eq : tail = xs.getLast?
  chained : Chained next prev none xs
  nodup : xs.Nodup

/-- Each queue owns the nodes of its list and no others. -/
def Filed (owner : I → Option Q) (content : Q → List I) : Prop :=
  ∀ x q, owner x = some q ↔ x ∈ content q

theorem Chained.congr {xs : List I} (chained : Chained next prev before xs)
    (same_next : ∀ x ∈ xs, next' x = next x) (same_prev : ∀ x ∈ xs, prev' x = prev x) :
    Chained next' prev' before xs := by
  induction xs generalizing before with
  | nil => trivial
  | cons x xs ih =>
    obtain ⟨back, forth, rest⟩ := chained
    refine ⟨?_, ?_, ih rest (fun y member => same_next y (List.mem_cons_of_mem x member))
      fun y member => same_prev y (List.mem_cons_of_mem x member)⟩
    · rw [same_prev x List.mem_cons_self, back]
    · rw [same_next x List.mem_cons_self, forth]

/-- A queue none of whose nodes is touched. -/
theorem Linked.congr {head tail : Option I} {xs : List I} (linked : Linked next prev head tail xs)
    (same_next : ∀ x ∈ xs, next' x = next x) (same_prev : ∀ x ∈ xs, prev' x = prev x) :
    Linked next' prev' head tail xs :=
  ⟨linked.head_eq, linked.tail_eq, linked.chained.congr same_next same_prev, linked.nodup⟩

theorem Linked.nil : Linked next prev none none [] := ⟨rfl, rfl, trivial, List.nodup_nil⟩

/-- A node that is linked nowhere is a queue of its own. -/
theorem Linked.single {x : I} (no_next : next x = none) (no_prev : prev x = none) :
    Linked next prev (some x) (some x) [x] :=
  ⟨rfl, rfl, ⟨no_prev, no_next, trivial⟩, List.nodup_singleton x⟩

/-- A node has the one before it and the one behind it as neighbours. -/
theorem Chained.at {front back : List I} {x : I}
    (chained : Chained next prev before (front ++ x :: back)) :
    prev x = front.getLast?.or before ∧ next x = back.head? := by
  induction front generalizing before with
  | nil => exact ⟨chained.1, chained.2.1⟩
  | cons y front ih =>
    obtain ⟨backward, forth⟩ := ih chained.2.2
    refine ⟨?_, forth⟩
    rw [backward, List.getLast?_cons]
    cases front.getLast? <;> rfl

/-- The links and the head say which list is linked. -/
theorem Chained.unique {before' : Option I} {xs ys : List I}
    (chained : Chained next prev before xs) (chained' : Chained next prev before' ys)
    (same : xs.head? = ys.head?) : xs = ys := by
  induction xs generalizing before before' ys with
  | nil => exact (List.head?_eq_none_iff.mp same.symm).symm
  | cons x xs ih =>
    cases ys with
    | nil => cases same
    | cons y ys =>
      cases same
      obtain ⟨-, forth, rest⟩ := chained
      obtain ⟨-, forth', rest'⟩ := chained'
      rw [ih rest rest' (forth.symm.trans forth')]

theorem Linked.unique {head tail tail' : Option I} {xs ys : List I}
    (linked : Linked next prev head tail xs) (linked' : Linked next prev head tail' ys) : xs = ys :=
  linked.chained.unique linked'.chained (linked.head_eq.symm.trans linked'.head_eq)

theorem Chained.next_mem {xs : List I} (chained : Chained next prev before xs) {x y : I}
    (member : x ∈ xs) (forth : next x = some y) : y ∈ xs := by
  obtain ⟨front, back, rfl⟩ := List.append_of_mem member
  rw [chained.at.2] at forth
  exact List.mem_append_right front (List.mem_cons_of_mem x (List.mem_of_head? forth))

theorem Chained.prev_mem {xs : List I} (chained : Chained next prev before xs) {x y : I}
    (member : x ∈ xs) (backward : prev x = some y) : before = some y ∨ y ∈ xs := by
  obtain ⟨front, back, rfl⟩ := List.append_of_mem member
  rw [chained.at.1] at backward
  cases last : front.getLast? with
  | none =>
    rw [last] at backward
    exact .inl backward
  | some z =>
    rw [last] at backward
    cases backward
    exact .inr (List.mem_append_left _ (List.mem_of_getLast? last))

/-- The links of neighbours are inverse. -/
theorem Chained.inverse {xs : List I} (chained : Chained next prev before xs)
    (outside : ∀ y, before = some y → y ∉ xs) {x y : I} (member : x ∈ xs) (member' : y ∈ xs) :
    next x = some y ↔ prev y = some x := by
  constructor
  · intro forth
    obtain ⟨front, back, rfl⟩ := List.append_of_mem member
    rw [chained.at.2] at forth
    obtain ⟨back, rfl⟩ := List.head?_eq_some_iff.mp forth
    rw [List.append_cons] at chained
    rw [chained.at.1, List.getLast?_concat]
    rfl
  · intro backward
    obtain ⟨front, back, rfl⟩ := List.append_of_mem member'
    rw [chained.at.1] at backward
    cases last : front.getLast? with
    | none =>
      -- nothing of the list is in front of its first node
      rw [last] at backward
      exact absurd member (outside x backward)
    | some z =>
      rw [last] at backward
      cases backward
      obtain ⟨front, rfl⟩ := List.getLast?_eq_some_iff.mp last
      rw [List.append_assoc] at chained
      exact chained.at.2

theorem Linked.head_prev {head tail : Option I} {xs : List I}
    (linked : Linked next prev head tail xs) {x : I} (first : head = some x) : prev x = none := by
  obtain ⟨xs, rfl⟩ := List.head?_eq_some_iff.mp (linked.head_eq.symm.trans first)
  exact linked.chained.1

theorem Linked.tail_next {head tail : Option I} {xs : List I}
    (linked : Linked next prev head tail xs) {x : I} (last : tail = some x) : next x = none := by
  obtain ⟨xs, rfl⟩ := List.getLast?_eq_some_iff.mp (linked.tail_eq.symm.trans last)
  exact linked.chained.at.2

/-- No node is in two queues. -/
theorem Filed.unique {owner : I → Option Q} {content : Q → List I} (filed : Filed owner content)
    {x : I} {q q' : Q} (here : x ∈ content q) (there : x ∈ content q') : q = q' :=
  Option.some.inj (((filed x q).mpr here).symm.trans ((filed x q').mpr there))

variable [DecidableEq I]

/-! ### Any node -/

/-- Links that pass `x` by link the others. -/
theorem Chained.remove {front back : List I} {x : I}
    (chained : Chained next prev before (front ++ x :: back)) (nodup : (front ++ x :: back).Nodup)
    (outside : before ≠ some x)
    (forth : ∀ y ∈ front ++ back, next' y = if next y = some x then next x else next y)
    (backward : ∀ y ∈ front ++ back, prev' y = if prev y = some x then prev x else prev y) :
    Chained next' prev' before (front ++ back) := by
  -- up to the node that is taken out the links stay, behind it they close
  induction front generalizing before with
  | nil =>
    obtain ⟨first, second, rest⟩ := chained
    obtain ⟨fresh, nodup⟩ := List.nodup_cons.mp nodup
    cases back with
    | nil => trivial
    | cons z zs =>
      obtain ⟨fresh', nodup'⟩ := List.nodup_cons.mp nodup
      obtain ⟨z_back, z_forth, rest'⟩ := rest
      have x_fresh : x ∉ zs := fun member => fresh (List.mem_cons_of_mem z member)
      refine ⟨?_, ?_, rest'.congr (fun y member => ?_) fun y member => ?_⟩
      · rw [backward z List.mem_cons_self, if_pos z_back, first]
      · rw [forth z List.mem_cons_self, if_neg, z_forth]
        exact fun same => x_fresh (List.mem_of_head? (z_forth.symm.trans same))
      · rw [forth y (List.mem_cons_of_mem z member), if_neg]
        exact fun same => x_fresh (rest'.next_mem member same)
      · rw [backward y (List.mem_cons_of_mem z member), if_neg]
        intro same
        rcases rest'.prev_mem member same with eq | inside
        · exact fresh (Option.some.inj eq ▸ List.mem_cons_self)
        · exact x_fresh inside
  | cons w front ih =>
    obtain ⟨first, second, rest⟩ := chained
    obtain ⟨fresh, nodup⟩ := List.nodup_cons.mp nodup
    have differs : w ≠ x := fun same => fresh (by simp [same])
    refine ⟨?_, ?_, ih rest nodup (fun same => differs (Option.some.inj same))
      (fun y member => forth y (List.mem_cons_of_mem w member))
      fun y member => backward y (List.mem_cons_of_mem w member)⟩
    · rw [backward w List.mem_cons_self, first, if_neg outside]
    · rw [forth w List.mem_cons_self, second]
      cases front with
      | nil => exact (if_pos rfl).trans rest.2.1
      | cons v front =>
        have other : v ≠ x := by
          rintro rfl
          simp at nodup
        simp [other]

/-- A node is taken out of a queue and its neighbours are linked to each other. -/
theorem Linked.remove {head tail head' tail' : Option I} {front back : List I} {x : I}
    (linked : Linked next prev head tail (front ++ x :: back))
    (forth : ∀ y, y ≠ x → next' y = if prev x = some y then next x else next y)
    (backward : ∀ y, y ≠ x → prev' y = if next x = some y then prev x else prev y)
    (head_eq : head' = (front ++ back).head?) (tail_eq : tail' = (front ++ back).getLast?) :
    Linked next' prev' head' tail' (front ++ back) := by
  have chained := linked.chained
  obtain ⟨fresh, nodup⟩ := List.nodup_cons.mp (List.nodup_middle.mp linked.nodup)
  have inside : x ∈ front ++ x :: back := List.mem_append_right front List.mem_cons_self
  have inverse := fun y z => @Chained.inverse I next prev none _ chained (by simp) y z
  refine ⟨head_eq, tail_eq, chained.remove linked.nodup (by simp) ?_ ?_, nodup⟩
  all_goals
    intro y member
    have differs : y ≠ x := fun same => fresh (same ▸ member)
    have inside' : y ∈ front ++ x :: back := by
      rw [List.mem_append] at member ⊢
      exact member.imp_right (List.mem_cons_of_mem x)
  · rw [forth y differs]
    exact if_congr (inverse y x inside' inside).symm rfl rfl
  · rw [backward y differs]
    exact if_congr (inverse x y inside inside') rfl rfl

/-! ### The head -/

/-- The second node becomes the first. -/
theorem Linked.pop {head tail : Option I} {x y : I} {ys : List I}
    (linked : Linked next prev head tail (x :: y :: ys)) :
    Linked (Function.update next x none) (Function.update prev y none) (some y) tail (y :: ys) := by
  obtain ⟨-, tail_eq, ⟨-, -, chained⟩, nodup⟩ := linked
  obtain ⟨fresh, nodup'⟩ := List.nodup_cons.mp nodup
  obtain ⟨-, forth, rest⟩ := chained
  have off : ∀ z ∈ y :: ys, Function.update next x none z = next z := by
    intro z member
    have differs : z ≠ x := fun same => fresh (same ▸ member)
    exact Function.update_of_ne differs ..
  refine ⟨rfl, ?_, ⟨Function.update_self .., ?_, ?_⟩, nodup'⟩
  · rw [tail_eq, List.getLast?_cons_cons]
  · rw [off y List.mem_cons_self, forth]
  · refine rest.congr (fun z member => off z (List.mem_cons_of_mem y member)) fun z member => ?_
    have differs : z ≠ y := fun same => (List.nodup_cons.mp nodup').1 (same ▸ member)
    exact Function.update_of_ne differs ..

/-! ### The tail -/

theorem Chained.snoc {xs : List I} {last x : I} (chained : Chained next prev before xs)
    (is_last : xs.getLast? = some last) (nodup : xs.Nodup) (fresh : x ∉ xs) :
    Chained (Function.update (Function.update next last (some x)) x none)
      (Function.update prev x (some last)) before (xs ++ [x]) := by
  induction xs generalizing before with
  | nil => cases is_last
  | cons y ys ih =>
    obtain ⟨back, forth, rest⟩ := chained
    obtain ⟨y_fresh, nodup'⟩ := List.nodup_cons.mp nodup
    obtain ⟨differs, fresh'⟩ := List.ne_and_not_mem_of_not_mem_cons fresh
    refine ⟨?_, ?_, ?_⟩
    · rw [Function.update_of_ne (Ne.symm differs), back]
    · rw [Function.update_of_ne (Ne.symm differs)]
      cases ys with
      | nil =>
        cases is_last
        exact Function.update_self ..
      | cons z zs =>
        -- before the last node nothing changes
        have inner : last ∈ z :: zs :=
          List.mem_of_getLast? (by rwa [List.getLast?_cons_cons] at is_last)
        have other : y ≠ last := fun same => y_fresh (same ▸ inner)
        rw [Function.update_of_ne other, forth]
        rfl
    · cases ys with
      | nil =>
        cases is_last
        exact ⟨Function.update_self .., Function.update_self .., trivial⟩
      | cons z zs =>
        rw [List.getLast?_cons_cons] at is_last
        exact ih rest is_last nodup' fresh'

/-- A node behind the last one. -/
theorem Linked.push {head : Option I} {last x : I} {xs : List I}
    (linked : Linked next prev head (some last) xs) (fresh : x ∉ xs) :
    Linked (Function.update (Function.update next last (some x)) x none)
      (Function.update prev x (some last)) head (some x) (xs ++ [x]) where
  head_eq := by
    rw [linked.head_eq]
    have filled := linked.tail_eq
    cases xs with
    | nil => cases filled
    | cons y ys => rfl
  tail_eq := (List.getLast?_concat ..).symm
  chained := linked.chained.snoc linked.tail_eq.symm linked.nodup fresh
  nodup := by
    rw [List.nodup_append]
    refine ⟨linked.nodup, List.nodup_singleton x, fun y member z single same => fresh ?_⟩
    rwa [← List.mem_singleton.mp single, ← same]

/-! ### Owners -/

variable [DecidableEq Q] {owner : I → Option Q} {content : Q → List I}

/-- A node that is taken out of its queue owns nothing any more. -/
theorem Filed.remove (filed : Filed owner content) {q : Q} {x : I} {front back : List I}
    (split : content q = front ++ x :: back) (fresh : x ∉ front ++ back) :
    Filed (Function.update owner x none) (Function.update content q (front ++ back)) := by
  have mine : x ∈ content q := by
    rw [split]
    exact List.mem_append_right front List.mem_cons_self
  intro y q'
  by_cases same : y = x
  · subst same
    rw [Function.update_self]
    refine iff_of_false (fun none => by cases none) fun member => ?_
    by_cases here : q' = q
    · subst here
      rw [Function.update_self] at member
      exact fresh member
    · rw [Function.update_of_ne here] at member
      exact here (filed.unique member mine)
  · rw [Function.update_of_ne same, filed y q']
    by_cases here : q' = q
    · subst here
      rw [Function.update_self, split]
      simp [same]
    · rw [Function.update_of_ne here]

theorem Filed.take (filed : Filed owner content) {q : Q} {x : I} (free : owner x = none) :
    Filed (Function.update owner x (some q))
      (Function.update content q (content q ++ [x])) := by
  have nowhere : ∀ q', x ∉ content q' := by
    intro q' member
    rw [(filed x q').mpr member] at free
    cases free
  intro y q'
  -- `x` gets its only owner, the others keep theirs
  by_cases same : y = x
  · subst same
    rw [Function.update_self, Option.some.injEq]
    by_cases here : q' = q
    · subst here
      simp
    · rw [Function.update_of_ne here]
      exact iff_of_false (fun eq => here eq.symm) (nowhere q')
  · rw [Function.update_of_ne same, filed y q']
    by_cases here : q' = q
    · subst here
      simp [same]
    · rw [Function.update_of_ne here]

end Intrusive
