import BRoutine.Context.Switch
import BRoutine.Simulation
import Mathlib.Data.Set.Lattice
import Mathlib.Order.CompletePartialOrder

/-!
# Every context finds its stack as it left it

The contexts of one thread with the bytes of their stacks. A stack belongs to a context from `init`
until its routine is over, and may then become the stack of another. Meanwhile a context may lend
bytes of it, as `poll` does with its message and `timeWait` with its flag, which `Deal` writes while
the context is away; the others only its own code writes. `comes_back_whole` says that for these a
switch away from a context and back is no more than a call of a function.
-/

namespace BRoutine.Context

open ByteMemory X86 Transition

/-- The contexts, and the bytes of its stack that each keeps to itself. A context without a routine
has no stack. -/
structure Stacked (C : Type) where
  base : State C
  stack : C → Set Word

inductive Act (C : Type)
  | switch (label : Label C)
  /-- The context that runs keeps `part` of its stack to itself, and lends the rest. -/
  | keep (part : Set Word)
  /-- The routine of `c` is over, and its stack is free for another. -/
  | finish (c : C)

/-! ### What a context comes back to -/

/-- The machine `t` goes on after the call of `bSwap` that `m` was at, with the stack `own`. -/
structure Resumes (m t : Machine) (own : Set Word) : Prop where
  rip : t.rip = returnAddress m
  rsp : t.regs .rsp = m.regs .rsp + 8
  regs : ∀ r ∈ calleeSaved, t.regs r = m.regs r
  stack : ∀ x ∈ own, t.mem x = m.mem x

/-- A context that does not run has its stack as it left it, with the return address on it, or a
stack that `init` gave it. -/
def Saved.Found {C : Type} (layout : Layout C) (mem : Memory) (own : Set Word) : Saved → Prop
  | .left m => (∀ x ∈ own, mem x = m.mem x) ∧ ∀ x, Span (m.regs .rsp) 8 x → x ∈ own
  | .fresh _ stack => ∀ x, BetweenGuards layout.page stack x → x ∈ own

variable {C : Type} [DecidableEq C] (layout : Layout C)

/-- The stacks after a step: `init` gives a context the bytes between the guard pages. -/
def Stacked.own (s : Stacked C) : Label C → C → Set Word
  | .init c _ stack => Function.update s.stack c { x | BetweenGuards layout.page stack x }
  | .code _ | .swap _ => s.stack

def stackedStep (s : Stacked C) : Act C → Option (Stacked C)
  | .switch label => (step layout s.base label).map fun base => ⟨base, s.own layout label⟩
  | .keep part => some ⟨s.base, Function.update s.stack s.base.running part⟩
  | .finish c =>
    some ⟨{ s.base with saved := Function.update s.base.saved c none },
      Function.update s.stack c ∅⟩

/-- At first one context runs on a stack of its own, and no other has one. -/
def stacking : Transition.Machine (Stacked C) (Act C) where
  start s := (s.base.saved = fun _ => none) ∧ (∀ c, c ≠ s.base.running → s.stack c = ∅) ∧
    ∀ x ∈ s.stack s.base.running, ∀ d, ¬ Span (layout.place d) bContextSize x
  step := stackedStep layout

/-- A context runs on its own stack and leaves alone what the others keep to themselves, `init` gets
a stack of which no other context keeps a byte, and what a context keeps is neither that of another
nor in a `bContext`. -/
def Tidy (s : Stacked C) : Act C → Prop
  | .switch (.code next) => Fair layout s.base (.code next) ∧
      ∀ c, c ≠ s.base.running → ∀ x ∈ s.stack c, next.mem x = s.base.machine.mem x
  | .switch (.init c self stack) => Fair layout s.base (.init c self stack) ∧
      ∀ d, d ≠ c → ∀ x ∈ s.stack d, ¬ BetweenGuards layout.page stack x
  | .switch (.swap c) => Fair layout s.base (.swap c) ∧
      ∀ x, Span (s.base.machine.regs .rsp) 8 x → x ∈ s.stack s.base.running
  | .keep part => (∀ d, d ≠ s.base.running → Disjoint part (s.stack d)) ∧
      ∀ x ∈ part, ∀ d, ¬ Span (layout.place d) bContextSize x
  | .finish _ => True

/-- The stacks of a run of `Tidy` steps. -/
structure Tended (s : Stacked C) : Prop where
  kept : Kept layout s.base
  apart : ∀ c d, c ≠ d → Disjoint (s.stack c) (s.stack d)
  clear : ∀ c, ∀ x ∈ s.stack c, ∀ d, ¬ Span (layout.place d) bContextSize x
  found : ∀ c, c ≠ s.base.running → ∀ k, s.base.saved c = some k →
    k.Found layout s.base.machine.mem (s.stack c)

variable {layout}

/-! ### What a switch writes -/

/-- `bSwap` stores the registers, and puts the return address onto the stack that is entered. -/
theorem bSwap_push {m : Machine} (outside : SlotOutside m (m.regs .rdi)) :
    (run bSwap m).mem =
      write (stored m).mem (read (stored m).mem (m.address 104 .rsi))
        (read (stored m).mem (m.address 72 .rsi)) := by
  have pointer : (run bSwapSave m).regs .rsi = m.regs .rsi := bSwapSave_regs m (by decide)
  have saved : (run bSwapSave m).mem = (stored m).mem := bSwapSave_mem outside
  have mem : (run (loads .rsi loaded) (run bSwapSave m)).mem = (stored m).mem := by
    rw [run_loads_mem, saved]
  have context : (run (loads .rsi loaded) (run bSwapSave m)).regs .rsi = m.regs .rsi := by
    rw [run_loads_other (by decide), pointer]
  have load {offset : Word} {r : Reg} (listed : (offset, r) ∈ loaded) :
      (run (loads .rsi loaded) (run bSwapSave m)).regs r =
        read (run bSwapSave m).mem ((run bSwapSave m).address offset .rsi) :=
    run_loads (by decide) (by decide) listed _
  have top : (run (loads .rsi loaded) (run bSwapSave m)).regs .rsp =
      read (stored m).mem (m.address 104 .rsi) := by
    rw [load (by decide : ((104 : Word), Reg.rsp) ∈ loaded), Machine.address, pointer, saved]
    rfl
  rw [bSwap, run_append, bSwapLoad_eq, run_append]
  generalize run (loads .rsi loaded) (run bSwapSave m) = loadedMachine at mem context top
  have back : loadedMachine.regs .rsp + 8 - 8 = loadedMachine.regs .rsp := by bv_omega
  simp (disch := decide) only [bSwapReturn, run, Instr.exec, Machine.address,
    Machine.set_regs_self, Machine.set_regs_other, Machine.set_mem, back, mem, context]
  rw [top, Machine.address]

omit [DecidableEq C] in
/-- The return address goes onto the stack of the context that is entered. -/
theorem Saved.Found.top {mem : Memory} {own : Set Word} {k : Saved} (found : k.Found layout mem own)
    (clear : k.Clear layout) {x : Word} (span : Span (k.top layout) 8 x) : x ∈ own := by
  cases k with
  | left m => exact found.2 x span
  | fresh self stack => exact found x (sp_between clear.1 span)

omit [DecidableEq C] in
theorem Saved.Found.congr {mem mem' : Memory} {own : Set Word} {k : Saved}
    (found : k.Found layout mem own) (same : ∀ x ∈ own, mem' x = mem x) :
    k.Found layout mem' own := by
  cases k with
  | left m => exact ⟨fun x inside => (same x inside).trans (found.1 x inside), found.2⟩
  | fresh self stack => exact found

namespace Tended

variable {s t : Stacked C}

omit [DecidableEq C] in
theorem code {next : Machine} (tended : Tended layout s)
    (tidy : Tidy layout s (.switch (.code next))) :
    Tended layout ⟨{ s.base with machine := next }, s.stack⟩ where
  kept := tended.kept.code tidy.1
  apart := tended.apart
  clear := tended.clear
  found c other k saved := (tended.found c other k saved).congr (tidy.2 c other)

theorem init {c : C} {self : Word} {stack : RoutineStack} {base : State C}
    (tended : Tended layout s) (tidy : Tidy layout s (.switch (.init c self stack)))
    (stepped : step layout s.base (.init c self stack) = some base) :
    Tended layout ⟨base, s.own layout (.init c self stack)⟩ := by
  have kept := tended.kept.init tidy.1 stepped
  cases stepped
  refine ⟨kept, ?_, ?_, ?_⟩
  · -- the stack that `c` gets is no other context's
    have given (d : C) (other : d ≠ c) :
        Disjoint { x | BetweenGuards layout.page stack x } (s.stack d) :=
      Set.disjoint_left.mpr fun x between inside => tidy.2 d other x inside between
    intro d e differs
    by_cases first : d = c
    · subst first
      simpa [Stacked.own, differs.symm] using given e differs.symm
    · by_cases second : e = c
      · subst second
        simpa [Stacked.own, differs] using (given d differs).symm
      · simpa [Stacked.own, first, second] using tended.apart d e differs
  · intro d x inside
    by_cases same : d = c
    · subst same
      exact tidy.1.2 x (by simpa [Stacked.own] using inside)
    · exact tended.clear d x (by simpa [Stacked.own, same] using inside)
  · intro d other k saved
    by_cases same : d = c
    · subst same
      obtain rfl : Saved.fresh self stack = k := by
        simpa only [Function.update_self, Option.some.injEq] using saved
      intro x between
      simpa [Stacked.own] using between
    · simp only [Function.update_of_ne same] at saved
      have found : k.Found layout s.base.machine.mem (s.stack d) := by
        simpa [Stacked.own, same] using tended.found d other k saved
      refine Saved.Found.congr (by simpa [Stacked.own, same] using found) fun x inside => ?_
      -- `init` writes into a `bContext`
      have outside := tended.clear d x (by simpa [Stacked.own, same] using inside) c
      exact writeSlots_outside (initSlots_within _ _ self stack) outside _

/-- When the running context has stored its registers, the stacks are still as they were. -/
theorem stored {c : C} (tended : Tended layout s) (tidy : Tidy layout s (.switch (.swap c)))
    (pointer : s.base.machine.regs .rdi = layout.place s.base.running) {d : C} {k : Saved}
    (saved : s.base.leave d = some k) :
    k.Found layout (stored s.base.machine).mem (s.stack d) := by
  have same (e : C) (x : Word) (inside : x ∈ s.stack e) :
      (Context.stored s.base.machine).mem x = s.base.machine.mem x := by
    refine writeSlots_outside (leftSlots_within _) ?_ _
    rw [pointer]
    exact tended.clear e x inside s.base.running
  by_cases runs : d = s.base.running
  · subst runs
    obtain rfl : Saved.left s.base.machine = k := by
      simpa only [State.leave, Function.update_self, Option.some.injEq] using saved
    exact ⟨same _, tidy.2⟩
  · rw [State.leave, Function.update_of_ne runs] at saved
    exact (tended.found d runs k saved).congr (same d)

/-- The switch to `c` leaves all stacks as they are, but for the place of the return address of a
context that begins. -/
theorem entered {c : C} {k : Saved} (tended : Tended layout s)
    (tidy : Tidy layout s (.switch (.swap c)))
    (leaves : s.base.machine.regs .rdi = layout.place s.base.running)
    (enters : s.base.machine.regs .rsi = layout.place c) (entry : s.base.leave c = some k)
    {d : C} {k' : Saved} (saved : s.base.leave d = some k') :
    k'.Found layout (run bSwap s.base.machine).mem (s.stack d) := by
  have found := tended.stored tidy leaves saved
  have entry_found := tended.stored tidy leaves entry
  obtain ⟨holds, clear⟩ := tended.kept.stored tidy.1 leaves entry
  have outside : SlotOutside s.base.machine (s.base.machine.regs .rdi) := by
    rw [leaves]
    exact tidy.1 s.base.running
  have top : read (Context.stored s.base.machine).mem (s.base.machine.address 104 .rsi) =
      k.top layout := by
    rw [Machine.address, enters, Saved.read_top holds]
  have quiet {x : Word} (apart : ¬ Span (k.top layout) 8 x) :
      (run bSwap s.base.machine).mem x = (Context.stored s.base.machine).mem x :=
    bSwap_mem outside (by rwa [top])
  by_cases same : d = c
  · subst same
    obtain rfl : k = k' := Option.some.inj (entry.symm.trans saved)
    cases k with
    | left m =>
      refine ⟨fun x inside => ?_, found.2⟩
      by_cases span : Span (m.regs .rsp) 8 x
      · -- the return address is written over itself
        have address : read (Context.stored s.base.machine).mem
            (s.base.machine.address 72 .rsi) = read m.mem (m.regs .rsp) := by
          rw [Machine.address, enters]
          exact holds (72, returnAddress m) (by simp [Saved.slots, leftSlots])
        rw [bSwap_push outside, top, address]
        exact write_read_byte span
      · rw [quiet span]
        exact found.1 x inside
    | fresh self stack => exact found
  · refine found.congr fun x inside => quiet fun span => ?_
    exact Set.disjoint_left.mp (tended.apart d c same) inside (entry_found.top clear span)

theorem swap {c : C} {base : State C} (tended : Tended layout s)
    (tidy : Tidy layout s (.switch (.swap c)))
    (stepped : step layout s.base (.swap c) = some base) : Tended layout ⟨base, s.stack⟩ := by
  have kept := tended.kept.swap tidy.1 stepped
  simp only [step] at stepped
  split at stepped
  next enabled =>
    cases stepped
    obtain ⟨leaves, enters, target⟩ := enabled
    obtain ⟨k, entry⟩ := Option.isSome_iff_exists.mp target
    exact ⟨kept, tended.apart, tended.clear,
      fun d _ k' saved => tended.entered tidy leaves enters entry saved⟩
  · cases stepped

/-- The contexts that wait find what they have kept. -/
theorem keep {part : Set Word} (tended : Tended layout s) (tidy : Tidy layout s (.keep part)) :
    Tended layout ⟨s.base, Function.update s.stack s.base.running part⟩ := by
  refine ⟨tended.kept, fun d e differs => ?_, fun d x inside => ?_, fun d other k saved => ?_⟩
  · by_cases first : d = s.base.running
    · subst first
      simpa [differs.symm] using tidy.1 e differs.symm
    · by_cases second : e = s.base.running
      · subst second
        simpa [differs] using (tidy.1 d differs).symm
      · simpa [first, second] using tended.apart d e differs
  · by_cases runs : d = s.base.running
    · subst runs
      exact tidy.2 x (by simpa using inside)
    · exact tended.clear d x (by simpa [runs] using inside)
  · have runs : d ≠ s.base.running := other
    simpa [runs] using tended.found d other k saved

/-- A context whose routine is over has nothing to find. -/
theorem finish (c : C) (tended : Tended layout s) :
    Tended layout ⟨{ s.base with saved := Function.update s.base.saved c none },
      Function.update s.stack c ∅⟩ := by
  have fewer (d : C) : Function.update s.stack c ∅ d ⊆ s.stack d := by
    by_cases same : d = c
    · subst same
      simp
    · simp [same]
  have waits {d : C} {k : Saved} (saved : Function.update s.base.saved c none d = some k) :
      d ≠ c ∧ s.base.saved d = some k := by
    by_cases same : d = c
    · subst same
      simp at saved
    · exact ⟨same, by simpa [same] using saved⟩
  refine ⟨fun d other k saved => ?_, fun d e differs => ?_, fun d x inside => ?_,
    fun d other k saved => ?_⟩
  · exact tended.kept d other k (waits saved).2
  · exact (tended.apart d e differs).mono (fewer d) (fewer e)
  · exact tended.clear d x (fewer d inside)
  · obtain ⟨differs, before⟩ := waits saved
    simpa [differs] using tended.found d other k before

end Tended

theorem tended_of_tidy {s : Stacked C}
    (reached : (stacking layout).ReachableBy (Tidy layout) s) : Tended layout s := by
  refine reached.invariant (Tended layout) ?_ ?_
  · rintro s ⟨unprepared, others, first⟩
    have none (c : C) (other : c ≠ s.base.running) (x : Word) : x ∉ s.stack c := by
      simp [others c other]
    refine ⟨?_, fun c d differs => ?_, fun c x inside => ?_, ?_⟩
    · intro c _ k saved
      rw [unprepared] at saved
      cases saved
    · by_cases runs : c = s.base.running
      · rw [others d (runs ▸ differs.symm)]
        exact Set.disjoint_empty _
      · rw [others c runs]
        exact Set.empty_disjoint _
    · by_cases runs : c = s.base.running
      · exact first x (runs ▸ inside)
      · exact absurd inside (none c runs x)
    · intro c _ k saved
      rw [unprepared] at saved
      cases saved
  · intro s act t tended tidy stepped
    cases act with
    | keep part =>
      cases stepped
      exact tended.keep tidy
    | finish c =>
      cases stepped
      exact tended.finish c
    | switch label =>
      obtain ⟨base, moved, rfl⟩ := Option.map_eq_some_iff.mp stepped
      cases label with
      | code next =>
        cases moved
        exact tended.code tidy
      | init c self stack => exact tended.init tidy moved
      | swap c => exact tended.swap tidy moved

/-- A context that is entered goes on as after a return from its own call of `bSwap`. -/
theorem Tended.resumes {s t : Stacked C} {c : C} {m : Machine} (tended : Tended layout s)
    (tidy : Tidy layout s (.switch (.swap c)))
    (stepped : stackedStep layout s (.switch (.swap c)) = some t)
    (left : s.base.leave c = some (.left m)) : Resumes m t.base.machine (s.stack c) := by
  obtain ⟨base, moved, rfl⟩ := Option.map_eq_some_iff.mp stepped
  simp only [step] at moved
  split at moved
  next enabled =>
    cases moved
    obtain ⟨leaves, enters, -⟩ := enabled
    obtain ⟨holds, -⟩ := tended.kept.stored tidy.1 leaves left
    have outside : SlotOutside s.base.machine (s.base.machine.regs .rdi) := by
      rw [leaves]
      exact tidy.1 s.base.running
    rw [← enters] at holds
    obtain ⟨rip, rsp, regs⟩ := (bSwap_entered outside).resumes holds
    exact ⟨rip, rsp, regs, (tended.entered tidy leaves enters left left).1⟩
  · cases moved

/-! ### Away and back -/

/-- The step does not enter `c`, and the routine of `c` stays. -/
def Away (c : C) : Act C → Prop
  | .switch (.code _) | .keep _ => True
  | .switch (.init d _ _) | .switch (.swap d) | .finish d => d ≠ c

/-- The context `c` waits where `m` called `bSwap`, and keeps the bytes `own` of its stack. -/
def Waits (c : C) (m : Machine) (own : Set Word) (s : Stacked C) : Prop :=
  s.base.running ≠ c ∧ s.base.saved c = some (.left m) ∧ s.stack c = own

theorem Waits.step {c : C} {m : Machine} {own : Set Word} {s t : Stacked C} {act : Act C}
    (waits : Waits c m own s) (away : Away c act) (stepped : stackedStep layout s act = some t) :
    Waits c m own t := by
  obtain ⟨other, saved, stack⟩ := waits
  cases act with
  | keep part =>
    cases stepped
    have runs : c ≠ s.base.running := other.symm
    exact ⟨other, saved, by simpa [runs] using stack⟩
  | finish d =>
    cases stepped
    have differs : c ≠ d := fun same => away same.symm
    exact ⟨other, by simpa [differs] using saved, by simpa [differs] using stack⟩
  | switch label =>
    obtain ⟨base, moved, rfl⟩ := Option.map_eq_some_iff.mp stepped
    cases label with
    | code next =>
      cases moved
      exact ⟨other, saved, stack⟩
    | init d self stack' =>
      cases moved
      have differs : c ≠ d := fun same => away same.symm
      exact ⟨other, by simpa [differs] using saved, by simpa [Stacked.own, differs] using stack⟩
    | swap d =>
      simp only [Context.step] at moved
      split at moved
      · cases moved
        refine ⟨away, ?_, stack⟩
        simpa [State.leave, Function.update_of_ne other.symm] using saved
      · cases moved

/-- In every run in which code leaves the saved registers of other contexts alone, and what they
keep of their stacks: a context switches away, any number of other contexts run, begin and end, and
when it is entered again, it goes on as after a normal return from its call, with every byte that it
keeps of its stack as it was at the call. -/
theorem comes_back_whole (left away s t : Stacked C) (d : C)
    (reached : (stacking layout).ReachableBy (Tidy layout) left)
    (other : d ≠ left.base.running) (tidy : Tidy layout left (.switch (.swap d)))
    (leaves : stackedStep layout left (.switch (.swap d)) = some away)
    (meanwhile : ((stacking layout).startingAt away).ReachableBy
      (fun s act => Tidy layout s act ∧ Away left.base.running act) s)
    (tidy_back : Tidy layout s (.switch (.swap left.base.running)))
    (enters : stackedStep layout s (.switch (.swap left.base.running)) = some t) :
    Resumes left.base.machine t.base.machine (left.stack left.base.running) := by
  have reached_away := reached.step tidy leaves
  have reached_s : (stacking layout).ReachableBy (Tidy layout) s :=
    Transition.Machine.startingAt_reachableBy reached_away (meanwhile.mono fun _ _ both => both.1)
  have first : Waits left.base.running left.base.machine (left.stack left.base.running) away := by
    obtain ⟨base, moved, rfl⟩ := Option.map_eq_some_iff.mp leaves
    simp only [step] at moved
    split at moved
    · cases moved
      exact ⟨other, by simp [State.leave], rfl⟩
    · cases moved
  obtain ⟨elsewhere, saved, stack⟩ := meanwhile.invariant
    (Waits left.base.running left.base.machine (left.stack left.base.running))
    (by rintro _ rfl; exact first) fun _ _ _ waits both stepped => waits.step both.2 stepped
  rw [← stack]
  refine (tended_of_tidy reached_s).resumes tidy_back enters ?_
  rw [State.leave, Function.update_of_ne elsewhere.symm, saved]

/-- The stack of the thread, and the one that the first context gives the second. -/
def twoStacks (given : Set Word) : Bool → Set Word
  | false => { x | Span 0x40000 0x11000 x }
  | true => given

/-- The first context is about to switch to the second, and comes back. -/
def firstLeaves : Stacked Bool :=
  ⟨firstCalls, twoStacks { x | BetweenGuards 0x1000 twoStack x }⟩

theorem firstLeaves_reached :
    (stacking twoPlaces).ReachableBy (Tidy twoPlaces) firstLeaves := by
  have start : (stacking twoPlaces).ReachableBy (Tidy twoPlaces)
      ⟨⟨calling (fun _ => 0) 0x1000 0x2000 0x50000, false, fun _ => none⟩, twoStacks ∅⟩ := by
    refine .start ⟨rfl, fun c other => ?_, fun x inside d span => ?_⟩
    · cases c with
      | false => exact absurd rfl other
      | true => rfl
    · cases d <;>
        simp only [twoStacks, Set.mem_ofPred_eq, Span, bContextSize, twoPlaces, Bool.false_eq_true,
          if_true, if_false] at inside span <;> bv_omega
  have tidy : Tidy twoPlaces
      ⟨⟨calling (fun _ => 0) 0x1000 0x2000 0x50000, false, fun _ => none⟩, twoStacks ∅⟩
      (.switch (.init true 7 twoStack)) := by
    refine ⟨twoStack_clear, fun d other x inside between => ?_⟩
    have size : twoStack.StackSize.toNat = 131072 := rfl
    cases d with
    | true => exact absurd rfl other
    | false =>
      simp only [twoStacks, Set.mem_ofPred_eq, BetweenGuards, Span, size] at inside between
      simp only [twoPlaces, twoStack] at between
      bv_omega
  refine start.step tidy ?_
  have given : Function.update (twoStacks ∅) true { x | BetweenGuards 0x1000 twoStack x } =
      twoStacks { x | BetweenGuards 0x1000 twoStack x } := by
    funext c
    cases c <;> rfl
  rw [firstLeaves, ← given]
  rfl

theorem comes_back_whole_first :
    ∃ t, stackedStep twoPlaces ⟨secondCalls, firstLeaves.stack⟩ (.switch (.swap false)) = some t ∧
      Resumes firstCalls.machine t.base.machine { x | Span 0x40000 0x11000 x } := by
  have size : twoStack.StackSize.toNat = 131072 := rfl
  have tidy : Tidy twoPlaces firstLeaves (.switch (.swap true)) := by
    refine ⟨calling_clear _ _ _ _ (by decide) (by decide), fun x span => ?_⟩
    simp only [firstLeaves, firstCalls, calling, twoStacks, Set.mem_ofPred_eq, Span] at span ⊢
    bv_omega
  have code : Tidy twoPlaces ⟨⟨run bSwap firstCalls.machine, true, firstCalls.leave⟩,
      firstLeaves.stack⟩ (.switch (.code secondCalls.machine)) :=
    ⟨fun _ _ _ _ _ => rfl, fun _ _ _ _ => rfl⟩
  have tidy_back : Tidy twoPlaces ⟨secondCalls, firstLeaves.stack⟩ (.switch (.swap false)) := by
    refine ⟨calling_clear _ _ _ _ (by decide) (by decide), fun x span => ?_⟩
    simp only [firstLeaves, secondCalls, calling, twoStacks, Set.mem_ofPred_eq, BetweenGuards, Span,
      size] at span ⊢
    simp only [twoStack]
    bv_omega
  have meanwhile : ((stacking twoPlaces).startingAt
      ⟨⟨run bSwap firstCalls.machine, true, firstCalls.leave⟩, firstLeaves.stack⟩).ReachableBy
      (fun s act => Tidy twoPlaces s act ∧ Away false act) ⟨secondCalls, firstLeaves.stack⟩ :=
    .step (a := .switch (.code secondCalls.machine)) (.start rfl) ⟨code, trivial⟩ rfl
  exact ⟨_, rfl, comes_back_whole firstLeaves _ ⟨secondCalls, firstLeaves.stack⟩ _ true
    firstLeaves_reached (by decide) tidy rfl meanwhile tidy_back rfl⟩

end BRoutine.Context
