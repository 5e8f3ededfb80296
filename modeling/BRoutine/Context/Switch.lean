import BRoutine.Context.Swap
import BRoutine.Transition
import Mathlib.Logic.Function.Basic

/-!
# Every context goes on where it was left

One thread runs any number of contexts. Between two calls of `bSwap` the running context does what
it likes, except that it leaves alone the `bContext`s of the others. A context that is entered
goes on as it was left, and one that `bContext::init` has prepared starts at `RoutineBegin` on its
own stack.
-/

namespace BRoutine.Context

open ByteMemory X86 Transition

/-- Where the `bContext`s are, the page size and the address of `RoutineBegin`. -/
structure Layout (C : Type) where
  place : C → Word
  page : Word
  routineBegin : Word
  apart : ∀ c d, c ≠ d → Apart (place c) bContextSize (place d) bContextSize

/-- How a context that does not run came to be as it is. -/
inductive Saved
  /-- `bSwap` was called in it on this machine. -/
  | left (m : Machine)
  /-- `init` prepared it for a routine and a stack. -/
  | fresh (self : Word) (stack : RoutineStack)

structure State (C : Type) where
  machine : Machine
  running : C
  saved : C → Option Saved

inductive Label (C : Type)
  /-- The running context computes up to the next call. -/
  | code (next : Machine)
  | init (c : C) (self : Word) (stack : RoutineStack)
  /-- The running context, at the entry of `bSwap`, switches to `c`. -/
  | swap (c : C)

/-! ### What a `bContext` holds -/

namespace Saved

variable {C : Type} (layout : Layout C)

def slots : Saved → List (Word × Word)
  | left m => leftSlots m
  | fresh self stack => initSlots layout.page layout.routineBegin self stack

/-- The value of the `rsp` slot: the return address goes there when the context is entered. -/
def top : Saved → Word
  | left m => m.regs .rsp
  | fresh _ stack => stack.sp layout.page

/-- No stack overlaps a `bContext`. -/
def Clear : Saved → Prop
  | left m => ∀ d, SlotOutside m (layout.place d)
  | fresh _ stack => Mapping layout.page stack ∧
      ∀ x, BetweenGuards layout.page stack x → ∀ d, ¬ Span (layout.place d) bContextSize x

variable {layout}

theorem slots_within (k : Saved) : Within bContextSize ((k.slots layout).map Prod.fst) := by
  cases k with
  | left m => exact leftSlots_within m
  | fresh self stack => exact initSlots_within _ _ self stack

theorem read_top {k : Saved} {m : Memory} {base : Word} (holds : Holds m base (k.slots layout)) :
    read m (base + 104) = k.top layout := by
  cases k with
  | left m => exact holds (104, m.regs .rsp) (by simp [slots, leftSlots])
  | fresh self stack =>
    exact holds (regsOffset kRSP, stack.sp layout.page) (by simp [slots, initSlots])

theorem Clear.top {k : Saved} (clear : k.Clear layout) (d : C) :
    Apart (k.top layout) 8 (layout.place d) bContextSize := by
  cases k with
  | left m => exact clear d
  | fresh self stack => exact fun x span => clear.2 x (sp_between clear.1 span) d

end Saved

variable {C : Type} [DecidableEq C] (layout : Layout C)

/-- What the contexts are when the running one has stored its registers. -/
def State.leave (s : State C) : C → Option Saved :=
  Function.update s.saved s.running (some (.left s.machine))

def step (s : State C) : Label C → Option (State C)
  | .code next => some { s with machine := next }
  | .init c self stack =>
    some { s with
      machine := { s.machine with
        mem := bContextInit layout.page layout.routineBegin s.machine.mem (layout.place c) self
          stack }
      saved := Function.update s.saved c (some (.fresh self stack)) }
  | .swap c =>
    if s.machine.regs .rdi = layout.place s.running ∧ s.machine.regs .rsi = layout.place c ∧
        (s.leave c).isSome then
      some { machine := run bSwap s.machine, running := c, saved := s.leave }
    else none

/-- At first one context runs and no other is prepared. -/
def switching : Transition.Machine (State C) (Label C) where
  start s := s.saved = fun _ => none
  step := step layout

/-- Code leaves the `bContext`s of the others alone, and no stack overlaps a `bContext`. What code
does to the stacks of the others plays no part. -/
def Fair (s : State C) : Label C → Prop
  | .code next => ∀ c, c ≠ s.running → (s.saved c).isSome →
      ∀ x, Span (layout.place c) bContextSize x → next.mem x = s.machine.mem x
  | .init _ self stack => (Saved.fresh self stack).Clear layout
  | .swap _ => (Saved.left s.machine).Clear layout

/-- The `bContext` of each context that does not run holds what it was left or prepared with. -/
def Kept (s : State C) : Prop :=
  ∀ c, c ≠ s.running → ∀ k, s.saved c = some k →
    Holds s.machine.mem (layout.place c) (k.slots layout) ∧ k.Clear layout

variable {layout}

omit [DecidableEq C] in
theorem Kept.code {s : State C} {next : Machine} (kept : Kept layout s)
    (fair : Fair layout s (.code next)) : Kept layout { s with machine := next } := by
  intro c other k saved
  obtain ⟨holds, clear⟩ := kept c other k saved
  exact ⟨holds.congr k.slots_within (fair c other (by rw [saved]; rfl)), clear⟩

theorem Kept.init {s t : State C} {c : C} {self : Word} {stack : RoutineStack}
    (kept : Kept layout s) (fair : Fair layout s (.init c self stack))
    (stepped : step layout s (.init c self stack) = some t) : Kept layout t := by
  cases stepped
  intro d other k saved
  by_cases same : d = c
  · subst same
    obtain rfl : Saved.fresh self stack = k := by
      simpa only [Function.update_self, Option.some.injEq] using saved
    exact ⟨holds_writeSlots (initSlots_spaced ..) _ _, fair⟩
  · simp only [Function.update_of_ne same] at saved
    obtain ⟨holds, clear⟩ := kept d other k saved
    refine ⟨holds.congr k.slots_within fun x span => ?_, clear⟩
    exact writeSlots_outside (initSlots_within _ _ self stack) (layout.apart d c same x span) _

/-- When the running context has stored its registers, every `bContext` holds what it should. -/
theorem Kept.stored {s : State C} {c : C} (kept : Kept layout s)
    (fair : Fair layout s (.swap c)) (pointer : s.machine.regs .rdi = layout.place s.running)
    {d : C} {k : Saved} (saved : s.leave d = some k) :
    Holds (stored s.machine).mem (layout.place d) (k.slots layout) ∧ k.Clear layout := by
  by_cases same : d = s.running
  · subst same
    obtain rfl : Saved.left s.machine = k := by
      simpa only [State.leave, Function.update_self, Option.some.injEq] using saved
    rw [← pointer]
    exact ⟨holds_writeSlots (leftSlots_spaced _) _ _, fair⟩
  · rw [State.leave, Function.update_of_ne same] at saved
    obtain ⟨holds, clear⟩ := kept d same k saved
    refine ⟨holds.congr k.slots_within fun x span => ?_, clear⟩
    refine writeSlots_outside (leftSlots_within _) ?_ _
    rw [pointer]
    exact layout.apart d s.running same x span

theorem Kept.swap {s t : State C} {c : C} (kept : Kept layout s) (fair : Fair layout s (.swap c))
    (stepped : step layout s (.swap c) = some t) : Kept layout t := by
  simp only [step] at stepped
  split at stepped
  next enabled =>
    cases stepped
    obtain ⟨leaves, enters, target⟩ := enabled
    obtain ⟨k, entry⟩ := Option.isSome_iff_exists.mp target
    obtain ⟨entry_holds, entry_clear⟩ := kept.stored fair leaves entry
    intro d other k' saved
    obtain ⟨holds, clear⟩ := kept.stored fair leaves saved
    refine ⟨holds.congr k'.slots_within fun x span => ?_, clear⟩
    -- the return address goes onto the stack that is entered, away from every `bContext`
    apply bSwap_mem (by rw [leaves]; exact fair s.running)
    rw [Machine.address, enters, Saved.read_top entry_holds]
    exact fun top => entry_clear.top d x top span
  · cases stepped

theorem kept_of_fair {s : State C}
    (reached : (switching layout).ReachableBy (Fair layout) s) : Kept layout s := by
  refine reached.invariant (Kept layout) ?_ ?_
  · intro s unprepared c _ k saved
    rw [show s.saved = fun _ => none from unprepared] at saved
    cases saved
  · intro s label t kept fair stepped
    cases label with
    | code next =>
      cases stepped
      exact kept.code fair
    | init c self stack => exact kept.init fair stepped
    | swap c => exact kept.swap fair stepped

/-- How a switch enters a context, by what the context was when the switch had stored the running
one. -/
def Enters (layout : Layout C) (s t : State C) : Saved → Prop
  | .left m =>
    t.machine.rip = returnAddress m ∧ t.machine.regs .rsp = m.regs .rsp + 8 ∧
      ∀ r ∈ calleeSaved, t.machine.regs r = m.regs r
  | .fresh self stack =>
    t.machine.rip = layout.routineBegin ∧ t.machine.regs .rdi = self ∧
      (t.machine.regs .rsp).toNat % 16 = 8 ∧
      ∀ x, Writes bSwap s.machine x →
        Span (layout.place s.running) bContextSize x ∨ BetweenGuards layout.page stack x

/-- In every fair run, a switch enters its context as the context was left or prepared. -/
theorem swap_enters {s t : State C} {c : C}
    (reached : (switching layout).ReachableBy (Fair layout) s) (fair : Fair layout s (.swap c))
    (stepped : step layout s (.swap c) = some t) :
    ∃ k, s.leave c = some k ∧ Enters layout s t k := by
  have kept := kept_of_fair reached
  simp only [step] at stepped
  split at stepped
  next enabled =>
    cases stepped
    obtain ⟨leaves, enters, target⟩ := enabled
    -- the context that is entered may be the one that has just been stored
    obtain ⟨k, entry⟩ := Option.isSome_iff_exists.mp target
    obtain ⟨holds, clear⟩ := kept.stored fair leaves entry
    have outside : SlotOutside s.machine (s.machine.regs .rdi) := by
      rw [leaves]
      exact fair s.running
    have entered := bSwap_entered outside
    rw [← enters] at holds
    refine ⟨k, entry, ?_⟩
    cases k with
    | left m => exact entered.resumes holds
    | fresh self stack =>
      obtain ⟨rip, rdi, rsp⟩ := entered.begins clear.1 holds
      refine ⟨rip, rdi, rsp, fun x writes => ?_⟩
      -- the stores go into the `bContext` that is left, the push goes to the new stack
      rcases bSwap_writes outside writes with own | top
      · exact .inl (leaves ▸ own)
      · rw [Machine.address, Saved.read_top holds] at top
        exact .inr (sp_between clear.1 top)
  · cases stepped

/-! ### Two contexts -/

/-- Two `bContext`s, one page apart. -/
def twoPlaces : Layout Bool where
  place c := if c then 0x2000 else 0x1000
  page := 0x1000
  routineBegin := 0x400000
  apart c d other x := by
    cases c <;> cases d <;> simp only [ne_eq, not_true_eq_false] at other <;>
      simp only [Span, bContextSize, Bool.false_eq_true, if_true, if_false] <;> bv_omega

/-- A machine that calls `bSwap` with these arguments, on the stack at `rsp`. -/
def calling (mem : Memory) (rdi rsi rsp : Word) : Machine where
  regs
    | .rdi => rdi
    | .rsi => rsi
    | .rsp => rsp
    | _ => 0
  mem := mem
  rip := 0

def twoStack : RoutineStack := ⟨0x10000, 0x20000⟩

/-- The first context has prepared the second and calls `bSwap`. -/
def firstCalls : State Bool where
  machine := calling (bContextInit 0x1000 0x400000 (fun _ => 0) 0x2000 7 twoStack) 0x1000 0x2000
    0x50000
  running := false
  saved := Function.update (fun _ => none) true (some (.fresh 7 twoStack))

/-- The second has begun and calls `bSwap` in its turn. -/
def secondCalls : State Bool where
  machine := calling (run bSwap firstCalls.machine).mem 0x2000 0x1000 0x30000
  running := true
  saved := firstCalls.leave

theorem twoStack_clear : (Saved.fresh 7 twoStack).Clear twoPlaces := by
  refine ⟨⟨by decide, by decide, by decide, by decide⟩, fun x between d span => ?_⟩
  have size : twoStack.StackSize.toNat = 131072 := rfl
  cases d <;>
    simp only [BetweenGuards, Span, bContextSize, size] at * <;>
    simp only [twoStack, twoPlaces, Bool.false_eq_true, if_true, if_false] at * <;> bv_omega

theorem calling_clear (mem : Memory) (rdi rsi rsp : Word) (above : 0x3000 ≤ rsp.toNat)
    (below : rsp.toNat < 0x100000) : (Saved.left (calling mem rdi rsi rsp)).Clear twoPlaces := by
  intro d x top span
  cases d <;>
    simp only [Span, bContextSize, calling, twoPlaces, Bool.false_eq_true, if_true,
      if_false] at * <;> bv_omega

theorem secondCalls_reached :
    (switching twoPlaces).ReachableBy (Fair twoPlaces) secondCalls := by
  have start : (switching twoPlaces).ReachableBy (Fair twoPlaces)
      ⟨calling (fun _ => 0) 0x1000 0x2000 0x50000, false, fun _ => none⟩ := .start rfl
  have first : (switching twoPlaces).ReachableBy (Fair twoPlaces) firstCalls :=
    .step (a := .init true 7 twoStack) start twoStack_clear rfl
  have second : (switching twoPlaces).ReachableBy (Fair twoPlaces)
      ⟨run bSwap firstCalls.machine, true, firstCalls.leave⟩ :=
    .step (a := .swap true) first (calling_clear _ _ _ _ (by decide) (by decide)) rfl
  exact .step (a := .code secondCalls.machine) second (fun _ _ _ _ _ => rfl) rfl

/-- The first context is entered again, as after a normal return. -/
theorem swap_enters_first : ∃ t, step twoPlaces secondCalls (.swap false) = some t ∧
    t.machine.rip = returnAddress firstCalls.machine ∧ t.machine.regs .rsp = 0x50008 := by
  have fair : Fair twoPlaces secondCalls (.swap false) :=
    calling_clear _ _ _ _ (by decide) (by decide)
  obtain ⟨k, entry, entered⟩ := swap_enters (t := ⟨_, false, secondCalls.leave⟩)
    secondCalls_reached fair rfl
  obtain rfl : Saved.left firstCalls.machine = k := Option.some.inj entry
  obtain ⟨rip, rsp, _⟩ := entered
  exact ⟨_, rfl, rip, rsp⟩

end BRoutine.Context
