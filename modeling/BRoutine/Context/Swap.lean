import BRoutine.Machine.X86
import BRoutine.Pool

/-!
# `bContext` and `bSwap`

A `bContext` is 128 bytes: fourteen registers, then the size and the start of the stack. `bSwap`
stores the registers of the context in `rdi` and loads those of the context in `rsi`;
`bContext::init` writes a context that `bSwap` enters at `RoutineBegin`.
-/

namespace BRoutine.Context

open ByteMemory X86

/-- `sizeof(bContext)` -/
def bContextSize : Nat := 128

/-- `regs[i]` of a `bContext` -/
def regsOffset (i : Word) : Word := 8 * i

def kRDI : Word := 7
def kRSI : Word := 8
def kRETAddr : Word := 9
def kRSP : Word := 13

def stackSizeOffset : Word := 112
def stackPtrOffset : Word := 120

/-! ### `bSwap` -/

/-- The first half of `bSwap` stores the context that is left. -/
def bSwapSave : List Instr :=
  [.leaq 0 .rsp .rax,
   .store .rax 104 .rdi,
   .store .rbx 96 .rdi,
   .store .rcx 88 .rdi,
   .store .rdx 80 .rdi,
   .load 0 .rax .rax,
   .store .rax 72 .rdi,
   .store .rsi 64 .rdi,
   .store .rdi 56 .rdi,
   .store .rbp 48 .rdi,
   .store .r8 40 .rdi,
   .store .r9 32 .rdi,
   .store .r12 24 .rdi,
   .store .r13 16 .rdi,
   .store .r14 8 .rdi,
   .store .r15 0 .rdi,
   .xorq .rax .rax]

/-- The second half loads the context that is entered. -/
def bSwapLoad : List Instr :=
  [.load 48 .rsi .rbp,
   .load 104 .rsi .rsp,
   .load 0 .rsi .r15,
   .load 8 .rsi .r14,
   .load 16 .rsi .r13,
   .load 24 .rsi .r12,
   .load 32 .rsi .r9,
   .load 40 .rsi .r8,
   .load 56 .rsi .rdi,
   .load 80 .rsi .rdx,
   .load 88 .rsi .rcx,
   .load 96 .rsi .rbx,
   .leaq 8 .rsp .rsp,
   .pushq 72 .rsi,
   .load 64 .rsi .rsi,
   .ret]

def bSwap : List Instr := bSwapSave ++ bSwapLoad

/-- The registers a function has to leave as they were. -/
def calleeSaved : List Reg := [.rbx, .rbp, .r12, .r13, .r14, .r15]

/-- The return address of the call of `bSwap` that the machine is at the entry of. -/
def returnAddress (m : Machine) : Word := read m.mem (m.regs .rsp)

/-- The slots of a `bContext` left by `bSwap`, in the order of the stores. -/
def leftSlots (m : Machine) : List (Word × Word) :=
  [(104, m.regs .rsp), (96, m.regs .rbx), (88, m.regs .rcx), (80, m.regs .rdx),
   (72, returnAddress m), (64, m.regs .rsi), (56, m.regs .rdi), (48, m.regs .rbp),
   (40, m.regs .r8), (32, m.regs .r9), (24, m.regs .r12), (16, m.regs .r13), (8, m.regs .r14),
   (0, m.regs .r15)]

theorem leftSlots_spaced (m : Machine) : Spaced ((leftSlots m).map Prod.fst) :=
  (by decide : Spaced [104, 96, 88, 80, 72, 64, 56, 48, 40, 32, 24, 16, 8, 0])

theorem leftSlots_within (m : Machine) : Within bContextSize ((leftSlots m).map Prod.fst) :=
  (by decide : Within bContextSize [104, 96, 88, 80, 72, 64, 56, 48, 40, 32, 24, 16, 8, 0])

/-- The eight bytes that the call of `bSwap` has pushed lie outside the block at `base`. -/
def SlotOutside (m : Machine) (base : Word) : Prop :=
  Apart (m.regs .rsp) 8 base bContextSize

/-- The stores of `bSwap` before and after it reads the return address, and its row of loads. -/
def savedFirst : List (Word × Reg) := [(104, .rax), (96, .rbx), (88, .rcx), (80, .rdx)]

def savedLast : List (Word × Reg) :=
  [(72, .rax), (64, .rsi), (56, .rdi), (48, .rbp), (40, .r8), (32, .r9), (24, .r12), (16, .r13),
   (8, .r14), (0, .r15)]

def loaded : List (Word × Reg) :=
  [(48, .rbp), (104, .rsp), (0, .r15), (8, .r14), (16, .r13), (24, .r12), (32, .r9), (40, .r8),
   (56, .rdi), (80, .rdx), (88, .rcx), (96, .rbx)]

theorem bSwapSave_eq :
    bSwapSave = .leaq 0 .rsp .rax :: (stores .rdi savedFirst ++
      .load 0 .rax .rax :: (stores .rdi savedLast ++ [.xorq .rax .rax])) := rfl

/-- The last four instructions, after the row of loads. -/
def bSwapReturn : List Instr := [.leaq 8 .rsp .rsp, .pushq 72 .rsi, .load 64 .rsi .rsi, .ret]

theorem bSwapLoad_eq : bSwapLoad = loads .rsi loaded ++ bSwapReturn := rfl

theorem bSwapSave_mem {m : Machine} (outside : SlotOutside m (m.regs .rdi)) :
    (run bSwapSave m).mem = writeSlots m.mem (m.regs .rdi) (leftSlots m) := by
  let head : List (Word × Word) :=
    [(104, m.regs .rsp), (96, m.regs .rbx), (88, m.regs .rcx), (80, m.regs .rdx)]
  have within : Within bContextSize (head.map Prod.fst) :=
    (by decide : Within bContextSize [104, 96, 88, 80])
  have top : m.regs .rsp + 0 = m.regs .rsp := BitVec.add_zero _
  have entry : (Instr.leaq 0 .rsp .rax).exec m = m.set .rax (m.regs .rsp) := by
    rw [← top]
    rfl
  -- the return address is read back after four stores into the `bContext`
  have address : read (writeSlots m.mem (m.regs .rdi) head) (m.regs .rsp + 0) =
      returnAddress m := by
    rw [top]
    exact read_writeSlots_apart within outside m.mem
  rw [bSwapSave_eq, run, run_append, run_stores, run, run_append, run_stores, entry]
  show writeSlots (writeSlots m.mem (m.regs .rdi) head) (m.regs .rdi)
    ((72, read (writeSlots m.mem (m.regs .rdi) head) (m.regs .rsp + 0)) :: _) = _
  rw [address, ← writeSlots_append]
  rfl

theorem bSwapSave_regs (m : Machine) {r : Reg} (other : r ≠ .rax) :
    (run bSwapSave m).regs r = m.regs r := by
  have untouched : ∀ instr ∈ bSwapSave, r ∉ instr.targets := by
    have only : ∀ instr ∈ bSwapSave, ∀ dst ∈ instr.targets, dst = .rax := by decide
    exact fun instr listed target => other (only instr listed r target)
  exact run_untouched untouched m

/-- The first half of `bSwap` writes into the `bContext` that is left. -/
theorem bSwapSave_writes {m : Machine} {x : Word} (writes : Writes bSwapSave m x) :
    Span (m.regs .rdi) bContextSize x := by
  have early : Within bContextSize (savedFirst.map Prod.fst) := by decide
  have late : Within bContextSize (savedLast.map Prod.fst) := by decide
  rw [bSwapSave_eq, Writes, writes_append, run_stores, Writes, writes_append] at writes
  rcases writes with lea | first | reload | last | clear
  · exact lea.elim
  · exact writes_stores early first
  · exact reload.elim
  · exact writes_stores late last
  · exact (clear.elim id id : False).elim

/-- What the second half of `bSwap` does to a machine whose `rsi` points to the `bContext` that is
entered. -/
structure Entered (m t : Machine) : Prop where
  rip : t.rip = read m.mem (m.address 72 .rsi)
  rsp : t.regs .rsp = read m.mem (m.address 104 .rsi) + 8
  regs : ∀ slot ∈ loaded, slot.2 ≠ .rsp → t.regs slot.2 = read m.mem (m.address slot.1 .rsi)

/-- The return address is pushed where `rsp` pointed, and taken from there. -/
theorem bSwapReturn_entered (m : Machine) :
    (run bSwapReturn m).rip = read m.mem (m.address 72 .rsi) ∧
      (run bSwapReturn m).regs .rsp = m.regs .rsp + 8 := by
  have top : m.regs .rsp + 8 - 8 = m.regs .rsp := by bv_omega
  constructor <;>
    simp (disch := decide) only [bSwapReturn, run, Instr.exec, Machine.address,
      Machine.set_regs_self, Machine.set_regs_other, Machine.set_mem, top, read_write_same]

theorem bSwapReturn_writes {m : Machine} {x : Word} (writes : Writes bSwapReturn m x) :
    Span (m.regs .rsp) 8 x := by
  have top : m.regs .rsp + 8 - 8 = m.regs .rsp := by bv_omega
  rcases writes with lea | push | reload | ret | done
  · exact lea.elim
  · rw [← top]
    exact push
  · exact reload.elim
  · exact ret.elim
  · exact done.elim

theorem bSwapLoad_entered (m : Machine) : Entered m (run bSwapLoad m) := by
  have pointer : (run (loads .rsi loaded) m).regs .rsi = m.regs .rsi :=
    run_loads_other (by decide) m
  have mem : (run (loads .rsi loaded) m).mem = m.mem := run_loads_mem .rsi loaded m
  have load {offset : Word} {r : Reg} (listed : (offset, r) ∈ loaded) :
      (run (loads .rsi loaded) m).regs r = read m.mem (m.address offset .rsi) :=
    run_loads (by decide) (by decide) listed m
  have top : (run (loads .rsi loaded) m).regs .rsp = read m.mem (m.address 104 .rsi) :=
    load (by decide)
  obtain ⟨rip, rsp⟩ := bSwapReturn_entered (run (loads .rsi loaded) m)
  rw [bSwapLoad_eq, run_append]
  constructor
  · rw [rip, Machine.address, pointer, mem]
    rfl
  · rw [rsp, top]
  · intro slot listed other
    have kept : ∀ instr ∈ bSwapReturn, slot.2 ∉ instr.targets := by
      have spared : slot.2 ≠ .rsi := fun same =>
        (by decide : Reg.rsi ∉ loaded.map Prod.snd) (same ▸ List.mem_map_of_mem listed)
      simp [bSwapReturn, Instr.targets, other, spared]
    rw [run_untouched kept, load listed]

theorem bSwapLoad_writes {m : Machine} {x : Word} (writes : Writes bSwapLoad m x) :
    Span (read m.mem (m.address 104 .rsi)) 8 x := by
  have load : (run (loads .rsi loaded) m).regs .rsp = read m.mem (m.address 104 .rsi) :=
    run_loads (by decide) (by decide) (by decide) m
  rw [bSwapLoad_eq, writes_append] at writes
  rw [← load]
  exact bSwapReturn_writes (writes.resolve_left not_writes_loads)

/-- The machine at the entry of `bSwap`, with its registers stored. -/
def stored (m : Machine) : Machine :=
  { m with mem := writeSlots m.mem (m.regs .rdi) (leftSlots m) }

theorem bSwap_entered {m : Machine} (outside : SlotOutside m (m.regs .rdi)) :
    Entered (stored m) (run bSwap m) := by
  have entered := bSwapLoad_entered (run bSwapSave m)
  have pointer : (run bSwapSave m).regs .rsi = m.regs .rsi := bSwapSave_regs m (by decide)
  rw [bSwap, run_append]
  constructor
  · rw [entered.rip, Machine.address, pointer, bSwapSave_mem outside]
    rfl
  · rw [entered.rsp, Machine.address, pointer, bSwapSave_mem outside]
    rfl
  · intro slot listed other
    rw [entered.regs slot listed other, Machine.address, pointer, bSwapSave_mem outside]
    rfl

/-- `bSwap` writes into the `bContext` that is left and over the return address on the stack that
is entered. -/
theorem bSwap_writes {m : Machine} (outside : SlotOutside m (m.regs .rdi)) {x : Word}
    (writes : Writes bSwap m x) :
    Span (m.regs .rdi) bContextSize x ∨
      Span (read (stored m).mem (m.address 104 .rsi)) 8 x := by
  have pointer : (run bSwapSave m).regs .rsi = m.regs .rsi := bSwapSave_regs m (by decide)
  rcases writes_append.mp writes with save | load
  · exact .inl (bSwapSave_writes save)
  · have span := bSwapLoad_writes load
    rw [Machine.address, pointer, bSwapSave_mem outside] at span
    exact .inr span

/-- Nothing else is written once the registers are stored. -/
theorem bSwap_mem {m : Machine} (outside : SlotOutside m (m.regs .rdi)) {x : Word}
    (apart : ¬ Span (read (stored m).mem (m.address 104 .rsi)) 8 x) :
    (run bSwap m).mem x = (stored m).mem x := by
  have pointer : (run bSwapSave m).regs .rsi = m.regs .rsi := bSwapSave_regs m (by decide)
  have saved := bSwapSave_mem outside
  have quiet : ¬ Writes bSwapLoad (run bSwapSave m) x := by
    intro writes
    have span := bSwapLoad_writes writes
    rw [Machine.address, pointer, saved] at span
    exact apart span
  rw [bSwap, run_append, run_outside quiet, saved]
  rfl

/-- Every register is loaded from the slot in which it was stored. -/
theorem leftSlots_loaded (m : Machine) :
    ∀ slot ∈ loaded, slot.2 ≠ .rsp → (slot.1, m.regs slot.2) ∈ leftSlots m := by
  simp [loaded, leftSlots]

/-- A `bContext` that holds what `bSwap` stored from `m0` is entered where `m0` was left. -/
theorem Entered.resumes {m m0 t : Machine} (entered : Entered m t)
    (holds : Holds m.mem (m.regs .rsi) (leftSlots m0)) :
    t.rip = returnAddress m0 ∧ t.regs .rsp = m0.regs .rsp + 8 ∧
      ∀ r ∈ calleeSaved, t.regs r = m0.regs r := by
  refine ⟨?_, ?_, ?_⟩
  · rw [entered.rip]
    exact holds (72, returnAddress m0) (by simp [leftSlots])
  · rw [entered.rsp]
    exact congrArg (· + 8) (holds (104, m0.regs .rsp) (by simp [leftSlots]))
  · have listed : ∀ r ∈ calleeSaved, ∃ slot ∈ loaded, slot.2 = r ∧ slot.2 ≠ .rsp := by decide
    intro r saved
    obtain ⟨slot, slot_listed, rfl, other⟩ := listed r saved
    rw [entered.regs slot slot_listed other]
    exact holds (slot.1, m0.regs slot.2) (leftSlots_loaded m0 slot slot_listed other)

/-! ### `bContext::init` -/

/-- `struct bRoutineStack` -/
structure RoutineStack where
  StackPtr : Word
  StackSize : Word
deriving DecidableEq, Repr

/-- The `sp` of `bContext::init`, for the page size `page`. -/
def RoutineStack.sp (page : Word) (stack : RoutineStack) : Word :=
  (stack.StackPtr + page + stack.StackSize - 1) &&& (-16)

/-- The fields that `bContext::init` sets, in the order of the assignments. -/
def initSlots (page routineBegin self : Word) (stack : RoutineStack) : List (Word × Word) :=
  [(stackSizeOffset, stack.StackSize), (stackPtrOffset, stack.StackPtr),
   (regsOffset kRSP, stack.sp page), (regsOffset kRDI, self), (regsOffset kRSI, 0),
   (regsOffset kRETAddr, routineBegin)]

/-- `bContext::init` on the `bContext` at `this` -/
def bContextInit (page routineBegin : Word) (mem : Memory) (this self : Word)
    (stack : RoutineStack) : Memory :=
  writeSlots mem this (initSlots page routineBegin self stack)

theorem initSlots_spaced (page routineBegin self : Word) (stack : RoutineStack) :
    Spaced ((initSlots page routineBegin self stack).map Prod.fst) :=
  (by decide : Spaced [stackSizeOffset, stackPtrOffset, regsOffset kRSP, regsOffset kRDI,
    regsOffset kRSI, regsOffset kRETAddr])

theorem initSlots_within (page routineBegin self : Word) (stack : RoutineStack) :
    Within bContextSize ((initSlots page routineBegin self stack).map Prod.fst) :=
  (by decide : Within bContextSize [stackSizeOffset, stackPtrOffset, regsOffset kRSP,
    regsOffset kRDI, regsOffset kRSI, regsOffset kRETAddr])

/-- A stack that starts at a page and has the size of some whole pages, at least one. Its memory
lies after the guard page at `StackPtr`, and another guard page follows. -/
structure Mapping (page : Word) (stack : RoutineStack) : Prop where
  sixteen : 16 ∣ page.toNat
  aligned : page.toNat ∣ stack.StackPtr.toNat
  multiple : page.toNat ∣ stack.StackSize.toNat
  positive : 0 < stack.StackSize.toNat

/-- `allocateStackMemory`, where `mmap` gives the start of a mapping of so many bytes, with its
guard pages, or fails -/
def allocateStackMemory (page : Word) (mmap : Word → Option Word) (size_Kb : Nat) : Option Word :=
  let size := if size_Kb < miniStackSize then miniStackSize else size_Kb
  mmap (BitVec.ofNat 64 (size * 1024) + 2 * page)

/-- `bRoutineStack::New`; a size level that is not defined throws. -/
def RoutineStack.New (page : Word) (mmap : Word → Option Word) (sizeLevel : Int) :
    Option RoutineStack :=
  (stackSizeOf sizeLevel).bind fun size =>
    (allocateStackMemory page mmap (size / 1024)).map fun ptr => ⟨ptr, BitVec.ofNat 64 size⟩

/-- Where mappings start at pages, and a page is a number of 16 bytes that divides the smallest
stack, every stack is such a mapping. -/
theorem New_mapping {page : Word} {mmap : Word → Option Word} {sizeLevel : Int}
    {stack : RoutineStack} (sixteen : 16 ∣ page.toNat) (divides : page.toNat ∣ 131072)
    (aligned : ∀ size ptr, mmap size = some ptr → page.toNat ∣ ptr.toNat)
    (made : RoutineStack.New page mmap sizeLevel = some stack) : Mapping page stack := by
  obtain ⟨size, level, allocated⟩ := Option.bind_eq_some_iff.mp made
  obtain ⟨ptr, mapped, rfl⟩ := Option.map_eq_some_iff.mp allocated
  -- each size is a number of the smallest stacks
  have sizes : ∀ size ∈ stackSizes,
      131072 ∣ (BitVec.ofNat 64 size).toNat ∧ 0 < (BitVec.ofNat 64 size).toNat := by decide
  obtain ⟨multiple, positive⟩ := sizes size (stackSizeOf_mem level)
  exact ⟨sixteen, aligned _ ptr mapped, divides.trans multiple, positive⟩

/-- The byte lies strictly between the two guard pages. -/
def BetweenGuards (page : Word) (stack : RoutineStack) (x : Word) : Prop :=
  Span (stack.StackPtr + page) stack.StackSize.toNat x

theorem and_neg_sixteen {v : Word} (multiple : 16 ∣ v.toNat) : (v - 1) &&& (-16) = v - 16 := by
  have low : ((v - 1) &&& 15).toNat = 15 := by
    rw [BitVec.toNat_and]
    show (v - 1).toNat &&& (2 ^ 4 - 1) = 15
    rw [Nat.and_two_pow_sub_one_eq_mod]
    bv_omega
  -- the two masks split a word into parts that do not overlap
  have split (x : Word) : (x &&& 15) + (x &&& (-16)) = x := by
    have apart : (x &&& 15) &&& (x &&& (-16)) = 0#64 := by
      calc
        _ = (x &&& x) &&& (15 &&& (-16)) := by ac_rfl
        _ = 0#64 := by
          rw [(by decide : (15 : Word) &&& (-16) = 0#64)]
          exact BitVec.and_zero
    rw [BitVec.add_eq_or_of_and_eq_zero _ _ apart, ← BitVec.and_or_distrib_left,
      (by decide : (15 : Word) ||| (-16) = BitVec.allOnes 64)]
    exact BitVec.and_allOnes
  have parts := split (v - 1)
  bv_omega

/-- `init` puts `sp` sixteen bytes below the second guard page. -/
theorem sp_eq {page : Word} {stack : RoutineStack} (mapping : Mapping page stack) :
    stack.sp page = stack.StackPtr + page + stack.StackSize - 16 := by
  have ptr := mapping.sixteen.trans mapping.aligned
  have size := mapping.sixteen.trans mapping.multiple
  have sixteen := mapping.sixteen
  apply and_neg_sixteen
  bv_omega

theorem sp_aligned {page : Word} {stack : RoutineStack} (mapping : Mapping page stack) :
    (stack.sp page + 8).toNat % 16 = 8 := by
  have ptr := mapping.sixteen.trans mapping.aligned
  have size := mapping.sixteen.trans mapping.multiple
  have sixteen := mapping.sixteen
  rw [sp_eq mapping]
  bv_omega

theorem sp_between {page : Word} {stack : RoutineStack} (mapping : Mapping page stack) {x : Word}
    (span : Span (stack.sp page) 8 x) : BetweenGuards page stack x := by
  have size := mapping.sixteen.trans mapping.multiple
  have positive := mapping.positive
  rw [sp_eq mapping] at span
  unfold BetweenGuards Span at *
  bv_omega

/-- A `bContext` prepared by `init` is entered at `RoutineBegin`, with the routine in `rdi` and
`rsp` as after a call. -/
theorem Entered.begins {page routineBegin self : Word} {stack : RoutineStack} {m t : Machine}
    (mapping : Mapping page stack) (entered : Entered m t)
    (holds : Holds m.mem (m.regs .rsi) (initSlots page routineBegin self stack)) :
    t.rip = routineBegin ∧ t.regs .rdi = self ∧ (t.regs .rsp).toNat % 16 = 8 := by
  refine ⟨?_, ?_, ?_⟩
  · rw [entered.rip]
    exact holds (regsOffset kRETAddr, routineBegin) (by simp [initSlots])
  · rw [entered.regs (56, .rdi) (by decide) (by decide)]
    exact holds (regsOffset kRDI, self) (by simp [initSlots])
  · have top : read m.mem (m.address 104 .rsi) = stack.sp page :=
      holds (regsOffset kRSP, stack.sp page) (by simp [initSlots])
    rw [entered.rsp, top]
    exact sp_aligned mapping

end BRoutine.Context
