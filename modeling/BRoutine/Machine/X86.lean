import BRoutine.Machine.Memory

/-!
# Straight-line x86-64 code

The general registers, memory and the instruction pointer, and the few instructions a context
switch is made of. Flags are left out: none of these instructions reads them. `run` takes a block
of code from its first instruction to its last, and `Writes` says which bytes it stores to.
-/

namespace X86

open ByteMemory

inductive Reg
  | rax | rbx | rcx | rdx | rsi | rdi | rbp | rsp
  | r8 | r9 | r10 | r11 | r12 | r13 | r14 | r15
deriving DecidableEq, Repr

structure Machine where
  regs : Reg → Word
  mem : Memory
  rip : Word

/-- Operands stand in the order of the assembler: source, then destination. -/
inductive Instr
  /-- `leaq disp(base), dst` -/
  | leaq (disp : Word) (base dst : Reg)
  /-- `movq src, disp(base)` -/
  | store (src : Reg) (disp : Word) (base : Reg)
  /-- `movq disp(base), dst` -/
  | load (disp : Word) (base dst : Reg)
  /-- `xorq src, dst` -/
  | xorq (src dst : Reg)
  /-- `pushq disp(base)` -/
  | pushq (disp : Word) (base : Reg)
  | ret
deriving DecidableEq, Repr

namespace Machine

def set (m : Machine) (dst : Reg) (v : Word) : Machine :=
  { m with regs := fun r => if r = dst then v else m.regs r }

/-- The address `disp(base)`. -/
def address (m : Machine) (disp : Word) (base : Reg) : Word :=
  m.regs base + disp

@[simp] theorem set_regs_self (m : Machine) (dst : Reg) (v : Word) : (m.set dst v).regs dst = v :=
  if_pos rfl

theorem set_regs_other (m : Machine) {dst r : Reg} (v : Word) (other : r ≠ dst) :
    (m.set dst v).regs r = m.regs r :=
  if_neg other

@[simp] theorem set_mem (m : Machine) (dst : Reg) (v : Word) : (m.set dst v).mem = m.mem := rfl

@[simp] theorem set_rip (m : Machine) (dst : Reg) (v : Word) : (m.set dst v).rip = m.rip := rfl

end Machine

namespace Instr

def exec (m : Machine) : Instr → Machine
  | leaq disp base dst => m.set dst (m.address disp base)
  | store src disp base => { m with mem := write m.mem (m.address disp base) (m.regs src) }
  | load disp base dst => m.set dst (read m.mem (m.address disp base))
  | xorq src dst => m.set dst (m.regs dst ^^^ m.regs src)
  | pushq disp base =>
    let top := m.regs .rsp - 8
    { m.set .rsp top with mem := write m.mem top (read m.mem (m.address disp base)) }
  | ret => { m.set .rsp (m.regs .rsp + 8) with rip := read m.mem (m.regs .rsp) }

/-- The instruction stores to the byte at `x`. -/
def Stores (m : Machine) (x : Word) : Instr → Prop
  | store _ disp base => Span (m.address disp base) 8 x
  | pushq _ _ => Span (m.regs .rsp - 8) 8 x
  | _ => False

/-- The registers an instruction may change. -/
def targets : Instr → List Reg
  | leaq _ _ dst | load _ _ dst | xorq _ dst => [dst]
  | store _ _ _ => []
  | pushq _ _ | ret => [.rsp]

end Instr

/-- The machine after a block of code. -/
def run : List Instr → Machine → Machine
  | [], m => m
  | instr :: rest, m => run rest (instr.exec m)

/-- Some instruction of the block stores to the byte at `x`. -/
def Writes : List Instr → Machine → Word → Prop
  | [], _, _ => False
  | instr :: rest, m, x => instr.Stores m x ∨ Writes rest (instr.exec m) x

theorem run_append (front back : List Instr) (m : Machine) :
    run (front ++ back) m = run back (run front m) := by
  induction front generalizing m with
  | nil => rfl
  | cons instr front ih => exact ih _

theorem writes_append {front back : List Instr} {m : Machine} {x : Word} :
    Writes (front ++ back) m x ↔ Writes front m x ∨ Writes back (run front m) x := by
  induction front generalizing m with
  | nil => simp [Writes, run]
  | cons instr front ih => rw [List.cons_append, Writes, Writes, ih, or_assoc, run]

theorem Instr.exec_outside {instr : Instr} {m : Machine} {x : Word} (quiet : ¬ instr.Stores m x) :
    (instr.exec m).mem x = m.mem x := by
  cases instr with
  | store src disp base => exact write_outside quiet
  | pushq disp base => exact write_outside quiet
  | leaq | load | xorq | ret => rfl

/-- A block changes no byte but those it stores to. -/
theorem run_outside {code : List Instr} {m : Machine} {x : Word} (quiet : ¬ Writes code m x) :
    (run code m).mem x = m.mem x := by
  induction code generalizing m with
  | nil => rfl
  | cons instr code ih =>
    obtain ⟨here, later⟩ := not_or.mp quiet
    exact (ih later).trans (Instr.exec_outside here)

theorem Instr.exec_untouched {instr : Instr} {m : Machine} {r : Reg} (other : r ∉ instr.targets) :
    (instr.exec m).regs r = m.regs r := by
  cases instr with
  | store => rfl
  | leaq | load | xorq | pushq | ret => exact if_neg fun same => other (by simp [targets, same])

theorem run_untouched {code : List Instr} {r : Reg} (other : ∀ instr ∈ code, r ∉ instr.targets)
    (m : Machine) : (run code m).regs r = m.regs r := by
  induction code generalizing m with
  | nil => rfl
  | cons instr code ih =>
    have tail := ih (fun later listed => other later (List.mem_cons_of_mem _ listed))
      (instr.exec m)
    exact tail.trans (Instr.exec_untouched (other instr (by simp)))

/-! ### Rows of stores and loads -/

/-- Each register is stored at its offset from `base`. -/
def stores (base : Reg) (slots : List (Word × Reg)) : List Instr :=
  slots.map fun slot => .store slot.2 slot.1 base

/-- Each register is loaded from its offset from `base`. -/
def loads (base : Reg) (slots : List (Word × Reg)) : List Instr :=
  slots.map fun slot => .load slot.1 base slot.2

/-- What a row of stores puts into memory. -/
def Machine.values (m : Machine) (slots : List (Word × Reg)) : List (Word × Word) :=
  slots.map fun slot => (slot.1, m.regs slot.2)

theorem run_stores (base : Reg) (slots : List (Word × Reg)) (m : Machine) :
    run (stores base slots) m =
      { m with mem := writeSlots m.mem (m.regs base) (m.values slots) } := by
  induction slots generalizing m with
  | nil => rfl
  | cons slot rest ih => exact ih _

theorem writes_stores {base : Reg} {slots : List (Word × Reg)} {n : Nat} {m : Machine} {x : Word}
    (within : Within n (slots.map Prod.fst)) (writes : Writes (stores base slots) m x) :
    Span (m.regs base) n x := by
  induction slots generalizing m with
  | nil => exact writes.elim
  | cons slot rest ih =>
    rcases writes with here | later
    · exact Span.inside here (within slot.1 (by simp))
    · have tail := ih (fun offset listed => within offset (List.mem_cons_of_mem _ listed)) later
      exact tail

theorem run_loads_mem (base : Reg) (slots : List (Word × Reg)) (m : Machine) :
    (run (loads base slots) m).mem = m.mem := by
  induction slots generalizing m with
  | nil => rfl
  | cons slot rest ih => exact ih _

theorem run_loads_other {base r : Reg} {slots : List (Word × Reg)}
    (other : r ∉ slots.map Prod.snd) (m : Machine) :
    (run (loads base slots) m).regs r = m.regs r := by
  apply run_untouched
  intro instr listed
  obtain ⟨slot, slot_listed, rfl⟩ := List.mem_map.mp listed
  have ne : r ≠ slot.2 := fun same => other (same ▸ List.mem_map_of_mem slot_listed)
  simpa [Instr.targets] using ne

/-- A row of loads that leaves `base` alone and loads no register twice. -/
theorem run_loads {base r : Reg} {slots : List (Word × Reg)} (apart : base ∉ slots.map Prod.snd)
    (once : (slots.map Prod.snd).Nodup) {offset : Word} (listed : (offset, r) ∈ slots)
    (m : Machine) :
    (run (loads base slots) m).regs r = read m.mem (m.address offset base) := by
  induction slots generalizing m with
  | nil => cases listed
  | cons slot rest ih =>
    obtain ⟨base_ne, rest_apart⟩ := List.ne_and_not_mem_of_not_mem_cons apart
    obtain ⟨new, rest_once⟩ := List.nodup_cons.mp once
    rcases List.mem_cons.mp listed with rfl | later
    · exact (run_loads_other new _).trans (m.set_regs_self ..)
    · refine (ih rest_apart rest_once later _).trans ?_
      show read m.mem ((m.set _ _).regs base + offset) = _
      rw [m.set_regs_other _ base_ne]
      rfl

theorem not_writes_loads {base : Reg} {slots : List (Word × Reg)} {m : Machine} {x : Word} :
    ¬ Writes (loads base slots) m x := by
  induction slots generalizing m with
  | nil => exact id
  | cons slot rest ih => exact fun writes => writes.elim id ih

end X86
