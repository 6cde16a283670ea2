import Mathlib.Data.BitVec

/-!
# Straight-line AArch64 code

The registers and the memory of a core, and the instructions that move words between
them. A core has 31 general registers, 32 vector registers of two words each, the stack
pointer, and the system registers of EL1 that an exception uses.

## Implementation notes

Every access of this code is to an aligned doubleword, so the memory is the map of the
aligned doublewords. A pair instruction is the list of its single transfers: no pair
here loads the register that its address is taken from.
-/

namespace RPiKernel.Aarch64

abbrev Word := BitVec 64

-- Numbers of registers and of halves are written as literals.
scoped instance neZeroGeneral : NeZero 31 := ⟨by decide⟩
scoped instance neZeroVector : NeZero 32 := ⟨by decide⟩
scoped instance neZeroHalf : NeZero 2 := ⟨by decide⟩

/-- The registers that hold one word. A vector register is two of them, low word first. -/
inductive Reg where
  | x (n : Fin 31)
  | q (n : Fin 32) (half : Fin 2)
  | sp
  | elr
  | spsr
  | esr
  deriving DecidableEq, Repr

/-- The addresses that the code mentions. -/
inductive Symbol (ι : Type) where
  | label (name : ι)
  /-- The instruction behind a call. -/
  | behind (caller callee : ι)
  deriving DecidableEq, Repr

/-- The registers and the memory of a core. -/
structure Core where
  reg : Reg → Word
  mem : Word → Word
  pc : Word
  pstate : Word

inductive Instr (ι : Type) where
  | str (r base : Reg) (offset : Nat)
  | ldr (r base : Reg) (offset : Nat)
  | add (d s : Reg) (imm : Word)
  | mov (d s : Reg)
  | movImm (d : Reg) (imm : Word)
  | andImm (d s : Reg) (imm : Word)
  | ubfx (d s : Reg) (lsb width : Nat)
  | adr (d : Reg) (symbol : Symbol ι)
  deriving DecidableEq, Repr

namespace Instr

variable {ι : Type}

def stp (a b : Fin 31) (base : Reg) (offset : Nat) : List (Instr ι) :=
  [.str (.x a) base offset, .str (.x b) base (offset + 8)]

def stpq (a b : Fin 32) (base : Reg) (offset : Nat) : List (Instr ι) :=
  [.str (.q a 0) base offset, .str (.q a 1) base (offset + 8),
    .str (.q b 0) base (offset + 16), .str (.q b 1) base (offset + 24)]

def ldp (a b : Fin 31) (base : Reg) (offset : Nat) : List (Instr ι) :=
  [.ldr (.x a) base offset, .ldr (.x b) base (offset + 8)]

def ldpq (a b : Fin 32) (base : Reg) (offset : Nat) : List (Instr ι) :=
  [.ldr (.q a 0) base offset, .ldr (.q a 1) base (offset + 8),
    .ldr (.q b 0) base (offset + 16), .ldr (.q b 1) base (offset + 24)]

/-- A call of a routine that ends in `ret` and does not change the link register. -/
def bl (caller callee : ι) (routine : List (Instr ι)) : List (Instr ι) :=
  .adr (.x 30) (.behind caller callee) :: routine

/-- `[sp, #-size]!`: the stack pointer moves down before the transfer. -/
def preIndex (size : Nat) (transfer : List (Instr ι)) : List (Instr ι) :=
  .add .sp .sp (-BitVec.ofNat 64 size) :: transfer

/-- `[sp], #size`: the stack pointer moves up behind the transfer. -/
def postIndex (size : Nat) (transfer : List (Instr ι)) : List (Instr ι) :=
  transfer ++ [.add .sp .sp (BitVec.ofNat 64 size)]

end Instr

/-- A field of a word, moved down to bit 0. -/
def bitField (w : Word) (lsb width : Nat) : Word :=
  (w >>> lsb) &&& BitVec.ofNat 64 (2 ^ width - 1)

namespace Core

variable {ι : Type}

def setReg (c : Core) (r : Reg) (w : Word) : Core := { c with reg := Function.update c.reg r w }

def store (c : Core) (a w : Word) : Core := { c with mem := Function.update c.mem a w }

theorem setReg_reg (c : Core) (r r' : Reg) (w : Word) :
    (c.setReg r w).reg r' = if r' = r then w else c.reg r' :=
  Function.update_apply c.reg r w r'

theorem store_mem (c : Core) (a a' w : Word) :
    (c.store a w).mem a' = if a' = a then w else c.mem a' :=
  Function.update_apply c.mem a w a'

/-- The effect of an instruction, where labels lie at the given addresses. -/
def exec (addr : Symbol ι → Word) (c : Core) : Instr ι → Core
  | .str r base offset => c.store (c.reg base + BitVec.ofNat 64 offset) (c.reg r)
  | .ldr r base offset => c.setReg r (c.mem (c.reg base + BitVec.ofNat 64 offset))
  | .add d s imm => c.setReg d (c.reg s + imm)
  | .mov d s => c.setReg d (c.reg s)
  | .movImm d imm => c.setReg d imm
  | .andImm d s imm => c.setReg d (c.reg s &&& imm)
  | .ubfx d s lsb width => c.setReg d (bitField (c.reg s) lsb width)
  | .adr d symbol => c.setReg d (addr symbol)

def execAll (addr : Symbol ι → Word) (c : Core) (code : List (Instr ι)) : Core :=
  code.foldl (exec addr) c

theorem execAll_append (addr : Symbol ι → Word) (c : Core) (code more : List (Instr ι)) :
    c.execAll addr (code ++ more) = (c.execAll addr code).execAll addr more :=
  List.foldl_append

/-- The processor state behind an exception: EL1 with its own stack, all interrupts masked. -/
def exceptionState : Word := 0x3C5

/-- An exception, where `pc` is the address at which the computation goes on. -/
def takeException (c : Core) : Core :=
  { (c.setReg .elr c.pc).setReg .spsr c.pstate with pstate := exceptionState }

/-- An exception with a syndrome. -/
def takeSynchronous (c : Core) (syndrome : Word) : Core := c.takeException.setReg .esr syndrome

def eret (c : Core) : Core := { c with pc := c.reg .elr, pstate := c.reg .spsr }

@[simp] theorem eret_reg (c : Core) : c.eret.reg = c.reg := rfl

@[simp] theorem eret_mem (c : Core) : c.eret.mem = c.mem := rfl

@[simp] theorem eret_pc (c : Core) : c.eret.pc = c.reg .elr := rfl

@[simp] theorem eret_pstate (c : Core) : c.eret.pstate = c.reg .spsr := rfl

theorem takeSynchronous_reg (c : Core) (syndrome : Word) {r : Reg} (h : r ≠ .esr) :
    (c.takeSynchronous syndrome).reg r = c.takeException.reg r := by
  rw [takeSynchronous, setReg_reg, if_neg h]

theorem takeException_reg (c : Core) {r : Reg} (helr : r ≠ .elr) (hspsr : r ≠ .spsr) :
    c.takeException.reg r = c.reg r := by
  change ((c.setReg .elr c.pc).setReg .spsr c.pstate).reg r = c.reg r
  rw [setReg_reg, if_neg hspsr, setReg_reg, if_neg helr]

end Core

end RPiKernel.Aarch64
