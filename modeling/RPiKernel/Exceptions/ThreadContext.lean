import RPiKernel.Aarch64.Symbolic

/-!
# Saving and restoring a thread's registers

The routines of `Boot.S` that write the registers to the stack in the layout of
`ThreadContext`, and those that read them back. What each of them moves where is read off
its summary.
-/

namespace RPiKernel.Exceptions

open Aarch64 Aarch64.Instr

/-- The labels of `Boot.S` and the functions that it calls. -/
inductive Label where
  | synchronousExceptionVector
  | irqExceptionVector
  | preserveVolatileRegisters
  | restoreVolatileRegisters
  | preserveNonvolatileRegisters
  | restoreNonvolatileRegisters
  | dispatchToSyscall
  | threadContextSwitchSpark
  | restoreAllRegistersAndERet
  | restoreVolatilesAndERet
  | userModeSparkEnd
  deriving DecidableEq, Repr

abbrev Code := List (Instr Label)

def threadContextSp : Nat := 31 * 8
def threadContextPc : Nat := 32 * 8
def threadContextSpsr : Nat := 33 * 8
def threadContextV : Nat := 34 * 8
def threadContextVSize : Nat := 32 * 16
def threadContextSize : Nat := threadContextV + threadContextVSize

/-- Where `ThreadContext` keeps a register. -/
def slot : Reg → Option Nat
  | .x n => some (8 * n)
  | .q n half => some (threadContextV + 16 * n + 8 * half)
  | .sp => some threadContextSp
  | .elr => some threadContextPc
  | .spsr => some threadContextSpsr
  | .esr => none

/-- The first lines of the vectors: the parameter registers and the link register. -/
def preserveParameters : Code :=
  preIndex threadContextVSize (stpq 0 1 .sp 0) ++
  stpq 2 3 .sp (2 * 16) ++
  stpq 4 5 .sp (4 * 16) ++
  stpq 6 7 .sp (6 * 16) ++
  preIndex threadContextV (stp 0 1 .sp 0) ++
  stp 2 3 .sp (2 * 8) ++
  stp 4 5 .sp (4 * 8) ++
  stp 6 7 .sp (6 * 8) ++
  [.str (.x 30) .sp (30 * 8)]

def preserveVolatileRegisters : Code :=
  stp 8 9 .sp (8 * 8) ++
  stp 10 11 .sp (10 * 8) ++
  stp 12 13 .sp (12 * 8) ++
  stp 14 15 .sp (14 * 8) ++
  stp 16 17 .sp (16 * 8) ++
  [.add (.x 8) .sp (BitVec.ofNat 64 threadContextV)] ++
  stpq 8 9 (.x 8) (8 * 16) ++
  stpq 10 11 (.x 8) (10 * 16) ++
  stpq 12 13 (.x 8) (12 * 16) ++
  stpq 14 15 (.x 8) (14 * 16) ++
  stpq 16 17 (.x 8) (16 * 16) ++
  stpq 18 19 (.x 8) (18 * 16) ++
  stpq 20 21 (.x 8) (20 * 16) ++
  stpq 22 23 (.x 8) (22 * 16) ++
  stpq 24 25 (.x 8) (24 * 16) ++
  stpq 26 27 (.x 8) (26 * 16) ++
  stpq 28 29 (.x 8) (28 * 16) ++
  stpq 30 31 (.x 8) (30 * 16)

def restoreVolatileRegisters : Code :=
  [.add (.x 8) .sp (BitVec.ofNat 64 threadContextV)] ++
  ldpq 30 31 (.x 8) (30 * 16) ++
  ldpq 28 29 (.x 8) (28 * 16) ++
  ldpq 26 27 (.x 8) (26 * 16) ++
  ldpq 24 25 (.x 8) (24 * 16) ++
  ldpq 22 23 (.x 8) (22 * 16) ++
  ldpq 20 21 (.x 8) (20 * 16) ++
  ldpq 18 19 (.x 8) (18 * 16) ++
  ldpq 16 17 (.x 8) (16 * 16) ++
  ldpq 14 15 (.x 8) (14 * 16) ++
  ldpq 12 13 (.x 8) (12 * 16) ++
  ldpq 10 11 (.x 8) (10 * 16) ++
  ldpq 8 9 (.x 8) (8 * 16) ++
  ldp 16 17 .sp (16 * 8) ++
  ldp 14 15 .sp (14 * 8) ++
  ldp 12 13 .sp (12 * 8) ++
  ldp 10 11 .sp (10 * 8) ++
  ldp 8 9 .sp (8 * 8)

def preserveNonvolatileRegisters : Code :=
  stp 18 19 .sp (18 * 8) ++
  stp 20 21 .sp (20 * 8) ++
  stp 22 23 .sp (22 * 8) ++
  stp 24 25 .sp (24 * 8) ++
  stp 26 27 .sp (26 * 8) ++
  stp 28 29 .sp (28 * 8) ++
  [.add (.x 8) .sp (BitVec.ofNat 64 threadContextSize),
    .str (.x 8) .sp threadContextSp,
    .mov (.x 8) .elr,
    .str (.x 8) .sp threadContextPc,
    .mov (.x 8) .spsr,
    .str (.x 8) .sp threadContextSpsr]

def restoreNonvolatileRegisters : Code :=
  [.ldr (.x 0) .sp threadContextSpsr,
    .mov .spsr (.x 0),
    .ldr (.x 0) .sp threadContextPc,
    .mov .elr (.x 0)] ++
  ldp 28 29 .sp (28 * 8) ++
  ldp 26 27 .sp (26 * 8) ++
  ldp 24 25 .sp (24 * 8) ++
  ldp 22 23 .sp (22 * 8) ++
  ldp 20 21 .sp (20 * 8) ++
  ldp 18 19 .sp (18 * 8)

/-- `RestoreParametersAndERet`, up to the `eret`. -/
def restoreParameters : Code :=
  [.ldr (.x 30) .sp (30 * 8)] ++
  ldp 6 7 .sp (6 * 8) ++
  ldp 4 5 .sp (4 * 8) ++
  ldp 2 3 .sp (2 * 8) ++
  postIndex threadContextV (ldp 0 1 .sp 0) ++
  ldpq 6 7 .sp (6 * 16) ++
  ldpq 4 5 .sp (4 * 16) ++
  ldpq 2 3 .sp (2 * 16) ++
  postIndex threadContextVSize (ldpq 0 1 .sp 0)

/-- The label `1` of `IrqExceptionVector`, up to the call of `InterruptDispatcher`. -/
def irqDispatch : Code := [.mov (.x 0) .sp]

/-- `IrqExceptionVector`, up to the first call of `InterruptDispatcher`. -/
def irqEntry : Code :=
  preserveParameters ++
  [.movImm (.x 1) 0x11] ++
  bl .irqExceptionVector .preserveVolatileRegisters preserveVolatileRegisters ++
  bl .irqExceptionVector .preserveNonvolatileRegisters preserveNonvolatileRegisters ++
  irqDispatch

/-- `SynchronousExceptionVector`, up to the branch to `DispatchToSyscall`. -/
def detectSyscall : Code :=
  preIndex 16 (stp 0 1 .sp 0) ++
  [.mov (.x 0) .esr,
    .ubfx (.x 1) (.x 0) 26 6,
    .add (.x 1) (.x 1) (-0x15)]

/-- `SynchronousExceptionVector` behind that branch, up to the call of
`MainExceptionHandler`. -/
def synchronousEntry : Code :=
  postIndex 16 (ldp 0 1 .sp 0) ++
  preserveParameters ++
  bl .synchronousExceptionVector .preserveVolatileRegisters preserveVolatileRegisters ++
  bl .synchronousExceptionVector .preserveNonvolatileRegisters preserveNonvolatileRegisters ++
  [.mov (.x 0) .sp,
    .movImm (.x 1) 0x10]

/-- `DispatchToSyscall`, up to the branch for `svc #0`. -/
def detectSparkEnd : Code :=
  [.ubfx (.x 8) (.x 0) 0 16] ++
  postIndex 16 (ldp 0 1 .sp 0)

/-- `DispatchToSyscall` behind that branch, up to the call of `SyscallDispatcher`. -/
def syscallEntry : Code :=
  preserveParameters ++
  bl .dispatchToSyscall .preserveNonvolatileRegisters preserveNonvolatileRegisters ++
  [.mov (.x 0) .sp]

/-- The code between a `svc` other than `svc #0` and the call of `SyscallDispatcher`. -/
def syscallCode : Code := detectSyscall ++ detectSparkEnd ++ syscallEntry

def runUserModeSpark : Code :=
  [.andImm (.x 1) (.x 1) (~~~1),
    .mov .elr (.x 1),
    .adr (.x 30) (.label .userModeSparkEnd)]

/-- `ThreadContextSwitchSpark`, up to the store into the `ThreadInfo`. -/
def saveSwitched : Code :=
  bl .threadContextSwitchSpark .preserveNonvolatileRegisters preserveNonvolatileRegisters ++
  [.mov (.x 8) .sp]

/-- The rest of `ThreadContextSwitchSpark`, up to `RestoreAllRegistersAndERet`. -/
def switchStack : Code :=
  [.str (.x 8) (.x 18) 0,
    .mov .sp (.x 0)]

/-- `RestoreAllRegistersAndERet`, up to the `eret`. -/
def restoreAllRegisters : Code :=
  bl .restoreAllRegistersAndERet .restoreNonvolatileRegisters restoreNonvolatileRegisters ++
  bl .restoreVolatilesAndERet .restoreVolatileRegisters restoreVolatileRegisters ++
  restoreParameters

/-- The registers that a context holds. -/
def contextRegs : List Reg :=
  (List.finRange 31).map .x ++ (List.finRange 32).flatMap (fun n => (List.finRange 2).map (.q n)) ++
    [.sp, .elr, .spsr]

/-- The registers that `DispatchToSyscall` writes to the context. -/
def keptBySyscall : Reg → Bool
  | .x n => n < 8 || 18 ≤ n
  | .q n _ => n < 8
  | .sp | .elr | .spsr => true
  | .esr => false

/-- The registers that `PreserveNonvolatileRegisters` writes to the context. -/
def nonvolatile : Reg → Bool
  | .x n => 18 ≤ n && n < 30
  | .elr | .spsr => true
  | _ => false

/-- The bytes of a context. -/
def frame (base : Word) : Set Word := {a | (a - base).toNat < threadContextSize}

/-- The registers that a computation on a thread left behind, and where its
`ThreadContext` lies. -/
structure Context where
  base : Word
  reg : Reg → Word

/-- The memory has the registers of a context in its slots. -/
def Holds (m : Word → Word) (ctx : Context) : Prop :=
  ∀ r off, slot r = some off → m (ctx.base + BitVec.ofNat 64 off) = ctx.reg r

section Slots

variable {r r' : Reg} {off off' : Nat}

theorem slot_lt (h : slot r = some off) : off < threadContextSize := by
  cases r with
  | esr => cases h
  | _ =>
      obtain rfl := Option.some.inj h
      simp only [threadContextSize, threadContextV, threadContextVSize, threadContextSp,
        threadContextPc, threadContextSpsr]
      omega

theorem slot_lt_word (h : slot r = some off) : off < 2 ^ 64 :=
  (slot_lt h).trans (by decide)

/-- Only `x0` lies at the base of a context. -/
theorem slot_ne_zero (h : slot r = some off) (hr : r ≠ .x 0) : off ≠ 8 * 0 := by
  rintro rfl
  cases r with
  | x n =>
      obtain hn := Option.some.inj h
      exact hr (congrArg Reg.x (Fin.ext (by omega)))
  | esr => cases h
  | _ =>
      have hoff := Option.some.inj h
      simp only [threadContextV, threadContextSp, threadContextPc, threadContextSpsr] at hoff
      omega

theorem mem_contextRegs (h : slot r = some off) : r ∈ contextRegs := by
  cases r with
  | x n => simp [contextRegs]
  | esr => cases h
  | _ => simp [contextRegs]

/-- The slots of a context lie in its frame. -/
theorem slot_mem_frame (h : slot r = some off) (base : Word) :
    base + BitVec.ofNat 64 off ∈ frame base := by
  have hlt := slot_lt h
  have hsize : threadContextSize < 2 ^ 64 := by decide
  change (base + BitVec.ofNat 64 off - base).toNat < threadContextSize
  rw [add_sub_cancel_left, BitVec.toNat_ofNat, Nat.mod_eq_of_lt (by omega)]
  exact hlt

theorem Holds.congr {m m' : Word → Word} {ctx : Context} (h : Holds m ctx)
    (hm : ∀ a ∈ frame ctx.base, m' a = m a) : Holds m' ctx := by
  intro r off hslot
  rw [hm _ (slot_mem_frame hslot ctx.base)]
  exact h r off hslot

end Slots

section Summaries

/-- Every listed register goes to its slot of the context at a distance. -/
def SavesAt (s : Summary Label) (base : Word) (regs : List Reg) : Prop :=
  ∀ r ∈ regs, ∀ off ∈ slot r, s.word (base + BitVec.ofNat 64 off) = .reg r 0

/-- Every listed register keeps its value. -/
def Keeps (s : Summary Label) (regs : List Reg) : Prop := ∀ r ∈ regs, s.reg r = .reg r 0

instance (s : Summary Label) (base : Word) (regs : List Reg) : Decidable (SavesAt s base regs) :=
  inferInstanceAs (Decidable (∀ r ∈ regs, ∀ off ∈ slot r, _ = _))

instance (s : Summary Label) (regs : List Reg) : Decidable (Keeps s regs) :=
  inferInstanceAs (Decidable (∀ r ∈ regs, _ = _))

variable {addr : Symbol Label → Word} {s : Summary Label} {c c' : Core} {k : Word}
  {regs : List Reg} {r : Reg}

theorem Keeps.reg_eq (hs : Keeps s regs) (h : s.Describes addr c c') (hr : r ∈ regs) :
    c'.reg r = c.reg r := by
  rw [h.reg r, hs r hr]
  exact BitVec.add_zero (c.reg r)

theorem SavesAt.word_eq (hs : SavesAt s k regs) (h : s.Describes addr c c') (hr : r ∈ regs)
    {off : Nat} (hslot : slot r = some off) :
    c'.mem (c.reg .sp + k + BitVec.ofNat 64 off) = c.reg r := by
  rw [BitVec.add_assoc, h.word, hs r hr off hslot]
  exact BitVec.add_zero (c.reg r)

theorem SavesAt.holds (hs : SavesAt s k contextRegs) (h : s.Describes addr c c') :
    Holds c'.mem ⟨c.reg .sp + k, c.reg⟩ :=
  fun _ _ hslot => hs.word_eq h (mem_contextRegs hslot) hslot

/-- What the code between an exception and the call of its handler does: it pushes a
context, and leaves a pointer to it as the handler's argument. -/
structure EntryCode (code : Code) (saved : List Reg) : Prop where
  known : (summarize code).isSome
  saves : SavesAt (summaryOf code) (-784) saved
  keeps : Keeps (summaryOf code) (contextRegs.filter nonvolatile)
  sp : (summaryOf code).reg .sp = .reg .sp (-784)
  context : (summaryOf code).reg (.x 0) = .reg .sp (-784)
  within : (summaryOf code).StoresWithin (-784) threadContextSize

instance (code : Code) (saved : List Reg) : Decidable (EntryCode code saved) :=
  decidable_of_iff ((summarize code).isSome ∧ SavesAt (summaryOf code) (-784) saved ∧
      Keeps (summaryOf code) (contextRegs.filter nonvolatile) ∧
      (summaryOf code).reg .sp = .reg .sp (-784) ∧
      (summaryOf code).reg (.x 0) = .reg .sp (-784) ∧
      (summaryOf code).StoresWithin (-784) threadContextSize)
    ⟨fun ⟨h₁, h₂, h₃, h₄, h₅, h₆⟩ => ⟨h₁, h₂, h₃, h₄, h₅, h₆⟩,
      fun h => ⟨h.known, h.saves, h.keeps, h.sp, h.context, h.within⟩⟩

theorem irqEntry_code : EntryCode irqEntry contextRegs := by decide +kernel

theorem synchronousEntry_code : EntryCode (detectSyscall ++ synchronousEntry) contextRegs := by
  decide +kernel

theorem syscallEntry_code : EntryCode syscallCode (contextRegs.filter keptBySyscall) := by
  decide +kernel

/-- The push of `x0` and `x1` lands in the slot of `q31`; the other slots that
`DispatchToSyscall` does not write keep what lies below the stack pointer. -/
theorem syscallCode_leaves :
    (summaryOf syscallCode).word (-16) = .reg (.x 0) 0 ∧
      (summaryOf syscallCode).word (-8) = .reg (.x 1) 0 ∧
      Keeps (summaryOf syscallCode) [.esr] ∧
      ∀ r ∈ contextRegs, ¬ keptBySyscall r → r ≠ .q 31 0 → r ≠ .q 31 1 →
        ∀ off ∈ slot r, (summaryOf syscallCode).word (-784 + BitVec.ofNat 64 off) =
          .mem (-784 + BitVec.ofNat 64 off) := by
  decide +kernel

/-- What the vector knows when it branches on the exception class, and
`DispatchToSyscall` when it branches on the number of the `svc`. -/
theorem detect_code :
    (summarize detectSyscall).isSome ∧
      (summaryOf detectSyscall).reg (.x 1) = .plus (.field (.reg .esr 0) 26 6) (-0x15) ∧
      (summarize (detectSyscall ++ detectSparkEnd)).isSome ∧
      (summaryOf (detectSyscall ++ detectSparkEnd)).reg (.x 8) = .field (.reg .esr 0) 0 16 ∧
      Keeps (summaryOf (detectSyscall ++ detectSparkEnd)) [.sp, .x 18] ∧
      (summaryOf (detectSyscall ++ detectSparkEnd)).StoresWithin (-784) threadContextSize := by
  decide +kernel

/-- Every register but the stack pointer comes from its slot. -/
theorem restoreAllRegisters_code :
    (summarize restoreAllRegisters).isSome ∧
      (∀ r ∈ contextRegs, r ≠ .sp → ∀ off ∈ slot r,
        (summaryOf restoreAllRegisters).reg r = .mem (BitVec.ofNat 64 off)) ∧
      (summaryOf restoreAllRegisters).reg .sp = .reg .sp 784 ∧
      (summaryOf restoreAllRegisters).StoresWithin 0 0 := by
  decide +kernel

/-- `ThreadContextSwitchSpark` writes the nonvolatile registers and the stack pointer
again. -/
theorem saveSwitched_code :
    (summarize saveSwitched).isSome ∧
      SavesAt (summaryOf saveSwitched) 0 (contextRegs.filter nonvolatile) ∧
      (∀ r ∈ contextRegs, ¬ nonvolatile r → ∀ off ∈ slot r,
        (summaryOf saveSwitched).word (BitVec.ofNat 64 off) =
          if r = .sp then .reg .sp 784 else .mem (BitVec.ofNat 64 off)) ∧
      Keeps (summaryOf saveSwitched) [.sp, .x 0, .x 18] ∧
      (summaryOf saveSwitched).reg (.x 8) = .reg .sp 0 ∧
      (summaryOf saveSwitched).StoresWithin 0 threadContextSize := by
  decide +kernel

end Summaries

section Effects

variable {addr : Symbol Label → Word} {code : Code} {saved : List Reg} {ctx : Context}

theorem kept_of_nonvolatile {r : Reg} (h : nonvolatile r) : keptBySyscall r := by
  cases r with
  | x n =>
      simp only [nonvolatile, Bool.and_eq_true, decide_eq_true_eq] at h
      simp only [keptBySyscall, Bool.or_eq_true, decide_eq_true_eq]
      exact Or.inr h.1
  | elr => rfl
  | spsr => rfl
  | _ => cases h

theorem nonvolatile_mem {r : Reg} (h : nonvolatile r) : r ∈ contextRegs := by
  cases r with
  | esr => cases h
  | _ => exact mem_contextRegs rfl

namespace EntryCode

variable (h : EntryCode code saved) (c : Core)

include h

theorem sp_eq : (c.execAll addr code).reg .sp = c.reg .sp - 784 := by
  rw [(describes_summaryOf h.known c).reg, h.sp, sub_eq_add_neg]
  rfl

theorem context_eq : (c.execAll addr code).reg (.x 0) = c.reg .sp - 784 := by
  rw [(describes_summaryOf h.known c).reg, h.context, sub_eq_add_neg]
  rfl

theorem nonvolatile_eq {r : Reg} (hr : nonvolatile r) : (c.execAll addr code).reg r = c.reg r :=
  h.keeps.reg_eq (describes_summaryOf h.known c)
    (List.mem_filter.mpr ⟨nonvolatile_mem hr, hr⟩)

theorem outside {a : Word} (ha : a ∉ frame (c.reg .sp - 784)) :
    (c.execAll addr code).mem a = c.mem a := by
  apply (describes_summaryOf h.known c).outside h.within
  rw [← sub_eq_add_neg]
  exact not_lt.mp ha

theorem saved_eq {r : Reg} (hr : r ∈ saved) {off : Nat} (hslot : slot r = some off) :
    (c.execAll addr code).mem (c.reg .sp - 784 + BitVec.ofNat 64 off) = c.reg r := by
  rw [sub_eq_add_neg]
  exact h.saves.word_eq (describes_summaryOf h.known c) hr hslot

end EntryCode

/-- `RestoreAllRegistersAndERet` loads the registers from the context at the stack pointer. -/
theorem restoreAllRegisters_reg (c : Core) {r : Reg} {off : Nat} (hslot : slot r = some off)
    (hr : r ≠ .sp) : (c.execAll addr restoreAllRegisters).reg r =
      c.mem (c.reg .sp + BitVec.ofNat 64 off) := by
  obtain ⟨hknown, hloads, -, -⟩ := restoreAllRegisters_code
  rw [(describes_summaryOf hknown c).reg, hloads r (mem_contextRegs hslot) hr off hslot]
  rfl

theorem restoreAllRegisters_sp (c : Core) :
    (c.execAll addr restoreAllRegisters).reg .sp = c.reg .sp + 784 := by
  obtain ⟨hknown, -, hsp, -⟩ := restoreAllRegisters_code
  rw [(describes_summaryOf hknown c).reg, hsp]
  rfl

theorem restoreAllRegisters_mem (c : Core) : (c.execAll addr restoreAllRegisters).mem = c.mem := by
  obtain ⟨hknown, -, -, hwithin⟩ := restoreAllRegisters_code
  funext a
  exact (describes_summaryOf hknown c).outside hwithin (Nat.zero_le _)

theorem saveSwitched_reg (c : Core) {r : Reg} (hr : r ∈ [Reg.sp, .x 0, .x 18]) :
    (c.execAll addr saveSwitched).reg r = c.reg r := by
  obtain ⟨hknown, -, -, hkeeps, -⟩ := saveSwitched_code
  exact hkeeps.reg_eq (describes_summaryOf hknown c) hr

theorem saveSwitched_pointer (c : Core) :
    (c.execAll addr saveSwitched).reg (.x 8) = c.reg .sp := by
  obtain ⟨hknown, -, -, -, hpointer, -⟩ := saveSwitched_code
  rw [(describes_summaryOf hknown c).reg, hpointer]
  exact BitVec.add_zero (c.reg .sp)

theorem saveSwitched_outside (c : Core) {a : Word} (ha : a ∉ frame (c.reg .sp)) :
    (c.execAll addr saveSwitched).mem a = c.mem a := by
  obtain ⟨hknown, -, -, -, -, hwithin⟩ := saveSwitched_code
  apply (describes_summaryOf hknown c).outside hwithin
  rw [add_zero]
  exact not_lt.mp ha

/-- A context that has the nonvolatile registers stays when they are written again. -/
theorem saveSwitched_holds {c : Core} (h : Holds c.mem ctx) (hbase : c.reg .sp = ctx.base)
    (hsp : ctx.reg .sp = ctx.base + 784) (hregs : ∀ r, nonvolatile r → c.reg r = ctx.reg r) :
    Holds (c.execAll addr saveSwitched).mem ctx := by
  obtain ⟨hknown, hsaves, hleaves, -⟩ := saveSwitched_code
  intro r off hslot
  have hdescribes : (summaryOf saveSwitched).Describes addr c (c.execAll addr saveSwitched) :=
    describes_summaryOf hknown c
  by_cases hr : nonvolatile r
  · have hmem := hsaves.word_eq hdescribes
      (List.mem_filter.mpr ⟨nonvolatile_mem hr, hr⟩) hslot
    rw [add_zero, hbase] at hmem
    rw [hmem, hregs r hr]
  · rw [← hbase, hdescribes.word, hleaves r (mem_contextRegs hslot) hr off hslot]
    split
    · next heq =>
        rw [heq, hsp, ← hbase]
        rfl
    · rw [Value.eval, hbase]
      exact h r off hslot

end Effects

end RPiKernel.Exceptions
