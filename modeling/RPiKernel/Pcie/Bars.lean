import RPiKernel.Machine.AddressMasks
import RPiKernel.Pcie.BarPlacement

/-!
# Enumeration of the base address registers

`get_bar` finds the size of a range by writing ones to its register and reading them back, and
restores the register. It takes a register that reads zero for one that is not there, which a
32-bit memory register without an address does too.

## Implementation notes

A device is given by the slots that share its six registers. It takes the address bits of a write
and keeps the others; a register outside of the six takes every bit.
-/

namespace RPiKernel.Pcie

open Machine

/-- The kinds of a base address register, with the exponents that their sizes may have. -/
inductive BarKind where
  | io
  | memory32 (prefetchable : Bool)
  | memory64 (prefetchable : Bool)
  deriving DecidableEq

namespace BarKind

def isMemorySpace : BarKind → Bool
  | io => false
  | _ => true

def is64Bit : BarKind → Bool
  | memory64 _ => true
  | _ => false

def isPrefetchable : BarKind → Bool
  | io => false
  | memory32 prefetchable => prefetchable
  | memory64 prefetchable => prefetchable

/-- The bits below the address, which give the kind. -/
def typeBits : BarKind → BitVec 32
  | io => 1
  | memory32 prefetchable => if prefetchable then 8 else 0
  | memory64 prefetchable => if prefetchable then 12 else 4

/-- The type bits take the place of the lowest address bits. -/
def leastSizeBits : BarKind → Nat
  | io => 2
  | _ => 4

def sizeLimit : BarKind → Nat
  | memory64 _ => 64
  | _ => 32

end BarKind

/-- A base address register that a device has, for a range of a power of two. -/
structure Bar where
  kind : BarKind
  sizeBits : Nat
  least_le : kind.leastSizeBits ≤ sizeBits
  lt_limit : sizeBits < kind.sizeLimit

/-- What stands at a register number. -/
inductive Slot where
  | unimplemented
  | implemented (bar : Bar)

/-- The registers of a range: the upper half of a 64-bit address has one of its own. -/
def Bar.registers (bar : Bar) : List (MaskedRegister 32) :=
  let low : MaskedRegister 32 := ⟨onesFrom 32 bar.sizeBits, bar.kind.typeBits⟩
  if bar.kind.is64Bit then [low, ⟨onesFrom 32 (bar.sizeBits - 32), 0⟩] else [low]

/-- A register that is not implemented reads zero. -/
def Slot.registers : Slot → List (MaskedRegister 32)
  | unimplemented => [⟨0, 0⟩]
  | implemented bar => bar.registers

def barCount : Nat := 6

/-- A device, by what stands at its six registers. -/
structure BarDevice where
  slots : List Slot
  length_eq : (slots.flatMap Slot.registers).length = barCount

/-- How a register of a device takes a write. -/
def BarDevice.register (device : BarDevice) (offset : Nat) : MaskedRegister 32 :=
  if bar0Offset ≤ offset ∧ offset % 4 = 0 then
    ((device.slots.flatMap Slot.registers)[(offset - bar0Offset) / 4]?).getD
      ⟨BitVec.allOnes 32, 0⟩
  else
    ⟨BitVec.allOnes 32, 0⟩

/-- `write_register` of 32 bits to a device. -/
def BarDevice.write (device : BarDevice) (registers : Registers) (offset : Nat)
    (value : BitVec 32) : Registers :=
  writeRegister registers offset ((device.register offset).take value)

/-- `read_register` of 32 bits. -/
def readWord (registers : Registers) (offset : Nat) : BitVec 32 :=
  if offset + 4 > configSpaceSize then 0xFFFFFFFF
  else if offset = 0 ∧ registers offset = 0 then 0xFFFF
  else registers offset

/-- What `get_bar` reports, with all of its fields. -/
structure BarReport extends BarInfo where
  isPrefetchable : Bool
  deriving DecidableEq

/-- The report on a register that is not there. -/
def noBar : BarReport where
  barNumber := 0
  physicalAddress := 0
  size := 0
  flags := 0
  isMemorySpace := false
  is64Bit := false
  isPrefetchable := false

/-- What a register holds after ones have been written to it, and the registers after its value
has been written back. -/
def BarDevice.probe (device : BarDevice) (registers : Registers) (offset : Nat)
    (value : BitVec 32) : BitVec 32 × Registers :=
  let registers := device.write registers offset 0xFFFFFFFF
  let mask := readWord registers offset
  (mask, device.write registers offset value)

/-- `get_bar`, with the registers that it leaves. -/
def getBar (device : BarDevice) (registers : Registers) (barNumber : Nat) :
    BarReport × Registers :=
  if barNumber ≥ barCount then
    (noBar, registers)
  else
    let barOffset := bar0Offset + barNumber * 4
    let barLow := readWord registers barOffset
    if barLow = 0 ∨ barLow = 0xFFFFFFFF then
      (noBar, registers)
    else
      let (barMask, registers) := device.probe registers barOffset barLow
      if barLow &&& 1 = 0 then
        let info : BarReport :=
          { barNumber
            physicalAddress := (barLow &&& 0xFFFFFFF0).toNat
            size := (~~~(barMask &&& ~~~0xF#32) + 1).toNat
            flags := barLow &&& 0xF
            isMemorySpace := true
            is64Bit := (barLow >>> 1) &&& 3 = 2
            isPrefetchable := barLow &&& 8 ≠ 0 }
        if info.is64Bit then
          let barHighOffset := barOffset + 4
          let barHigh := readWord registers barHighOffset
          let (barHighMask, registers) := device.probe registers barHighOffset barHigh
          let halves := barHighMask.setWidth 64 <<< 32 + (barMask &&& ~~~0xF#32).setWidth 64
          ({ info with
              physicalAddress := info.physicalAddress ||| (barHigh.setWidth 64 <<< 32).toNat
              size := (~~~halves + 1).toNat }, registers)
        else
          (info, registers)
      else
        ({ barNumber
           physicalAddress := (barLow &&& 0xFFFFFFFC).toNat
           size := (~~~(barMask &&& ~~~0x3#32) + 1).toNat
           flags := barLow &&& 0xF
           isMemorySpace := false
           is64Bit := false
           isPrefetchable := false }, registers)

/-- The loop of `enumerate_bars`, for a span of a number of reports. -/
def enumerateLoop (device : BarDevice) (capacity : Nat) :
    Nat → Nat → List BarReport → Registers → Option (List BarReport × Registers)
  | 0, _, _, _ => none
  | fuel + 1, barNum, bars, registers =>
      if barNum < barCount ∧ bars.length < capacity then
        let (bar, registers) := getBar device registers barNum
        let barNum := if bar.is64Bit then barNum + 1 else barNum
        let bars := if bar.size > 0 then bars ++ [bar] else bars
        enumerateLoop device capacity fuel (barNum + 1) bars registers
      else
        some (bars, registers)

/-- `enumerate_bars`: the loop has six rounds at most. -/
def enumerateBars (device : BarDevice) (capacity : Nat) (registers : Registers) :
    Option (List BarReport × Registers) :=
  enumerateLoop device capacity 7 0 [] registers

/-- The ranges of a device with their register numbers, from a number on. -/
def numbered : Nat → List Slot → List (Nat × Bar)
  | _, [] => []
  | number, .unimplemented :: slots => numbered (number + 1) slots
  | number, .implemented bar :: slots =>
      (number, bar) :: numbered (number + bar.registers.length) slots

def BarDevice.bars (device : BarDevice) : List (Nat × Bar) := numbered 0 device.slots

/-- The number, the kind and the size that a report gives. -/
def BarReport.facts (report : BarReport) : Nat × Bool × Bool × Bool × Nat :=
  (report.barNumber, report.isMemorySpace, report.is64Bit, report.isPrefetchable, report.size)

/-- The number, the kind and the size of a range. -/
def barFacts (number : Nat) (bar : Bar) : Nat × Bool × Bool × Bool × Nat :=
  (number, bar.kind.isMemorySpace, bar.kind.is64Bit, bar.kind.isPrefetchable, 2 ^ bar.sizeBits)

/-- Every register holds what it can hold, with any address. -/
def Consistent (device : BarDevice) (registers : Registers) : Prop :=
  ∀ offset, ∃ value, registers offset = (device.register offset).take value

/-- Every range is reported once and in order, and the registers are as they were. -/
def ReportsEvery (device : BarDevice) (capacity : Nat) (registers : Registers) : Prop :=
  ∃ reports, enumerateBars device capacity registers = some (reports, registers) ∧
    reports.map BarReport.facts = device.bars.map fun numbered => barFacts numbered.1 numbered.2

/-- A range has its registers from a number on. -/
def IsAt (device : BarDevice) (number : Nat) (bar : Bar) : Prop :=
  ∀ j register, bar.registers[j]? = some register →
    device.register (bar0Offset + (number + j) * 4) = register

section Access

variable {device : BarDevice} {registers : Registers} {offset number : Nat} {value : BitVec 32}

theorem readWord_eq (hlow : bar0Offset ≤ offset) (hhigh : offset + 4 ≤ configSpaceSize) :
    readWord registers offset = registers offset := by
  have hne : offset ≠ 0 := fun h => by rw [h] at hlow; exact absurd hlow (by decide)
  rw [readWord, if_neg (Nat.not_lt.mpr hhigh), if_neg fun h => hne h.1]

theorem write_eq (hlow : bar0Offset ≤ offset) (hhigh : offset + 4 ≤ configSpaceSize) :
    device.write registers offset value =
      Function.update registers offset ((device.register offset).take value) := by
  have hwritable : isReadOnly offset = false := by
    rw [bar0Offset] at hlow
    simp only [isReadOnly, Bool.or_eq_false_iff, beq_eq_false_iff_ne]
    omega
  rw [BarDevice.write, writeRegister, if_neg (Nat.not_lt.mpr hhigh), hwritable,
    if_neg Bool.false_ne_true]

/-- The probe of a register finds what it can hold at most, and leaves it as it was. -/
theorem probe_eq (hregisters : Consistent device registers) (hlow : bar0Offset ≤ offset)
    (hhigh : offset + 4 ≤ configSpaceSize) :
    device.probe registers offset (registers offset) =
      ((device.register offset).writable ||| (device.register offset).fixed, registers) := by
  obtain ⟨value, hvalue⟩ := hregisters offset
  have hback : (device.register offset).take (registers offset) = registers offset := by
    rw [hvalue, take_take]
  rw [BarDevice.probe, write_eq hlow hhigh, write_eq hlow hhigh, readWord_eq hlow hhigh,
    Function.update_self, Function.update_idem, hback, Function.update_eq_self]
  rw [← take_allOnes]
  rfl

theorem barOffset_bounds (hnumber : number ≤ barCount) :
    bar0Offset ≤ bar0Offset + number * 4 ∧ bar0Offset + number * 4 + 4 ≤ configSpaceSize := by
  rw [bar0Offset, configSpaceSize]
  rw [barCount] at hnumber
  omega

/-- `get_bar` restores what it has written to. -/
theorem getBar_registers (hregisters : Consistent device registers) :
    (getBar device registers number).2 = registers := by
  rw [getBar]
  split
  · rfl
  · next hnumber =>
    obtain ⟨hlow, hhigh⟩ := barOffset_bounds (Nat.le_of_lt (Nat.lt_of_not_le hnumber))
    have hnext : bar0Offset + number * 4 + 4 = bar0Offset + (number + 1) * 4 := by
      rw [Nat.succ_mul, Nat.add_assoc]
    obtain ⟨hlow', hhigh'⟩ := barOffset_bounds (Nat.succ_le_of_lt (Nat.lt_of_not_le hnumber))
    simp only [readWord_eq hlow hhigh, probe_eq hregisters hlow hhigh, hnext,
      readWord_eq hlow' hhigh', probe_eq hregisters hlow' hhigh']
    split
    · rfl
    · split
      · split <;> rfl
      · rfl

end Access

section Range

variable {device : BarDevice} {registers : Registers} {number : Nat} {bar : Bar}

/-- The type bits lie below the address bits. -/
theorem typeBits_and (kind : BarKind) :
    kind.typeBits &&& onesFrom 32 kind.leastSizeBits = 0 := by
  cases kind with
  | io => decide
  | memory32 prefetchable => cases prefetchable <;> decide
  | memory64 prefetchable => cases prefetchable <;> decide

theorem IsAt.low (h : IsAt device number bar) :
    device.register (bar0Offset + number * 4) =
      ⟨onesFrom 32 bar.sizeBits, bar.kind.typeBits⟩ := by
  refine h 0 _ ?_
  rw [Bar.registers]
  split <;> rfl

theorem IsAt.high (h : IsAt device number bar) (hwide : bar.kind.is64Bit = true) :
    device.register (bar0Offset + (number + 1) * 4) = ⟨onesFrom 32 (bar.sizeBits - 32), 0⟩ := by
  refine h 1 _ ?_
  rw [Bar.registers, if_pos hwide]
  rfl

/-- Below the address bits a register holds its type bits. -/
theorem low_and (hregisters : Consistent device registers) (h : IsAt device number bar)
    (mask : BitVec 32) (hmask : onesFrom 32 bar.kind.leastSizeBits &&& mask = 0) :
    registers (bar0Offset + number * 4) &&& mask = bar.kind.typeBits &&& mask := by
  obtain ⟨value, hvalue⟩ := hregisters (bar0Offset + number * 4)
  rw [hvalue, h.low]
  refine take_and ?_
  rw [← onesFrom_and bar.least_le, BitVec.and_assoc, hmask]
  exact BitVec.and_zero

/-- The mask that is read back, without the type bits. -/
theorem low_mask (h : IsAt device number bar) :
    ((device.register (bar0Offset + number * 4)).writable |||
        (device.register (bar0Offset + number * 4)).fixed) &&&
          onesFrom 32 bar.kind.leastSizeBits = onesFrom 32 bar.sizeBits := by
  rw [h.low]
  exact onesFrom_or_and bar.least_le (typeBits_and bar.kind)

/-- No range reads as all ones. -/
theorem low_ne_ones (hregisters : Consistent device registers) (h : IsAt device number bar) :
    registers (bar0Offset + number * 4) ≠ 0xFFFFFFFF := by
  intro hones
  have hlow := low_and hregisters h (~~~onesFrom 32 bar.kind.leastSizeBits) (by simp)
  rw [hones] at hlow
  revert hlow
  cases bar.kind with
  | io => decide
  | memory32 prefetchable => cases prefetchable <;> decide
  | memory64 prefetchable => cases prefetchable <;> decide

/-- The kind of a range that does not lie in memory. -/
theorem eq_io {kind : BarKind} (h : kind.isMemorySpace = false) : kind = .io := by
  cases kind with
  | io => rfl
  | memory32 => cases h
  | memory64 => cases h

theorem least_of_memory {kind : BarKind} (h : kind.isMemorySpace = true) :
    kind.leastSizeBits = 4 := by
  cases kind with
  | io => cases h
  | memory32 => rfl
  | memory64 => rfl

/-- The tests of the type bits of a memory range. -/
theorem typeBits_of_memory {kind : BarKind} (h : kind.isMemorySpace = true) :
    kind.typeBits &&& 1 = 0 ∧ decide ((kind.typeBits &&& 6) >>> 1 = 2) = kind.is64Bit ∧
      decide (kind.typeBits &&& 8 ≠ 0) = kind.isPrefetchable := by
  cases kind with
  | io => cases h
  | memory32 prefetchable => cases prefetchable <;> decide
  | memory64 prefetchable => cases prefetchable <;> decide

theorem sizeLimit_eq (kind : BarKind) : kind.sizeLimit = if kind.is64Bit then 64 else 32 := by
  cases kind with
  | io => rfl
  | memory32 => rfl
  | memory64 => rfl

/-- The tests of a register for the kind of its range. -/
theorem low_tests (hregisters : Consistent device registers) (h : IsAt device number bar)
    (hmemory : bar.kind.isMemorySpace = true) :
    registers (bar0Offset + number * 4) &&& 1 = 0 ∧
      decide (registers (bar0Offset + number * 4) >>> (1 : Nat) &&& (3 : BitVec 32) = 2) =
        bar.kind.is64Bit ∧
      decide (registers (bar0Offset + number * 4) &&& 8 ≠ 0) = bar.kind.isPrefetchable := by
  have hbits := low_and hregisters h
  rw [least_of_memory hmemory] at hbits
  have hshift : ∀ x : BitVec 32, x >>> (1 : Nat) &&& (3 : BitVec 32) = (x &&& 6) >>> 1 := by
    intro x
    rw [BitVec.ushiftRight_and_distrib]
    rfl
  rw [hshift, hbits 1 (by decide), hbits 6 (by decide), hbits 8 (by decide)]
  exact typeBits_of_memory hmemory

/-- A range whose register does not read zero is reported with its number, its kind and its
size. -/
theorem getBar_facts (hregisters : Consistent device registers) (h : IsAt device number bar)
    (hnumber : number < barCount) (hlow : registers (bar0Offset + number * 4) ≠ 0) :
    (getBar device registers number).1.facts = barFacts number bar := by
  obtain ⟨hfirst, hend⟩ := barOffset_bounds (Nat.le_of_lt hnumber)
  obtain ⟨hfirst', hend'⟩ := barOffset_bounds (Nat.succ_le_of_lt hnumber)
  have hnext : bar0Offset + number * 4 + 4 = bar0Offset + (number + 1) * 4 := by
    rw [Nat.succ_mul, Nat.add_assoc]
  have hmask := low_mask h
  rw [getBar, if_neg (Nat.not_le.mpr hnumber)]
  simp only [readWord_eq hfirst hend, probe_eq hregisters hfirst hend, hnext,
    readWord_eq hfirst' hend', probe_eq hregisters hfirst' hend',
    if_neg (not_or.mpr ⟨hlow, low_ne_ones hregisters h⟩)]
  cases hmemory : bar.kind.isMemorySpace with
  | false =>
    have hkind := eq_io hmemory
    have hlimit : bar.sizeBits < BarKind.io.sizeLimit := hkind ▸ bar.lt_limit
    have hsize : bar.sizeBits < 32 := hlimit
    have hodd := low_and hregisters h 1 (by rw [hkind]; decide)
    have hcut : ~~~0x3#32 = onesFrom 32 bar.kind.leastSizeBits := by rw [hkind]; decide
    rw [hodd, hkind, if_neg (by decide), hcut, hmask]
    simp only [BarReport.facts, barFacts, hkind, size_of_onesFrom hsize]
    rfl
  | true =>
    obtain ⟨heven, hwide, hprefetchable⟩ := low_tests hregisters h hmemory
    have hcut : ~~~0xF#32 = onesFrom 32 bar.kind.leastSizeBits := by
      rw [least_of_memory hmemory]
      decide
    have hlimit := bar.lt_limit
    rw [sizeLimit_eq] at hlimit
    rw [if_pos heven, hwide, hprefetchable, hcut, hmask]
    cases hkind : bar.kind.is64Bit with
    | false =>
      have hsize : bar.sizeBits < 32 := by rwa [hkind] at hlimit
      simp only [BarReport.facts, barFacts, hkind, hmemory, size_of_onesFrom hsize]
      rfl
    | true =>
      have hsize : bar.sizeBits < 64 := by rwa [hkind] at hlimit
      have hhalves : (onesFrom 32 (bar.sizeBits - 32) ||| 0).setWidth 64 <<< 32 +
          (onesFrom 32 bar.sizeBits).setWidth 64 = onesFrom 64 bar.sizeBits := by
        rw [show onesFrom 32 (bar.sizeBits - 32) ||| 0 = onesFrom 32 (bar.sizeBits - 32) from
          BitVec.or_zero]
        exact onesFrom_halves
      simp only [h.high hkind, hhalves, BarReport.facts, barFacts, hkind, hmemory,
        size_of_onesFrom hsize]
      rfl

/-- The type bits are zero only for a 32-bit memory register that is not prefetchable, so that no
other one reads zero. -/
theorem low_ne_zero (hregisters : Consistent device registers) (h : IsAt device number bar)
    (hkind : bar.kind ≠ .memory32 false) : registers (bar0Offset + number * 4) ≠ 0 := by
  intro hzero
  have htype := low_and hregisters h (~~~onesFrom 32 bar.kind.leastSizeBits) (by simp)
  rw [hzero] at htype
  revert htype hkind
  cases bar.kind with
  | io => decide
  | memory32 prefetchable => cases prefetchable <;> decide
  | memory64 prefetchable => cases prefetchable <;> decide

theorem getBar_wide_size (hregisters : Consistent device registers) (h : IsAt device number bar)
    (hnumber : number < barCount) (hlow : registers (bar0Offset + number * 4) ≠ 0) :
    (getBar device registers number).1.is64Bit = bar.kind.is64Bit ∧
      (getBar device registers number).1.size = 2 ^ bar.sizeBits := by
  have hfacts := getBar_facts hregisters h hnumber hlow
  simp only [BarReport.facts, barFacts, Prod.mk.injEq] at hfacts
  exact ⟨hfacts.2.2.1, hfacts.2.2.2.2⟩

end Range

/-- The slots stand at the registers from a number on. -/
def Laid (device : BarDevice) : Nat → List Slot → Prop
  | number, [] => number = barCount
  | number, .unimplemented :: slots =>
      number < barCount ∧ device.register (bar0Offset + number * 4) = ⟨0, 0⟩ ∧
        Laid device (number + 1) slots
  | number, .implemented bar :: slots =>
      number < barCount ∧ IsAt device number bar ∧
        Laid device (number + bar.registers.length) slots

/-- The register of a range does not read zero. -/
def reads (registers : Registers) (numbered : Nat × Bar) : Bool :=
  registers (bar0Offset + numbered.1 * 4) ≠ 0

section Device

variable {device : BarDevice} {registers : Registers} {number capacity fuel : Nat}
  {slots : List Slot} {bars : List BarReport}

theorem register_eq (i : Nat) :
    device.register (bar0Offset + i * 4) =
      ((device.slots.flatMap Slot.registers)[i]?).getD ⟨BitVec.allOnes 32, 0⟩ := by
  rw [BarDevice.register, if_pos ⟨Nat.le_add_right _ _, by rw [bar0Offset]; omega⟩,
    Nat.add_sub_cancel_left, Nat.mul_div_cancel i (by decide)]

theorem registers_length (bar : Bar) :
    bar.registers.length = if bar.kind.is64Bit then 2 else 1 := by
  rw [Bar.registers]
  split <;> rfl

theorem laid_of_drop
    (hdrop : (device.slots.flatMap Slot.registers).drop number = slots.flatMap Slot.registers)
    (hnumber : number ≤ barCount) : Laid device number slots := by
  induction slots generalizing number with
  | nil =>
    have hlength := congrArg List.length hdrop
    rw [List.length_drop, device.length_eq, List.flatMap_nil, List.length_nil] at hlength
    exact Nat.le_antisymm hnumber (Nat.le_of_sub_eq_zero hlength)
  | cons slot slots ih =>
    have hat : ∀ j, device.register (bar0Offset + (number + j) * 4) =
        ((slot.registers ++ slots.flatMap Slot.registers)[j]?).getD ⟨BitVec.allOnes 32, 0⟩ := by
      intro j
      rw [register_eq, ← List.flatMap_cons, ← hdrop, List.getElem?_drop]
    have hlength := congrArg List.length hdrop
    rw [List.length_drop, device.length_eq, List.flatMap_cons, List.length_append] at hlength
    have hrest : (device.slots.flatMap Slot.registers).drop (number + slot.registers.length) =
        slots.flatMap Slot.registers := by
      rw [← List.drop_drop, hdrop, List.flatMap_cons, List.drop_left]
    cases slot with
    | unimplemented =>
      have hone : Slot.unimplemented.registers.length = 1 := rfl
      exact ⟨by omega, hat 0, ih hrest (by omega)⟩
    | implemented bar =>
      have hbar : (Slot.implemented bar).registers.length = bar.registers.length := rfl
      have hpos : 0 < bar.registers.length := by
        rw [registers_length]
        split <;> decide
      refine ⟨by omega, fun j register hj => ?_, ih hrest (by omega)⟩
      have hslot : (Slot.implemented bar).registers[j]? = some register := hj
      obtain ⟨hlt, -⟩ := List.getElem?_eq_some_iff.mp hslot
      rw [hat j, List.getElem?_append_left hlt, hslot]
      rfl

theorem laid (device : BarDevice) : Laid device 0 device.slots :=
  laid_of_drop rfl (Nat.zero_le _)

/-- Where the ranges of a device stand. -/
theorem Laid.isAt (h : Laid device number slots) {p : Nat × Bar}
    (hp : p ∈ numbered number slots) : p.1 < barCount ∧ IsAt device p.1 p.2 := by
  induction slots generalizing number with
  | nil => cases hp
  | cons slot slots ih =>
    cases slot with
    | unimplemented => exact ih h.2.2 hp
    | implemented bar =>
      obtain rfl | hp := List.mem_cons.mp hp
      · exact ⟨h.1, h.2.1⟩
      · exact ih h.2.2 hp

/-- A register that reads zero is taken for one that is not there. -/
theorem getBar_of_zero (hnumber : number < barCount)
    (hzero : registers (bar0Offset + number * 4) = 0) :
    getBar device registers number = (noBar, registers) := by
  obtain ⟨hfirst, hend⟩ := barOffset_bounds (Nat.le_of_lt hnumber)
  rw [getBar, if_neg (Nat.not_le.mpr hnumber)]
  simp only [readWord_eq hfirst hend]
  rw [if_pos (Or.inl hzero)]

/-- A round at a register that is taken for one that is not there. -/
theorem enumerateLoop_of_zero (hnumber : number < barCount) (hcapacity : bars.length < capacity)
    (hzero : registers (bar0Offset + number * 4) = 0) :
    enumerateLoop device capacity (fuel + 1) number bars registers =
      enumerateLoop device capacity fuel (number + 1) bars registers := by
  rw [enumerateLoop, if_pos ⟨hnumber, hcapacity⟩, getBar_of_zero hnumber hzero]
  rfl

/-- A round at a range, which goes on behind its registers. -/
theorem enumerateLoop_of_bar (hregisters : Consistent device registers) {bar : Bar}
    (h : IsAt device number bar) (hnumber : number < barCount) (hcapacity : bars.length < capacity)
    (hlow : registers (bar0Offset + number * 4) ≠ 0) :
    enumerateLoop device capacity (fuel + 1) number bars registers =
      enumerateLoop device capacity fuel (number + bar.registers.length)
        (bars ++ [(getBar device registers number).1]) registers := by
  obtain ⟨hwide, hsize⟩ := getBar_wide_size hregisters h hnumber hlow
  have hpair : getBar device registers number = ((getBar device registers number).1, registers) :=
    Prod.ext rfl (getBar_registers hregisters)
  have hnext : (if bar.kind.is64Bit then number + 1 else number) + 1 =
      number + bar.registers.length := by
    rw [registers_length]
    split <;> rfl
  rw [enumerateLoop, if_pos ⟨hnumber, hcapacity⟩, hpair]
  simp only [hwide, hsize, hnext, gt_iff_lt, Nat.two_pow_pos, if_true]

/-- The loop reports the ranges whose registers do not read zero. -/
theorem enumerateLoop_eq (hregisters : Consistent device registers)
    (hlaid : Laid device number slots)
    (hcapacity : bars.length + (numbered number slots).length ≤ capacity)
    (hfuel : slots.length < fuel) :
    enumerateLoop device capacity fuel number bars registers =
      some (bars ++ ((numbered number slots).filter (reads registers)).map
        fun p => (getBar device registers p.1).1, registers) := by
  induction slots generalizing number bars fuel with
  | nil =>
    obtain ⟨fuel, rfl⟩ := Nat.exists_eq_succ_of_ne_zero (Nat.ne_of_gt hfuel)
    have hend : number = barCount := hlaid
    rw [enumerateLoop, if_neg fun h => absurd h.1 (by omega), numbered, List.filter_nil,
      List.map_nil, List.append_nil]
  | cons slot slots ih =>
    obtain ⟨fuel, rfl⟩ := Nat.exists_eq_succ_of_ne_zero (Nat.ne_of_gt (Nat.zero_lt_of_lt hfuel))
    have hrest : slots.length < fuel := Nat.lt_of_succ_lt_succ hfuel
    by_cases hfull : bars.length < capacity
    · cases slot with
      | unimplemented =>
        obtain ⟨hnumber, hregister, hslots⟩ := hlaid
        have hzero : registers (bar0Offset + number * 4) = 0 := by
          obtain ⟨value, hvalue⟩ := hregisters (bar0Offset + number * 4)
          rw [hvalue, hregister, MaskedRegister.take]
          simp
        rw [enumerateLoop_of_zero hnumber hfull hzero]
        exact ih hslots hcapacity hrest
      | implemented bar =>
        obtain ⟨hnumber, hat, hslots⟩ := hlaid
        have hcount : (numbered number (.implemented bar :: slots)).length =
            (numbered (number + bar.registers.length) slots).length + 1 := List.length_cons
        by_cases hzero : registers (bar0Offset + number * 4) = 0
        · have hnarrow : bar.kind.is64Bit ≠ true := fun hwide =>
            low_ne_zero hregisters hat (by rintro hkind; rw [hkind] at hwide; cases hwide) hzero
          have hread : ¬ reads registers (number, bar) = true := by
            rw [reads, decide_eq_true_iff, not_not]
            exact hzero
          rw [enumerateLoop_of_zero hnumber hfull hzero, numbered, List.filter_cons_of_neg hread]
          rw [registers_length, if_neg hnarrow] at hslots hcount ⊢
          exact ih hslots (by omega) hrest
        · have hread : reads registers (number, bar) = true := decide_eq_true hzero
          rw [enumerateLoop_of_bar hregisters hat hnumber hfull hzero, numbered,
            List.filter_cons_of_pos hread, List.map_cons,
            ih hslots (by rw [List.length_append, List.length_singleton]; omega) hrest,
            List.append_assoc, List.singleton_append]
    · -- The span is full, so that no range is left.
      have hnone : numbered number (slot :: slots) = [] := List.length_eq_zero_iff.mp (by omega)
      rw [enumerateLoop, if_neg fun h => hfull h.2, hnone, List.filter_nil, List.map_nil,
        List.append_nil]

/-- Every slot takes a register. -/
theorem slots_length_le (slots : List Slot) :
    slots.length ≤ (slots.flatMap Slot.registers).length := by
  induction slots with
  | nil => exact Nat.le_refl _
  | cons slot slots ih =>
    have hpos : 0 < slot.registers.length := by
      cases slot with
      | unimplemented => exact Nat.one_pos
      | implemented bar => rw [Slot.registers, registers_length]; split <;> decide
    rw [List.length_cons, List.flatMap_cons, List.length_append]
    omega

/-- Every range is reported, with the registers as they were, just where no register of a range
reads zero: only a 32-bit memory register that is not prefetchable can, without an address. -/
theorem reportsEvery_iff (hregisters : Consistent device registers)
    (hcapacity : device.bars.length ≤ capacity) :
    ReportsEvery device capacity registers ↔
      ∀ p ∈ device.bars, p.2.kind = .memory32 false →
        registers (bar0Offset + p.1 * 4) ≠ 0 := by
  have hat : ∀ p ∈ device.bars, p.1 < barCount ∧ IsAt device p.1 p.2 :=
    fun p hp => (laid device).isAt hp
  have hrun : enumerateBars device capacity registers =
      some ((device.bars.filter (reads registers)).map
        fun p => (getBar device registers p.1).1, registers) := by
    refine enumerateLoop_eq hregisters (laid device) ?_ ?_
    · rw [List.length_nil, Nat.zero_add]
      exact hcapacity
    · have hslots := slots_length_le device.slots
      rw [device.length_eq] at hslots
      exact Nat.lt_succ_of_le hslots
  have hfacts : ((device.bars.filter (reads registers)).map
      fun p => (getBar device registers p.1).1).map BarReport.facts =
        (device.bars.filter (reads registers)).map fun p => barFacts p.1 p.2 := by
    rw [List.map_map]
    refine List.map_congr_left fun p hp => ?_
    obtain ⟨hmem, hread⟩ := List.mem_filter.mp hp
    exact getBar_facts hregisters (hat p hmem).2 (hat p hmem).1 (of_decide_eq_true hread)
  have hall : ReportsEvery device capacity registers ↔
      ∀ p ∈ device.bars, reads registers p = true := by
    constructor
    · rintro ⟨reports, hreports, hmap⟩
      obtain ⟨rfl, -⟩ := Prod.mk.inj (Option.some.inj (hrun.symm.trans hreports))
      have hlength := congrArg List.length (hfacts.symm.trans hmap)
      rw [List.length_map, List.length_map] at hlength
      exact List.length_filter_eq_length_iff.mp hlength
    · intro h
      exact ⟨_, hrun, by rw [hfacts, List.filter_eq_self.mpr h]⟩
  rw [hall]
  constructor
  · exact fun h p hp _ => of_decide_eq_true (h p hp)
  · intro h p hp
    refine decide_eq_true ?_
    by_cases hkind : p.2.kind = .memory32 false
    · exact h p hp hkind
    · exact low_ne_zero hregisters (hat p hp).2 hkind

end Device

/-- A device with one 32-bit memory range, of 4 KiB. -/
def oneRange : BarDevice where
  slots := [.implemented ⟨.memory32 false, 12, by decide, by decide⟩, .unimplemented,
    .unimplemented, .unimplemented, .unimplemented, .unimplemented]
  length_eq := rfl

/-- After a reset no address is assigned. -/
def unassigned : Registers := fun _ => 0

theorem consistent_unassigned : Consistent oneRange unassigned := by
  have hfixed : ∀ register ∈ oneRange.slots.flatMap Slot.registers, register.fixed = 0 := by
    decide
  have hplain : (0 : BitVec 32) = MaskedRegister.take ⟨BitVec.allOnes 32, 0⟩ 0 := by decide
  intro offset
  refine ⟨0, ?_⟩
  rw [BarDevice.register]
  split
  · cases hregister : (oneRange.slots.flatMap Slot.registers)[(offset - bar0Offset) / 4]? with
    | none => exact hplain
    | some register =>
      rw [Option.getD_some, MaskedRegister.take, hfixed _ (List.mem_of_getElem? hregister)]
      exact BitVec.zero_and.symm.trans BitVec.or_zero.symm
  · exact hplain

theorem reportsEvery_iff_oneRange :
    ReportsEvery oneRange 6 unassigned ↔
      ∀ p ∈ oneRange.bars, p.2.kind = .memory32 false → unassigned (bar0Offset + p.1 * 4) ≠ 0 :=
  reportsEvery_iff consistent_unassigned (by decide)

/-- The range is not reported while it has no address. -/
theorem oneRange_not_reported :
    Consistent oneRange unassigned ∧ oneRange.bars.length ≤ 6 ∧
      (enumerateBars oneRange 6 unassigned).map Prod.fst = some [] ∧
        ¬ ReportsEvery oneRange 6 unassigned := by
  have hnone : (enumerateBars oneRange 6 unassigned).map Prod.fst = some [] := by decide
  refine ⟨consistent_unassigned, by decide, hnone, ?_⟩
  rintro ⟨reports, hreports, hmap⟩
  rw [hreports] at hnone
  obtain rfl : reports = [] := Option.some.inj hnone
  exact absurd hmap (by decide)

end RPiKernel.Pcie
