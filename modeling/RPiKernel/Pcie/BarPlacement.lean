import Mathlib.Algebra.GroupWithZero.Nat
import Mathlib.Algebra.Order.BigOperators.Group.List
import Mathlib.Algebra.Order.Group.Nat

/-!
# Placement of PCI base address registers

`map_bar` programs a base address register with the next unused address of the PCI
window and returns the memory at the same offset of the CPU window. The offset is shared
by all calls, and is advanced by the size alone.

## Implementation notes

The configuration space of a device is a function from offsets to 32-bit registers; each
call is given the one of its device. Addresses are reduced to 64 bits.
-/

namespace RPiKernel.Pcie

/-- What `get_bar` reports of a register. -/
structure BarInfo where
  barNumber : Nat
  physicalAddress : Nat
  size : Nat
  flags : BitVec 32
  isMemorySpace : Bool
  is64Bit : Bool
  deriving DecidableEq, Repr

abbrev Registers := Nat → BitVec 32

def configSpaceSize : Nat := 4096

def bar0Offset : Nat := 0x10

/-- The offsets of the identifiers, the class code and the header type. -/
def isReadOnly (offset : Nat) : Bool :=
  offset == 0x00 || offset == 0x02 || offset == 0x08 || offset == 0x0E

/-- `write_register` of 32 bits. -/
def writeRegister (registers : Registers) (offset : Nat) (value : BitVec 32) : Registers :=
  if offset + 4 > configSpaceSize then registers
  else if isReadOnly offset then registers
  else Function.update registers offset value

def pciBase : Nat := 0xF8000000

def cpuBase : Nat := 0x600000000

/-- What comes of a call: the registers of the device, the information about the register, and
the span that is returned, by its start and length. -/
structure Mapping where
  registers : Registers
  bar : BarInfo
  span : Nat × Nat

/-- `map_bar`, with `NextUnusedMapOffsetAddress` before and after. -/
def mapBar (next : Nat) (registers : Registers) (bar : BarInfo) : Mapping × Nat :=
  if !bar.isMemorySpace || bar.size == 0 then
    ({ registers, bar, span := (0, 0) }, next)
  else
    let barOffset := bar0Offset + bar.barNumber * 4
    let pciAddress := (pciBase + next) % 2 ^ 64
    let registers := writeRegister registers barOffset
      ((BitVec.ofNat 32 pciAddress &&& ~~~0xF#32) ||| bar.flags)
    let registers :=
      if bar.is64Bit then
        writeRegister registers (barOffset + 4) (BitVec.ofNat 32 (pciAddress / 2 ^ 32))
      else
        registers
    let bar := { bar with physicalAddress := (cpuBase + next) % 2 ^ 64 }
    ({ registers, bar, span := (bar.physicalAddress, bar.size) }, (next + bar.size) % 2 ^ 64)

/-- The PCI address that a register has been programmed with. -/
def Mapping.programmed (m : Mapping) : Nat :=
  let barOffset := bar0Offset + m.bar.barNumber * 4
  (m.registers barOffset &&& ~~~0xF#32).toNat +
    if m.bar.is64Bit then 2 ^ 32 * (m.registers (barOffset + 4)).toNat else 0

/-- A call, with the registers of its device. -/
structure MapCall where
  registers : Registers
  bar : BarInfo

def mapBars : Nat → List MapCall → List Mapping
  | _, [] => []
  | next, call :: calls =>
      let (m, next) := mapBar next call.registers call.bar
      m :: mapBars next calls

/-- A memory register as `get_bar` reports it, with a size that is a power of two. -/
structure IsMemoryBar (bar : BarInfo) : Prop where
  memory : bar.isMemorySpace = true
  flags_lt : bar.flags.toNat < 16
  number_lt : bar.barNumber < 6
  size_eq : ∃ k, 4 ≤ k ∧ bar.size = 2 ^ k

/-- The span of addresses behind the PCI base that the bridge forwards. -/
def windowSize : Nat := 0x100000000

/-- Every register is programmed with a multiple of its size, the PCI ranges are disjoint, and
every span is the PCI range seen from the CPU. -/
structure Placed (mappings : List Mapping) : Prop where
  aligned : ∀ m ∈ mappings, m.bar.size ∣ m.programmed
  disjoint : mappings.Pairwise fun m m' =>
    m.programmed + m.bar.size ≤ m'.programmed ∨ m'.programmed + m'.bar.size ≤ m.programmed
  span_eq : ∀ m ∈ mappings,
    m.span.1 + pciBase = m.programmed + cpuBase ∧ m.span.2 = m.bar.size

/-- The size of every register divides the address that its turn comes at, which lies in
32 bits if the register does. -/
def Fits : Nat → List MapCall → Prop
  | _, [] => True
  | next, call :: calls =>
      call.bar.size ∣ pciBase + next ∧ (call.bar.is64Bit = true ∨ pciBase + next < 2 ^ 32) ∧
        Fits (next + call.bar.size) calls

section Address

/-- Clearing the low four bits. -/
theorem toNat_and_not_15 (x : BitVec 32) : (x &&& ~~~0xF#32).toNat = x.toNat / 16 * 16 := by
  have hmask : (~~~0xF#32).toNat = (2 ^ 28 - 1) <<< 4 := rfl
  rw [BitVec.toNat_and, hmask]
  apply Nat.eq_of_testBit_eq
  intro i
  rw [show x.toNat / 16 * 16 = (x.toNat >>> 4) <<< 4 by
    rw [Nat.shiftLeft_eq, Nat.shiftRight_eq_div_pow]]
  rw [Nat.testBit_and, Nat.testBit_shiftLeft, Nat.testBit_shiftLeft, Nat.testBit_shiftRight,
    Nat.testBit_two_pow_sub_one]
  by_cases hi : 4 ≤ i
  · rw [show 4 + (i - 4) = i by omega]
    by_cases hlt : i - 4 < 28
    · simp [hi, hlt]
    · have hbit : x.toNat.testBit i = false :=
        Nat.testBit_lt_two_pow (Nat.lt_of_lt_of_le x.isLt
          (Nat.pow_le_pow_right Nat.two_pos (by omega)))
      simp [hbit]
  · simp [hi]

/-- The flags stand in the low four bits only. -/
theorem and_not_15_or (x flags : BitVec 32) (h : flags.toNat < 16) :
    ((x &&& ~~~0xF#32) ||| flags) &&& ~~~0xF#32 = x &&& ~~~0xF#32 := by
  have hflags : flags &&& ~~~0xF#32 = 0#32 := by
    apply BitVec.eq_of_toNat_eq
    rw [toNat_and_not_15, Nat.div_eq_of_lt h]
    rfl
  rw [BitVec.and_or_distrib_right, BitVec.and_assoc, BitVec.and_self, hflags, BitVec.or_zero]

theorem IsMemoryBar.size_pos {bar : BarInfo} (h : IsMemoryBar bar) : 0 < bar.size := by
  obtain ⟨k, -, hsize⟩ := h.size_eq
  rw [hsize]
  exact Nat.two_pow_pos k

theorem IsMemoryBar.dvd_size {bar : BarInfo} (h : IsMemoryBar bar) : 16 ∣ bar.size := by
  obtain ⟨k, hk, hsize⟩ := h.size_eq
  rw [hsize]
  exact pow_dvd_pow 2 hk

end Address

section Call

variable {next : Nat} {registers : Registers} {bar : BarInfo}

/-- The registers of the addresses are written. -/
theorem writeRegister_bar {n : Nat} (hn : n ≤ 6) (value : BitVec 32) :
    writeRegister registers (bar0Offset + n * 4) value =
      Function.update registers (bar0Offset + n * 4) value := by
  have hread : isReadOnly (bar0Offset + n * 4) = false := by
    rw [isReadOnly, bar0Offset]
    simp only [Bool.or_eq_false_iff, beq_eq_false_iff_ne]
    omega
  rw [writeRegister, if_neg (by rw [bar0Offset, configSpaceSize]; omega), hread]
  rfl

/-- What a call at an offset makes of a memory register. -/
structure MappedAt (next : Nat) (bar : BarInfo) (m : Mapping) : Prop where
  size_eq : m.bar.size = bar.size
  span_eq : m.span = (cpuBase + next, bar.size)
  programmed_eq :
    m.programmed = if bar.is64Bit then pciBase + next else (pciBase + next) % 2 ^ 32

theorem mapBar_mappedAt (registers : Registers) (h : IsMemoryBar bar) (hnext : 16 ∣ next)
    (hle : next + bar.size ≤ windowSize) :
    MappedAt next bar (mapBar next registers bar).1 ∧
      (mapBar next registers bar).2 = next + bar.size := by
  have hmapped : (!bar.isMemorySpace || bar.size == 0) = false := by
    rw [h.memory, Bool.not_true, Bool.false_or, beq_eq_false_iff_ne]
    exact h.size_pos.ne'
  have hwindow : windowSize = 0x100000000 := rfl
  have hpci : (pciBase + next) % 2 ^ 64 = pciBase + next := by
    rw [pciBase]
    omega
  have hcpu : (cpuBase + next) % 2 ^ 64 = cpuBase + next := by
    rw [cpuBase]
    omega
  have hlow : (BitVec.ofNat 32 (pciBase + next) &&& ~~~0xF#32).toNat =
      (pciBase + next) % 2 ^ 32 := by
    rw [toNat_and_not_15, BitVec.toNat_ofNat, pciBase]
    omega
  have hnumber := h.number_lt
  have hend : (next + bar.size) % 2 ^ 64 = next + bar.size := by omega
  rw [mapBar, hmapped]
  simp only [Bool.false_eq_true, if_false, hpci, hcpu, hend]
  refine ⟨⟨rfl, rfl, ?_⟩, trivial⟩
  simp only [Mapping.programmed]
  rw [writeRegister_bar (by omega)]
  cases h64 : bar.is64Bit with
  | false =>
    simp only [Bool.false_eq_true, if_false, Function.update_self]
    rw [and_not_15_or _ _ h.flags_lt, hlow, Nat.add_zero]
  | true =>
    have hne : bar0Offset + bar.barNumber * 4 ≠ bar0Offset + (bar.barNumber + 1) * 4 := by omega
    have hhigh : (BitVec.ofNat 32 ((pciBase + next) / 2 ^ 32)).toNat =
        (pciBase + next) / 2 ^ 32 := by
      rw [BitVec.toNat_ofNat, pciBase]
      omega
    simp only [if_true]
    rw [show bar0Offset + bar.barNumber * 4 + 4 = bar0Offset + (bar.barNumber + 1) * 4 by omega,
      writeRegister_bar (by omega), Function.update_of_ne hne, Function.update_self,
      Function.update_self, and_not_15_or _ _ h.flags_lt, hlow, hhigh]
    exact Nat.mod_add_div _ _

/-- A register holds the address that its turn comes at exactly when the address fits the
register. -/
theorem MappedAt.programmed_eq_iff {m : Mapping} (h : MappedAt next bar m) :
    m.programmed = pciBase + next ↔ bar.is64Bit = true ∨ pciBase + next < 2 ^ 32 := by
  rw [h.programmed_eq]
  cases bar.is64Bit with
  | true => simp
  | false =>
    simp only [Bool.false_eq_true, if_false, false_or]
    constructor
    · intro heq
      rw [← heq]
      exact Nat.mod_lt _ (Nat.two_pow_pos 32)
    · exact Nat.mod_eq_of_lt

end Call

section Sequence

/-- The sizes of the calls together. -/
def totalSize (calls : List MapCall) : Nat :=
  (calls.map fun call => call.bar.size).sum

@[simp] theorem totalSize_cons (call : MapCall) (calls : List MapCall) :
    totalSize (call :: calls) = call.bar.size + totalSize calls := by
  rw [totalSize, List.map_cons, List.sum_cons, totalSize]

variable {next : Nat} {call : MapCall} {calls : List MapCall}

/-- The first call is made at the offset, the others behind its size. -/
theorem mapBars_cons (calls : List MapCall) (h : IsMemoryBar call.bar) (hnext : 16 ∣ next)
    (hle : next + call.bar.size ≤ windowSize) :
    ∃ m, mapBars next (call :: calls) = m :: mapBars (next + call.bar.size) calls ∧
      MappedAt next call.bar m := by
  obtain ⟨hmapped, hend⟩ := mapBar_mappedAt call.registers h hnext hle
  refine ⟨_, ?_, hmapped⟩
  rw [mapBars, ← hend]

/-- Calls that fit program nothing below the offset. -/
theorem Fits.le_programmed (hmem : ∀ c ∈ calls, IsMemoryBar c.bar) (hnext : 16 ∣ next)
    (hle : next + totalSize calls ≤ windowSize) (hfits : Fits next calls) :
    ∀ m ∈ mapBars next calls, pciBase + next ≤ m.programmed := by
  induction calls generalizing next with
  | nil =>
    intro m hm
    exact absurd hm List.not_mem_nil
  | cons call calls ih =>
    rw [totalSize_cons] at hle
    obtain ⟨-, hlow, hrest⟩ := hfits
    have hcall : IsMemoryBar call.bar := hmem call List.mem_cons_self
    obtain ⟨m₀, hcons, hmapped⟩ := mapBars_cons calls hcall hnext (by omega)
    intro m hm
    rw [hcons, List.mem_cons] at hm
    rcases hm with rfl | hm
    · exact (hmapped.programmed_eq_iff.mpr hlow).ge
    · have hafter : pciBase + (next + call.bar.size) ≤ m.programmed :=
        ih (fun c hc => hmem c (List.mem_cons_of_mem _ hc)) (Nat.dvd_add hnext hcall.dvd_size)
          (by omega) hrest m hm
      omega

/-- A first register and the others. -/
theorem placed_cons {m : Mapping} {ms : List Mapping} :
    Placed (m :: ms) ↔
      (m.bar.size ∣ m.programmed ∧
        (m.span.1 + pciBase = m.programmed + cpuBase ∧ m.span.2 = m.bar.size) ∧
        ∀ m' ∈ ms, m.programmed + m.bar.size ≤ m'.programmed ∨
          m'.programmed + m'.bar.size ≤ m.programmed) ∧ Placed ms := by
  constructor
  · rintro ⟨haligned, hdisjoint, hspan⟩
    rw [List.forall_mem_cons] at haligned hspan
    rw [List.pairwise_cons] at hdisjoint
    exact ⟨⟨haligned.1, hspan.1, hdisjoint.1⟩, haligned.2, hdisjoint.2, hspan.2⟩
  · rintro ⟨⟨haligned, hspan, hdisjoint⟩, hrest⟩
    refine ⟨?_, ?_, ?_⟩
    · exact List.forall_mem_cons.mpr ⟨haligned, hrest.aligned⟩
    · exact List.pairwise_cons.mpr ⟨hdisjoint, hrest.disjoint⟩
    · exact List.forall_mem_cons.mpr ⟨hspan, hrest.span_eq⟩

/-- From any offset of the window: the registers are placed if and only if each finds the
offset aligned for it, and the address within its bits, when its turn comes. -/
theorem placed_mapBars_iff (hmem : ∀ c ∈ calls, IsMemoryBar c.bar) (hnext : 16 ∣ next)
    (hle : next + totalSize calls ≤ windowSize) :
    Placed (mapBars next calls) ↔ Fits next calls := by
  induction calls generalizing next with
  | nil =>
    rw [mapBars, Fits, iff_true]
    refine ⟨?_, List.Pairwise.nil, ?_⟩
    · exact fun m hm => absurd hm List.not_mem_nil
    · exact fun m hm => absurd hm List.not_mem_nil
  | cons call calls ih =>
    rw [totalSize_cons] at hle
    have hcall : IsMemoryBar call.bar := hmem call List.mem_cons_self
    have hcalls : ∀ c ∈ calls, IsMemoryBar c.bar := fun c hc =>
      hmem c (List.mem_cons_of_mem _ hc)
    have hafter : 16 ∣ next + call.bar.size := Nat.dvd_add hnext hcall.dvd_size
    have hrest : Placed (mapBars (next + call.bar.size) calls) ↔
        Fits (next + call.bar.size) calls := ih hcalls hafter (by omega)
    obtain ⟨m, hcons, hmapped⟩ := mapBars_cons calls hcall hnext (by omega)
    rw [hcons, placed_cons, hrest, Fits, hmapped.size_eq, hmapped.span_eq]
    constructor
    · rintro ⟨⟨haligned, ⟨hspan, -⟩, -⟩, hfits⟩
      have haddress : m.programmed = pciBase + next := by omega
      rw [haddress] at haligned
      exact ⟨haligned, hmapped.programmed_eq_iff.mp haddress, hfits⟩
    · rintro ⟨haligned, hlow, hfits⟩
      have haddress : m.programmed = pciBase + next := hmapped.programmed_eq_iff.mpr hlow
      have hbehind := Fits.le_programmed hcalls hafter (by omega) hfits
      rw [haddress]
      refine ⟨⟨haligned, ⟨by omega, rfl⟩, ?_⟩, hfits⟩
      intro m' hm'
      have hm := hbehind m' hm'
      exact Or.inl (by omega)

end Sequence

/-- Calls on memory registers whose sizes fit the window place them if and only if, at each
call, the size divides the PCI address reached and a 32-bit register finds it below 4 GB. -/
theorem placed_iff_fits (calls : List MapCall) (hmem : ∀ c ∈ calls, IsMemoryBar c.bar)
    (hle : totalSize calls ≤ windowSize) : Placed (mapBars 0 calls) ↔ Fits 0 calls :=
  placed_mapBars_iff hmem (Nat.dvd_zero 16) (by rwa [Nat.zero_add])

section Witness

/-- A 64-bit memory register of a device whose registers read zero. -/
def memoryCall (k : Nat) : MapCall where
  registers := fun _ => 0#32
  bar :=
    { barNumber := 0, physicalAddress := 0, size := 2 ^ k, flags := 0x4#32,
      isMemorySpace := true, is64Bit := true }

theorem isMemoryBar_memoryCall {k : Nat} (hk : 4 ≤ k) : IsMemoryBar (memoryCall k).bar where
  memory := rfl
  flags_lt := show (0x4#32).toNat < 16 by decide
  number_lt := show 0 < 6 by decide
  size_eq := ⟨k, hk, rfl⟩

/-- The larger register first. -/
theorem placed_iff_fits_decreasing : Placed (mapBars 0 [memoryCall 16, memoryCall 12]) := by
  refine (placed_iff_fits [memoryCall 16, memoryCall 12] ?_ (by decide)).mpr ?_
  · intro c hc
    simp only [List.mem_cons, List.not_mem_nil, or_false] at hc
    rcases hc with rfl | rfl
    · exact isMemoryBar_memoryCall (by decide)
    · exact isMemoryBar_memoryCall (by decide)
  · exact ⟨by decide, by decide, by decide, by decide, trivial⟩

/-- The smaller register first: the address of the larger is no multiple of its size. -/
theorem not_placed_increasing :
    (∀ c ∈ [memoryCall 12, memoryCall 16], IsMemoryBar c.bar) ∧
      totalSize [memoryCall 12, memoryCall 16] ≤ windowSize ∧
      ¬ Placed (mapBars 0 [memoryCall 12, memoryCall 16]) := by
  have hmem : ∀ c ∈ [memoryCall 12, memoryCall 16], IsMemoryBar c.bar := by
    intro c hc
    simp only [List.mem_cons, List.not_mem_nil, or_false] at hc
    rcases hc with rfl | rfl
    · exact isMemoryBar_memoryCall (by decide)
    · exact isMemoryBar_memoryCall (by decide)
  refine ⟨hmem, by decide, ?_⟩
  rw [placed_mapBars_iff hmem (Nat.dvd_zero 16) (by decide)]
  rintro ⟨-, -, haligned, -⟩
  exact absurd haligned (by decide)

end Witness

end RPiKernel.Pcie
