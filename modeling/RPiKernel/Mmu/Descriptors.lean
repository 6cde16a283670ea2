import RPiKernel.Machine.BitFields

/-!
# The entries of the page tables

An entry is a 64-bit word. It is a table, block or page descriptor, whose bit
fields stand in the order of the source, or zero, the invalid descriptor.
-/

namespace RPiKernel.Mmu

open Machine

/-- An entry that leads to the next table. -/
structure TableDescriptor where
  valid : Nat := 1
  type : Nat := 1
  reserved0 : Nat := 0
  outputAddr : Nat
  reserved1 : Nat := 0
  ignored1 : Nat := 0
  pxnt : Nat := 0
  xnt : Nat := 0
  apt : Nat := 0
  nst : Nat := 0

/-- An entry that maps 1 GB. -/
structure L1BlockDescriptor where
  valid : Nat := 1
  type : Nat := 0
  attrIndex : Nat := 0
  ns : Nat := 0
  ap : Nat := 0
  sh : Nat := 3
  af : Nat := 1
  ng : Nat := 0
  reserved0 : Nat := 0
  outputAddr : Nat
  reserved1 : Nat := 0
  contiguous : Nat := 0
  pxn : Nat := 0
  uxn : Nat := 0
  reserved2 : Nat := 0

/-- An entry that maps 4 KB. -/
structure L3PageDescriptor where
  valid : Nat := 1
  type : Nat := 1
  attrIndex : Nat := 0
  ns : Nat := 0
  ap : Nat := 0
  sh : Nat := 3
  af : Nat := 1
  ng : Nat := 0
  outputAddr : Nat
  reserved0 : Nat := 0
  contiguous : Nat := 0
  pxn : Nat := 0
  uxn : Nat := 0
  reserved2 : Nat := 0

namespace TableDescriptor

def ofAddress (addr : Nat) : TableDescriptor := { outputAddr := addr >>> 12 }

def word (d : TableDescriptor) : Nat :=
  pack [(1, d.valid), (1, d.type), (10, d.reserved0), (36, d.outputAddr), (3, d.reserved1),
    (8, d.ignored1), (1, d.pxnt), (1, d.xnt), (2, d.apt), (1, d.nst)]

/-- A descriptor is a word of 64 bits. -/
theorem word_lt (d : TableDescriptor) : d.word < 2 ^ 64 := by
  rw [word]
  refine (pack_lt _).trans_eq ?_
  simp only [widthOf]

end TableDescriptor

namespace L1BlockDescriptor

def ofAddress (addr : Nat) : L1BlockDescriptor := { outputAddr := addr >>> 30 }

def word (d : L1BlockDescriptor) : Nat :=
  pack [(1, d.valid), (1, d.type), (3, d.attrIndex), (1, d.ns), (2, d.ap), (2, d.sh), (1, d.af),
    (1, d.ng), (18, d.reserved0), (18, d.outputAddr), (4, d.reserved1), (1, d.contiguous),
    (1, d.pxn), (1, d.uxn), (9, d.reserved2)]

theorem word_lt (d : L1BlockDescriptor) : d.word < 2 ^ 64 := by
  rw [word]
  refine (pack_lt _).trans_eq ?_
  simp only [widthOf]

end L1BlockDescriptor

namespace L3PageDescriptor

def ofAddress (addr : Nat) : L3PageDescriptor := { outputAddr := addr >>> 12 }

def word (d : L3PageDescriptor) : Nat :=
  pack [(1, d.valid), (1, d.type), (3, d.attrIndex), (1, d.ns), (2, d.ap), (2, d.sh), (1, d.af),
    (1, d.ng), (36, d.outputAddr), (4, d.reserved0), (1, d.contiguous), (1, d.pxn), (1, d.uxn),
    (9, d.reserved2)]

theorem word_lt (d : L3PageDescriptor) : d.word < 2 ^ 64 := by
  rw [word]
  refine (pack_lt _).trans_eq ?_
  simp only [widthOf]

end L3PageDescriptor

def l1NormalMem (addr : Nat) : L1BlockDescriptor := L1BlockDescriptor.ofAddress addr

def l1GpuMem (addr : Nat) : L1BlockDescriptor :=
  { L1BlockDescriptor.ofAddress addr with attrIndex := 2, sh := 2, pxn := 1, uxn := 1 }

def l1DeviceMem (addr : Nat) : L1BlockDescriptor :=
  { L1BlockDescriptor.ofAddress addr with attrIndex := 1, sh := 2, pxn := 1, uxn := 1 }

def l3NormalMem (addr : Nat) : L3PageDescriptor := L3PageDescriptor.ofAddress addr

namespace Entry

/-! The tests of the unions `L1Entry`, `L2Entry` and `L3Entry`, whose descriptors
share their two low fields. -/

def isValid (entry : Nat) : Bool := extract 0 1 entry != 0

def isTable (entry : Nat) : Bool := extract 0 1 entry != 0 && extract 1 1 entry == 1

def isBlock (entry : Nat) : Bool := extract 0 1 entry != 0 && extract 1 1 entry == 0

def isPage (entry : Nat) : Bool := extract 0 1 entry != 0 && extract 1 1 entry == 1

/-- The output address of a table or page descriptor, as a page number. -/
def outputPage (entry : Nat) : Nat := extract 12 36 entry

/-- The output address of an L1 block descriptor, in GB. -/
def outputL1Block (entry : Nat) : Nat := extract 30 18 entry

/-- The output address of an L2 block descriptor, in units of 2 MB. -/
def outputL2Block (entry : Nat) : Nat := extract 21 27 entry

end Entry

section Fields

open Entry

@[simp] theorem isValid_zero : isValid 0 = false := by decide
@[simp] theorem isTable_zero : isTable 0 = false := by decide
@[simp] theorem isBlock_zero : isBlock 0 = false := by decide
@[simp] theorem isPage_zero : isPage 0 = false := by decide

/-- The two low fields decide what an entry is. -/
theorem isBlock_eq_false_of_isTable {entry : Nat} (h : isTable entry = true) :
    isBlock entry = false := by
  simp only [isTable, isBlock, Bool.and_eq_true, beq_iff_eq] at h ⊢
  simp [h.2]

theorem isValid_of_isTable {entry : Nat} (h : isTable entry = true) : isValid entry = true := by
  simp only [isTable, Bool.and_eq_true] at h
  exact h.1

variable (addr : Nat)

@[simp] theorem isTable_tableDescriptor :
    isTable (TableDescriptor.ofAddress addr).word = true := by
  have h₀ := extract_pack_append [] 1 1 [(1, 1), (10, 0), (36, addr >>> 12), (3, 0), (8, 0), (1, 0),
    (1, 0), (2, 0), (1, 0)]
  have h₁ := extract_pack_append [(1, 1)] 1 1 [(10, 0), (36, addr >>> 12), (3, 0), (8, 0), (1, 0),
    (1, 0), (2, 0), (1, 0)]
  simp only [widthOf, List.nil_append, List.cons_append] at h₀ h₁
  simp only [isTable, TableDescriptor.word, TableDescriptor.ofAddress, h₀, h₁]
  decide

@[simp] theorem outputPage_tableDescriptor :
    outputPage (TableDescriptor.ofAddress addr).word = addr / 4096 % 68719476736 := by
  have h := extract_pack_append [(1, 1), (1, 1), (10, 0)] 36 (addr >>> 12) [(3, 0), (8, 0), (1, 0),
    (1, 0), (2, 0), (1, 0)]
  simp only [widthOf, List.cons_append, List.nil_append, Nat.shiftRight_eq_div_pow, Nat.reduceAdd,
    Nat.reducePow] at h
  simp only [outputPage, TableDescriptor.word, TableDescriptor.ofAddress,
    Nat.shiftRight_eq_div_pow, Nat.reducePow, h]

@[simp] theorem isPage_l3NormalMem : isPage (l3NormalMem addr).word = true := by
  have h₀ := extract_pack_append [] 1 1 [(1, 1), (3, 0), (1, 0), (2, 0), (2, 3), (1, 1), (1, 0),
    (36, addr >>> 12), (4, 0), (1, 0), (1, 0), (1, 0), (9, 0)]
  have h₁ := extract_pack_append [(1, 1)] 1 1 [(3, 0), (1, 0), (2, 0), (2, 3), (1, 1), (1, 0),
    (36, addr >>> 12), (4, 0), (1, 0), (1, 0), (1, 0), (9, 0)]
  simp only [widthOf, List.nil_append, List.cons_append] at h₀ h₁
  simp only [isPage, l3NormalMem, L3PageDescriptor.word, L3PageDescriptor.ofAddress, h₀, h₁]
  decide

@[simp] theorem outputPage_l3NormalMem :
    outputPage (l3NormalMem addr).word = addr / 4096 % 68719476736 := by
  have h := extract_pack_append [(1, 1), (1, 1), (3, 0), (1, 0), (2, 0), (2, 3), (1, 1), (1, 0)] 36
    (addr >>> 12) [(4, 0), (1, 0), (1, 0), (1, 0), (9, 0)]
  simp only [widthOf, List.cons_append, List.nil_append, Nat.shiftRight_eq_div_pow, Nat.reduceAdd,
    Nat.reducePow] at h
  simp only [outputPage, l3NormalMem, L3PageDescriptor.word, L3PageDescriptor.ofAddress,
    Nat.shiftRight_eq_div_pow, Nat.reducePow, h]

end Fields

end RPiKernel.Mmu
