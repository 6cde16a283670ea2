import RPiKernel.Containers.PoolAllocator
import RPiKernel.Intervals.Family
import RPiKernel.Mmu.Descriptors
import RPiKernel.Transition.System

/-!
# Mapping of virtual pages

The L1 table is static. The L2 and L3 tables live in pages of the physical
pool, from which data pages and GPU buffers are allocated too, and are reached
through the aperture that maps physical memory. `translate` is the walk of the
hardware.

## Implementation notes

`memory` holds the 64-bit words of the physical memory; a page is 512 words. An
access through the aperture goes through `translate`, so that a wrong physical
address ends in the fault `translation`. The fields from `current` on are not
part of the machine: the page being mapped, the entries written and the requests
refused by an allocator, and the results of the calls. Cache maintenance,
barriers and prints are left out.
-/

namespace RPiKernel.Mmu

open Machine Containers Intervals Transition

/-- The boards, which differ in their static L1 tables. -/
inductive Board where
  | rpi3
  | rpi4
  deriving DecidableEq, Repr

/-- The aperture entries, which map all of the physical memory. -/
def apertureEntries : List Nat :=
  [(l1GpuMem 0x000000000).word, (l1GpuMem 0x040000000).word, (l1GpuMem 0x080000000).word,
    (l1GpuMem 0x0C0000000).word, (l1GpuMem 0x100000000).word, (l1GpuMem 0x140000000).word,
    (l1GpuMem 0x180000000).word, (l1GpuMem 0x1C0000000).word]

def rpi3L1PageTable : List Nat :=
  [(l1NormalMem 0).word, (l1DeviceMem 0).word, (l1DeviceMem 0x40000000).word,
    (l1GpuMem 0).word] ++ List.replicate 24 0 ++ apertureEntries

def rpi4L1PageTable : List Nat :=
  [(l1NormalMem 0).word, (l1DeviceMem 0x40000000).word, (l1DeviceMem 0xC0000000).word,
    (l1GpuMem 0).word] ++ List.replicate 13 0 ++ [(l1DeviceMem 0x440000000).word, 0,
    (l1DeviceMem 0x4C0000000).word, 0, 0, 0, 0, (l1DeviceMem 0x600000000).word, 0, 0, 0] ++
    apertureEntries

/-- The entries of the static L1 table; the remaining ones are invalid. -/
def Board.l1PageTable : Board → Nat → Nat
  | rpi3, i => rpi3L1PageTable.getD i 0
  | rpi4, i => rpi4L1PageTable.getD i 0

def physicalMemoryApertureBase : Nat := 0x700000000

def physicalMemoryAllocator : PoolParameters where
  size := 256 * 1024 / 4
  name := "Physical Memory"
  size_pos := by decide
  size_lt := by decide

def physicalMemoryAllocatorPageOffset : Nat := 0x20000000 >>> 12

def virtualMemoryAllocator : PoolParameters where
  size := 1024 * 1024 / 4
  name := "Virtual Memory"
  size_pos := by decide
  size_lt := by decide

def virtualMemoryAllocatorOffset : Nat := 0x100000000

/-- What ends a call without a result. -/
inductive MmuFault where
  | pool (fault : Interleaving.Fault)
  | outOfBounds
  | nullTable
  | translation
  deriving DecidableEq, Repr

/-- The writing of an entry while a virtual page is mapped. -/
structure EntryWrite where
  page : Nat
  entry : Nat

/-- The allocators, the tables and the history of a run. -/
structure MmuState where
  physicalWords : List Word
  virtualWords : List Word
  l1 : Nat → Nat
  memory : Nat → Nat
  current : Nat := 0
  writes : List EntryWrite := []
  refused : Nat := 0
  commits : List Span := []
  buffers : List Span := []

namespace MmuState

/-- The translation of a virtual address by the hardware. -/
def translate (s : MmuState) (va : Nat) : Option Nat :=
  if 2 ^ 39 ≤ va then
    none
  else
    let entry := s.l1 (va / 2 ^ 30)
    if Entry.isBlock entry then
      some (Entry.outputL1Block entry * 2 ^ 30 + va % 2 ^ 30)
    else if Entry.isTable entry then
      let entry := s.memory (512 * Entry.outputPage entry + va / 2 ^ 21 % 512)
      if Entry.isBlock entry then
        some (Entry.outputL2Block entry * 2 ^ 21 + va % 2 ^ 21)
      else if Entry.isTable entry then
        let entry := s.memory (512 * Entry.outputPage entry + va / 2 ^ 12 % 512)
        if Entry.isPage entry then
          some (Entry.outputPage entry * 2 ^ 12 + va % 2 ^ 12)
        else
          none
      else
        none
    else
      none

end MmuState

/-- Computations on the memory management state that may fault. -/
abbrev MmuM := EStateM MmuFault MmuState

/-- A request to one of the allocators is refused. -/
def refuse (result : Nat) (s : MmuState) : MmuState :=
  if result = uint32Max then { s with refused := s.refused + 1 } else s

def allocatePhysical (count : Nat) : MmuM Nat := fun s =>
  match allocate physicalMemoryAllocator count 1 s.physicalWords with
  | (.ok result, words) => .ok result (refuse result { s with physicalWords := words })
  | (.error fault, words) =>
      .error (.pool fault) { s with physicalWords := words, refused := s.refused + 1 }

def allocateVirtual (count : Nat) : MmuM Nat := fun s =>
  match allocate virtualMemoryAllocator count 1 s.virtualWords with
  | (.ok result, words) => .ok result (refuse result { s with virtualWords := words })
  | (.error fault, words) =>
      .error (.pool fault) { s with virtualWords := words, refused := s.refused + 1 }

section Tables

/-- An access through the aperture. -/
def physicalAddress (va : Nat) : MmuM Nat := fun s =>
  match s.translate va with
  | some pa => .ok pa s
  | none => .error .translation s

def loadL1Entry (i : Nat) : MmuM Nat := fun s =>
  if i < 512 then .ok (s.l1 i) s else .error .outOfBounds s

def storeL1Entry (i entry : Nat) : MmuM Unit := fun s =>
  if i < 512 then
    .ok () { s with
      l1 := Function.update s.l1 i entry
      writes := ⟨s.current, entry⟩ :: s.writes }
  else
    .error .outOfBounds s

/-- The word that holds the entry `i` of a table at a virtual address. -/
def entryWord (table i : Nat) : MmuM Nat := do
  if i < 512 then
    return (← physicalAddress (table + 8 * i)) / 8
  else
    throw .outOfBounds

def loadEntry (table i : Nat) : MmuM Nat := do
  let word ← entryWord table i
  return (← get).memory word

def storeEntry (table i entry : Nat) : MmuM Unit := do
  let word ← entryWord table i
  modify fun s => { s with
    memory := Function.update s.memory word entry
    writes := ⟨s.current, entry⟩ :: s.writes }

/-- A new table at a virtual address: all of its entries are invalid. -/
def newTable (table : Nat) : MmuM Nat := do
  let word := (← physicalAddress table) / 8
  modify fun s => { s with
    memory := fun a => if word ≤ a ∧ a < word + 512 then 0 else s.memory a }
  return table

/-- The part that `MapOnePage` for the L1 table and for an L2 table have in common: the
table behind an entry, which is made and stored if the entry is invalid. The null
pointer is `none`. -/
def nextTable (tableEntry : Nat) (store : Nat → MmuM Unit) : MmuM (Option Nat) :=
  if !Entry.isValid tableEntry then do
    let tablePhysicalAddress :=
      ((← allocatePhysical 1) + physicalMemoryAllocatorPageOffset) <<< 12
    store (TableDescriptor.ofAddress tablePhysicalAddress).word
    return some (← newTable (physicalMemoryApertureBase + tablePhysicalAddress))
  else if Entry.isTable tableEntry then
    pure (some (physicalMemoryApertureBase + Entry.outputPage tableEntry <<< 12))
  else
    pure none

/-- `MapOnePage` for an L3 table. -/
def mapOnePageL3 (table virtualPageIndex entry : Nat) : MmuM Unit :=
  storeEntry table virtualPageIndex entry

/-- `MapOnePage` for an L2 table. -/
def mapOnePageL2 (table virtualPageIndex entry : Nat) : MmuM Unit := do
  let tableEntry ← loadEntry table (virtualPageIndex >>> 9)
  match ← nextTable tableEntry (storeEntry table (virtualPageIndex >>> 9)) with
  | some nextTable => mapOnePageL3 nextTable (virtualPageIndex &&& (2 ^ 9 - 1)) entry
  | none => throw .nullTable

/-- `MapOnePage` for the L1 table. -/
def mapOnePageL1 (virtualPageIndex entry : Nat) : MmuM Unit := do
  let tableEntry ← loadL1Entry (virtualPageIndex >>> 18)
  match ← nextTable tableEntry (storeL1Entry (virtualPageIndex >>> 18)) with
  | some nextTable => mapOnePageL2 nextTable (virtualPageIndex &&& (2 ^ 18 - 1)) entry
  | none => throw .nullTable

/-- `MapOnePage` for a page of the address space. -/
def mapOnePage (virtualPageIndex entry : Nat) : MmuM Unit := do
  modify fun s => { s with current := virtualPageIndex }
  mapOnePageL1 virtualPageIndex entry

end Tables

/-- The rounds of the loop of `CommitPages` from the round `i` on. -/
def commitPagesFrom (basePage : Nat) : Nat → Nat → MmuM Unit
  | _, 0 => pure ()
  | i, remaining + 1 => do
      let physicalPageAddress :=
        ((← allocatePhysical 1) + physicalMemoryAllocatorPageOffset) <<< 12
      mapOnePage (add32 basePage i) (l3NormalMem physicalPageAddress).word
      commitPagesFrom basePage (i + 1) remaining

/-- `CommitPages` for an address. -/
def commitPages (address pageCount : Nat) : MmuM Unit :=
  commitPagesFrom ((address >>> 12) % 2 ^ 32) 0 pageCount

def allocatePages (pageCount : Nat) : MmuM Nat := do
  return mul32 (← allocateVirtual pageCount) 0x1000 + virtualMemoryAllocatorOffset

def allocateAndCommitPages (pageCount : Nat) : MmuM Nat := do
  let result ← allocatePages pageCount
  commitPages result pageCount
  return result

def allocateGpuMemory (pageCount : Nat) : MmuM Nat := do
  let gpuPhysicalAddress :=
    ((← allocatePhysical pageCount) + physicalMemoryAllocatorPageOffset) <<< 12
  return gpuPhysicalAddress + 0xC0000000

/-- A number of pages that a caller may ask for. -/
structure PageCount where
  val : Nat
  pos : 0 < val
  lt : val < 4294967296

/-- The calls of the other components. -/
inductive MmuCall where
  | allocateAndCommitPages (pageCount : PageCount)
  | allocateGpuMemory (pageCount : PageCount)

namespace MmuState

/-- The outcome of a call, with a fresh record of the entries written. -/
def outcome (s : MmuState) : MmuCall → EStateM.Result MmuFault MmuState Nat
  | .allocateAndCommitPages n => (allocateAndCommitPages n.val).run { s with writes := [] }
  | .allocateGpuMemory n => (allocateGpuMemory n.val).run { s with writes := [] }

/-- The record of what a call returned, as pages. -/
def returned (s : MmuState) : MmuCall → Nat → MmuState
  | .allocateAndCommitPages n, result =>
      { s with commits := ⟨result >>> 12, n.val⟩ :: s.commits }
  | .allocateGpuMemory n, result =>
      { s with buffers := ⟨(result - 0xC0000000) >>> 12, n.val⟩ :: s.buffers }

/-- The state after a call that returns. -/
def next (s : MmuState) (call : MmuCall) : Option MmuState :=
  match s.outcome call with
  | .ok result s' => some (s'.returned call result)
  | .error _ _ => none

end MmuState

/-- The memory management of a board with any initial content of the memory. -/
def mmuSystem (board : Board) : System MmuState MmuCall where
  Initial s := ∃ physicalWords virtualWords memory,
    physicalMemoryAllocator.construct = .ok physicalWords ∧
    virtualMemoryAllocator.construct = .ok virtualWords ∧
    s = { physicalWords, virtualWords, l1 := board.l1PageTable, memory }
  next := MmuState.next

end RPiKernel.Mmu
