import RPiKernel.Containers.PoolSequential
import RPiKernel.Transition.System

/-!
# The heap

A heap has up to 256 blocks of 64 KB, in each of which a pool allocator hands out units
of 16 bytes. `AllocateAligned` tries the blocks in use from a hint on, and adds a block
when none of them has space.

## Implementation notes

The calls run one after another, so a compare-exchange fails only where the value that it
expects is stale. `AllocateAndCommitPages` is a parameter: the address that each of its
calls returns. A null pointer is zero, and an address has no upper bound. An access to a
block beyond `MaxBlocks` faults, as does a search of more passes than it is given.
-/

namespace RPiKernel.Heaps

open Interleaving Machine Containers Intervals Transition

def pageSize : Nat := 4096

def pagesPerBlock : Nat := 16

def blockSize : Nat := pageSize * pagesPerBlock

def allocationGranularity : Nat := 16

def allocationsPerBlock : Nat := blockSize / allocationGranularity

def maxBlocks : Nat := 256

/-- The pool of each block. -/
def blockAllocator : PoolParameters where
  size := allocationsPerBlock
  name := "HeapPool"
  size_pos := by decide
  size_lt := by decide

structure Block where
  memory : Nat := 0
  allocator : List Word := List.replicate blockAllocator.wordCount {}

/-- The heap, and how many blocks of pages it has been given. -/
structure Heap where
  blocks : Nat → Block := fun _ => {}
  blockCount : Nat := 0
  allocationHint : Nat := 0
  committed : Nat := 0

/-- What ends a call without a result: a panic, with its format and arguments, a fault of the
pool, an access beyond the blocks, or a search that goes on for too long. -/
inductive HeapFault where
  | panic (format : String) (arguments : List Nat)
  | pool (fault : Fault)
  | outOfBounds
  | diverged
  deriving DecidableEq, Repr

/-- A block of the array. -/
def Heap.block (heap : Heap) (i : Nat) : Except HeapFault Block :=
  if i < maxBlocks then .ok (heap.blocks i) else .error .outOfBounds

def Heap.setBlock (heap : Heap) (i : Nat) (block : Block) : Heap :=
  { heap with blocks := Function.update heap.blocks i block }

section Allocation

variable (pages : Nat → Nat)

/-- `AllocateAndCommitBlockIfNeeded`: the memory of the block, which is null when no pages are
given. -/
def allocateAndCommitBlockIfNeeded (heap : Heap) (i : Nat) : Except HeapFault (Nat × Heap) :=
  match heap.block i with
  | .error fault => .error fault
  | .ok block =>
      if block.memory ≠ 0 then
        .ok (block.memory, heap)
      else
        let newMemory := pages heap.committed
        let heap := { heap with committed := heap.committed + 1 }
        if newMemory = 0 then
          .ok (0, heap)
        else
          .ok (newMemory, heap.setBlock i { block with memory := newMemory })

/-- `AllocateInBlock`: the address, which is null when there is none. -/
def allocateInBlock (heap : Heap) (i sizeInUnits alignmentInUnits : Nat) :
    Except HeapFault (Nat × Heap) :=
  match allocateAndCommitBlockIfNeeded pages heap i with
  | .error fault => .error fault
  | .ok (memory, heap) =>
      if memory = 0 then
        .ok (0, heap)
      else
        match heap.block i with
        | .error fault => .error fault
        | .ok block =>
            match allocate blockAllocator sizeInUnits alignmentInUnits block.allocator with
            | (.error fault, _) => .error (.pool fault)
            | (.ok allocationIndex, words) =>
                let heap := heap.setBlock i { block with allocator := words }
                if allocationIndex = uint32Max then
                  .ok (0, heap)
                else
                  .ok (block.memory + mul32 allocationIndex allocationGranularity, heap)

/-- The attempts of one pass, of which `left` are left: the address found, with the hint set. -/
def tryBlocks (blockCount unitsNeeded alignmentUnits : Nat) :
    Nat → Nat → Heap → Except HeapFault (Option Nat × Heap)
  | 0, _, heap => .ok (none, heap)
  | left + 1, blockIndex, heap =>
      let next := if blockIndex + 1 ≥ blockCount then 0 else blockIndex + 1
      match allocateInBlock pages heap blockIndex unitsNeeded alignmentUnits with
      | .error fault => .error fault
      | .ok (result, heap) =>
          if result ≠ 0 then
            .ok (some result, { heap with allocationHint := next })
          else
            tryBlocks blockCount unitsNeeded alignmentUnits left next heap

/-- The loop over the passes, with the local block count and block index. -/
def allocatePasses (unitsNeeded alignmentUnits : Nat) :
    Nat → Nat → Nat → Heap → Except HeapFault (Nat × Heap)
  | 0, _, _, _ => .error .diverged
  | passes + 1, blockCount, blockIndex, heap =>
      if blockIndex < maxBlocks then
        match tryBlocks pages blockCount unitsNeeded alignmentUnits heap.blockCount blockIndex
            heap with
        | .error fault => .error fault
        | .ok (some result, heap) => .ok (result, heap)
        | .ok (none, heap) =>
            if blockCount ≥ maxBlocks then
              .error (.panic "Heap::AllocateAligned: no space available" [])
            else if heap.blockCount = blockCount then
              -- the exchange succeeds, and the local count stays behind
              allocatePasses unitsNeeded alignmentUnits passes blockCount blockCount
                { heap with blockCount := blockCount + 1 }
            else
              allocatePasses unitsNeeded alignmentUnits passes heap.blockCount blockCount heap
      else
        .error (.panic "Heap::AllocateAligned: no space available after trying all blocks" [])

/-- A size or an alignment in units, rounded up in 64 bits and stored in 32. -/
def unitsOf (size : Nat) : Nat := (size + (allocationGranularity - 1)) % 2 ^ 64 / 16 % 2 ^ 32

/-- `AllocateAligned`. -/
def allocateAligned (size alignment : Nat) (heap : Heap) : Except HeapFault (Nat × Heap) :=
  if size = 0 ∨ alignment = 0 then
    .error (.panic "Heap::AllocateAligned: invalid parameters" [])
  else
    let unitsNeeded := unitsOf size
    let alignmentUnits := unitsOf alignment
    if unitsNeeded > allocationsPerBlock then
      .error (.panic "Heap::AllocateAligned: size %zu exceeds maximum allocation size of %zu"
        [size, allocationsPerBlock * allocationGranularity])
    else
      allocatePasses pages unitsNeeded alignmentUnits (2 * maxBlocks) heap.blockCount
        (heap.allocationHint % heap.blockCount) heap

end Allocation

/-- The search of `Deallocate` from the block `i` on, with `left` blocks left. -/
def deallocateFrom (ptr : Nat) (heap : Heap) : Nat → Nat → Except HeapFault Heap
  | 0, _ => .error (.panic "Heap::Deallocate: invalid pointer %p" [ptr])
  | left + 1, i =>
      match heap.block i with
      | .error fault => .error fault
      | .ok block =>
          if block.memory = 0 then
            deallocateFrom ptr heap left (i + 1)
          else if block.memory ≤ ptr ∧ ptr < block.memory + blockSize then
            match (deallocate blockAllocator ((ptr - block.memory) / allocationGranularity)).run
                block.allocator with
            | (.error fault, _) => .error (.pool fault)
            | (.ok _, words) => .ok (heap.setBlock i { block with allocator := words })
          else
            deallocateFrom ptr heap left (i + 1)

/-- `Deallocate` of the heap. -/
def deallocatePointer (ptr : Nat) (heap : Heap) : Except HeapFault Heap :=
  if ptr = 0 then .ok heap else deallocateFrom ptr heap heap.blockCount 0

/-- A pointer that `AllocateAligned` has returned, with the size asked for. -/
structure Allocation where
  pointer : Nat
  size : Nat
  deriving DecidableEq, Repr

namespace Allocation

/-- The allocation holds a byte. -/
def Holds (a : Allocation) (address : Nat) : Prop :=
  a.pointer ≤ address ∧ address < a.pointer + a.size

/-- Two allocations without a common byte. -/
def Apart (a b : Allocation) : Prop :=
  a.pointer + a.size ≤ b.pointer ∨ b.pointer + b.size ≤ a.pointer

end Allocation

/-- The heap and the live pointers. -/
structure HeapState where
  heap : Heap := {}
  live : List Allocation := []

inductive HeapAction where
  | allocateAligned (size alignment : Nat)
  | deallocate (a : Allocation)

/-- The calls on a heap from `CreateHeap` on. -/
def heapSystem (pages : Nat → Nat) : System HeapState HeapAction where
  Initial s := s = {}
  next s
    | .allocateAligned size alignment =>
        match allocateAligned pages size alignment s.heap with
        | .ok (pointer, heap) => some { heap, live := ⟨pointer, size⟩ :: s.live }
        | .error _ => none
    | .deallocate a =>
        match deallocatePointer a.pointer s.heap with
        | .ok heap => some { heap, live := s.live.erase a }
        | .error _ => none

end RPiKernel.Heaps
