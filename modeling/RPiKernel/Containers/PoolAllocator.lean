import RPiKernel.Containers.FindConsecutiveZeros

/-!
# The pool allocator

A pool of `size` slots is described by two bitmaps: bit `i` of `bitmap` says
that slot `i` is taken, bit `i` of `starts` that a block begins there. Both are
kept together in one atomic word for each 64 slots. The last word of a pool
whose size is no multiple of 64 is filled up by the constructor.

## Implementation notes

Every access of the source to `Words` is one atomic step of a `Program`: plain
reads and atomic loads are `load`, `compare_exchange_strong` is
`compareExchange`, and the three kinds of `for (;;)` retry loops around a
compare-exchange are `compareExchangeLoop`. The other loops carry the number of
iterations still allowed and fault with `diverged` when it runs out. The retry
loop of `Allocate` itself is `allocateLoop` here and a transition of the
interleaved system in `PoolSystem`.
-/

namespace RPiKernel.Containers

open Interleaving Machine

/-- Two bitmaps of 64 slots, read and written together. -/
structure Word where
  bitmap : BitVec 64 := 0
  starts : BitVec 64 := 0
  deriving DecidableEq, Repr

/-- The template arguments of `PoolAllocator`. -/
structure PoolParameters where
  size : Nat
  name : String
  size_pos : 0 < size
  size_lt : size < 4294967296

namespace PoolParameters

/-- The number of words, in unsigned 32-bit arithmetic. -/
def wordCount (pool : PoolParameters) : Nat := add32 pool.size 63 / 64

/-- The constructor: the slots of the last word beyond the pool are taken by a
block of their own. -/
def construct (pool : PoolParameters) : Except Fault (List Word) :=
  let words := List.replicate pool.wordCount {}
  if pool.size % 64 ≠ 0 then
    if pool.size / 64 < words.length then do
      let bitmap ← shl uint64Max (pool.size % 64)
      let starts ← shl 1#64 (pool.size % 64)
      return words.set (pool.size / 64) { bitmap, starts }
    else
      throw .outOfBounds
  else
    return words

end PoolParameters

/-- A step of the search over the words of the pool. -/
def nextWordIndex (wordIndex alignment : Nat) : Nat :=
  let wordAlignment := add32 alignment 63 / 64
  let wordAlignmentMask := mul32 uint32Max wordAlignment
  add32 wordIndex wordAlignment &&& wordAlignmentMask

/-- The word with `count` more slots taken from `bitIndex` on, as one block. -/
def takeSlots (word : Word) (bitIndex count : Nat) : Except Fault Word := do
  let run ← shr uint64Max (sub32 64 count)
  let taken ← shl run bitIndex
  let start ← shl 1#64 bitIndex
  return { bitmap := word.bitmap ||| taken, starts := word.starts ||| start }

/-- The word with all slots from `bitIndex` on taken by a new block. -/
def takeRest (word : Word) (bitIndex : Nat) : Except Fault Word := do
  let taken ← shl uint64Max bitIndex
  let start ← shl 1#64 bitIndex
  return { bitmap := word.bitmap ||| taken, starts := word.starts ||| start }

/-- The undoing of `takeRest`. Shifting the signed maximum leaves out the top
slot of the word when `bitIndex` is zero. -/
def undoRest (bitIndex : Nat) (word : Word) : Except Fault Word := do
  let taken ← shl 0x7fffffffffffffff#64 bitIndex
  let start ← shl 1#64 bitIndex
  return { bitmap := word.bitmap &&& ~~~taken, starts := word.starts &&& ~~~start }

/-- The end of the scan after the first word of a long allocation. -/
inductive Probe where
  | exhausted
  | blocked (nextWordIndex : Nat)
  | free (nextWordIndex countRemaining : Nat)
  deriving DecidableEq, Repr

section Allocation

variable (pool : PoolParameters)

/-- Skip completely free words while whole words are needed. -/
def skipFreeWords : Nat → Nat → Nat → Program Word Probe
  | fuel, nextWordIndex, countRemaining =>
      if countRemaining ≥ 64 then
        match fuel with
        | 0 => .fault .diverged
        | fuel + 1 =>
            if nextWordIndex ≥ pool.wordCount then
              pure .exhausted
            else do
              let nextWord ← Program.read nextWordIndex
              if nextWord.bitmap ≠ 0 then
                return .blocked nextWordIndex
              skipFreeWords fuel (nextWordIndex + 1) (countRemaining - 64)
      else
        pure (.free nextWordIndex countRemaining)

/-- The scan after the first word, including the partial word at the end. -/
def probeWords (nextWordIndex countRemaining : Nat) : Program Word Probe := do
  match ← skipFreeWords pool pool.wordCount nextWordIndex countRemaining with
  | .free nextWordIndex countRemaining =>
      if countRemaining > 0 then
        if nextWordIndex ≥ pool.wordCount then
          return .exhausted
        let nextWordData ← Program.read nextWordIndex
        let wanted ← Program.ofExcept (shl nextWordData.bitmap (64 - countRemaining))
        if wanted ≠ 0 then
          return .blocked nextWordIndex
        return .free nextWordIndex countRemaining
      else
        return .free nextWordIndex countRemaining
  | probe => return probe

/-- Commit the whole words between the first and the last one. The result is
the word at which the loop stopped and whether a cleanup is needed. -/
def commitWords (nextWordIndex : Nat) : Nat → Nat → Program Word (Nat × Bool)
  | fuel, wordIndex =>
      if wordIndex < nextWordIndex then
        match fuel with
        | 0 => .fault .diverged
        | fuel + 1 =>
            .compareExchange wordIndex {} { bitmap := uint64Max } fun ok _ =>
              if ok then commitWords nextWordIndex fuel (wordIndex + 1)
              else .done (wordIndex, true)
      else
        .done (wordIndex, false)

/-- Free whole words backwards, down to but excluding `startWordIndex`. -/
def clearWords (startWordIndex : Nat) : Nat → Nat → Program Word Unit
  | fuel, wordIndex =>
      if wordIndex ≠ startWordIndex then
        match fuel with
        | 0 => .fault .diverged
        | fuel + 1 => .store wordIndex {} (clearWords startWordIndex fuel (sub32 wordIndex 1))
      else
        .done ()

/-- Undo a partial commit that stopped at `wordIndex`. -/
def rollback (startWordIndex bitIndex wordIndex : Nat) (newWord : Word) : Program Word Unit := do
  clearWords startWordIndex pool.wordCount (sub32 wordIndex 1)
  .compareExchangeLoop startWordIndex newWord (undoRest bitIndex) (.done ())

/-- Commit an allocation that begins in the word `wordIndex`, whose content was
read as `currentWord`, and needs `countRemaining` slots of `nextWordIndex`. -/
def commit (wordIndex bitIndex nextWordIndex countRemaining : Nat) (currentWord : Word) :
    Program Word (Nat × Bool) := do
  let result := add32 bitIndex (mul32 wordIndex 64)
  let newWord ← Program.ofExcept (takeRest currentWord bitIndex)
  .compareExchange wordIndex currentWord newWord fun ok _ =>
    if !ok then
      return (result, false)
    else do
      let (stopped, cleanupNeeded) ←
        commitWords nextWordIndex pool.wordCount (wordIndex + 1)
      if !cleanupNeeded && countRemaining = 0 then
        return (result, true)
      if cleanupNeeded then
        rollback pool wordIndex bitIndex stopped newWord
        return (result, false)
      let finalWord ← Program.read stopped
      let mask ← Program.ofExcept (shr uint64Max (64 - countRemaining))
      let finalWord := { bitmap := finalWord.bitmap &&& ~~~mask, starts := finalWord.starts &&& ~~~mask }
      .compareExchange stopped finalWord { finalWord with bitmap := finalWord.bitmap ||| mask }
        fun ok _ =>
          if ok then
            return (result, true)
          else do
            rollback pool wordIndex bitIndex stopped newWord
            return (result, false)

/-- The search over the words of the pool, from `wordIndex` on. -/
def searchWords (count alignment : Nat) : Nat → Nat → Program Word (Nat × Bool)
  | fuel, wordIndex =>
      if wordIndex < pool.wordCount then
        match fuel with
        | 0 => .fault .diverged
        | fuel + 1 => do
            let currentWord ← Program.read wordIndex
            if currentWord.bitmap = uint64Max then
              searchWords count alignment fuel (nextWordIndex wordIndex alignment)
            else
              let bitIndex ←
                Program.ofExcept (findConsecutiveZerosAligned currentWord.bitmap count alignment)
              if bitIndex = 64 then
                searchWords count alignment fuel (nextWordIndex wordIndex alignment)
              else if add32 bitIndex count ≤ 64 then
                let newWord ← Program.ofExcept (takeSlots currentWord bitIndex count)
                .compareExchange wordIndex currentWord newWord fun ok _ =>
                  .done (add32 bitIndex (mul32 wordIndex 64), ok)
              else
                match ← probeWords pool (wordIndex + 1) (sub32 count (64 - bitIndex)) with
                | .exhausted => return (uint32Max, true)
                | .blocked blockedIndex =>
                    searchWords count alignment fuel
                      (nextWordIndex (sub32 blockedIndex 1) alignment)
                | .free nextWordIndex countRemaining =>
                    commit pool wordIndex bitIndex nextWordIndex countRemaining currentWord
      else
        pure (uint32Max, true)

/-- One attempt at an allocation. The flag says whether the attempt was decisive;
otherwise it lost a race and is to be repeated from the given hint. -/
def allocateInternal (hint count alignment : Nat) : Program Word (Nat × Bool) :=
  if count = 0 then
    .fault (.panic (pool.name ++ " invalid allocation size"))
  else if alignment = 0 then
    .fault (.panic (pool.name ++ " invalid alignment"))
  else if alignment > 1 ∧ alignment &&& (alignment - 1) ≠ 0 then
    .fault (.panic (pool.name ++ " alignment must be a power of two"))
  else if hint &&& (alignment - 1) ≠ 0 then
    .fault (.panic (pool.name ++ " hint must be aligned to the alignment"))
  else
    searchWords pool count alignment pool.wordCount (hint / 64)

/-- The retry loop of `Allocate`, executed without interference. -/
def allocateLoop (count alignment : Nat) : Nat → Nat → List Word → Except Fault Nat × List Word
  | 0, _, words => (.error .diverged, words)
  | fuel + 1, hint, words =>
      match (allocateInternal pool hint count alignment).run words with
      | (.ok (result, true), words') => (.ok result, words')
      | (.ok (result, false), words') => allocateLoop count alignment fuel result words'
      | (.error e, words') => (.error e, words')

/-- `Allocate` without interference, where no attempt loses a race. -/
def allocate (count alignment : Nat) (words : List Word) : Except Fault Nat × List Word :=
  allocateLoop pool count alignment 1 0 words

end Allocation

section Deallocation

variable (pool : PoolParameters)

/-- An unsigned number in upper-case hexadecimal digits. -/
def hexDigits (n : Nat) : String :=
  String.ofList ((Nat.toDigits 16 n).map Char.toUpper)

/-- The loop of `GetBlockSize` over the words after the first one. -/
def extendBlock : Nat → Nat → Nat → Nat → Program Word Nat
  | fuel, wordIndex, position, count =>
      if position = 64 ∧ wordIndex + 1 < pool.wordCount then
        match fuel with
        | 0 => .fault .diverged
        | fuel + 1 => do
            let nextWord ← Program.read (wordIndex + 1)
            let position := countrOne (nextWord.bitmap ^^^ nextWord.starts)
            extendBlock fuel (wordIndex + 1) position (add32 count position)
      else
        pure count

/-- The number of slots of the block that starts at `blockStart`. -/
def getBlockSize (blockStart : Nat) : Program Word Nat :=
  if blockStart ≥ pool.size then
    .fault (.panic (pool.name ++ " invalid block start"))
  else do
    let wordIndex := blockStart / 64
    let bitIndex := blockStart % 64
    let currentWord ← Program.read wordIndex
    let start ← Program.ofExcept (shl 1#64 bitIndex)
    if currentWord.starts &&& start = 0 then
      .fault (.panic (pool.name ++ " trying to get size of a block 0x" ++ hexDigits blockStart ++
        " that is not allocated"))
    else
      let count ←
        if bitIndex + 1 < 64 then do
          let rest ← Program.ofExcept
            (shr (currentWord.bitmap ^^^ currentWord.starts) (bitIndex + 1))
          pure (1 + countrOne rest)
        else
          pure 1
      extendBlock pool pool.wordCount wordIndex (bitIndex + count) count

/-- One round of the loops of `Deallocate`: the slots outside `mask` have to be
taken, with exactly the starts `expected` among them, and are freed. -/
def releaseSlots (mask expected : BitVec 64) (word : Word) : Except Fault Word :=
  if word.bitmap &&& ~~~mask ≠ ~~~mask ∨ word.starts &&& ~~~mask ≠ expected then
    throw (.panic (pool.name ++ " trying to deallocate a block that is not allocated"))
  else
    return { bitmap := word.bitmap &&& mask, starts := word.starts &&& mask }

/-- The release of the slots outside `mask` of one word. -/
def releaseLoop (wordIndex : Nat) (mask expected : BitVec 64) : Program Word Unit := do
  let currentWord ← Program.read wordIndex
  .compareExchangeLoop wordIndex currentWord (releaseSlots pool mask expected) (.done ())

/-- The release of a block that reaches beyond its first word, backwards. -/
def releaseWords (startWordIndex bitIndex last : Nat) : Program Word Unit := do
  let wordIndex := sub32 last 1 / 64
  if wordIndex ≥ pool.wordCount then
    .fault (.panic (pool.name ++ " some math is wrong, we're trying to deallocate beyond the end of the pool"))
  else
    let wordIndex ←
      if last % 64 ≠ 0 then do
        let mask ← Program.ofExcept (shl uint64Max (last % 64))
        releaseLoop pool wordIndex mask 0
        pure (sub32 wordIndex 1)
      else
        pure wordIndex
    clearWords startWordIndex pool.wordCount wordIndex
    let rest ← Program.ofExcept (shl uint64Max bitIndex)
    let start ← Program.ofExcept (shl 1#64 bitIndex)
    releaseLoop pool startWordIndex (~~~rest) start

/-- The release of the block that starts at `start`. -/
def deallocate (start : Nat) : Program Word Unit :=
  if start ≥ pool.size then
    .fault (.panic (pool.name ++ " invalid deallocation start"))
  else do
    let count ← getBlockSize pool start
    let wordIndex := start / 64
    let bitIndex := start % 64
    if add32 bitIndex count ≤ 64 then
      let run ← Program.ofExcept (shr uint64Max (sub32 64 count))
      let block ← Program.ofExcept (shl run bitIndex)
      let first ← Program.ofExcept (shl 1#64 bitIndex)
      releaseLoop pool wordIndex (~~~block) first
    else
      releaseWords pool wordIndex bitIndex (add32 start count)

end Deallocation

end RPiKernel.Containers
