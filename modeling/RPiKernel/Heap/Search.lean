import RPiKernel.Heap.Blocks

/-!
# The search for a block

`Backed` is what every call keeps: the blocks in use have their pages, and every pool stands
for its runs of units. `Backed.allocateAligned_cases` says from which block a request is met.
-/

namespace RPiKernel.Heaps

open Interleaving Machine Containers Intervals Transition

/-- The blocks in use have their pages, and every pool stands for its runs of units. -/
structure Backed (pages : Nat → Nat) (heap : Heap) (spans : Nat → List Span) : Prop where
  blockCount_le : heap.blockCount ≤ maxBlocks
  hint_lt : heap.allocationHint < maxBlocks
  committed_eq : heap.committed = heap.blockCount
  memory_eq : ∀ i < heap.blockCount, (heap.blocks i).memory = pages i
  unused : ∀ i, heap.blockCount ≤ i → (heap.blocks i).memory = 0 ∧ spans i = []
  represents : ∀ i, Represents blockAllocator (heap.blocks i).allocator (spans i)

section Units

theorem blockSize_eq : blockSize = 65536 := rfl

theorem size_blockAllocator : blockAllocator.size = 4096 := rfl

variable {size : Nat}

/-- A size is rounded up. -/
theorem unitsOf_eq (h : size ≤ 65536) : unitsOf size = (size + 15) / 16 := by
  rw [unitsOf, allocationGranularity]
  omega

theorem unitsOf_pos (hpos : 0 < size) (h : size ≤ 65536) : 0 < unitsOf size := by
  rw [unitsOf_eq h]
  omega

theorem unitsOf_le (h : size ≤ 65536) : unitsOf size ≤ 4096 := by
  rw [unitsOf_eq h]
  omega

/-- An alignment that is a power of two is one in units. -/
theorem unitsOf_alignment {k : Nat} (hk : k ≤ 12) : IsPowerOfTwo (unitsOf (2 ^ k)) := by
  have hcases : ∀ k ≤ 12, unitsOf (2 ^ k) = 2 ^ (k - 4) := by decide
  exact ⟨k - 4, by omega, hcases k hk⟩

end Units

section Blocks

variable {pages : Nat → Nat} {heap : Heap} {spans : Nat → List Span} {i units alignment : Nat}
  {words : List Word}

@[simp] theorem setBlock_self {block : Block} : (heap.setBlock i block).blocks i = block :=
  Function.update_self ..

theorem setBlock_of_ne {j : Nat} {block : Block} (hj : j ≠ i) :
    (heap.setBlock i block).blocks j = heap.blocks j := Function.update_of_ne hj ..

theorem setBlock_eq_self : heap.setBlock i (heap.blocks i) = heap := by
  rw [Heap.setBlock, Function.update_eq_self]

/-- The pool of a block in use changes. -/
theorem Backed.setAllocator (h : Backed pages heap spans) (hi : i < heap.blockCount)
    {runs : List Span} (hrep : Represents blockAllocator words runs) :
    Backed pages (heap.setBlock i { heap.blocks i with allocator := words })
      (Function.update spans i runs) := by
  constructor
  case blockCount_le => exact h.blockCount_le
  case hint_lt => exact h.hint_lt
  case committed_eq => exact h.committed_eq
  case memory_eq =>
    intro j hj
    by_cases hji : j = i
    · rw [hji, setBlock_self]
      exact h.memory_eq i hi
    · rw [setBlock_of_ne hji]
      exact h.memory_eq j hj
  case unused =>
    intro j hj
    have hji : j ≠ i := fun heq => absurd hi (Nat.not_lt.mpr (heq ▸ hj))
    rw [setBlock_of_ne hji, Function.update_of_ne hji]
    exact h.unused j hj
  case represents =>
    intro j
    by_cases hji : j = i
    · rw [hji, setBlock_self, Function.update_self]
      exact hrep
    · rw [setBlock_of_ne hji, Function.update_of_ne hji]
      exact h.represents j

/-- A block with pages keeps them. -/
theorem allocateAndCommitBlockIfNeeded_committed (hi : i < maxBlocks)
    (hmemory : (heap.blocks i).memory ≠ 0) :
    allocateAndCommitBlockIfNeeded pages heap i = .ok ((heap.blocks i).memory, heap) := by
  rw [allocateAndCommitBlockIfNeeded, Heap.block, if_pos hi]
  dsimp only
  rw [if_pos hmemory]

/-- A request in a block with pages finds the first fit, or there is none. -/
theorem allocateInBlock_cases (hrep : Represents blockAllocator (heap.blocks i).allocator (spans i))
    (hi : i < maxBlocks) (hmemory : (heap.blocks i).memory ≠ 0) (hpos : 0 < units)
    (hle : units ≤ 4096) (halignment : IsPowerOfTwo alignment) :
    (allocateInBlock pages heap i units alignment = .ok (0, heap) ∧
      NoFit (heap.blocks i).allocator units alignment) ∨
    ∃ r words, allocateInBlock pages heap i units alignment =
        .ok ((heap.blocks i).memory + 16 * r,
          heap.setBlock i { heap.blocks i with allocator := words }) ∧
      FirstFit (heap.blocks i).allocator units alignment r ∧ r + units ≤ 4096 ∧
      Represents blockAllocator words (⟨r, units⟩ :: spans i) := by
  have hblock : heap.block i = .ok (heap.blocks i) := if_pos hi
  rw [allocateInBlock, allocateAndCommitBlockIfNeeded_committed hi hmemory]
  dsimp only
  rw [if_neg hmemory, hblock]
  dsimp only
  rcases allocate_spec hrep hpos hle halignment with ⟨hrun, hnone⟩ | ⟨r, words, hrun, hfit, hrep'⟩
  · refine Or.inl ⟨?_, hnone⟩
    rw [hrun]
    dsimp only
    rw [if_pos rfl, setBlock_eq_self]
  · have hlast := hrep'.inside (List.mem_cons_self ..)
    have hstop : (⟨r, units⟩ : Span).stop = r + units := rfl
    rw [hstop, size_blockAllocator] at hlast
    have hne : r ≠ uint32Max := by
      simp only [uint32Max]
      omega
    have hmul : mul32 r allocationGranularity = 16 * r := by
      rw [mul32, allocationGranularity]
      omega
    refine Or.inr ⟨r, words, ?_, hfit, hlast, hrep'⟩
    rw [hrun]
    dsimp only
    rw [if_neg hne, hmul]

/-- A request of no units, or with an alignment that is no power of two, panics in a block. -/
theorem allocateInBlock_panics (hi : i < maxBlocks) (hmemory : (heap.blocks i).memory ≠ 0)
    (hlt : alignment < 4294967296) (hrefused : units = 0 ∨ ¬ IsPowerOfTwo alignment) :
    ∃ message, allocateInBlock pages heap i units alignment =
      .error (.pool (.panic message)) := by
  have hblock : heap.block i = .ok (heap.blocks i) := if_pos hi
  obtain ⟨message, hrun⟩ : ∃ message, allocate blockAllocator units alignment
      (heap.blocks i).allocator = (.error (.panic message), (heap.blocks i).allocator) :=
    allocate_panics hlt hrefused
  refine ⟨message, ?_⟩
  rw [allocateInBlock, allocateAndCommitBlockIfNeeded_committed hi hmemory]
  dsimp only
  rw [if_neg hmemory, hblock]
  dsimp only
  rw [hrun]

/-- The heap after its next block has been committed. -/
def Heap.addBlock (heap : Heap) (pages : Nat → Nat) : Heap :=
  { heap.setBlock heap.blockCount
      { heap.blocks heap.blockCount with memory := pages heap.blockCount } with
    blockCount := heap.blockCount + 1
    committed := heap.blockCount + 1 }

theorem Backed.addBlock (h : Backed pages heap spans) (hlt : heap.blockCount < maxBlocks) :
    Backed pages (heap.addBlock pages) spans := by
  have hself : (heap.addBlock pages).blocks heap.blockCount =
      { heap.blocks heap.blockCount with memory := pages heap.blockCount } := setBlock_self
  have hother : ∀ {j}, j ≠ heap.blockCount → (heap.addBlock pages).blocks j = heap.blocks j :=
    fun hj => setBlock_of_ne hj
  constructor
  case blockCount_le => exact hlt
  case hint_lt => exact h.hint_lt
  case committed_eq => rfl
  case memory_eq =>
    intro j hj
    rcases Nat.lt_or_eq_of_le (Nat.le_of_lt_succ hj) with hj | rfl
    · rw [hother (Nat.ne_of_lt hj)]
      exact h.memory_eq j hj
    · rw [hself]
  case unused =>
    intro j hj
    rw [hother (Nat.ne_of_gt hj)]
    exact h.unused j (Nat.le_of_lt hj)
  case represents =>
    intro j
    by_cases hj : j = heap.blockCount
    · rw [hj, hself]
      exact h.represents _
    · rw [hother hj]
      exact h.represents j

/-- The first request in a new block commits it. -/
theorem Backed.allocateInBlock_new (h : Backed pages heap spans)
    (hnonnull : pages heap.blockCount ≠ 0) (hlt : heap.blockCount < maxBlocks) :
    allocateInBlock pages { heap with blockCount := heap.blockCount + 1 } heap.blockCount units
        alignment =
      allocateInBlock pages (heap.addBlock pages) heap.blockCount units alignment := by
  have hnull := (h.unused heap.blockCount le_rfl).1
  have hself : (heap.addBlock pages).blocks heap.blockCount =
      { heap.blocks heap.blockCount with memory := pages heap.blockCount } := setBlock_self
  have hmemory : ((heap.addBlock pages).blocks heap.blockCount).memory = pages heap.blockCount := by
    rw [hself]
  have hnew : allocateAndCommitBlockIfNeeded pages { heap with blockCount := heap.blockCount + 1 }
      heap.blockCount = .ok (pages heap.blockCount, heap.addBlock pages) := by
    rw [allocateAndCommitBlockIfNeeded, Heap.block, if_pos hlt]
    dsimp only
    rw [if_neg (not_not.mpr hnull), h.committed_eq, if_neg hnonnull]
    rfl
  have hold : allocateAndCommitBlockIfNeeded pages (heap.addBlock pages) heap.blockCount =
      .ok (pages heap.blockCount, heap.addBlock pages) := by
    rw [allocateAndCommitBlockIfNeeded_committed hlt (hmemory ▸ hnonnull), hmemory]
  rw [allocateInBlock, hnew, allocateInBlock, hold]

/-- A new block has space for every request. -/
theorem fits_new (hrep : Represents blockAllocator words []) (hle : units ≤ 4096) :
    ¬ NoFit words units alignment := by
  intro hnone
  refine hnone 0 (Nat.zero_mod _) (hrep.freeRun_iff.mpr fun j _ hj => ⟨?_, fun b hb => by cases hb⟩)
  rw [size_blockAllocator]
  omega

end Blocks

section Search

variable {pages : Nat → Nat} {heap heap' : Heap} {spans : Nat → List Span}
  {units alignment : Nat}

/-- The block that a search tries after `j` others. -/
def Heap.tried (heap : Heap) (j : Nat) : Nat :=
  (heap.allocationHint % heap.blockCount + j) % heap.blockCount

/-- A request is met from the first block in the order of the search that has a fit, and from a
new block when none has one. -/
def ServedFrom (heap : Heap) (units alignment i : Nat) : Prop :=
  (∃ j < heap.blockCount, i = heap.tried j ∧
    ¬ NoFit (heap.blocks i).allocator units alignment ∧
    ∀ j' < j, NoFit (heap.blocks (heap.tried j')).allocator units alignment) ∨
  (i = heap.blockCount ∧ i < maxBlocks ∧
    ∀ j < heap.blockCount, NoFit (heap.blocks j).allocator units alignment)

/-- A request needs a new block, and there can be one. -/
def NeedsBlock (heap : Heap) (units alignment : Nat) : Prop :=
  heap.blockCount < maxBlocks ∧
    ∀ j < heap.blockCount, NoFit (heap.blocks j).allocator units alignment

/-- Units have been found in block `i`, which is in use. -/
structure Found (pages : Nat → Nat) (heap : Heap) (spans : Nat → List Span) (units alignment : Nat)
    (i result : Nat) (heap' : Heap) : Prop where
  inUse : i < heap.blockCount
  taken : ∃ r words, ∃ hint < maxBlocks,
    result = pages i + 16 * r ∧
      heap' = { heap.setBlock i { heap.blocks i with allocator := words } with
        allocationHint := hint } ∧
      FirstFit (heap.blocks i).allocator units alignment r ∧ r + units ≤ 4096 ∧
      Represents blockAllocator words (⟨r, units⟩ :: spans i)

theorem Found.not_noFit {i result : Nat}
    (h : Found pages heap spans units alignment i result heap') :
    ¬ NoFit (heap.blocks i).allocator units alignment := by
  obtain ⟨r, -, -, -, -, -, hfit, -⟩ := h.taken
  exact fun hnone => hnone r hfit.1 hfit.2.1

/-- Any hint below the number of blocks will do. -/
theorem Backed.withHint (h : Backed pages heap spans) {hint : Nat} (hlt : hint < maxBlocks) :
    Backed pages { heap with allocationHint := hint } spans :=
  ⟨h.blockCount_le, hlt, h.committed_eq, h.memory_eq, h.unused, h.represents⟩

/-- The heap in which units have been found is backed. -/
theorem Backed.found (h : Backed pages heap spans) {i result : Nat}
    (hfound : Found pages heap spans units alignment i result heap') :
    ∃ spans', Backed pages heap' spans' := by
  obtain ⟨r, words, hint, hhint, -, rfl, -, -, hrep⟩ := hfound.taken
  exact ⟨_, (h.setAllocator hfound.inUse hrep).withHint hhint⟩

/-- A pass as long as the number of blocks misses none. -/
theorem noFit_all {start n : Nat} {words : Nat → List Word} (hstart : start < n)
    (hall : ∀ j < n, NoFit (words ((start + j) % n)) units alignment) :
    ∀ i < n, NoFit (words i) units alignment := by
  intro i hi
  have hfit := hall ((i + (n - start)) % n) (Nat.mod_lt _ (by omega))
  have hindex : (start + (i + (n - start)) % n) % n = i := by
    rw [Nat.add_mod_mod, show start + (i + (n - start)) = i + n by omega, Nat.add_mod_right,
      Nat.mod_eq_of_lt hi]
  rwa [hindex] at hfit

/-- What `AllocateAligned` does with a request that has a number of units of its own: a size or
an alignment of zero and a number above that of a block panic. -/
theorem allocateAligned_eq {size alignment : Nat} (hsize : size ≠ 0) (halignment : alignment ≠ 0)
    (hle : unitsOf size ≤ allocationsPerBlock) :
    allocateAligned pages size alignment heap =
      allocatePasses pages (unitsOf size) (unitsOf alignment) (510 + 2) heap.blockCount
        (heap.allocationHint % heap.blockCount) heap := by
  rw [allocateAligned, if_neg (by omega)]
  dsimp only
  rw [if_neg (Nat.not_lt.mpr hle)]
  rfl

section Attempts

variable (h : Backed pages heap spans) (hnonnull : ∀ k < maxBlocks, pages k ≠ 0)
include h hnonnull

/-- An attempt at a block in use. -/
theorem Backed.attempt (hpos : 0 < units) (hle : units ≤ 4096)
    (halignment : IsPowerOfTwo alignment) {i : Nat} (hi : i < heap.blockCount)
    {blockCount : Nat} (hcount : blockCount ≤ maxBlocks) (left : Nat) :
    (NoFit (heap.blocks i).allocator units alignment ∧
      tryBlocks pages blockCount units alignment (left + 1) i heap =
        tryBlocks pages blockCount units alignment left
          (if i + 1 ≥ blockCount then 0 else i + 1) heap) ∨
    ∃ result heap', tryBlocks pages blockCount units alignment (left + 1) i heap =
        .ok (some result, heap') ∧ Found pages heap spans units alignment i result heap' := by
  have hmax : i < maxBlocks := Nat.lt_of_lt_of_le hi h.blockCount_le
  have hmemory := h.memory_eq i hi
  have hnonnull := hnonnull i hmax
  rw [tryBlocks]
  rcases allocateInBlock_cases (h.represents i) hmax (hmemory ▸ hnonnull) hpos hle halignment with
    ⟨hrun, hnone⟩ | ⟨r, words, hrun, hfit, hend, hrep⟩
  · refine Or.inl ⟨hnone, ?_⟩
    rw [hrun]
    dsimp only
    rw [if_neg (not_not.mpr rfl)]
  · rw [hmemory] at hrun
    have hne : pages i + 16 * r ≠ 0 := by omega
    have hhint : (if i + 1 ≥ blockCount then 0 else i + 1) < maxBlocks := by
      split <;> omega
    refine Or.inr ⟨pages i + 16 * r, _, ?_,
      ⟨hi, r, words, _, hhint, rfl, rfl, hfit, hend, hrep⟩⟩
    rw [hrun]
    dsimp only
    rw [if_pos hne]

/-- A pass over the blocks in use: units are found in the first block with a fit, or none of
the blocks has one. -/
theorem Backed.tryBlocks_cases (hpos : 0 < units) (hle : units ≤ 4096)
    (halignment : IsPowerOfTwo alignment) (left start : Nat) (hstart : start < heap.blockCount) :
    (tryBlocks pages heap.blockCount units alignment left start heap = .ok (none, heap) ∧
      ∀ j < left, NoFit (heap.blocks ((start + j) % heap.blockCount)).allocator units alignment) ∨
    ∃ j < left, (∀ j' < j,
        NoFit (heap.blocks ((start + j') % heap.blockCount)).allocator units alignment) ∧
      ∃ result heap', tryBlocks pages heap.blockCount units alignment left start heap =
          .ok (some result, heap') ∧
        Found pages heap spans units alignment ((start + j) % heap.blockCount) result heap' := by
  induction left generalizing start with
  | zero => exact Or.inl ⟨rfl, fun j hj => absurd hj (Nat.not_lt_zero j)⟩
  | succ left ih =>
      have hself : (start + 0) % heap.blockCount = start := by
        rw [Nat.add_zero, Nat.mod_eq_of_lt hstart]
      rcases h.attempt hnonnull hpos hle halignment hstart h.blockCount_le left with
        ⟨hnone, hrest⟩ | ⟨result, heap', hrun, hfound⟩
      · have hnext : (if start + 1 ≥ heap.blockCount then 0 else start + 1) =
            (start + 1) % heap.blockCount := by
          split
          · rw [show start + 1 = heap.blockCount by omega, Nat.mod_self]
          · rw [Nat.mod_eq_of_lt (by omega)]
        have hshift : ∀ j, ((start + 1) % heap.blockCount + j) % heap.blockCount =
            (start + (j + 1)) % heap.blockCount := by
          intro j
          rw [Nat.mod_add_mod, Nat.add_assoc, Nat.add_comm 1 j]
        -- the attempts after the first one are those of a shorter pass
        have hbefore : ∀ n, (∀ j < n,
            NoFit (heap.blocks (((start + 1) % heap.blockCount + j) % heap.blockCount)).allocator
              units alignment) →
            ∀ j < n + 1, NoFit (heap.blocks ((start + j) % heap.blockCount)).allocator units
              alignment := by
          intro n hall j hj
          cases j with
          | zero =>
              rw [hself]
              exact hnone
          | succ j =>
              rw [← hshift]
              exact hall j (by omega)
        rw [hrest, hnext]
        rcases ih ((start + 1) % heap.blockCount) (Nat.mod_lt _ (by omega)) with
          ⟨hrun, hall⟩ | ⟨j, hj, hall, result, heap', hrun, hfound⟩
        · exact Or.inl ⟨hrun, hbefore left hall⟩
        · rw [hshift] at hfound
          exact Or.inr ⟨j + 1, by omega, hbefore j hall, result, heap', hrun, hfound⟩
      · refine Or.inr ⟨0, by omega, fun j hj => absurd hj (Nat.not_lt_zero j), result, heap',
          hrun, ?_⟩
        rw [hself]
        exact hfound

/-- The pass after a block has been added finds units in it. -/
theorem Backed.allocatePasses_new (hpos : 0 < units) (hle : units ≤ 4096)
    (halignment : IsPowerOfTwo alignment) (hlt : heap.blockCount < maxBlocks) (passes : Nat) :
    ∃ result heap', allocatePasses pages units alignment (passes + 1) heap.blockCount
        heap.blockCount { heap with blockCount := heap.blockCount + 1 } = .ok (result, heap') ∧
      Found pages (heap.addBlock pages) spans units alignment heap.blockCount result heap' := by
  have hadded := h.addBlock hlt
  have hin : heap.blockCount < (heap.addBlock pages).blockCount := Nat.lt_succ_self _
  have hspans := (h.unused heap.blockCount le_rfl).2
  have hfits : ¬ NoFit ((heap.addBlock pages).blocks heap.blockCount).allocator units alignment :=
    fits_new (hspans ▸ hadded.represents heap.blockCount) hle
  rcases hadded.attempt hnonnull hpos hle halignment hin h.blockCount_le heap.blockCount with
    ⟨hnone, -⟩ | ⟨result, heap', hrun, hfound⟩
  · exact absurd hnone hfits
  · refine ⟨result, heap', ?_, hfound⟩
    rw [allocatePasses, if_pos hlt]
    dsimp only
    rw [tryBlocks] at hrun ⊢
    rw [h.allocateInBlock_new (hnonnull _ hlt) hlt, hrun]

/-- A request that no pool accepts panics at the first block that is tried. -/
theorem Backed.allocatePasses_panics (hlt : alignment < 4294967296)
    (hrefused : units = 0 ∨ ¬ IsPowerOfTwo alignment) (passes : Nat) :
    ∃ message, allocatePasses pages units alignment (passes + 2) heap.blockCount
      (heap.allocationHint % heap.blockCount) heap = .error (.pool (.panic message)) := by
  have hmax := h.blockCount_le
  -- an attempt at a block of a heap with pages
  have hattempt : ∀ {heap : Heap} {spans : Nat → List Span}, Backed pages heap spans →
      ∀ {i}, i < heap.blockCount → ∃ message,
        allocateInBlock pages heap i units alignment = .error (.pool (.panic message)) := by
    intro heap spans h i hi
    have hi' : i < maxBlocks := Nat.lt_of_lt_of_le hi h.blockCount_le
    exact allocateInBlock_panics hi' (h.memory_eq i hi ▸ hnonnull i hi') hlt hrefused
  by_cases hzero : heap.blockCount = 0
  · have hfirst : heap.allocationHint % heap.blockCount < maxBlocks := by
      rw [hzero, Nat.mod_zero]
      exact h.hint_lt
    have hspace : heap.blockCount < maxBlocks := by
      rw [hzero]
      decide
    have hnone : tryBlocks pages heap.blockCount units alignment heap.blockCount
        (heap.allocationHint % heap.blockCount) heap = .ok (none, heap) := by
      rw [hzero, tryBlocks]
    obtain ⟨message, hrun⟩ := hattempt (h.addBlock hspace) (Nat.lt_succ_self heap.blockCount)
    refine ⟨message, ?_⟩
    rw [allocatePasses, if_pos hfirst, hnone]
    dsimp only
    rw [if_neg (Nat.not_le.mpr hspace), if_pos rfl, allocatePasses, if_pos hspace]
    dsimp only
    rw [tryBlocks, h.allocateInBlock_new (hnonnull _ hspace) hspace, hrun]
  · have hin : heap.allocationHint % heap.blockCount < heap.blockCount :=
      Nat.mod_lt _ (Nat.pos_of_ne_zero hzero)
    obtain ⟨message, hrun⟩ := hattempt h hin
    obtain ⟨n, hn⟩ := Nat.exists_eq_succ_of_ne_zero hzero
    refine ⟨message, ?_⟩
    rw [allocatePasses, if_pos (Nat.lt_of_lt_of_le hin hmax)]
    have htry : tryBlocks pages heap.blockCount units alignment heap.blockCount
        (heap.allocationHint % heap.blockCount) heap = .error (.pool (.panic message)) := by
      conv_lhs => rw [hn]
      rw [tryBlocks, ← hn, hrun]
    rw [htry]

/-- A request is met from the block that it is served from, or every block is in use and has
no fit. -/
theorem Backed.allocateAligned_cases {size alignment : Nat} (hsize : size ≠ 0)
    (halignment : alignment ≠ 0) (hpos : 0 < unitsOf size) (hle : unitsOf size ≤ 4096)
    (hpower : IsPowerOfTwo (unitsOf alignment)) :
    (∃ i base result heap', ServedFrom heap (unitsOf size) (unitsOf alignment) i ∧
      (base = heap ∨
        base = heap.addBlock pages ∧ NeedsBlock heap (unitsOf size) (unitsOf alignment)) ∧
      allocateAligned pages size alignment heap = .ok (result, heap') ∧
      Found pages base spans (unitsOf size) (unitsOf alignment) i result heap') ∨
    (allocateAligned pages size alignment heap =
        .error (.panic "Heap::AllocateAligned: no space available" []) ∧
      heap.blockCount = maxBlocks ∧
      ∀ i < maxBlocks,
        NoFit (heap.blocks i).allocator (unitsOf size) (unitsOf alignment)) := by
  have hstart : allocateAligned pages size alignment heap =
      allocatePasses pages (unitsOf size) (unitsOf alignment) (510 + 2) heap.blockCount
        (heap.allocationHint % heap.blockCount) heap :=
    allocateAligned_eq hsize halignment hle
  have hmax := h.blockCount_le
  -- the pass over a new block
  have hnew : (∀ j < heap.blockCount,
      NoFit (heap.blocks j).allocator (unitsOf size) (unitsOf alignment)) →
      heap.blockCount < maxBlocks → ∃ i base result heap',
      ServedFrom heap (unitsOf size) (unitsOf alignment) i ∧
      (base = heap ∨
        base = heap.addBlock pages ∧ NeedsBlock heap (unitsOf size) (unitsOf alignment)) ∧
      allocatePasses pages (unitsOf size) (unitsOf alignment) (510 + 1) heap.blockCount
        heap.blockCount { heap with blockCount := heap.blockCount + 1 } = .ok (result, heap') ∧
      Found pages base spans (unitsOf size) (unitsOf alignment) i result heap' := by
    intro hnone hlt
    obtain ⟨result, heap', hrun, hfound⟩ :=
      h.allocatePasses_new hnonnull hpos hle hpower hlt 510
    exact ⟨heap.blockCount, _, result, heap', Or.inr ⟨rfl, hlt, hnone⟩,
      Or.inr ⟨rfl, hlt, hnone⟩, hrun, hfound⟩
  by_cases hzero : heap.blockCount = 0
  · have hfirst : heap.allocationHint % heap.blockCount < maxBlocks := by
      rw [hzero, Nat.mod_zero]
      exact h.hint_lt
    -- without a block the first pass tries nothing
    obtain ⟨i, base, result, heap', hserved, hbase, hrun, hfound⟩ :=
      hnew (fun j hj => by omega) (by rw [hzero]; decide)
    refine Or.inl ⟨i, base, result, heap', hserved, hbase, ?_, hfound⟩
    have hnone : tryBlocks pages heap.blockCount (unitsOf size) (unitsOf alignment)
        heap.blockCount (heap.allocationHint % heap.blockCount) heap = .ok (none, heap) := by
      rw [hzero, tryBlocks]
    have hnotFull : ¬ heap.blockCount ≥ maxBlocks := by
      rw [hzero]
      decide
    rw [hstart, allocatePasses, if_pos hfirst, hnone]
    dsimp only
    rw [if_neg hnotFull, if_pos rfl]
    exact hrun
  · have hin : heap.allocationHint % heap.blockCount < heap.blockCount :=
      Nat.mod_lt _ (Nat.pos_of_ne_zero hzero)
    have hfirst : heap.allocationHint % heap.blockCount < maxBlocks := Nat.lt_of_lt_of_le hin hmax
    rw [hstart, allocatePasses, if_pos hfirst]
    rcases h.tryBlocks_cases hnonnull hpos hle hpower heap.blockCount _ hin with
      ⟨hrun, hall⟩ | ⟨j, hj, hall, result, heap', hrun, hfound⟩
    · have hnone : ∀ i < heap.blockCount,
          NoFit (heap.blocks i).allocator (unitsOf size) (unitsOf alignment) :=
        @noFit_all _ _ _ _ (fun i => (heap.blocks i).allocator) hin hall
      rw [hrun]
      dsimp only
      by_cases hlt : heap.blockCount < maxBlocks
      · rw [if_neg (Nat.not_le.mpr hlt), if_pos rfl]
        exact Or.inl (hnew hnone hlt)
      · have hfull : heap.blockCount = maxBlocks := Nat.le_antisymm hmax (Nat.not_lt.mp hlt)
        refine Or.inr ⟨if_pos (Nat.not_lt.mp hlt), hfull, ?_⟩
        rw [← hfull]
        exact hnone
    · refine Or.inl ⟨heap.tried j, heap, result, heap',
        Or.inl ⟨j, hj, rfl, hfound.not_noFit, hall⟩, Or.inl rfl, ?_, hfound⟩
      rw [hrun]

end Attempts

end Search

end RPiKernel.Heaps
