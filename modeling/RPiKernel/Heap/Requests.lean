import RPiKernel.Heap.Runs
import RPiKernel.Mmu.PageTables

/-!
# Any request of a heap

The calls of a program may ask for any size and alignment and release any pointer. What is
returned is aligned in its block, so that an alignment of more than a page depends on the
address of the block. A size is narrowed to 32 bits of units before it is compared with that
of a block, and the sizes that are reduced to a unit count in range are shrunk.
-/

namespace RPiKernel.Heaps

open Interleaving Machine Containers Intervals Transition Mmu

/-- The memory of each block, from the page numbers that the virtual pool chooses: what
`AllocatePages` returns for them. -/
def blockPages (chosen : Nat → Nat) (k : Nat) : Nat :=
  mul32 (chosen k) 0x1000 + virtualMemoryAllocatorOffset

theorem blockPages_ne_zero (chosen : Nat → Nat) : ∀ k < maxBlocks, blockPages chosen k ≠ 0 := by
  intro k _
  rw [blockPages, virtualMemoryAllocatorOffset]
  omega

/-- A block starts at a page. -/
theorem pageSize_dvd_blockPages (chosen : Nat → Nat) (k : Nat) : 4096 ∣ blockPages chosen k := by
  rw [blockPages, virtualMemoryAllocatorOffset, mul32]
  omega

section Entries

variable (pages : Nat → Nat)

/-- `HeapAlloc`: null for an alignment that is no power of two. -/
def heapAlloc (size alignment : Nat) (heap : Heap) : Except HeapFault (Nat × Heap) :=
  if alignment = 0 ∨ alignment &&& (alignment - 1) ≠ 0 then
    .ok (0, heap)
  else
    allocateAligned pages size alignment heap

/-- `aligned_alloc`. -/
def alignedAlloc (alignment size : Nat) (heap : Heap) : Except HeapFault (Nat × Heap) :=
  heapAlloc pages size alignment heap

/-- `operator new` with an alignment. -/
def operatorNew (size align : Nat) (heap : Heap) : Except HeapFault (Nat × Heap) :=
  heapAlloc pages size align heap

/-- A call panics, itself or in the pool of a block. -/
def Panics (outcome : Except HeapFault (Nat × Heap)) : Prop :=
  (∃ format arguments, outcome = .error (.panic format arguments)) ∨
    ∃ message, outcome = .error (.pool (.panic message))

/-- A call that panics returns nothing. -/
theorem Panics.not_ok {outcome : Except HeapFault (Nat × Heap)} (h : Panics outcome)
    (returned : Nat × Heap) : outcome ≠ .ok returned := by
  rintro rfl
  rcases h with ⟨_, _, h⟩ | ⟨_, h⟩ <;> cases h

variable {pages} {heap : Heap}

/-- A power of two passes the check of `HeapAlloc`. -/
theorem heapAlloc_two_pow (size k : Nat) :
    heapAlloc pages size (2 ^ k) heap = allocateAligned pages size (2 ^ k) heap := by
  have hpower : 2 ^ k &&& (2 ^ k - 1) = 0 := by
    rw [Nat.and_two_pow_sub_one_eq_mod, Nat.mod_self]
  have hpass : ¬ (2 ^ k = 0 ∨ 2 ^ k &&& (2 ^ k - 1) ≠ 0) := by
    rw [not_or, not_not]
    exact ⟨(Nat.two_pow_pos k).ne', hpower⟩
  exact if_neg hpass

end Entries

section Backed

variable {pages : Nat → Nat} {heap heap' : Heap} {spans : Nat → List Span} {s : HeapState}

/-- What `AllocateAligned` does: a block that it serves the request from has the units, or it
panics. -/
theorem Backed.allocateAligned_outcomes (h : Backed pages heap spans)
    (hnonnull : ∀ k < maxBlocks, pages k ≠ 0) (size alignment : Nat) :
    (∃ i base result heap', ServedFrom heap (unitsOf size) (unitsOf alignment) i ∧
      (base = heap ∨
        base = heap.addBlock pages ∧ NeedsBlock heap (unitsOf size) (unitsOf alignment)) ∧
      allocateAligned pages size alignment heap = .ok (result, heap') ∧
      Found pages base spans (unitsOf size) (unitsOf alignment) i result heap' ∧
      0 < unitsOf size ∧ unitsOf size ≤ 4096 ∧ IsPowerOfTwo (unitsOf alignment)) ∨
    Panics (allocateAligned pages size alignment heap) := by
  by_cases hzero : size = 0 ∨ alignment = 0
  · exact Or.inr (Or.inl ⟨_, _, if_pos hzero⟩)
  obtain ⟨hsize, halignment⟩ := not_or.mp hzero
  by_cases hle : unitsOf size ≤ 4096
  · by_cases haccepted : 0 < unitsOf size ∧ IsPowerOfTwo (unitsOf alignment)
    · rcases h.allocateAligned_cases hnonnull hsize halignment haccepted.1 hle haccepted.2 with
        ⟨i, base, result, heap', hserved, hbase, hrun, hfound⟩ | ⟨hrun, -⟩
      · exact Or.inl ⟨i, base, result, heap', hserved, hbase, hrun, hfound, haccepted.1, hle,
          haccepted.2⟩
      · exact Or.inr (Or.inl ⟨_, _, hrun⟩)
    · -- the pool refuses a request of no units and an alignment that is no power of two
      have hrefused : unitsOf size = 0 ∨ ¬ IsPowerOfTwo (unitsOf alignment) := by
        by_cases hpos : unitsOf size = 0
        · exact Or.inl hpos
        · exact Or.inr fun hpower => haccepted ⟨Nat.pos_of_ne_zero hpos, hpower⟩
      have hlt : unitsOf alignment < 4294967296 := Nat.mod_lt _ (by decide)
      obtain ⟨message, hrun⟩ := h.allocatePasses_panics hnonnull hlt hrefused 510
      refine Or.inr (Or.inr ⟨message, ?_⟩)
      rw [allocateAligned_eq hsize halignment hle, hrun]
  · rw [allocateAligned, if_neg hzero]
    exact Or.inr (Or.inl ⟨_, _, if_pos (Nat.not_le.mp hle)⟩)

/-- A release of any pointer that does not panic frees a run of units. -/
theorem Backed.deallocateFrom (h : Backed pages heap spans) {ptr left i : Nat}
    (hleft : i + left ≤ heap.blockCount) (hrun : deallocateFrom ptr heap left i = .ok heap') :
    ∃ spans', Backed pages heap' spans' := by
  induction left generalizing i with
  | zero => cases hrun
  | succ left ih =>
      have hi : i < heap.blockCount := by omega
      have hblock : heap.block i = .ok (heap.blocks i) :=
        if_pos (Nat.lt_of_lt_of_le hi h.blockCount_le)
      have hnext := ih (i := i + 1) (by omega)
      rw [Heaps.deallocateFrom, hblock] at hrun
      dsimp only at hrun
      by_cases hnull : (heap.blocks i).memory = 0
      · rw [if_pos hnull] at hrun
        exact hnext hrun
      rw [if_neg hnull] at hrun
      by_cases hin : (heap.blocks i).memory ≤ ptr ∧ ptr < (heap.blocks i).memory + blockSize
      · rw [if_pos hin] at hrun
        by_cases hlive : ∃ b ∈ spans i,
            b.start = (ptr - (heap.blocks i).memory) / allocationGranularity
        · obtain ⟨b, hb, hstart⟩ := hlive
          obtain ⟨words, hwords, hrep⟩ := deallocate_spec (h.represents i) hb
          rw [← hstart, hwords] at hrun
          cases hrun
          exact ⟨_, h.setAllocator hi hrep⟩
        · -- the unit of the pointer starts no run
          have hnone : ∀ b ∈ spans i,
              b.start ≠ (ptr - (heap.blocks i).memory) / allocationGranularity :=
            fun b hb hstart => hlive ⟨b, hb, hstart⟩
          obtain ⟨message, hfault⟩ := deallocate_panics (h.represents i) hnone
          rw [hfault] at hrun
          cases hrun
      · rw [if_neg hin] at hrun
        exact hnext hrun

theorem Backed.deallocatePointer (h : Backed pages heap spans) {ptr : Nat}
    (hrun : deallocatePointer ptr heap = .ok heap') : ∃ spans', Backed pages heap' spans' := by
  rw [Heaps.deallocatePointer] at hrun
  split at hrun
  · cases hrun
    exact ⟨spans, h⟩
  · exact h.deallocateFrom (by omega) hrun

/-- Every call keeps the blocks backed. -/
theorem Backed.next {s' : HeapState} (h : Backed pages s.heap spans)
    (hnonnull : ∀ k < maxBlocks, pages k ≠ 0) {action : HeapAction}
    (hs : (heapSystem pages).next s action = some s') : ∃ spans', Backed pages s'.heap spans' := by
  cases action with
  | allocateAligned size alignment =>
      rcases h.allocateAligned_outcomes hnonnull size alignment with
        ⟨i, base, result, heap', -, hbase, hrun, hfound, -⟩ | hpanics
      · have hbacked : Backed pages base spans := by
          rcases hbase with rfl | ⟨rfl, hneeds⟩
          · exact h
          · exact h.addBlock hneeds.1
        simp only [heapSystem, hrun, Option.some.injEq] at hs
        exact hs ▸ hbacked.found hfound
      · cases hrun : allocateAligned pages size alignment s.heap with
        | error fault =>
            simp only [heapSystem, hrun] at hs
            cases hs
        | ok returned => exact absurd hrun (hpanics.not_ok returned)
  | deallocate a =>
      cases hrun : Heaps.deallocatePointer a.pointer s.heap with
      | error fault =>
          simp only [heapSystem, hrun] at hs
          cases hs
      | ok heap' =>
          simp only [heapSystem, hrun, Option.some.injEq] at hs
          exact hs ▸ h.deallocatePointer hrun

theorem exists_backed (hnonnull : ∀ k < maxBlocks, pages k ≠ 0)
    (h : (heapSystem pages).Reachable s) : ∃ spans, Backed pages s.heap spans := by
  refine System.Reachable.invariant (I := fun s => ∃ spans, Backed pages s.heap spans) ?_ ?_ h
  · rintro s rfl
    exact ⟨_, Backed.initial⟩
  · rintro s action s' ⟨spans, hbacked⟩ hs
    exact hbacked.next hnonnull hs

end Backed

section ServedFrom

variable {heap : Heap} {units alignment i j : Nat}

theorem tried_lt (h : j < heap.blockCount) : heap.tried j < heap.blockCount :=
  Nat.mod_lt _ (by omega)

/-- A request is served from one block. -/
theorem ServedFrom.eq (h : ServedFrom heap units alignment i)
    (h' : ServedFrom heap units alignment j) : i = j := by
  rcases h with ⟨n, hn, rfl, hfits, hbefore⟩ | ⟨rfl, -, hnone⟩
  · rcases h' with ⟨n', hn', rfl, hfits', hbefore'⟩ | ⟨rfl, -, hnone⟩
    · rcases Nat.lt_trichotomy n n' with hlt | rfl | hlt
      · exact absurd (hbefore' n hlt) hfits
      · rfl
      · exact absurd (hbefore n' hlt) hfits'
    · exact absurd (hnone _ (tried_lt hn)) hfits
  · rcases h' with ⟨n', hn', rfl, hfits', -⟩ | ⟨rfl, -, -⟩
    · exact absurd (hnone _ (tried_lt hn')) hfits'
    · rfl

/-- No request is served from a heap with all its blocks in use and no fit. -/
theorem ServedFrom.not_full (h : ServedFrom heap units alignment i)
    (hfull : heap.blockCount = maxBlocks)
    (hnone : ∀ i < maxBlocks, NoFit (heap.blocks i).allocator units alignment) : False := by
  rcases h with ⟨n, hn, rfl, hfits, -⟩ | ⟨rfl, hlt, -⟩
  · exact hfits (hnone _ (hfull ▸ tried_lt hn))
  · exact Nat.lt_irrefl _ (hfull ▸ hlt)

end ServedFrom

section Alignment

variable {chosen : Nat → Nat} {s : HeapState} {size k : Nat}

/-- An alignment below 64 GB is a power of two in units. -/
theorem unitsOf_two_pow (hk : k < 36) : unitsOf (2 ^ k) = 2 ^ (k - 4) := by
  have hcases : ∀ k < 36, unitsOf (2 ^ k) = 2 ^ (k - 4) := by decide
  exact hcases k hk

/-- An alignment from 64 GB on is reduced to no unit. -/
theorem unitsOf_two_pow_eq_zero (hk : 36 ≤ k) (hlt : k < 64) : unitsOf (2 ^ k) = 0 := by
  have hcases : ∀ k < 64, 36 ≤ k → unitsOf (2 ^ k) = 0 := by decide
  exact hcases k hlt hk

theorem isPowerOfTwo_unitsOf_iff (hlt : k < 64) : IsPowerOfTwo (unitsOf (2 ^ k)) ↔ k < 36 := by
  constructor
  · intro hpower
    by_contra hk
    rw [unitsOf_two_pow_eq_zero (Nat.not_lt.mp hk) hlt] at hpower
    exact absurd hpower.pos (Nat.lt_irrefl 0)
  · exact fun hk => ⟨k - 4, by omega, unitsOf_two_pow hk⟩

/-- A unit that is aligned in its block is as many bytes from its start. -/
theorem two_pow_dvd_units (hk : k < 36) {r : Nat} (hr : r % unitsOf (2 ^ k) = 0) :
    2 ^ k ∣ 16 * r := by
  have hunits : 2 ^ (k - 4) ∣ r := by
    rw [unitsOf_two_pow hk] at hr
    exact Nat.dvd_of_mod_eq_zero hr
  have hbytes : 2 ^ 4 * 2 ^ (k - 4) ∣ 16 * r := Nat.mul_dvd_mul_left 16 hunits
  rw [← Nat.pow_add] at hbytes
  exact Nat.dvd_trans (Nat.pow_dvd_pow 2 (by omega)) hbytes

/-- The addresses returned are multiples of the alignment. -/
def Aligns (alignment : Nat) (outcome : Except HeapFault (Nat × Heap)) : Prop :=
  ∀ pointer heap', outcome = .ok (pointer, heap') → alignment ∣ pointer

/-- A call that panics returns no address. -/
theorem Panics.aligns {alignment : Nat} {outcome : Except HeapFault (Nat × Heap)}
    (h : Panics outcome) : Aligns alignment outcome :=
  fun _ _ hrun => absurd hrun (h.not_ok _)

/-- The address is aligned exactly if that of the block is that serves the request. -/
theorem Backed.aligns_iff {pages : Nat → Nat} {heap : Heap} {spans : Nat → List Span}
    (h : Backed pages heap spans) (hnonnull : ∀ k < maxBlocks, pages k ≠ 0) (hpos : 1 ≤ size)
    (hle : size ≤ 65536) (hk : k < 36) :
    Aligns (2 ^ k) (allocateAligned pages size (2 ^ k) heap) ↔
      ∀ i, ServedFrom heap (unitsOf size) (unitsOf (2 ^ k)) i → 2 ^ k ∣ pages i := by
  have hpower : IsPowerOfTwo (unitsOf (2 ^ k)) := ⟨k - 4, by omega, unitsOf_two_pow hk⟩
  rcases h.allocateAligned_cases hnonnull (by omega) (Nat.two_pow_pos k).ne' (unitsOf_pos hpos hle)
    (unitsOf_le hle) hpower with ⟨i, base, result, heap', hserved, -, hrun, hfound⟩ |
      ⟨hrun, hfull, hnone⟩
  · obtain ⟨r, words, hint, -, rfl, -, hfit, -⟩ := hfound.taken
    have hunits : 2 ^ k ∣ 16 * r := two_pow_dvd_units hk hfit.1
    constructor
    · intro haligns j hj
      rw [← hserved.eq hj]
      exact (Nat.dvd_add_left hunits).mp (haligns _ _ hrun)
    · intro hblock pointer heap'' hrun'
      rw [hrun] at hrun'
      cases hrun'
      exact Nat.dvd_add (hblock i hserved) hunits
  · -- no block serves the request
    have hpanics : Panics (allocateAligned pages size (2 ^ k) heap) := Or.inl ⟨_, _, hrun⟩
    exact iff_of_true hpanics.aligns fun i hserved => (hserved.not_full hfull hnone).elim

/-- In every state of a run, the addresses returned for a size of at most a block are multiples
of the alignment exactly if the alignment is at most a page, or is reduced to no unit, or the
block that serves the request is aligned itself. -/
theorem pointers_aligned_iff (h : (heapSystem (blockPages chosen)).Reachable s) (hpos : 1 ≤ size)
    (hle : size ≤ 65536) (hlt : k < 64) :
    (Aligns (2 ^ k) (allocateAligned (blockPages chosen) size (2 ^ k) s.heap) ∧
      Aligns (2 ^ k) (alignedAlloc (blockPages chosen) (2 ^ k) size s.heap) ∧
      Aligns (2 ^ k) (operatorNew (blockPages chosen) size (2 ^ k) s.heap)) ↔
    k ≤ 12 ∨ 36 ≤ k ∨
      ∀ i, ServedFrom s.heap (unitsOf size) (unitsOf (2 ^ k)) i → 2 ^ k ∣ blockPages chosen i := by
  obtain ⟨spans, hbacked⟩ := exists_backed (blockPages_ne_zero chosen) h
  rw [alignedAlloc, operatorNew, heapAlloc_two_pow, and_self, and_self]
  by_cases hk : k < 36
  · rw [hbacked.aligns_iff (blockPages_ne_zero chosen) hpos hle hk]
    constructor
    · exact fun hblock => Or.inr (Or.inr hblock)
    · rintro (hpage | hlarge | hblock)
      · intro i _
        have hdvd : 2 ^ k ∣ 2 ^ 12 := Nat.pow_dvd_pow 2 hpage
        exact Nat.dvd_trans hdvd (pageSize_dvd_blockPages chosen i)
      · omega
      · exact hblock
  · -- the pool refuses the alignment
    refine iff_of_true ?_ (Or.inr (Or.inl (Nat.not_lt.mp hk)))
    rcases hbacked.allocateAligned_outcomes (blockPages_ne_zero chosen) size (2 ^ k) with
      ⟨-, -, -, -, -, -, -, -, -, -, hpower⟩ | hpanics
    · exact absurd ((isPowerOfTwo_unitsOf_iff hlt).mp hpower) hk
    · exact hpanics.aligns

/-- The page numbers when the virtual pool has served the heap's own 66 pages and no other
request before. -/
def chosenAfterHeap (k : Nat) : Nat := 66 + 16 * k

/-- A new heap returns a multiple of 32 for a request of 100 bytes that is aligned to 32. -/
theorem pointers_aligned_iff_new :
    (Aligns (2 ^ 5) (allocateAligned (blockPages chosenAfterHeap) 100 (2 ^ 5) {}) ∧
      Aligns (2 ^ 5) (alignedAlloc (blockPages chosenAfterHeap) (2 ^ 5) 100 {}) ∧
      Aligns (2 ^ 5) (operatorNew (blockPages chosenAfterHeap) 100 (2 ^ 5) {})) ↔
    5 ≤ 12 ∨ 36 ≤ 5 ∨
      ∀ i, ServedFrom {} (unitsOf 100) (unitsOf (2 ^ 5)) i → 2 ^ 5 ∣ blockPages chosenAfterHeap i :=
  pointers_aligned_iff (s := {}) (System.ReachableBy.initial rfl) (by decide) (by decide)
    (by decide)

/-- The first block is no multiple of 16 KB, and neither is what a new heap returns for it. -/
theorem not_pointers_aligned : ¬ ∀ chosen s size k, (heapSystem (blockPages chosen)).Reachable s →
    1 ≤ size → size ≤ 65536 → k < 64 →
    Aligns (2 ^ k) (allocateAligned (blockPages chosen) size (2 ^ k) s.heap) := by
  intro hall
  have haligns := hall chosenAfterHeap {} 16 14 (System.ReachableBy.initial rfl) (by decide)
    (by decide) (by decide)
  have hpointer : (allocateAligned (blockPages chosenAfterHeap) 16 (2 ^ 14) {}).map Prod.fst =
      .ok 0x100042000 := by decide +kernel
  cases hrun : allocateAligned (blockPages chosenAfterHeap) 16 (2 ^ 14) {} with
  | error fault =>
      rw [hrun] at hpointer
      cases hpointer
  | ok returned =>
      rw [hrun] at hpointer
      have hfirst : returned.1 = 0x100042000 := Except.ok.inj hpointer
      have hdvd : 2 ^ 14 ∣ returned.1 := haligns _ _ hrun
      rw [hfirst] at hdvd
      exact absurd hdvd (by decide)

end Alignment

section Reserve

variable {chosen : Nat → Nat} {s : HeapState} {size k : Nat}

/-- The pointer is the start of a block of units with at least the bytes asked for. -/
def Reserves (size pointer : Nat) (heap : Heap) : Prop :=
  ∃ i < heap.blockCount, ∃ r n,
    pointer = (heap.blocks i).memory + allocationGranularity * r ∧
    (getBlockSize blockAllocator r).run (heap.blocks i).allocator =
      (.ok n, (heap.blocks i).allocator) ∧
    size ≤ n * allocationGranularity

/-- A request is not shrunk: it panics or has its bytes, and panics above 64 KB. -/
def NotShrunk (size : Nat) (outcome : Except HeapFault (Nat × Heap)) : Prop :=
  (Panics outcome ∨
    ∃ pointer heap', outcome = .ok (pointer, heap') ∧ Reserves size pointer heap') ∧
  (65536 < size → Panics outcome)

theorem Panics.notShrunk {outcome : Except HeapFault (Nat × Heap)} (h : Panics outcome) :
    NotShrunk size outcome :=
  ⟨Or.inl h, fun _ => h⟩

/-- The units found for a size of at most a block hold its bytes. -/
theorem Backed.reserves {pages : Nat → Nat} {base heap' : Heap} {spans : Nat → List Span}
    {alignment i result : Nat} (h : Backed pages base spans) (hle : size ≤ 65536)
    (hfound : Found pages base spans (unitsOf size) alignment i result heap') :
    Reserves size result heap' := by
  obtain ⟨r, words, hint, -, rfl, rfl, -, -, hrep⟩ := hfound.taken
  have hmemory := h.memory_eq i hfound.inUse
  have hlength := getBlockSize_spec hrep List.mem_cons_self
  refine ⟨i, hfound.inUse, r, unitsOf size, ?_, ?_, ?_⟩
  · simp only [setBlock_self, hmemory, allocationGranularity]
  · simpa only [setBlock_self] using hlength
  · rw [unitsOf_eq hle, allocationGranularity]
    omega

/-- In every state of a run, a request is not shrunk exactly if its size is at most 64 KB, or
narrows to no unit or to more than a block, or the request fails for its alignment or for want
of space. -/
theorem requests_notShrunk_iff (h : (heapSystem (blockPages chosen)).Reachable s)
    (hpos : 1 ≤ size) (hlt : k < 64) :
    NotShrunk size (allocateAligned (blockPages chosen) size (2 ^ k) s.heap) ↔
      size ≤ 65536 ∨ unitsOf size = 0 ∨ 4096 < unitsOf size ∨ 36 ≤ k ∨
        (s.heap.blockCount = maxBlocks ∧ ∀ i < maxBlocks,
          NoFit (s.heap.blocks i).allocator (unitsOf size) (unitsOf (2 ^ k))) := by
  obtain ⟨spans, hbacked⟩ := exists_backed (blockPages_ne_zero chosen) h
  have houtcomes :=
    hbacked.allocateAligned_outcomes (blockPages_ne_zero chosen) size (2 ^ k)
  by_cases hle : size ≤ 65536
  · refine iff_of_true ?_ (Or.inl hle)
    rcases houtcomes with ⟨i, base, result, heap', -, hbase, hrun, hfound, -⟩ | hpanics
    · have hbase' : Backed (blockPages chosen) base spans := by
        rcases hbase with rfl | ⟨rfl, hneeds⟩
        · exact hbacked
        · exact hbacked.addBlock hneeds.1
      exact ⟨Or.inr ⟨result, heap', hrun, hbase'.reserves hle hfound⟩, fun hlarge => by omega⟩
    · exact hpanics.notShrunk
  · rcases houtcomes with
      ⟨i, base, result, heap', hserved, -, hrun, -, hunits, hmost, hpower⟩ | hpanics
    · -- a pointer is returned for a size above 64 KB
      have hk := (isPowerOfTwo_unitsOf_iff hlt).mp hpower
      refine iff_of_false (fun hshrunk => ?_) ?_
      · exact (hshrunk.2 (Nat.not_le.mp hle)).not_ok _ hrun
      · rintro (hsmall | hzero | hlarge | halignment | ⟨hfull, hnone⟩)
        · exact hle hsmall
        · omega
        · omega
        · omega
        · exact hserved.not_full hfull hnone
    · refine iff_of_true hpanics.notShrunk ?_
      by_contra hserves
      obtain ⟨-, hunits, hmost, hk, hspace⟩ := by simpa only [not_or] using hserves
      have hpower := (isPowerOfTwo_unitsOf_iff hlt).mpr (Nat.not_le.mp hk)
      rcases hbacked.allocateAligned_cases (blockPages_ne_zero chosen) (by omega)
        (Nat.two_pow_pos k).ne' (Nat.pos_of_ne_zero hunits) (Nat.not_lt.mp hmost) hpower with
        ⟨i, base, result, heap', -, -, hrun, -⟩ | ⟨-, hfull, hnone⟩
      · exact hpanics.not_ok _ hrun
      · exact hspace ⟨hfull, hnone⟩

/-- A request of 100 bytes is not shrunk in a new heap. -/
theorem requests_notShrunk_iff_new :
    NotShrunk 100 (allocateAligned (blockPages chosenAfterHeap) 100 (2 ^ 4) {}) ↔
      100 ≤ 65536 ∨ unitsOf 100 = 0 ∨ 4096 < unitsOf 100 ∨ 36 ≤ 4 ∨
        (({} : Heap).blockCount = maxBlocks ∧ ∀ i < maxBlocks,
          NoFit (({} : Heap).blocks i).allocator (unitsOf 100) (unitsOf (2 ^ 4))) :=
  requests_notShrunk_iff (s := {}) (System.ReachableBy.initial rfl) (by decide) (by decide)

/-- A request of 64 GB and 16 bytes gets one unit. -/
theorem not_requests_notShrunk : ¬ ∀ chosen s size k,
    (heapSystem (blockPages chosen)).Reachable s → 1 ≤ size → size < 2 ^ 64 → k < 64 →
    NotShrunk size (allocateAligned (blockPages chosen) size (2 ^ k) s.heap) := by
  intro hall
  have hshrunk := hall chosenAfterHeap {} (2 ^ 36 + 16) 4 (System.ReachableBy.initial rfl)
    (by decide) (by decide) (by decide)
  have hpanics := hshrunk.2 (by decide)
  have hok : (allocateAligned (blockPages chosenAfterHeap) (2 ^ 36 + 16) (2 ^ 4) {}).isOk =
      true := by decide +kernel
  cases hrun : allocateAligned (blockPages chosenAfterHeap) (2 ^ 36 + 16) (2 ^ 4) {} with
  | error fault =>
      rw [hrun] at hok
      cases hok
  | ok returned => exact hpanics.not_ok returned hrun

end Reserve

end RPiKernel.Heaps
