import Mathlib.Data.List.GetD
import RPiKernel.Heap.Runs
import RPiKernel.Mmu.Separation

/-!
# A heap in mapped memory

A heap takes its blocks from `AllocateAndCommitPages`. The calls on the heap and those that
other components make to the memory management run in any order. Every byte of a live
allocation has a physical byte of its own.

## Implementation notes

A call on the heap is given the address that `AllocateAndCommitPages` would return next, and
the pages are taken only when the call has asked for them. An address beyond the blocks stands
for one that is not read. A call that asks for two blocks has no step; there is none.
-/

namespace RPiKernel.Heaps

open Interleaving Machine Containers Intervals Transition Mmu

theorem pagesPerBlock_pos : 0 < pagesPerBlock := by decide

theorem pagesPerBlock_lt : pagesPerBlock < 4294967296 := by decide

/-- The request for the pages of a block. -/
def blockCall : MmuCall :=
  .allocateAndCommitPages ⟨pagesPerBlock, pagesPerBlock_pos, pagesPerBlock_lt⟩

/-- A heap, the memory management and the addresses of the blocks. -/
structure MappedHeap where
  mmu : MmuState
  state : HeapState := {}
  blocks : List Nat := []

inductive MappedAction where
  | mmu (call : MmuCall)
  | heap (action : HeapAction)

/-- The address of a block. -/
def blockAddress (blocks : List Nat) (k : Nat) : Nat := blocks.getD k (2 ^ 39 + blockSize * k)

/-- The next block, with the state after the request for it. -/
def nextBlock (mmu : MmuState) : Option (Nat × MmuState) :=
  match mmu.outcome blockCall with
  | .ok result mmu' => some (result, mmu'.returned blockCall result)
  | .error _ _ => none

/-- The state after a call on the heap. -/
def MappedHeap.heapNext (s : MappedHeap) (action : HeapAction) : Option MappedHeap :=
  let supply := nextBlock s.mmu
  let pages := blockAddress (s.blocks ++ (supply.map Prod.fst).toList)
  match (heapSystem pages).next s.state action with
  | none => none
  | some state =>
      if state.heap.committed = s.blocks.length then
        some { s with state }
      else
        match supply with
        | none => none
        | some (address, mmu) =>
            if state.heap.committed = s.blocks.length + 1 then
              some { mmu, state, blocks := s.blocks ++ [address] }
            else
              none

/-- The calls on a heap and on the memory management of a board, in any order. -/
def mappedSystem (board : Board) : System MappedHeap MappedAction where
  Initial s := ∃ mmu, (mmuSystem board).Initial mmu ∧ s = { mmu }
  next s
    | .mmu call => (s.mmu.next call).map fun mmu => { s with mmu }
    | .heap action => s.heapNext action

/-- The calls that no allocator of pages refuses, as a program may make them. -/
def Allowed (s : MappedHeap) : MappedAction → Prop
  | .mmu call => NotExhausted s.mmu call
  | .heap (.allocateAligned size alignment) =>
      (NeedsBlock s.state.heap (unitsOf size) (unitsOf alignment) → NotExhausted s.mmu blockCall) ∧
        Proper s.state (.allocateAligned size alignment)
  | .heap (.deallocate a) => Proper s.state (.deallocate a)

section Blocks

variable {board : Board} {m m' : MmuState} {T : Layout} {blocks : List Nat}

/-- The pages of a block have been committed. -/
structure Supplied (board : Board) (m : MmuState) (address : Nat) (m' : MmuState) : Prop where
  mapped : ∃ T', Mapped board m' T' ∧ Buffered m' T'
  commits : m'.commits = ⟨address / 4096, pagesPerBlock⟩ :: m.commits
  aligned : address % 4096 = 0
  kept : ∀ va pa, m.translate va = some pa → m'.translate va = some pa

theorem nextBlock_supplied (h : Mapped board m T) (hb : Buffered m T)
    (hcall : NotExhausted m blockCall) :
    ∃ address m', nextBlock m = some (address, m') ∧ Supplied board m address m' := by
  rw [NotExhausted, blockCall] at hcall
  rcases allocateAndCommitPages_cases h ⟨pagesPerBlock, pagesPerBlock_pos, pagesPerBlock_lt⟩ with
    ⟨-, address, s', T', hserved⟩ | ⟨-, hlt, -⟩
  · refine ⟨address, s'.returned blockCall address, ?_, ?_⟩
    · rw [nextBlock, blockCall, hserved.outcome]
    · constructor
      case mapped =>
        exact ⟨T', hserved.mapped, hb.of_kept hserved.buffers hserved.useKept⟩
      case commits =>
        rw [blockCall, MmuState.returned, hserved.commits, Nat.shiftRight_eq_div_pow]
      case aligned => exact hserved.aligned
      case kept =>
        exact fun va pa => h.encodes.translate_kept hserved.mapped.encodes hserved.pteKept
  · omega

/-- `AllocateAndCommitPages` returns no null pointer. -/
theorem nextBlock_ne_zero {address : Nat} (h : nextBlock m = some (address, m')) : address ≠ 0 := by
  cases houtcome : m.outcome blockCall with
  | error fault s =>
      rw [nextBlock, houtcome] at h
      cases h
  | ok result s =>
      rw [nextBlock, houtcome, Option.some.injEq, Prod.mk.injEq] at h
      obtain ⟨first, s₁, hpages, hcommit⟩ := exists_of_run_bind houtcome
      obtain ⟨index, s₂, -, hindex⟩ := exists_of_run_bind hpages
      obtain ⟨-, s₃, -, hreturn⟩ := exists_of_run_bind hcommit
      cases hindex
      cases hreturn
      rw [← h.1, virtualMemoryAllocatorOffset]
      omega

/-- The blocks are different runs of committed pages. -/
structure BlocksMapped (m : MmuState) (blocks : List Nat) : Prop where
  nodup : blocks.Nodup
  aligned : ∀ b ∈ blocks, b % 4096 = 0
  committed : ∀ b ∈ blocks, ⟨b / 4096, pagesPerBlock⟩ ∈ m.commits

theorem BlocksMapped.of_kept (h : BlocksMapped m blocks)
    (hkept : ∀ c ∈ m.commits, c ∈ m'.commits) : BlocksMapped m' blocks where
  nodup := h.nodup
  aligned := h.aligned
  committed b hb := hkept _ (h.committed b hb)

/-- A new block is none of those before. -/
theorem BlocksMapped.append {address : Nat} (h : BlocksMapped m blocks)
    (hs : Supplied board m address m') : BlocksMapped m' (blocks ++ [address]) := by
  obtain ⟨T', hmapped, -⟩ := hs.mapped
  have hfresh : address ∉ blocks := by
    intro hmem
    have hnodup := hmapped.virtual.1
    rw [hs.commits, List.map_cons, List.nodup_cons] at hnodup
    exact hnodup.1 (List.mem_map_of_mem (h.committed address hmem))
  constructor
  case nodup =>
    exact List.nodup_append_comm.mpr (List.nodup_cons.mpr ⟨hfresh, h.nodup⟩)
  case aligned =>
    intro b hb
    rcases List.mem_append.mp hb with hb | hb
    · exact h.aligned b hb
    · rw [List.mem_singleton.mp hb]
      exact hs.aligned
  case committed =>
    intro b hb
    rw [hs.commits]
    rcases List.mem_append.mp hb with hb | hb
    · exact List.mem_cons_of_mem _ (h.committed b hb)
    · rw [List.mem_singleton.mp hb]
      exact List.mem_cons_self ..

/-- A byte of a block lies in its pages. -/
theorem mem_block {b address : Nat} (haligned : b % 4096 = 0)
    (hin : b ≤ address ∧ address < b + blockSize) :
    address / 4096 ∈ (⟨b / 4096, pagesPerBlock⟩ : Span) := by
  rw [blockSize_eq] at hin
  simp only [Span.mem_iff, pagesPerBlock]
  omega

theorem blockSize_pos : 0 < blockSize := by decide

/-- A block lies in the pool of the virtual allocator. -/
theorem BlocksMapped.inside (h : BlocksMapped m blocks) (hm : Mapped board m T) {b : Nat}
    (hb : b ∈ blocks) : 0x100000 * 4096 ≤ b ∧ b + blockSize ≤ 0x140000 * 4096 := by
  have haligned := h.aligned b hb
  have hfirst := hm.virtualPage (h.committed b hb) (mem_block haligned
    ⟨le_rfl, Nat.lt_add_of_pos_right blockSize_pos⟩)
  have hlast := hm.virtualPage (h.committed b hb) (mem_block haligned
    (by rw [blockSize_eq]; omega : b ≤ b + 65535 ∧ b + 65535 < b + blockSize))
  have hle := hfirst.1
  have hlt := hlast.2
  rw [blockSize_eq]
  omega

theorem BlocksMapped.ne_zero (h : BlocksMapped m blocks) (hm : Mapped board m T) {b : Nat}
    (hb : b ∈ blocks) : b ≠ 0 := by
  have hinside := h.inside hm hb
  omega

theorem BlocksMapped.apart (h : BlocksMapped m blocks) (hm : Mapped board m T) {b b' : Nat}
    (hb : b ∈ blocks) (hb' : b' ∈ blocks) (hne : b ≠ b') :
    b + blockSize ≤ b' ∨ b' + blockSize ≤ b := by
  have haligned := h.aligned b hb
  have haligned' := h.aligned b' hb'
  have hspan : (⟨b / 4096, pagesPerBlock⟩ : Span) ≠ ⟨b' / 4096, pagesPerBlock⟩ := by
    simp only [ne_eq, Span.mk.injEq, and_true]
    omega
  by_contra hover
  -- the block that starts last starts in both
  rcases Nat.le_total b b' with hle | hle
  · exact hm.commits_disjoint (h.committed b hb) (h.committed b' hb') hspan
      (mem_block haligned (by omega : b ≤ b' ∧ b' < b + blockSize))
      (mem_block haligned' ⟨le_rfl, Nat.lt_add_of_pos_right blockSize_pos⟩)
  · exact hm.commits_disjoint (h.committed b hb) (h.committed b' hb') hspan
      (mem_block haligned ⟨le_rfl, Nat.lt_add_of_pos_right blockSize_pos⟩)
      (mem_block haligned' (by omega : b' ≤ b ∧ b < b' + blockSize))

theorem blockAddress_mem {k : Nat} (hk : k < blocks.length) : blockAddress blocks k ∈ blocks := by
  rw [blockAddress, List.getD_eq_getElem _ _ hk]
  exact List.getElem_mem hk

theorem blockAddress_beyond {k : Nat} (hk : blocks.length ≤ k) :
    blockAddress blocks k = 2 ^ 39 + blockSize * k := List.getD_eq_default _ _ hk

theorem blockAddress_append {k : Nat} (more : List Nat) (hk : k < blocks.length) :
    blockAddress (blocks ++ more) k = blockAddress blocks k := List.getD_append _ _ _ _ hk

theorem blockAddress_ne_zero (h : ∀ b ∈ blocks, b ≠ 0) (k : Nat) : blockAddress blocks k ≠ 0 := by
  rcases Nat.lt_or_ge k blocks.length with hk | hk
  · exact h _ (blockAddress_mem hk)
  · rw [blockAddress_beyond hk]
    omega

/-- The blocks are as a heap needs them. -/
theorem BlocksMapped.commitsBlocks (h : BlocksMapped m blocks) (hm : Mapped board m T) :
    CommitsBlocks (blockAddress blocks) := by
  constructor
  case nonnull =>
    exact fun k _ => blockAddress_ne_zero (fun b hb => h.ne_zero hm hb) k
  case disjoint =>
    intro j _ k _ hne
    rcases Nat.lt_or_ge j blocks.length with hj | hj <;>
      rcases Nat.lt_or_ge k blocks.length with hk | hk
    · refine h.apart hm (blockAddress_mem hj) (blockAddress_mem hk) fun heq => hne ?_
      rw [blockAddress, blockAddress, List.getD_eq_getElem _ _ hj, List.getD_eq_getElem _ _ hk,
        h.nodup.getElem_inj_iff] at heq
      exact heq
    · have hinside := h.inside hm (blockAddress_mem hj)
      rw [blockAddress_beyond hk, blockSize_eq] at *
      omega
    · have hinside := h.inside hm (blockAddress_mem hk)
      rw [blockAddress_beyond hj, blockSize_eq] at *
      omega
    · rw [blockAddress_beyond hj, blockAddress_beyond hk, blockSize_eq]
      omega

end Blocks

section Steps

variable {board : Board} {s s' : MappedHeap}

/-- The invariant of a heap depends on the blocks in use only. -/
theorem Sound.of_eq {pages pages' : Nat → Nat} {heap : Heap} {spans : Nat → List Span}
    {live : List Allocation} (h : Sound pages heap spans live)
    (heq : ∀ i < heap.blockCount, pages' i = pages i) : Sound pages' heap spans live := by
  constructor
  case toBacked =>
    refine { h.toBacked with memory_eq := fun i hi => ?_ }
    rw [heq i hi, h.memory_eq i hi]
  case placed =>
    intro a ha
    obtain ⟨i, hi, b, hb, hplace⟩ := h.placed a ha
    exact ⟨i, hi, b, hb, { hplace with pointer_eq := heq i hi ▸ hplace.pointer_eq }⟩
  case allocated =>
    intro i hi b hb
    obtain ⟨a, ha, hplace⟩ := h.allocated i hi b hb
    exact ⟨a, ha, { hplace with pointer_eq := heq i hi ▸ hplace.pointer_eq }⟩
  case apart => exact h.apart

/-- The heap is sound, and its blocks are the ones that have been committed for it. -/
structure Standing (board : Board) (s : MappedHeap) : Prop where
  mapped : ∃ T, Mapped board s.mmu T ∧ Buffered s.mmu T
  blocks : BlocksMapped s.mmu s.blocks
  blockCount_eq : s.state.heap.blockCount = s.blocks.length
  sound : ∃ spans, Sound (blockAddress s.blocks) s.state.heap spans s.state.live

/-- A step keeps the translations that there are. -/
def Keeps (s s' : MappedHeap) : Prop :=
  ∀ va pa, s.mmu.translate va = some pa → s'.mmu.translate va = some pa

/-- A request fails, as all the blocks are in use and none has a suitable run of units. -/
def Full (board : Board) (s : MappedHeap) (action : MappedAction) : Prop :=
  (mappedSystem board).next s action = none ∧
    ∃ size alignment, action = .heap (.allocateAligned size alignment) ∧
      s.state.heap.blockCount = maxBlocks ∧ ∀ i < maxBlocks,
        NoFit (s.state.heap.blocks i).allocator (unitsOf size) (unitsOf alignment)

/-- A request is met and the invariant kept, or the request fails for lack of space. -/
def Meets (board : Board) (s : MappedHeap) (size alignment : Nat) : Prop :=
  (∃ s', (mappedSystem board).next s (.heap (.allocateAligned size alignment)) = some s' ∧
    (Standing board s' ∧ Keeps s s') ∧
    ∃ pointer, s'.state.live = ⟨pointer, size⟩ :: s.state.live) ∨
  Full board s (.heap (.allocateAligned size alignment))

theorem Standing.initial (h : (mappedSystem board).Initial s) : Standing board s := by
  obtain ⟨mmu, hmmu, rfl⟩ := h
  constructor
  case mapped => exact ⟨{}, Mapped.initial hmmu⟩
  case blocks =>
    constructor
    · exact List.nodup_nil
    · exact fun b hb => absurd hb List.not_mem_nil
    · exact fun b hb => absurd hb List.not_mem_nil
  case blockCount_eq => rfl
  case sound => exact ⟨_, Sound.initial⟩

/-- A call on the memory management leaves the blocks as they are. -/
theorem Standing.mmu (h : Standing board s) {call : MmuCall} (hcall : NotExhausted s.mmu call) :
    ∃ s', (mappedSystem board).next s (.mmu call) = some s' ∧ Standing board s' ∧ Keeps s s' := by
  obtain ⟨T, hmapped, hbuffered⟩ := h.mapped
  obtain ⟨result, m, houtcome, hmapped', hkept⟩ := hmapped.step hbuffered hcall
  have hnext : s.mmu.next call = some (m.returned call result) := by
    rw [MmuState.next, houtcome]
  refine ⟨{ s with mmu := m.returned call result }, ?_, ?_, hkept⟩
  · simp only [mappedSystem, hnext, Option.map_some]
  · exact ⟨hmapped', h.blocks.of_kept (hmapped.commits_kept hcall houtcome), h.blockCount_eq,
      h.sound⟩

/-- A release asks for no pages. -/
theorem Standing.deallocate (h : Standing board s) {a : Allocation} (ha : a ∈ s.state.live) :
    ∃ s', (mappedSystem board).next s (.heap (.deallocate a)) = some s' ∧ Standing board s' ∧
      Keeps s s' := by
  obtain ⟨T, hmapped, hbuffered⟩ := h.mapped
  obtain ⟨spans, hsound⟩ := h.sound
  obtain ⟨heap', spans', hrun, hcount, hsound'⟩ :=
    hsound.deallocatePointer_spec (h.blocks.commitsBlocks hmapped) ha
  have hblocks : heap'.blockCount = s.blocks.length := hcount.trans h.blockCount_eq
  refine ⟨{ s with state := { heap := heap', live := s.state.live.erase a } }, ?_, ?_,
    fun _ _ => id⟩
  · simp only [mappedSystem, MappedHeap.heapNext, heapSystem, hrun]
    rw [if_pos (hsound'.committed_eq.trans hblocks)]
  · exact ⟨h.mapped, h.blocks, hblocks, spans', hsound'⟩

/-- The units that have been found depend on the blocks in use only. -/
theorem Found.of_eq {pages pages' : Nat → Nat} {heap heap' : Heap} {spans : Nat → List Span}
    {units alignment i result : Nat} (h : Found pages heap spans units alignment i result heap')
    (heq : ∀ i < heap.blockCount, pages' i = pages i) :
    Found pages' heap spans units alignment i result heap' where
  inUse := h.inUse
  taken := by
    rw [heq i h.inUse]
    exact h.taken

/-- A request that needs no new block asks for no pages. -/
theorem Standing.allocate_there (h : Standing board s) {size alignment : Nat}
    (hneeds : ¬ NeedsBlock s.state.heap (unitsOf size) (unitsOf alignment))
    (hproper : Proper s.state (.allocateAligned size alignment)) :
    Meets board s size alignment := by
  obtain ⟨T, hmapped, hbuffered⟩ := h.mapped
  obtain ⟨spans, hsound⟩ := h.sound
  obtain ⟨more, hmore⟩ : ∃ more, more = ((nextBlock s.mmu).map Prod.fst).toList := ⟨_, rfl⟩
  have hagree : ∀ i < s.state.heap.blockCount,
      blockAddress (s.blocks ++ more) i = blockAddress s.blocks i :=
    fun i hi => blockAddress_append more (h.blockCount_eq ▸ hi)
  have hnonnull : ∀ b ∈ s.blocks ++ more, b ≠ 0 := by
    intro b hb
    rcases List.mem_append.mp hb with hb | hb
    · exact h.blocks.ne_zero hmapped hb
    · rw [hmore, Option.mem_toList, Option.map_eq_some_iff] at hb
      obtain ⟨⟨address, mmu⟩, hnext, rfl⟩ := hb
      exact nextBlock_ne_zero hnext
  obtain ⟨hpos, hle, k, hk, rfl⟩ := hproper
  rcases (hsound.of_eq hagree).toBacked.allocateAligned_cases
    (fun k _ => blockAddress_ne_zero hnonnull k) (Nat.ne_of_gt hpos) (Nat.two_pow_pos k).ne'
    (unitsOf_pos hpos (blockSize_eq ▸ hle)) (unitsOf_le (blockSize_eq ▸ hle))
    (unitsOf_alignment hk) with
    ⟨i, base, pointer, heap', -, rfl | ⟨-, hneeded⟩, hrun, hfound⟩ | ⟨hrun, hfull⟩
  · obtain ⟨hcount, spans', hsound'⟩ := hsound.found (h.blocks.commitsBlocks hmapped) hpos hle
      (hfound.of_eq fun i hi => (hagree i hi).symm)
    have hblocks : heap'.blockCount = s.blocks.length := hcount.trans h.blockCount_eq
    refine Or.inl ⟨{ s with state := { heap := heap', live := ⟨pointer, size⟩ :: s.state.live } },
      ?_, ⟨⟨h.mapped, h.blocks, hblocks, spans', hsound'⟩, fun _ _ => id⟩, pointer, rfl⟩
    simp only [mappedSystem, MappedHeap.heapNext, heapSystem, ← hmore, hrun]
    rw [if_pos (hsound'.committed_eq.trans hblocks)]
  · exact absurd hneeded hneeds
  · refine Or.inr ⟨?_, size, 2 ^ k, rfl, hfull⟩
    simp only [mappedSystem, MappedHeap.heapNext, heapSystem, ← hmore, hrun]

/-- A request is met, with a new block where it needs one, unless all the blocks are in use. -/
theorem Standing.allocate (h : Standing board s) (hcall : NotExhausted s.mmu blockCall)
    {size alignment : Nat} (hproper : Proper s.state (.allocateAligned size alignment)) :
    Meets board s size alignment := by
  obtain ⟨T, hmapped, hbuffered⟩ := h.mapped
  obtain ⟨spans, hsound⟩ := h.sound
  obtain ⟨address, mmu, hnext, hsupplied⟩ := nextBlock_supplied hmapped hbuffered hcall
  obtain ⟨T', hmapped', hbuffered'⟩ := hsupplied.mapped
  have hblocks := h.blocks.append hsupplied
  have hpages := hblocks.commitsBlocks hmapped'
  have hagree : ∀ i < s.blocks.length,
      blockAddress (s.blocks ++ [address]) i = blockAddress s.blocks i :=
    fun i hi => blockAddress_append [address] hi
  have hsound := hsound.of_eq fun i hi => hagree i (h.blockCount_eq ▸ hi)
  obtain ⟨hpos, hle, k, hk, rfl⟩ := hproper
  rcases hsound.allocateAligned_cases hpages hpos hle (Nat.two_pow_pos k).ne'
    (unitsOf_alignment hk) with ⟨pointer, heap', spans', hrun, hsound', hcount⟩ | ⟨hrun, hfull⟩
  · have hcommitted := hsound'.committed_eq
    rw [h.blockCount_eq] at hcount
    have hstep : (mappedSystem board).next s (.heap (.allocateAligned size (2 ^ k))) =
        if heap'.committed = s.blocks.length then
          some { s with state := { heap := heap', live := ⟨pointer, size⟩ :: s.state.live } }
        else if heap'.committed = s.blocks.length + 1 then
          some { mmu, state := { heap := heap', live := ⟨pointer, size⟩ :: s.state.live },
                 blocks := s.blocks ++ [address] }
        else none := by
      simp only [mappedSystem, MappedHeap.heapNext, hnext, Option.map_some, Option.toList_some,
        heapSystem, hrun]
    rw [Meets, hstep]
    rcases hcount with hsame | hmore
    · rw [if_pos (hcommitted.trans hsame)]
      refine Or.inl ⟨_, rfl, ⟨⟨h.mapped, h.blocks, hsame, spans', ?_⟩, fun _ _ => id⟩, pointer, rfl⟩
      exact hsound'.of_eq fun i hi => (hagree i (hsame ▸ hi)).symm
    · rw [if_neg (by omega), if_pos (hcommitted.trans hmore)]
      refine Or.inl ⟨_, rfl, ⟨⟨hsupplied.mapped, hblocks, ?_, spans', hsound'⟩, hsupplied.kept⟩,
        pointer, rfl⟩
      rw [List.length_append, List.length_singleton, hmore]
  · refine Or.inr ⟨?_, size, 2 ^ k, rfl, hfull⟩
    simp only [mappedSystem, MappedHeap.heapNext, hnext, Option.map_some, Option.toList_some,
      heapSystem, hrun]

theorem Standing.allocate_allowed (h : Standing board s) {size alignment : Nat}
    (hallowed : Allowed s (.heap (.allocateAligned size alignment))) :
    Meets board s size alignment := by
  by_cases hneeds : NeedsBlock s.state.heap (unitsOf size) (unitsOf alignment)
  · exact h.allocate (hallowed.1 hneeds) hallowed.2
  · exact h.allocate_there hneeds hallowed.2

/-- A call returns and keeps the translations, or it is a request that fails for lack of
space. -/
def Answers (board : Board) (s : MappedHeap) (action : MappedAction) : Prop :=
  (∃ s', (mappedSystem board).next s action = some s' ∧ Keeps s s') ∨ Full board s action

/-- Every byte of a live allocation is translated to a byte of its own, in a page that is used
for its page. -/
structure BytesMapped (s : MappedHeap) : Prop where
  apart : s.state.live.Pairwise Allocation.Apart
  translated : ∀ a ∈ s.state.live, ∀ address, a.Holds address → ∃ p, PoolPage p ∧
    UsesPage s.mmu (.data (address / 4096)) p ∧
    s.mmu.translate address = some (p * 4096 + address % 4096)
  distinct : ∀ a ∈ s.state.live, ∀ a' ∈ s.state.live, ∀ address address', a.Holds address →
    a'.Holds address' → s.mmu.translate address = s.mmu.translate address' → address = address'

/-- Each call keeps the invariant. -/
theorem Standing.step (h : Standing board s) {action : MappedAction} (haction : Allowed s action) :
    (∃ s', (mappedSystem board).next s action = some s' ∧ Standing board s' ∧ Keeps s s') ∨
    Full board s action := by
  cases action with
  | mmu call => exact Or.inl (h.mmu haction)
  | heap action =>
      cases action with
      | allocateAligned size alignment =>
          rcases h.allocate_allowed haction with ⟨s', hnext, hstanding, -⟩ | hfull
          · exact Or.inl ⟨s', hnext, hstanding⟩
          · exact Or.inr hfull
      | deallocate a => exact Or.inl (h.deallocate haction)

theorem Standing.answers (h : Standing board s) {action : MappedAction}
    (haction : Allowed s action) : Answers board s action := by
  rcases h.step haction with ⟨s', hnext, -, hkept⟩ | hfull
  · exact Or.inl ⟨s', hnext, hkept⟩
  · exact Or.inr hfull

/-- A byte of a live allocation lies in a committed page. -/
theorem Standing.committed (h : Standing board s) {a : Allocation} (ha : a ∈ s.state.live)
    {address : Nat} (hheld : a.Holds address) : ∃ c ∈ s.mmu.commits, address / 4096 ∈ c := by
  obtain ⟨spans, hsound⟩ := h.sound
  obtain ⟨i, hi, b, hb, hplace⟩ := hsound.placed a ha
  have hinside := hplace.inside (hsound.span_stop_le hb)
  have hmem := blockAddress_mem (h.blockCount_eq ▸ hi)
  rw [Allocation.Holds] at hheld
  exact ⟨_, h.blocks.committed _ hmem, mem_block (h.blocks.aligned _ hmem) (by omega)⟩

theorem Standing.wellMapped (h : Standing board s) : WellMapped board s.mmu := by
  obtain ⟨T, hmapped, hbuffered⟩ := h.mapped
  exact hmapped.wellMapped hbuffered

/-- A byte of a live allocation is translated to a page that is used for its page. -/
theorem Standing.translated (h : Standing board s) {a : Allocation} (ha : a ∈ s.state.live)
    {address : Nat} (hheld : a.Holds address) : ∃ p, PoolPage p ∧
      UsesPage s.mmu (.data (address / 4096)) p ∧
      s.mmu.translate address = some (p * 4096 + address % 4096) := by
  obtain ⟨c, hc, hpage⟩ := h.committed ha hheld
  obtain ⟨p, hpool, htranslate⟩ := h.wellMapped.translated c hc _ hpage
  have hstart := htranslate 0 (by decide)
  rw [Nat.add_zero, Nat.add_zero] at hstart
  refine ⟨p, hpool, UsesPage.data hc hpage hstart, ?_⟩
  have hoffset := htranslate (address % 4096) (Nat.mod_lt _ (by decide))
  rwa [Nat.div_add_mod'] at hoffset

theorem Standing.bytesMapped (h : Standing board s) : BytesMapped s := by
  constructor
  case apart =>
    obtain ⟨spans, hsound⟩ := h.sound
    exact hsound.apart
  case translated => exact fun a ha address hheld => h.translated ha hheld
  case distinct =>
    intro a ha a' ha' address address' hheld hheld' heq
    obtain ⟨p, -, huse, htranslate⟩ := h.translated ha hheld
    obtain ⟨p', -, huse', htranslate'⟩ := h.translated ha' hheld'
    rw [htranslate, htranslate', Option.some.injEq] at heq
    have hoffset := Nat.mod_lt address (by decide : 0 < 4096)
    have hoffset' := Nat.mod_lt address' (by decide : 0 < 4096)
    have hp : p = p' := by omega
    subst hp
    have hpage := h.wellMapped.distinct _ _ p huse huse'
    rw [PageUse.data.injEq] at hpage
    omega

theorem standing_of_reachable (h : (mappedSystem board).ReachableBy Allowed s) :
    Standing board s := by
  refine h.invariant (fun s hs => Standing.initial hs) fun s action s' hs haction hnext => ?_
  rcases hs.step haction with ⟨s₁, hs₁, hstanding, -⟩ | ⟨hnone, -⟩
  · rw [hs₁, Option.some.injEq] at hnext
    exact hnext ▸ hstanding
  · rw [hnone] at hnext
    cases hnext

/-- In every run that exhausts no allocator and releases live allocations only, whatever the
other components ask for in between, the bytes of the live allocations are mapped to bytes of
their own, and the next call answers. -/
theorem allocations_mapped (h : (mappedSystem board).ReachableBy Allowed s) :
    WellMapped board s.mmu ∧ BytesMapped s ∧
      ∀ action, Allowed s action → Answers board s action := by
  have hstanding := standing_of_reachable h
  exact ⟨hstanding.wellMapped, hstanding.bytesMapped, fun action haction =>
    hstanding.answers haction⟩

/-- The heap before its first call, in a memory of zeros. -/
def newHeap (board : Board) : MappedHeap := { mmu := newState board }

/-- The first request gets its bytes mapped. -/
theorem allocations_mapped_request : ∃ s, (∃ pointer, s.state.live = [⟨pointer, 100⟩]) ∧
    WellMapped .rpi3 s.mmu ∧ BytesMapped s ∧
    ∀ action, Allowed s action → Answers .rpi3 s action := by
  have hinitial : (mappedSystem .rpi3).Initial (newHeap .rpi3) := ⟨_, initial_newState, rfl⟩
  have hcall : NotExhausted (newHeap .rpi3).mmu blockCall :=
    notExhausted_of_satisfiable (Mapped.initial initial_newState).1
      (satisfiable_newState (by decide))
  have hproper : Proper (newHeap .rpi3).state (.allocateAligned 100 64) :=
    ⟨by decide, by decide, 6, by decide, rfl⟩
  rcases (Standing.initial hinitial).allocate hcall hproper with
    ⟨s, hnext, -, hlive⟩ | ⟨-, _, _, -, hfull, -⟩
  · exact ⟨s, hlive, allocations_mapped (.next (.heap (.allocateAligned 100 64))
      (.initial hinitial) ⟨fun _ => hcall, hproper⟩ hnext)⟩
  · exact absurd hfull (by decide)

end Steps

end RPiKernel.Heaps
