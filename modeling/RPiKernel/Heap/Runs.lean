import RPiKernel.Heap.Separation

/-!
# Runs of a heap

`AllocateAligned` and `Deallocate` keep the invariant of a heap. In every state of a run the
live allocations are apart, the units in use are those that hold their bytes, and the next
call panics only when all the blocks are in use and none has space.
-/

namespace RPiKernel.Heaps

open Interleaving Machine Containers Intervals Transition

section Allocate

variable {pages : Nat → Nat} {heap heap' : Heap} {spans : Nat → List Span} {live : List Allocation}
  {size alignment : Nat}

/-- The units that have been found are an allocation. -/
theorem Sound.found (h : Sound pages heap spans live) (hpages : CommitsBlocks pages)
    (hpos : 0 < size) (hle : size ≤ blockSize) {units i result : Nat}
    (hfound : Found pages heap spans (unitsOf size) units i result heap') :
    heap'.blockCount = heap.blockCount ∧
      ∃ spans', Sound pages heap' spans' (⟨result, size⟩ :: live) := by
  obtain ⟨r, words, hint, hhint, rfl, rfl, -, hend, hrep⟩ := hfound.taken
  exact ⟨rfl, _, (h.allocate hpages hfound.inUse hpos hle hend hrep).withHint hhint⟩

/-- `AllocateAligned` adds an allocation, with at most one more block in use, or every block is
in use and has no fit. -/
theorem Sound.allocateAligned_cases (h : Sound pages heap spans live)
    (hpages : CommitsBlocks pages) (hpos : 0 < size) (hle : size ≤ blockSize)
    (hne : alignment ≠ 0) (halignment : IsPowerOfTwo (unitsOf alignment)) :
    (∃ result heap' spans', allocateAligned pages size alignment heap = .ok (result, heap') ∧
      Sound pages heap' spans' (⟨result, size⟩ :: live) ∧
      (heap'.blockCount = heap.blockCount ∨ heap'.blockCount = heap.blockCount + 1)) ∨
    (allocateAligned pages size alignment heap =
        .error (.panic "Heap::AllocateAligned: no space available" []) ∧
      heap.blockCount = maxBlocks ∧
      ∀ i < maxBlocks,
        NoFit (heap.blocks i).allocator (unitsOf size) (unitsOf alignment)) := by
  have hunits : 0 < unitsOf size := unitsOf_pos hpos (blockSize_eq ▸ hle)
  have hmost : unitsOf size ≤ 4096 := unitsOf_le (blockSize_eq ▸ hle)
  rcases h.toBacked.allocateAligned_cases hpages.nonnull hpos.ne' hne hunits hmost halignment with
    ⟨i, base, result, heap', -, hbase, hrun, hfound⟩ | hpanic
  · have hsound : Sound pages base spans live ∧
        (base.blockCount = heap.blockCount ∨ base.blockCount = heap.blockCount + 1) := by
      rcases hbase with rfl | ⟨rfl, hneeds⟩
      · exact ⟨h, Or.inl rfl⟩
      · exact ⟨h.addBlock hneeds.1, Or.inr rfl⟩
    obtain ⟨hcount, spans', hsound'⟩ := hsound.1.found hpages hpos hle hfound
    exact Or.inl ⟨result, heap', spans', hrun, hsound', hcount ▸ hsound.2⟩
  · exact Or.inr hpanic

end Allocate

section Deallocate

variable {pages : Nat → Nat} {heap : Heap} {spans : Nat → List Span} {live : List Allocation}
  {a : Allocation}

/-- The search passes blocks that do not hold the pointer. -/
theorem deallocateFrom_skip {ptr : Nat} (left n j : Nat) (hmax : j + n ≤ maxBlocks)
    (hskip : ∀ k, j ≤ k → k < j + n →
      ¬ ((heap.blocks k).memory ≤ ptr ∧ ptr < (heap.blocks k).memory + blockSize)) :
    deallocateFrom ptr heap (left + n) j = deallocateFrom ptr heap left (j + n) := by
  induction n generalizing j with
  | zero => rfl
  | succ n ih =>
      have hblock : heap.block j = .ok (heap.blocks j) := if_pos (by omega)
      have hrest := ih (j + 1) (by omega) fun k hk hk' => hskip k (by omega) (by omega)
      rw [← Nat.add_assoc, deallocateFrom, hblock]
      dsimp only
      rw [if_neg (hskip j le_rfl (by omega)), ite_self, hrest, Nat.add_assoc, Nat.add_comm 1 n]

/-- The search stops at the block that holds the pointer. -/
theorem deallocateFrom_block {ptr i left : Nat} {words : List Word} (hi : i < maxBlocks)
    (hne : (heap.blocks i).memory ≠ 0)
    (hin : (heap.blocks i).memory ≤ ptr ∧ ptr < (heap.blocks i).memory + blockSize)
    (hrun : (deallocate blockAllocator ((ptr - (heap.blocks i).memory) / allocationGranularity)).run
      (heap.blocks i).allocator = (.ok (), words)) :
    deallocateFrom ptr heap (left + 1) i =
      .ok (heap.setBlock i { heap.blocks i with allocator := words }) := by
  have hblock : heap.block i = .ok (heap.blocks i) := if_pos hi
  rw [deallocateFrom, hblock]
  dsimp only
  rw [if_neg hne, if_pos hin, hrun]

/-- An allocation is removed from its block. -/
theorem Sound.remove (h : Sound pages heap spans live) (hpages : CommitsBlocks pages)
    {i : Nat} {b : Span} {words : List Word} (hi : i < heap.blockCount)
    (hb : b ∈ spans i) (hplace : Places pages i b a) (ha : a ∈ live)
    (hrep : Represents blockAllocator words ((spans i).erase b)) :
    Sound pages (heap.setBlock i { heap.blocks i with allocator := words })
      (Function.update spans i ((spans i).erase b)) (live.erase a) := by
  have hnodup : (spans i).Nodup := (h.represents i).1
  constructor
  case toBacked => exact h.toBacked.setAllocator hi hrep
  case placed =>
    intro a' ha'
    obtain ⟨hne, hlive⟩ := h.nodup.mem_erase_iff.mp ha'
    obtain ⟨j, hj, b', hb', hplace'⟩ := h.placed a' hlive
    refine ⟨j, hj, b', ?_, hplace'⟩
    by_cases hji : j = i
    · subst hji
      rw [Function.update_self, hnodup.mem_erase_iff]
      refine ⟨?_, hb'⟩
      rintro rfl
      -- allocations at one run of units start at one address
      have hapart : a.Apart a' := h.apart.forall ha hlive (Ne.symm hne)
      have hpointer := hplace.pointer_eq.trans hplace'.pointer_eq.symm
      have hpos := hplace.pos
      have hpos' := hplace'.pos
      rw [Allocation.Apart] at hapart
      omega
    · rw [Function.update_of_ne hji]
      exact hb'
  case allocated =>
    intro j hj b' hb'
    have hold : b' ∈ spans j ∧ ¬ (j = i ∧ b' = b) := by
      by_cases hji : j = i
      · subst hji
        rw [Function.update_self, hnodup.mem_erase_iff] at hb'
        exact ⟨hb'.2, fun heq => hb'.1 heq.2⟩
      · rw [Function.update_of_ne hji] at hb'
        exact ⟨hb', fun heq => hji heq.1⟩
    obtain ⟨a', ha', hplace'⟩ := h.allocated j hj b' hold.1
    refine ⟨a', h.nodup.mem_erase_iff.mpr ⟨?_, ha'⟩, hplace'⟩
    rintro rfl
    exact hold.2 (h.place_unique hpages hj hold.1 hplace' hi hb hplace)
  case apart => exact h.apart.sublist List.erase_sublist

/-- `Deallocate` of a live pointer removes its allocation. -/
theorem Sound.deallocatePointer_spec (h : Sound pages heap spans live)
    (hpages : CommitsBlocks pages) (ha : a ∈ live) :
    ∃ heap' spans', deallocatePointer a.pointer heap = .ok heap' ∧
      heap'.blockCount = heap.blockCount ∧ Sound pages heap' spans' (live.erase a) := by
  obtain ⟨i, hi, b, hb, hplace⟩ := h.placed a ha
  obtain ⟨words, hrun, hrep⟩ := deallocate_spec (h.represents i) hb
  have hmax : i < maxBlocks := Nat.lt_of_lt_of_le hi h.blockCount_le
  have hmemory := h.memory_eq i hi
  have hnonnull := hpages.nonnull i hmax
  have hpos := hplace.pos
  have hinside := hplace.inside (h.span_stop_le hb)
  have hin : pages i ≤ a.pointer ∧ a.pointer < pages i + blockSize := ⟨hinside.1, by omega⟩
  have hindex : (a.pointer - (heap.blocks i).memory) / allocationGranularity = b.start := by
    rw [hmemory, hplace.pointer_eq, allocationGranularity]
    omega
  have hskip : deallocateFrom a.pointer heap (heap.blockCount - i - 1 + 1 + i) 0 =
      deallocateFrom a.pointer heap (heap.blockCount - i - 1 + 1) (0 + i) := by
    refine deallocateFrom_skip _ i 0 (by omega) fun k _ hk hheld => ?_
    rw [h.memory_eq k (by omega)] at hheld
    have hki := hpages.eq_of_mem (by omega) hmax a.pointer hheld hin
    omega
  rw [show heap.blockCount - i - 1 + 1 + i = heap.blockCount by omega, Nat.zero_add] at hskip
  have hstop : deallocateFrom a.pointer heap (heap.blockCount - i - 1 + 1) i =
      .ok (heap.setBlock i { heap.blocks i with allocator := words }) :=
    deallocateFrom_block hmax (hmemory ▸ hnonnull) (hmemory ▸ hin) (hindex ▸ hrun)
  refine ⟨heap.setBlock i { heap.blocks i with allocator := words },
    Function.update spans i ((spans i).erase b), ?_, rfl, h.remove hpages hi hb hplace ha hrep⟩
  rw [deallocatePointer, if_neg (by omega), hskip, hstop]

end Deallocate

section Runs

variable {pages : Nat → Nat} {heap heap' : Heap} {spans spans' : Nat → List Span}
  {live : List Allocation} {a : Allocation} {s : HeapState}

/-- The units in use are those that hold bytes of the allocations. -/
theorem Sound.taken (h : Sound pages heap spans live) (hpages : CommitsBlocks pages) {i u : Nat}
    (hi : i < heap.blockCount) (hu : u < allocationsPerBlock) :
    slotBit (heap.blocks i).allocator u = true ↔
      ∃ a ∈ live, a.Holds (pages i + allocationGranularity * u) := by
  have hu : u < 4096 := hu
  have hmax := h.blockCount_le
  rw [(h.represents i).isEncodingOf.slots, allocationGranularity]
  constructor
  · rintro (⟨b, hb, hub⟩ | hbeyond)
    · obtain ⟨a, ha, hplace⟩ := h.allocated i hi b hb
      exact ⟨a, ha, hplace.mem_iff.mp hub⟩
    · exact absurd hbeyond.1 (Nat.not_le.mpr hu)
  · rintro ⟨a, ha, hheld⟩
    obtain ⟨j, hj, b, hb, hplace⟩ := h.placed a ha
    have hinside := hplace.inside (h.span_stop_le hb)
    have hji : i = j := by
      refine hpages.eq_of_mem (by omega) (by omega) (pages i + 16 * u) ?_ ?_
      · rw [blockSize_eq]
        omega
      · exact ⟨hinside.1.trans hheld.1, Nat.lt_of_lt_of_le hheld.2 hinside.2⟩
    subst hji
    exact Or.inl ⟨b, hb, hplace.mem_iff.mpr hheld⟩

/-- Without an allocation, the bytes held are those that it did not hold. -/
theorem Sound.holds_erase (h : Sound pages heap spans live) (ha : a ∈ live) (address : Nat) :
    (∃ a' ∈ live.erase a, a'.Holds address) ↔
      (∃ a' ∈ live, a'.Holds address) ∧ ¬ a.Holds address := by
  constructor
  · rintro ⟨a', ha', hheld⟩
    obtain ⟨hne, hlive⟩ := h.nodup.mem_erase_iff.mp ha'
    refine ⟨⟨a', hlive, hheld⟩, fun hheld' => ?_⟩
    have hapart : a'.Apart a := h.apart.forall hlive ha hne
    rw [Allocation.Apart] at hapart
    rw [Allocation.Holds] at hheld hheld'
    omega
  · rintro ⟨⟨a', ha', hheld⟩, hnot⟩
    refine ⟨a', h.nodup.mem_erase_iff.mpr ⟨?_, ha'⟩, hheld⟩
    rintro rfl
    exact hnot hheld

theorem Backed.initial : Backed pages {} fun _ => [] := by
  constructor
  case blockCount_le => exact Nat.zero_le _
  case hint_lt => decide
  case committed_eq => rfl
  case memory_eq => exact fun i hi => absurd hi (Nat.not_lt_zero i)
  case unused => exact fun i _ => ⟨rfl, rfl⟩
  case represents => exact fun i => construct_represents rfl

theorem Sound.initial : Sound pages {} (fun _ => []) [] where
  toBacked := Backed.initial
  placed _ ha := absurd ha List.not_mem_nil
  allocated i hi := absurd hi (Nat.not_lt_zero i)
  apart := List.Pairwise.nil

/-- The calls that a program may make: requests of at most a block, aligned to a power of two
of at most a page, and releases of live pointers. -/
def Proper (s : HeapState) : HeapAction → Prop
  | .allocateAligned size alignment =>
      1 ≤ size ∧ size ≤ blockSize ∧ ∃ k ≤ 12, alignment = 2 ^ k
  | .deallocate a => a ∈ s.live

instance decidableProper (s : HeapState) : ∀ action, Decidable (Proper s action)
  | .allocateAligned size alignment =>
      inferInstanceAs (Decidable (1 ≤ size ∧ size ≤ blockSize ∧ ∃ k ≤ 12, alignment = 2 ^ k))
  | .deallocate a => inferInstanceAs (Decidable (a ∈ s.live))

/-- Every allocation lies in a committed block and apart from the others, and the units in use
are those that hold their bytes. -/
structure Separated (pages : Nat → Nat) (s : HeapState) : Prop where
  blockCount_le : s.heap.blockCount ≤ maxBlocks
  memory_eq : ∀ i < s.heap.blockCount, (s.heap.blocks i).memory = pages i
  inside : ∀ a ∈ s.live, ∃ i < s.heap.blockCount,
    pages i ≤ a.pointer ∧ a.pointer + a.size ≤ pages i + blockSize
  apart : s.live.Pairwise Allocation.Apart
  taken : ∀ i < s.heap.blockCount, ∀ u < allocationsPerBlock,
    (slotBit (s.heap.blocks i).allocator u = true ↔
      ∃ a ∈ s.live, a.Holds (pages i + allocationGranularity * u))

/-- What a call does: a request is met, or panics with all the blocks in use and without a
suitable run of units; a release frees the units of its allocation and no others. -/
def Serves (pages : Nat → Nat) (s : HeapState) : HeapAction → Prop
  | .allocateAligned size alignment =>
      (∃ pointer heap', allocateAligned pages size alignment s.heap = .ok (pointer, heap')) ∨
      (allocateAligned pages size alignment s.heap =
          .error (.panic "Heap::AllocateAligned: no space available" []) ∧
        s.heap.blockCount = maxBlocks ∧
        ∀ i < maxBlocks,
          NoFit (s.heap.blocks i).allocator (unitsOf size) (unitsOf alignment))
  | .deallocate a =>
      ∃ heap', deallocatePointer a.pointer s.heap = .ok heap' ∧
        heap'.blockCount = s.heap.blockCount ∧
        ∀ i < s.heap.blockCount, ∀ u < allocationsPerBlock,
          (slotBit (heap'.blocks i).allocator u = true ↔
            slotBit (s.heap.blocks i).allocator u = true ∧
              ¬ a.Holds (pages i + allocationGranularity * u))

theorem Sound.separated (h : Sound pages s.heap spans s.live) (hpages : CommitsBlocks pages) :
    Separated pages s := by
  constructor
  case blockCount_le => exact h.blockCount_le
  case memory_eq => exact h.memory_eq
  case inside =>
    intro a ha
    obtain ⟨i, hi, b, hb, hplace⟩ := h.placed a ha
    exact ⟨i, hi, hplace.inside (h.span_stop_le hb)⟩
  case apart => exact h.apart
  case taken => exact fun i hi u hu => h.taken hpages hi hu

theorem Sound.serves (h : Sound pages s.heap spans s.live) (hpages : CommitsBlocks pages)
    {action : HeapAction} (haction : Proper s action) : Serves pages s action := by
  cases action with
  | allocateAligned size alignment =>
      obtain ⟨hpos, hle, k, hk, rfl⟩ := haction
      rcases h.allocateAligned_cases hpages hpos hle (Nat.two_pow_pos k).ne'
        (unitsOf_alignment hk) with ⟨pointer, heap', -, hrun, -⟩ | hpanic
      · exact Or.inl ⟨pointer, heap', hrun⟩
      · exact Or.inr hpanic
  | deallocate a =>
      obtain ⟨heap', spans', hrun, hcount, hsound⟩ := h.deallocatePointer_spec hpages haction
      refine ⟨heap', hrun, hcount, fun i hi u hu => ?_⟩
      rw [hsound.taken hpages (hcount ▸ hi) hu, h.taken hpages hi hu, h.holds_erase haction]

/-- Each call keeps the invariant. -/
theorem Sound.next {s' : HeapState} (h : Sound pages s.heap spans s.live)
    (hpages : CommitsBlocks pages) {action : HeapAction} (haction : Proper s action)
    (hs : (heapSystem pages).next s action = some s') :
    ∃ spans', Sound pages s'.heap spans' s'.live := by
  cases action with
  | allocateAligned size alignment =>
      obtain ⟨hpos, hle, k, hk, rfl⟩ := haction
      rcases h.allocateAligned_cases hpages hpos hle (Nat.two_pow_pos k).ne'
        (unitsOf_alignment hk) with ⟨pointer, heap', spans', hrun, hsound, -⟩ | ⟨hrun, -⟩
      · simp only [heapSystem, hrun, Option.some.injEq] at hs
        subst hs
        exact ⟨spans', hsound⟩
      · simp only [heapSystem, hrun] at hs
        cases hs
  | deallocate a =>
      obtain ⟨heap', spans', hrun, -, hsound⟩ := h.deallocatePointer_spec hpages haction
      simp only [heapSystem, hrun, Option.some.injEq] at hs
      subst hs
      exact ⟨spans', hsound⟩

theorem exists_sound (hpages : CommitsBlocks pages)
    (h : (heapSystem pages).ReachableBy Proper s) : ∃ spans, Sound pages s.heap spans s.live := by
  refine h.invariant (I := fun s => ∃ spans, Sound pages s.heap spans s.live) ?_ ?_
  · rintro s rfl
    exact ⟨_, Sound.initial⟩
  · rintro s action s' ⟨spans, hsound⟩ haction hs
    exact hsound.next hpages haction hs

/-- In every state of a run the allocations are separated, and the next call is served. -/
theorem heap_separated (hpages : CommitsBlocks pages)
    (h : (heapSystem pages).ReachableBy Proper s) :
    Separated pages s ∧ ∀ action, Proper s action → Serves pages s action := by
  obtain ⟨spans, hsound⟩ := exists_sound hpages h
  exact ⟨hsound.separated hpages, fun action haction => hsound.serves hpages haction⟩

/-- Blocks that are committed one after another. -/
def consecutivePages (k : Nat) : Nat := 0x100000000 + blockSize * k

theorem commitsBlocks_consecutivePages : CommitsBlocks consecutivePages := by
  constructor
  · intro k _
    rw [consecutivePages]
    omega
  · intro j _ k _ hne
    rw [consecutivePages, consecutivePages, blockSize_eq]
    omega

/-- A request that does not fit beside the first one gets a second block, and the first one is
released. -/
theorem heap_separated_two : ∃ s, (heapSystem consecutivePages).runWhere
      (fun s action => decide (Proper s action)) {}
      [.allocateAligned 100 64, .allocateAligned 65536 4096, .deallocate ⟨0x100000000, 100⟩] =
        some s ∧
    Separated consecutivePages s ∧
    ∀ action, Proper s action → Serves consecutivePages s action := by
  obtain ⟨s, hs⟩ := Option.isSome_iff_exists.mp (show ((heapSystem consecutivePages).runWhere
    (fun s action => decide (Proper s action)) {}
    [.allocateAligned 100 64, .allocateAligned 65536 4096,
      .deallocate ⟨0x100000000, 100⟩]).isSome = true by decide +kernel)
  refine ⟨s, hs, heap_separated commitsBlocks_consecutivePages ?_⟩
  exact (System.ReachableBy.initial rfl).runWhere (fun _ _ => of_decide_eq_true) _ hs

end Runs

end RPiKernel.Heaps
