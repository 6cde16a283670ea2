import RPiKernel.Heap.Search

/-!
# The separation of allocations

`Sound` is the invariant of a heap: every block in use has its pages and a pool whose live
blocks of units are the allocations in it. A request fails only when all the blocks are in
use and none has space for it.
-/

namespace RPiKernel.Heaps

open Interleaving Machine Containers Intervals Transition

/-- The blocks of pages that are committed for a heap are there and disjoint. -/
structure CommitsBlocks (pages : Nat → Nat) : Prop where
  nonnull : ∀ k < maxBlocks, pages k ≠ 0
  disjoint : ∀ j < maxBlocks, ∀ k < maxBlocks, j ≠ k →
    pages j + blockSize ≤ pages k ∨ pages k + blockSize ≤ pages j

/-- An allocation lies at a run of units of a block. -/
structure Places (pages : Nat → Nat) (i : Nat) (b : Span) (a : Allocation) : Prop where
  pointer_eq : a.pointer = pages i + 16 * b.start
  count_eq : b.count = unitsOf a.size
  pos : 0 < a.size
  le : a.size ≤ blockSize

/-- The runs of units in the blocks are those of the allocations. -/
structure Sound (pages : Nat → Nat) (heap : Heap) (spans : Nat → List Span)
    (live : List Allocation) : Prop extends Backed pages heap spans where
  placed : ∀ a ∈ live, ∃ i < heap.blockCount, ∃ b ∈ spans i, Places pages i b a
  allocated : ∀ i < heap.blockCount, ∀ b ∈ spans i, ∃ a ∈ live, Places pages i b a
  apart : live.Pairwise Allocation.Apart

section Places

variable {pages : Nat → Nat} {heap : Heap} {spans : Nat → List Span} {live : List Allocation}
  {i j : Nat} {b b' : Span} {a a' : Allocation}

/-- The units of an allocation are those that hold its bytes. -/
theorem Places.mem_iff (h : Places pages i b a) {u : Nat} :
    u ∈ b ↔ a.Holds (pages i + 16 * u) := by
  have hcount := h.count_eq
  rw [unitsOf_eq (blockSize_eq ▸ h.le)] at hcount
  have hpos := h.pos
  have hpointer := h.pointer_eq
  simp only [Span.mem_iff, Allocation.Holds]
  omega

/-- An allocation lies in the block that it is placed in. -/
theorem Places.inside (h : Places pages i b a) (hb : b.stop ≤ 4096) :
    pages i ≤ a.pointer ∧ a.pointer + a.size ≤ pages i + blockSize := by
  have hcount := h.count_eq
  rw [unitsOf_eq (blockSize_eq ▸ h.le)] at hcount
  have hpointer := h.pointer_eq
  have hstop : b.stop = b.start + b.count := rfl
  rw [blockSize_eq]
  omega

/-- Allocations at runs of units that are apart are apart. -/
theorem Places.apart (h : Places pages i b a) (h' : Places pages i b' a') (hapart : b.Apart b') :
    a.Apart a' := by
  have hcount := h.count_eq
  have hcount' := h'.count_eq
  rw [unitsOf_eq (blockSize_eq ▸ h.le)] at hcount
  rw [unitsOf_eq (blockSize_eq ▸ h'.le)] at hcount'
  have hpointer := h.pointer_eq
  have hpointer' := h'.pointer_eq
  simp only [Span.Apart, Span.stop] at hapart
  rw [Allocation.Apart]
  omega

theorem Sound.span_stop_le (h : Sound pages heap spans live) (hb : b ∈ spans i) : b.stop ≤ 4096 :=
  (h.represents i).inside hb

/-- A byte lies in one block only. -/
theorem CommitsBlocks.eq_of_mem (hpages : CommitsBlocks pages) (hi : i < maxBlocks)
    (hj : j < maxBlocks) (address : Nat) (hin : pages i ≤ address ∧ address < pages i + blockSize)
    (hjn : pages j ≤ address ∧ address < pages j + blockSize) : i = j := by
  by_contra hne
  have hdisjoint := hpages.disjoint i hi j hj hne
  omega

/-- An allocation has one place. -/
theorem Sound.place_unique (h : Sound pages heap spans live) (hpages : CommitsBlocks pages)
    (hi : i < heap.blockCount) (hb : b ∈ spans i) (hplace : Places pages i b a)
    (hj : j < heap.blockCount) (hb' : b' ∈ spans j) (hplace' : Places pages j b' a) :
    i = j ∧ b = b' := by
  have hle := h.blockCount_le
  have hin := hplace.inside (h.span_stop_le hb)
  have hjn := hplace'.inside (h.span_stop_le hb')
  have hpos := hplace.pos
  have hij : i = j := hpages.eq_of_mem (by omega) (by omega) a.pointer
    ⟨hin.1, by omega⟩ ⟨hjn.1, by omega⟩
  subst hij
  have hstart : b.start = b'.start := by
    have hpointer := hplace.pointer_eq.symm.trans hplace'.pointer_eq
    omega
  have hcount : b.count = b'.count := hplace.count_eq.trans hplace'.count_eq.symm
  refine ⟨rfl, ?_⟩
  cases b
  cases b'
  simp only [Span.mk.injEq]
  exact ⟨hstart, hcount⟩

instance : Std.Symm Allocation.Apart := ⟨fun _ _ h => h.symm⟩

/-- The live allocations are different. -/
theorem Sound.nodup (h : Sound pages heap spans live) : live.Nodup := by
  refine List.Pairwise.imp_of_mem ?_ h.apart
  rintro a a' ha - hapart rfl
  obtain ⟨i, -, b, -, hplace⟩ := h.placed a ha
  have hpos := hplace.pos
  rcases hapart with hle | hle
  · omega
  · omega

end Places

section Blocks

variable {pages : Nat → Nat} {heap : Heap} {spans : Nat → List Span} {live : List Allocation}
  {i r units alignment : Nat} {words : List Word}

/-- Any hint below the number of blocks will do. -/
theorem Sound.withHint (h : Sound pages heap spans live) {hint : Nat} (hlt : hint < maxBlocks) :
    Sound pages { heap with allocationHint := hint } spans live :=
  ⟨h.toBacked.withHint hlt, h.placed, h.allocated, h.apart⟩

/-- An allocation is added to a block in use. -/
theorem Sound.allocate (h : Sound pages heap spans live) (hpages : CommitsBlocks pages)
    (hi : i < heap.blockCount) {size : Nat} (hpos : 0 < size) (hle : size ≤ blockSize)
    (hend : r + unitsOf size ≤ 4096)
    (hrep : Represents blockAllocator words (⟨r, unitsOf size⟩ :: spans i)) :
    Sound pages (heap.setBlock i { heap.blocks i with allocator := words })
      (Function.update spans i (⟨r, unitsOf size⟩ :: spans i))
      (⟨pages i + 16 * r, size⟩ :: live) := by
  have hplace : Places pages i ⟨r, unitsOf size⟩ ⟨pages i + 16 * r, size⟩ := ⟨rfl, rfl, hpos, hle⟩
  have hin := hplace.inside hend
  have hmax := h.blockCount_le
  constructor
  case toBacked => exact h.toBacked.setAllocator hi hrep
  case placed =>
    intro a ha
    rcases List.mem_cons.mp ha with rfl | ha
    · refine ⟨i, hi, ⟨r, unitsOf size⟩, ?_, hplace⟩
      rw [Function.update_self]
      exact List.mem_cons_self ..
    · obtain ⟨j, hj, b, hb, hplace'⟩ := h.placed a ha
      refine ⟨j, hj, b, ?_, hplace'⟩
      by_cases hji : j = i
      · rw [hji, Function.update_self]
        exact List.mem_cons_of_mem _ (hji ▸ hb)
      · rw [Function.update_of_ne hji]
        exact hb
  case allocated =>
    intro j hj b hb
    by_cases hji : j = i
    · rw [hji, Function.update_self] at hb
      rcases List.mem_cons.mp hb with rfl | hb
      · exact ⟨_, List.mem_cons_self .., hji ▸ hplace⟩
      · obtain ⟨a, ha, hplace'⟩ := h.allocated i hi b hb
        exact ⟨a, List.mem_cons_of_mem _ ha, hji ▸ hplace'⟩
    · rw [Function.update_of_ne hji] at hb
      obtain ⟨a, ha, hplace'⟩ := h.allocated j hj b hb
      exact ⟨a, List.mem_cons_of_mem _ ha, hplace'⟩
  case apart =>
    refine List.pairwise_cons.mpr ⟨fun a ha => ?_, h.apart⟩
    obtain ⟨j, hj, b, hb, hplace'⟩ := h.placed a ha
    by_cases hji : j = i
    · subst hji
      -- in one block the runs of units are apart
      exact hplace.apart hplace' ((List.pairwise_cons.mp hrep.pairwise_apart).1 b hb)
    · have hjn := hplace'.inside (h.span_stop_le hb)
      have hdisjoint := hpages.disjoint i (by omega) j (by omega) (Ne.symm hji)
      rw [Allocation.Apart]
      dsimp only at hin ⊢
      omega

theorem Sound.addBlock (h : Sound pages heap spans live) (hlt : heap.blockCount < maxBlocks) :
    Sound pages (heap.addBlock pages) spans live := by
  constructor
  case toBacked => exact h.toBacked.addBlock hlt
  case placed =>
    intro a ha
    obtain ⟨j, hj, hplace⟩ := h.placed a ha
    exact ⟨j, Nat.lt_succ_of_lt hj, hplace⟩
  case allocated =>
    intro j hj b hb
    rcases Nat.lt_or_eq_of_le (Nat.le_of_lt_succ hj) with hj | rfl
    · exact h.allocated j hj b hb
    · rw [(h.unused _ le_rfl).2] at hb
      cases hb
  case apart => exact h.apart

end Blocks

end RPiKernel.Heaps
