import Mathlib.Data.Finset.Card
import RPiKernel.Containers.PoolSequential

/-!
# The free slots of a pool

`freeSlots` is the set of slots outside the live blocks. Single slots can be
allocated exactly as long as it is not empty.
-/

namespace RPiKernel.Containers

open Interleaving Machine Intervals

/-- The slots of the pool that are not taken. -/
def freeSlots (pool : PoolParameters) (words : List Word) : Finset Nat :=
  (Finset.range pool.size).filter fun i => slotBit words i = false

variable {pool : PoolParameters} {words : List Word} {live : List Span}

namespace Represents

theorem mem_freeSlots (h : Represents pool words live) {i : Nat} :
    i ∈ freeSlots pool words ↔ i < pool.size ∧ ∀ b ∈ live, i ∉ b := by
  have hone : FreeRun words 1 i ↔ _ := h.freeRun_iff
  have hlen := h.length
  have hsize := PoolParameters.size_le h.size_le
  rw [freeSlots, Finset.mem_filter, Finset.mem_range]
  constructor
  · rintro ⟨hi, hslot⟩
    refine hone.mp (fun j hj hj' => ?_) i le_rfl (by omega)
    rw [show j = i by omega]
    exact ⟨by omega, hslot⟩
  · rintro ⟨hi, hout⟩
    have hfree := hone.mpr fun j hj hj' => by
      rw [show j = i by omega]
      exact ⟨hi, hout⟩
    exact ⟨hi, (hfree i le_rfl (by omega)).2⟩

/-- A free run consists of free slots. -/
theorem freeRun_iff_subset (h : Represents pool words live) {count r : Nat} :
    FreeRun words count r ↔ ∀ i, r ≤ i → i < r + count → i ∈ freeSlots pool words := by
  rw [h.freeRun_iff]
  simp only [h.mem_freeSlots]

/-- A new live block takes its slots away. -/
theorem mem_freeSlots_cons {words' : List Word} {b : Span} (h : Represents pool words live)
    (h' : Represents pool words' (b :: live)) {i : Nat} :
    i ∈ freeSlots pool words' ↔ i ∈ freeSlots pool words ∧ i ∉ b := by
  rw [h.mem_freeSlots, h'.mem_freeSlots]
  simp only [List.forall_mem_cons]
  constructor
  · rintro ⟨hi, hb, hout⟩
    exact ⟨⟨hi, hout⟩, hb⟩
  · rintro ⟨⟨hi, hout⟩, hb⟩
    exact ⟨hi, hb, hout⟩

end Represents

/-- All slots of a new pool are free. -/
theorem freeSlots_construct (h : pool.construct = .ok words) :
    freeSlots pool words = Finset.range pool.size := by
  ext i
  rw [(construct_represents h).mem_freeSlots, Finset.mem_range]
  simp

/-- A single slot can be allocated exactly when one is free. -/
theorem allocate_one (h : Represents pool words live) :
    (allocate pool 1 1 words = (.ok uint32Max, words) ∧ freeSlots pool words = ∅) ∨
    ∃ r words', allocate pool 1 1 words = (.ok r, words') ∧ r ∈ freeSlots pool words ∧
      Represents pool words' (⟨r, 1⟩ :: live) ∧
      freeSlots pool words' = (freeSlots pool words).erase r := by
  have hpos := pool.size_pos
  rcases allocate_spec h Nat.one_pos hpos ⟨0, by decide, rfl⟩ with
    ⟨hrun, hnone⟩ | ⟨r, words', hrun, hfit, h'⟩
  · refine Or.inl ⟨hrun, Finset.eq_empty_of_forall_notMem fun i hi => ?_⟩
    refine hnone i (Nat.mod_one i) (h.freeRun_iff_subset.mpr fun j hj hj' => ?_)
    rwa [show j = i by omega]
  · have hmem := h.freeRun_iff_subset.mp hfit.2.1 r le_rfl (by omega)
    refine Or.inr ⟨r, words', hrun, hmem, h', ?_⟩
    ext i
    rw [h.mem_freeSlots_cons h', Finset.mem_erase, and_comm]
    refine and_congr_left fun _ => ?_
    simp only [Span.mem_iff]
    omega

end RPiKernel.Containers
