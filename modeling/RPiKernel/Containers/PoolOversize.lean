import RPiKernel.Containers.PoolRefinement

/-!
# Requests for more than the pool

A request for more slots than a pool has is refused, unless the test for a fit within one
word overflows at a position that the search comes to. `MeetsOverflowAt` describes these
positions in terms of the live blocks.

## Implementation notes

`requestSystem` has the calls of `sequentialSystem` with any count. What an undefined shift
leaves behind is no state of it.
-/

namespace RPiKernel.Containers

open Interleaving Machine Intervals Transition

section System

variable (pool : PoolParameters)

/-- The effect of one call, which may ask for more slots than the pool has. -/
def SequentialState.request (σ : SequentialState) : PoolCall → Option SequentialState
  | .allocate count alignment =>
      if count ≤ pool.size then
        σ.next pool (.allocate count alignment)
      else if count < 4294967296 ∧ IsPowerOfTwo alignment then
        match allocate pool count alignment σ.words with
        | (.ok result, words) =>
            if result = uint32Max then some { σ with words }
            else some { words, live := ⟨⟨result, count⟩, alignment⟩ :: σ.live }
        | (.error _, _) => none
      else
        none
  | .deallocate start => σ.next pool (.deallocate start)

/-- Sequences of calls with any count from the constructor on. -/
def requestSystem : System SequentialState PoolCall where
  Initial := (sequentialSystem pool).Initial
  next := SequentialState.request pool

/-- The search for `count` slots overflows at `start`: it is the first aligned slot of its word
from which the word is free, its position in the word and the count add up to `2 ^ 32` or more,
and from no aligned slot of a word before are all slots free up to the end of the words. -/
structure MeetsOverflowAt (σ : SequentialState) (count alignment start : Nat) : Prop where
  free : Feasible pool σ (64 - start % 64) alignment start
  first : ∀ r < start, r / 64 = start / 64 → ¬ Feasible pool σ (64 - r % 64) alignment r
  wraps : 4294967296 ≤ start % 64 + count
  reached : ∀ r < 64 * (start / 64), ¬ Feasible pool σ (64 * pool.wordCount - r) alignment r

end System

section Oversized

variable {pool : PoolParameters} {σ : SequentialState} {count alignment : Nat}

/-- The overflows in the words are those beside the live blocks. -/
theorem SequentialInv.meetsOverflow_iff (h : SequentialInv pool σ) {start : Nat} :
    MeetsOverflow σ.words count alignment start ↔
      MeetsOverflowAt pool σ count alignment start := by
  have hlen := h.represents.length
  have hend : ∀ r, Feasible pool σ (64 - r % 64) alignment r ↔
      r % alignment = 0 ∧ FreeRun σ.words (64 - r % 64) r := fun r => h.feasible_iff (by omega)
  constructor
  · rintro ⟨hover, hreached⟩
    have hlt := hover.lt
    constructor
    case free => exact (hend start).mpr ⟨hover.aligned, hover.free⟩
    case first =>
      intro r hr hword hfeasible
      obtain ⟨halign, hfree⟩ := (hend r).mp hfeasible
      exact hover.first r hr hword halign hfree
    case wraps => exact hover.wraps
    case reached =>
      intro r hr hfeasible
      obtain ⟨halign, hfree⟩ := (h.feasible_iff (by omega)).mp hfeasible
      exact hreached r hr ⟨by omega, halign, by rwa [hlen]⟩
  · intro hat
    obtain ⟨halign, hfree⟩ := (hend start).mp hat.free
    refine ⟨⟨halign, hfree, fun r hr hword hra hrun => ?_, hat.wraps⟩, fun r hr hopen => ?_⟩
    · exact hat.first r hr hword ((hend r).mpr ⟨hra, hrun⟩)
    · have hlt := hopen.lt
      refine hat.reached r hr ((h.feasible_iff (by omega)).mpr ⟨hopen.aligned, ?_⟩)
      rw [← hlen]
      exact hopen.free

/-- A request for more slots than the pool has is refused, or its search meets an overflow. -/
theorem SequentialInv.oversized_cases (h : SequentialInv pool σ) (hsize : pool.size < count)
    (hlt : count < 4294967296) (halignment : IsPowerOfTwo alignment) :
    (allocate pool count alignment σ.words = (.ok uint32Max, σ.words) ∧
      ∀ start, ¬ MeetsOverflowAt pool σ count alignment start) ∨
    (allocate pool count alignment σ.words = (.error .undefinedShift, σ.words) ∧
      ∃ start, MeetsOverflowAt pool σ count alignment start) := by
  rcases allocate_outcomes h.represents (by omega) hlt halignment with
    ⟨hrun, -, hnone⟩ | ⟨r, words', -, hfit, hrep⟩ | ⟨hrun, start, hmeets⟩
  · exact Or.inl ⟨hrun, fun start hat => hnone start (h.meetsOverflow_iff.mpr hat)⟩
  · -- a fit would be a live block larger than the pool
    have hinside := hrep.inside List.mem_cons_self
    simp only [Span.stop] at hinside
    omega
  · exact Or.inr ⟨hrun, start, h.meetsOverflow_iff.mp hmeets⟩

/-- A request with any count keeps the invariant. -/
theorem SequentialInv.request {σ' : SequentialState} {c : PoolCall} (h : SequentialInv pool σ)
    (hs : σ.request pool c = some σ') : SequentialInv pool σ' := by
  cases c with
  | allocate count alignment =>
    rw [SequentialState.request] at hs
    by_cases hsize : count ≤ pool.size
    · rw [if_pos hsize] at hs
      exact h.next hs
    · rw [if_neg hsize] at hs
      split at hs
      · next hcall =>
        rcases h.oversized_cases (Nat.not_le.mp hsize) hcall.1 hcall.2 with
          ⟨hrun, -⟩ | ⟨hrun, -⟩
        · rw [hrun] at hs
          simp only [if_true, Option.some.injEq] at hs
          exact hs ▸ h
        · rw [hrun] at hs
          cases hs
      · cases hs
  | deallocate start =>
    rw [SequentialState.request] at hs
    exact h.next hs

theorem SequentialInv.of_requests (h : (requestSystem pool).Reachable σ) :
    SequentialInv pool σ := by
  have hinitial : ∀ σ, (requestSystem pool).Initial σ → SequentialInv pool σ :=
    fun _ => SequentialInv.initial
  exact h.invariant hinitial fun _ _ _ hI hs => hI.request hs

/-- In every state that calls lead to, a request for more slots than the pool has fails and
changes nothing exactly if its search meets no overflow. -/
theorem oversized_fails_iff (h : (requestSystem pool).Reachable σ) (hsize : pool.size < count)
    (hlt : count < 4294967296) (halignment : IsPowerOfTwo alignment) :
    allocate pool count alignment σ.words = (.ok uint32Max, σ.words) ↔
      ¬ ∃ start, MeetsOverflowAt pool σ count alignment start := by
  rcases (SequentialInv.of_requests h).oversized_cases hsize hlt halignment with
    ⟨hrun, hnone⟩ | ⟨hrun, hmeets⟩
  · exact iff_of_true hrun fun ⟨start, hat⟩ => hnone start hat
  · refine iff_of_false (fun hok => ?_) (not_not_intro hmeets)
    rw [hrun] at hok
    cases hok

/-- A pool of one word. -/
def onePool : PoolParameters := ⟨64, "PoolAllocator", by decide, by decide⟩

/-- In a new pool the first slot is free, where nothing overflows. -/
theorem oversized_fails_iff_new :
    allocate onePool 4294967295 1 [{}] = (.ok uint32Max, [{}]) ↔
      ¬ ∃ start, MeetsOverflowAt onePool ⟨[{}], []⟩ 4294967295 1 start :=
  oversized_fails_iff (σ := ⟨[{}], []⟩) (System.ReachableBy.initial ⟨rfl, rfl⟩) (by decide)
    (by decide) (by decide)

/-- Once its first slot is taken, a pool of one word does not refuse the largest count. -/
theorem not_oversized_fails : ¬ ∀ σ count alignment, (requestSystem onePool).Reachable σ →
    onePool.size < count → count < 4294967296 → IsPowerOfTwo alignment →
    allocate onePool count alignment σ.words = (.ok uint32Max, σ.words) := by
  intro hall
  have hfirst : allocate onePool 1 1 [{}] = (.ok 0, [{ bitmap := 1, starts := 1 }]) := by
    decide +kernel
  have hnext : (requestSystem onePool).next ⟨[{}], []⟩ (.allocate 1 1) =
      some ⟨[{ bitmap := 1, starts := 1 }], [⟨⟨0, 1⟩, 1⟩]⟩ := by
    have hcall : 0 < 1 ∧ 1 ≤ onePool.size ∧ IsPowerOfTwo 1 := by decide
    have hpass : (1 : Nat) ≤ onePool.size := hcall.2.1
    change SequentialState.request onePool ⟨[{}], []⟩ (.allocate 1 1) = _
    rw [SequentialState.request, if_pos hpass, SequentialState.next, if_pos hcall, hfirst]
    rfl
  have hreach : (requestSystem onePool).Reachable
      ⟨[{ bitmap := 1, starts := 1 }], [⟨⟨0, 1⟩, 1⟩]⟩ :=
    System.ReachableBy.next (.allocate 1 1) (System.ReachableBy.initial ⟨rfl, rfl⟩) trivial hnext
  have hrefused := hall _ 4294967295 1 hreach (by decide) (by decide) (by decide)
  have hfault : (allocate onePool 4294967295 1 [{ bitmap := 1, starts := 1 }]).1 =
      .error .undefinedShift := by decide +kernel
  rw [hrefused] at hfault
  cases hfault

end Oversized

end RPiKernel.Containers
