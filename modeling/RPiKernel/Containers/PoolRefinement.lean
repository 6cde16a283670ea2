import Mathlib.Order.Bounds.Defs
import RPiKernel.Containers.PoolSequential
import RPiKernel.Transition.System

/-!
# The pool allocator refines a set of disjoint intervals

`sequentialSystem` executes arbitrary sequences of calls one after another.
`RefinesIntervals` says that every such sequence treats the pool as a set of
disjoint intervals. It holds exactly for the sizes whose number of words does
not overflow.
-/

namespace RPiKernel.Containers

open Interleaving Machine Intervals Transition

/-- A block with the alignment that was asked for. -/
structure LiveBlock where
  span : Span
  alignment : Nat

structure SequentialState where
  words : List Word
  live : List LiveBlock

inductive PoolCall where
  | allocate (count alignment : Nat)
  | deallocate (start : Nat)

section System

variable (pool : PoolParameters)

/-- The effect of one call. A call that panics leaves its words behind. -/
def SequentialState.next (σ : SequentialState) : PoolCall → Option SequentialState
  | .allocate count alignment =>
      if 0 < count ∧ count ≤ pool.size ∧ IsPowerOfTwo alignment then
        match allocate pool count alignment σ.words with
        | (.ok result, words) =>
            if result = uint32Max then some { σ with words }
            else some { words, live := ⟨⟨result, count⟩, alignment⟩ :: σ.live }
        | (.error _, words) => some { σ with words }
      else
        none
  | .deallocate start =>
      match (deallocate pool start).run σ.words with
      | (.ok (), words) =>
          some { words, live := σ.live.eraseP fun b => b.span.start = start }
      | (.error _, words) => some { σ with words }

/-- Sequences of calls from the constructor on. -/
def sequentialSystem : System SequentialState PoolCall where
  Initial σ := pool.construct = .ok σ.words ∧ σ.live = []
  next := SequentialState.next pool

/-- The pool is a set of disjoint intervals, and the next call treats it as such. -/
structure RefinesIntervalsAt (σ : SequentialState) : Prop where
  apart : σ.live.Pairwise fun b c => b.span.Apart c.span
  inside : ∀ b ∈ σ.live, 0 < b.span.count ∧ b.span.stop ≤ pool.size
  aligned : ∀ b ∈ σ.live, b.span.start % b.alignment = 0
  encoding : IsEncodingOf pool (σ.live.map LiveBlock.span) σ.words
  blockSize : ∀ b ∈ σ.live,
    (getBlockSize pool b.span.start).run σ.words = (.ok b.span.count, σ.words)
  returns : ∀ count alignment, 0 < count → count ≤ pool.size → IsPowerOfTwo alignment →
    ∃ result words', allocate pool count alignment σ.words = (.ok result, words')
  panics : ∀ start, (∃ message, (deallocate pool start).run σ.words =
    (.error (.panic message), σ.words)) ↔ ∀ b ∈ σ.live, b.span.start ≠ start
  releases : ∀ b ∈ σ.live, ∃ words', (deallocate pool b.span.start).run σ.words = (.ok (), words') ∧
    (∀ i, slotBit words' i = true ↔ slotBit σ.words i = true ∧ i ∉ b.span) ∧
    ∀ i, startBit words' i = true ↔ startBit σ.words i = true ∧ i ≠ b.span.start

/-- The constructor returns, and every sequence of calls treats the pool as a
set of disjoint intervals. -/
def RefinesIntervals : Prop :=
  (∃ words, pool.construct = .ok words) ∧
    ∀ σ, (sequentialSystem pool).Reachable σ → RefinesIntervalsAt pool σ

end System

section Invariant

variable {pool : PoolParameters}

/-- The words represent the live blocks, which are aligned as asked for. -/
structure SequentialInv (pool : PoolParameters) (σ : SequentialState) : Prop where
  represents : Represents pool σ.words (σ.live.map LiveBlock.span)
  aligned : ∀ b ∈ σ.live, b.span.start % b.alignment = 0

/-- Live blocks with the same start are the same block. -/
theorem Represents.eq_of_start_eq {words : List Word} {live : List Span} {b c : Span}
    (h : Represents pool words live) (hb : b ∈ live) (hc : c ∈ live) (heq : c.start = b.start) :
    c = b := by
  by_contra hne
  have hpos := h.pos hb
  have hpos' := h.pos hc
  refine h.disjoint hb hc (Ne.symm hne) b.start ⟨le_rfl, ?_⟩ ⟨heq.le, ?_⟩
  · simp only [Span.stop]
    omega
  · simp only [Span.stop]
    omega

/-- Erasing by the start of a live block erases this block. -/
theorem eraseP_start_eq {words : List Word} {live : List Span} {b : Span}
    (h : Represents pool words live) (hb : b ∈ live) :
    live.eraseP (fun c => c.start = b.start) = live.erase b := by
  rw [List.erase_eq_eraseP]
  have hiff : ∀ c ∈ live, decide (c.start = b.start) = (b == c) := by
    intro c hc
    rw [Bool.eq_iff_iff, decide_eq_true_iff, beq_iff_eq]
    exact ⟨fun heq => (h.eq_of_start_eq hb hc heq).symm, fun heq => heq ▸ rfl⟩
  clear h hb
  induction live with
  | nil => rfl
  | cons c live ih =>
      rw [List.eraseP_cons, List.eraseP_cons, hiff c List.mem_cons_self,
        ih fun d hd => hiff d (List.mem_cons_of_mem c hd)]

theorem SequentialInv.initial {σ : SequentialState} (h : (sequentialSystem pool).Initial σ) :
    SequentialInv pool σ := by
  obtain ⟨hwords, hlive⟩ := h
  constructor
  · rw [hlive]
    exact construct_represents hwords
  · intro b hb
    rw [hlive] at hb
    cases hb

/-- Every call keeps the invariant. -/
theorem SequentialInv.next {σ σ' : SequentialState} {c : PoolCall} (h : SequentialInv pool σ)
    (hs : σ.next pool c = some σ') : SequentialInv pool σ' := by
  cases c with
  | allocate count alignment =>
      simp only [SequentialState.next] at hs
      split at hs
      · next harg =>
          obtain ⟨hcount, hsize, ha⟩ := harg
          rcases allocate_spec h.represents hcount hsize ha with
            ⟨hrun, -⟩ | ⟨r, words', hrun, hfit, hrep⟩
          · simp only [hrun, if_true, Option.some.injEq] at hs
            subst hs
            exact h
          · have hstop := hrep.inside List.mem_cons_self
            have hfits := hrep.size_le
            have hmax : r ≠ uint32Max := by
              simp only [Span.stop, uint32Max] at hstop ⊢
              omega
            simp only [hrun, hmax, if_false, Option.some.injEq] at hs
            subst hs
            refine ⟨hrep, fun b hb => ?_⟩
            rcases List.mem_cons.mp hb with rfl | hb
            · exact hfit.1
            · exact h.aligned b hb
      · cases hs
  | deallocate start =>
      simp only [SequentialState.next] at hs
      by_cases hlive : ∃ b ∈ σ.live, b.span.start = start
      · obtain ⟨b, hb, rfl⟩ := hlive
        have hspan : b.span ∈ σ.live.map LiveBlock.span := List.mem_map_of_mem hb
        obtain ⟨words', hrun, hrep⟩ := deallocate_spec h.represents hspan
        simp only [hrun, Option.some.injEq] at hs
        subst hs
        refine ⟨?_, fun c hc => h.aligned c (List.mem_of_mem_eraseP hc)⟩
        rw [← eraseP_start_eq h.represents hspan, List.eraseP_map] at hrep
        exact hrep
      · have hne : ∀ b ∈ σ.live.map LiveBlock.span, b.start ≠ start := by
          intro b hb hstart
          obtain ⟨c, hc, rfl⟩ := List.mem_map.mp hb
          exact hlive ⟨c, hc, hstart⟩
        obtain ⟨message, hrun⟩ := deallocate_panics h.represents hne
        simp only [hrun, Option.some.injEq] at hs
        subst hs
        exact h

theorem SequentialInv.of_reachable {σ : SequentialState}
    (h : (sequentialSystem pool).Reachable σ) : SequentialInv pool σ :=
  h.invariant (fun _ => SequentialInv.initial) fun _ _ _ hI hs => hI.next hs

/-- The deallocation of a block clears its slots and its start, and nothing else. -/
theorem deallocate_bits {words words' : List Word} {live : List Span} {b : Span}
    (h : Represents pool words live) (hb : b ∈ live) (h' : Represents pool words' (live.erase b)) :
    (∀ i, slotBit words' i = true ↔ slotBit words i = true ∧ i ∉ b) ∧
      ∀ i, startBit words' i = true ↔ startBit words i = true ∧ i ≠ b.start := by
  have hstop := h.inside hb
  have hpos := h.pos hb
  have hmem : ∀ c, c ∈ live.erase b ↔ c ≠ b ∧ c ∈ live := fun c => h.1.mem_erase_iff
  constructor
  · intro i
    rw [h.isEncodingOf.slots, h'.isEncodingOf.slots]
    constructor
    · rintro (⟨c, hc, hi⟩ | hi)
      · obtain ⟨hne, hc⟩ := (hmem c).mp hc
        exact ⟨Or.inl ⟨c, hc, hi⟩, h.disjoint hc hb hne i hi⟩
      · exact ⟨Or.inr hi, fun hib => absurd hib.2 (by omega)⟩
    · rintro ⟨⟨c, hc, hi⟩ | hi, hib⟩
      · refine Or.inl ⟨c, (hmem c).mpr ⟨?_, hc⟩, hi⟩
        rintro rfl
        exact hib hi
      · exact Or.inr hi
  · intro i
    rw [h.isEncodingOf.starts, h'.isEncodingOf.starts]
    constructor
    · rintro (⟨c, hc, rfl⟩ | hi)
      · obtain ⟨hne, hc⟩ := (hmem c).mp hc
        exact ⟨Or.inl ⟨c, hc, rfl⟩, fun heq => hne (h.eq_of_start_eq hb hc heq)⟩
      · refine ⟨Or.inr hi, ?_⟩
        simp only [Span.stop] at hstop
        omega
    · rintro ⟨⟨c, hc, rfl⟩ | hi, hne⟩
      · refine Or.inl ⟨c, (hmem c).mpr ⟨?_, hc⟩, rfl⟩
        rintro rfl
        exact hne rfl
      · exact Or.inr hi

/-- What the invariant says about the pool and about the next call. -/
theorem SequentialInv.refinesIntervalsAt {σ : SequentialState} (h : SequentialInv pool σ) :
    RefinesIntervalsAt pool σ := by
  have hspan : ∀ b ∈ σ.live, b.span ∈ σ.live.map LiveBlock.span :=
    fun b hb => List.mem_map_of_mem hb
  constructor
  case apart => exact List.pairwise_map.mp h.represents.pairwise_apart
  case inside => exact fun b hb => ⟨h.represents.pos (hspan b hb), h.represents.inside (hspan b hb)⟩
  case aligned => exact h.aligned
  case encoding => exact h.represents.isEncodingOf
  case blockSize => exact fun b hb => getBlockSize_spec h.represents (hspan b hb)
  case returns =>
    intro count alignment hcount hsize ha
    rcases allocate_spec h.represents hcount hsize ha with ⟨hrun, -⟩ | ⟨r, words', hrun, -, -⟩
    · exact ⟨_, _, hrun⟩
    · exact ⟨_, _, hrun⟩
  case panics =>
    intro start
    constructor
    · rintro ⟨message, hrun⟩ b hb rfl
      obtain ⟨words', hrun', -⟩ := deallocate_spec h.represents (hspan b hb)
      rw [hrun] at hrun'
      cases hrun'
    · intro hne
      apply deallocate_panics h.represents
      intro b hb
      obtain ⟨c, hc, rfl⟩ := List.mem_map.mp hb
      exact hne c hc
  case releases =>
    intro b hb
    obtain ⟨words', hrun, hrep⟩ := deallocate_spec h.represents (hspan b hb)
    exact ⟨words', hrun, deallocate_bits h.represents (hspan b hb) hrep⟩

end Invariant

/-- The pool behaves as a set of disjoint intervals exactly when its number of
words does not overflow. -/
theorem refinesIntervals_iff (pool : PoolParameters) :
    RefinesIntervals pool ↔ pool.size ≤ 4294967232 := by
  constructor
  · exact fun h => construct_eq_ok_iff.mp h.1
  · intro hfits
    exact ⟨construct_eq_ok_iff.mpr hfits,
      fun σ hσ => (SequentialInv.of_reachable hσ).refinesIntervalsAt⟩

/-- The largest pool that can be declared has no words, and its constructor
writes behind them. -/
theorem not_refinesIntervals_max :
    ¬ RefinesIntervals ⟨4294967295, "PoolAllocator", by decide, by decide⟩ := by
  rintro ⟨⟨words, hwords⟩, -⟩
  have hfault : PoolParameters.construct ⟨4294967295, "PoolAllocator", by decide, by decide⟩ =
      .error .outOfBounds := by decide
  rw [hfault] at hwords
  cases hwords

section FirstFit

/-- An aligned start of a run of slots of the pool outside the live blocks. -/
def Feasible (pool : PoolParameters) (σ : SequentialState) (count alignment start : Nat) : Prop :=
  start % alignment = 0 ∧ start + count ≤ pool.size ∧
    ∀ i, start ≤ i → i < start + count → ∀ b ∈ σ.live, i ∉ b.span

variable {pool : PoolParameters} {σ : SequentialState} {count alignment : Nat}

/-- The feasible starts are those of the free runs in the words. -/
theorem SequentialInv.feasible_iff (h : SequentialInv pool σ) (hcount : 0 < count) {r : Nat} :
    Feasible pool σ count alignment r ↔ r % alignment = 0 ∧ FreeRun σ.words count r := by
  rw [Feasible, h.represents.freeRun_iff]
  refine and_congr_right fun _ => ⟨?_, ?_⟩
  · rintro ⟨hle, hout⟩ i hi hi'
    refine ⟨Nat.lt_of_lt_of_le hi' hle, fun b hb => ?_⟩
    obtain ⟨c, hc, rfl⟩ := List.mem_map.mp hb
    exact hout i hi hi' c hc
  · intro hfree
    have hlast := (hfree (r + count - 1) (by omega) (by omega)).1
    refine ⟨by omega, fun i hi hi' b hb => ?_⟩
    exact (hfree i hi hi').2 b.span (List.mem_map_of_mem hb)

/-- In every state that calls lead to, `Allocate` returns the least feasible start; without
one it fails and changes nothing. -/
theorem allocate_firstFit (h : (sequentialSystem pool).Reachable σ) (hcount : 0 < count)
    (hsize : count ≤ pool.size) (halignment : IsPowerOfTwo alignment) :
    ((∃ start, Feasible pool σ count alignment start) →
      ∃ start words', allocate pool count alignment σ.words = (.ok start, words') ∧
        IsLeast {start | Feasible pool σ count alignment start} start) ∧
    ((¬ ∃ start, Feasible pool σ count alignment start) →
      allocate pool count alignment σ.words = (.ok uint32Max, σ.words)) := by
  have hI := SequentialInv.of_reachable h
  rcases allocate_spec hI.represents hcount hsize halignment with
    ⟨hrun, hnone⟩ | ⟨r, words', hrun, ⟨haligned, hfree, hbelow⟩, -⟩
  · have hinfeasible : ¬ ∃ start, Feasible pool σ count alignment start := by
      rintro ⟨start, hstart⟩
      obtain ⟨hmod, hrunFree⟩ := (hI.feasible_iff hcount).mp hstart
      exact hnone start hmod hrunFree
    exact ⟨fun hsome => absurd hsome hinfeasible, fun _ => hrun⟩
  · have hfeasible : Feasible pool σ count alignment r :=
      (hI.feasible_iff hcount).mpr ⟨haligned, hfree⟩
    refine ⟨fun _ => ⟨r, words', hrun, hfeasible, ?_⟩, fun hno => absurd ⟨r, hfeasible⟩ hno⟩
    intro start hstart
    obtain ⟨hmod, hrunFree⟩ := (hI.feasible_iff hcount).mp hstart
    by_contra hlt
    exact hbelow start (Nat.not_le.mp hlt) hmod hrunFree

/-- In a new pool of three words, a block aligned to two words. -/
theorem allocate_firstFit_new :
    ∃ start words', allocate ⟨192, "PoolAllocator", by decide, by decide⟩ 65 128
        (List.replicate 3 {}) = (.ok start, words') ∧
      IsLeast {start | Feasible ⟨192, "PoolAllocator", by decide, by decide⟩
        ⟨List.replicate 3 {}, []⟩ 65 128 start} start := by
  have hinitial : (sequentialSystem ⟨192, "PoolAllocator", by decide, by decide⟩).Reachable
      ⟨List.replicate 3 {}, []⟩ := System.ReachableBy.initial ⟨rfl, rfl⟩
  apply (allocate_firstFit hinitial (by decide) (by decide) (by decide)).1
  exact ⟨0, rfl, by decide, fun _ _ _ _ hb => absurd hb List.not_mem_nil⟩

end FirstFit

end RPiKernel.Containers
