import RPiKernel.Containers.PoolSequential
import RPiKernel.Containers.PoolSystem

/-!
# Safety and consistency of the pool allocator under interference

`live_blocks_exclusive` holds in every state that any number of threads can
reach. Exactness of the encoding between calls needs that no thread rolls back
an allocation that began with a whole word: `rollback_leaks_slot` is a run of
two threads that do so.
-/

namespace RPiKernel.Containers

open Interleaving Machine Intervals Transition

variable {ι : Type*} [DecidableEq ι] {pool : PoolParameters} {σ : PoolState ι}

/-- The call of the thread has stopped with a fault. -/
def ThreadState.Faulted : ThreadState → Prop
  | .idle => False
  | .allocating _ _ rest => ∃ e, rest = .fault e
  | .deallocating rest => ∃ e, rest = .fault e

/-- The live blocks are disjoint, lie in the pool and are taken, and no call
has stopped with a fault. -/
structure Exclusive (pool : PoolParameters) (σ : PoolState ι) : Prop where
  apart : σ.live.Pairwise Span.Apart
  inside : ∀ b ∈ σ.live, 0 < b.count ∧ b.stop ≤ pool.size
  taken : ∀ b ∈ σ.live, ∀ i, i ∈ b → slotBit σ.words i = true
  faultless : ∀ t, ¬ (σ.thread t).Faulted

theorem PoolInv.exclusive {leaky : Prop} {permitted : (Word → Except Fault Word) → Prop}
    (h : PoolInv pool leaky permitted σ) : Exclusive pool σ := by
  obtain ⟨γ, ⟨hlive, hF⟩, hthreads⟩ := h
  have howns : ∀ {b}, b ∈ σ.live → owners σ.live γ (Sum.inl b) = some b :=
    fun hb => Family.ofList_eq_some.mpr ⟨hb, rfl⟩
  constructor
  · refine List.Pairwise.imp_of_mem ?_ hlive
    intro b c hb hc hne
    apply (Span.apart_iff (hF.separated.pos (howns hb)) (hF.separated.pos (howns hc))).mpr
    exact hF.separated.disjoint (howns hb) (howns hc) fun heq => hne (Sum.inl_injective heq)
  · exact fun b hb => ⟨hF.separated.pos (howns hb), hF.inside (howns hb)⟩
  · exact fun b hb i hi => hF.covered ⟨_, b, howns hb, hi⟩
  · intro t hfault
    have ht := hthreads t
    cases hstate : σ.thread t with
    | idle =>
        rw [hstate] at hfault
        exact hfault
    | allocating count alignment rest =>
        rw [hstate] at ht hfault
        obtain ⟨e, rfl⟩ := hfault
        exact ht.2
    | deallocating rest =>
        rw [hstate] at ht hfault
        obtain ⟨e, rfl⟩ := hfault
        exact ht

omit [DecidableEq ι] in
theorem ThreadState.mayStep_of_forall {leaky : Prop} (state : ThreadState) :
    state.MayStep ι pool leaky (fun _ => True) := by
  cases state with
  | idle => trivial
  | allocating count alignment rest => exact Protocol.mayStep_of_forall (fun _ => trivial) rest
  | deallocating rest => exact Protocol.mayStep_of_forall (fun _ => trivial) rest

/-- The next step of the program is the rollback of an allocation that began in
the first slot of a word. -/
def RollsBackWholeWord {α : Type} (p : Program Word α) : Prop :=
  ∃ i current next, p = .compareExchangeLoop i current (undoRest 0) next

def ThreadState.RollsBackWholeWord : ThreadState → Prop
  | .idle => False
  | .allocating _ _ rest => Containers.RollsBackWholeWord rest
  | .deallocating rest => Containers.RollsBackWholeWord rest

/-- No step of the action is the rollback of an allocation that began in the
first slot of a word. -/
def AvoidsLeak (σ : PoolState ι) : PoolAction ι → Prop
  | .step t => ¬ (σ.thread t).RollsBackWholeWord
  | _ => True

omit [DecidableEq ι] in
theorem mayStep_of_not_rollsBack {leaky : Prop} {state : ThreadState}
    (h : ¬ state.RollsBackWholeWord) :
    state.MayStep ι pool leaky (· ≠ undoRest 0) := by
  have hprogram : ∀ {α : Type} (p : Program Word α), ¬ RollsBackWholeWord p →
      (poolProtocol ι pool leaky (· ≠ undoRest 0)).MayStep p := by
    intro α p hp
    cases p with
    | compareExchangeLoop i current desired next =>
        rintro rfl
        exact hp ⟨i, current, next, rfl⟩
    | done a => trivial
    | fault e => trivial
    | load i next => trivial
    | compareExchange i expected desired next => trivial
    | store i v next => trivial
  cases state with
  | idle => trivial
  | allocating count alignment rest => exact hprogram rest h
  | deallocating rest => exact hprogram rest h

/-- Between calls the words are the encoding of the live blocks, and the size of
every live block is the one that it was allocated with. -/
def QuiescentExact (pool : PoolParameters) (σ : PoolState ι) : Prop :=
  σ.Quiescent → IsEncodingOf pool σ.live σ.words ∧
    ∀ b ∈ σ.live, (getBlockSize pool b.start).run σ.words = (.ok b.count, σ.words)

/-- In every state that the threads can reach, the live blocks are disjoint,
inside the pool and taken, and no call ever panics. -/
theorem live_blocks_exclusive (h : (poolSystem ι pool).Reachable σ) : Exclusive pool σ := by
  have hinv : PoolInv pool True (fun _ => True) σ := by
    refine h.invariant (fun _ => PoolInv.initial) ?_
    intro s a s' hI hs
    exact hI.next (Or.inl trivial) (fun t _ => ThreadState.mayStep_of_forall _) hs
  exact hinv.exclusive

section TwoThreads

/-- A pool of two words. -/
def pool128 : PoolParameters := ⟨128, "PoolAllocator", by decide, by decide⟩

/-- Two threads on the pool of two words, before their first call. -/
def twoThreads : PoolState Bool := { words := [{}, {}], live := [], thread := fun _ => .idle }

theorem twoThreads_initial : (poolSystem Bool pool128).Initial twoThreads :=
  ⟨by rfl, rfl, fun _ => rfl⟩

/-- One thread commits the first word of an allocation of 65 slots; then the
other one allocates the second word. -/
def contendedActions : List (PoolAction Bool) :=
  [.allocate true 65 1, .step true, .step true, .step true,
    .allocate false 64 1, .step false, .step false, .step false, .step false]

/-- The first thread finds the second word taken, undoes its first word, and
its next attempt fails for good. -/
def rollbackActions : List (PoolAction Bool) :=
  [.step true, .step true, .step true, .step true, .step true, .step true, .step true]

/-- A block is live in the middle of the allocation of another thread. -/
theorem live_blocks_exclusive_contended :
    ∃ σ, (poolSystem Bool pool128).Reachable σ ∧ σ.live = [⟨64, 64⟩] ∧ Exclusive pool128 σ := by
  have hrun : ((poolSystem Bool pool128).run twoThreads contendedActions).map PoolState.live =
      some [⟨64, 64⟩] := by rfl
  obtain ⟨σ, hσ, hlive⟩ := Option.map_eq_some_iff.mp hrun
  have hreach := System.Reachable.run (.initial twoThreads_initial) contendedActions hσ
  exact ⟨σ, hreach, hlive, live_blocks_exclusive hreach⟩

end TwoThreads

/-- Runs without the rollback of a whole first word leave the exact encoding behind. -/
theorem quiescent_exact (h : (poolSystem ι pool).ReachableBy AvoidsLeak σ) :
    QuiescentExact pool σ := by
  intro hidle
  have hinv : PoolInv pool False (· ≠ undoRest 0) σ := by
    refine h.invariant (fun _ => PoolInv.initial) ?_
    intro s a s' hI ha hs
    refine hI.next (Or.inr fun hne => hne rfl) (fun t ht => ?_) hs
    subst ht
    exact mayStep_of_not_rollsBack ha
  obtain ⟨γ, hI, hthreads⟩ := hinv
  have hγ : ∀ t, γ t = none := by
    intro t
    have ht := hthreads t
    rw [hidle t] at ht
    exact ht
  have hrep := represents_of_idle hI hγ
  exact ⟨hrep.isEncodingOf, fun b hb => getBlockSize_spec hrep hb⟩

section TwoThreads

/-- The words, the live blocks, and whether both threads are idle. -/
def PoolState.summary (σ : PoolState Bool) : List Word × List Span × Bool :=
  (σ.words, σ.live, match σ.thread true, σ.thread false with
    | .idle, .idle => true
    | _, _ => false)

theorem PoolState.of_summary {σ : PoolState Bool} {words : List Word} {live : List Span}
    (h : σ.summary = (words, live, true)) : σ.words = words ∧ σ.live = live ∧ σ.Quiescent := by
  simp only [PoolState.summary, Prod.mk.injEq] at h
  obtain ⟨hwords, hlive, hidle⟩ := h
  refine ⟨hwords, hlive, ?_⟩
  split at hidle
  · next htrue hfalse =>
      rintro (_ | _)
      · exact hfalse
      · exact htrue
  · cases hidle

/-- Both threads read the first word; the one that comes second loses the race,
and its second attempt allocates behind the block of the other. -/
def lostRaceActions : List (PoolAction Bool) :=
  [.allocate true 65 1, .step true, .step true,
    .allocate false 3 1, .step false, .step false, .step false,
    .step true, .step true, .step true, .step true, .step true, .step true, .step true, .step true]

/-- No thread at a retry loop is chosen. -/
def stepsOutsideLoops (σ : PoolState Bool) : PoolAction Bool → Bool
  | .step t =>
      match σ.thread t with
      | .allocating _ _ (.compareExchangeLoop ..) => false
      | .deallocating (.compareExchangeLoop ..) => false
      | _ => true
  | _ => true

theorem avoidsLeak_of_stepsOutsideLoops (σ : PoolState Bool) (a : PoolAction Bool)
    (h : stepsOutsideLoops σ a = true) : AvoidsLeak σ a := by
  cases a with
  | allocate t count alignment => trivial
  | deallocate t b => trivial
  | step t =>
      simp only [stepsOutsideLoops] at h
      simp only [AvoidsLeak]
      cases hstate : σ.thread t with
      | idle => exact id
      | allocating count alignment rest =>
          rintro ⟨i, current, next, rfl⟩
          simp [hstate] at h
      | deallocating rest =>
          rintro ⟨i, current, next, rfl⟩
          simp [hstate] at h

/-- A lost race before the first commit leaves nothing behind. -/
theorem quiescent_exact_lostRace :
    ∃ σ, (poolSystem Bool pool128).ReachableBy AvoidsLeak σ ∧ σ.Quiescent ∧
      σ.live = [⟨3, 65⟩, ⟨0, 3⟩] ∧ QuiescentExact pool128 σ := by
  have hrun : ((poolSystem Bool pool128).runWhere stepsOutsideLoops twoThreads
      lostRaceActions).map PoolState.summary =
        some ([⟨0xffffffffffffffff, 9⟩, ⟨0xf, 0⟩], [⟨3, 65⟩, ⟨0, 3⟩], true) := by rfl
  obtain ⟨σ, hσ, hsummary⟩ := Option.map_eq_some_iff.mp hrun
  obtain ⟨-, hlive, hidle⟩ := PoolState.of_summary hsummary
  have hreach := System.ReachableBy.runWhere avoidsLeak_of_stepsOutsideLoops
    (.initial twoThreads_initial) lostRaceActions hσ
  exact ⟨σ, hreach, hidle, hlive, quiescent_exact hreach⟩

/-- After the rollback the top slot of the first word stays taken for ever,
although the only live block is the second word. -/
theorem rollback_leaks_slot :
    ∃ σ, (poolSystem Bool pool128).Reachable σ ∧ ¬ QuiescentExact pool128 σ := by
  have hrun : ((poolSystem Bool pool128).run twoThreads (contendedActions ++ rollbackActions)).map
      PoolState.summary = some ([⟨0x8000000000000000, 0⟩, ⟨0xffffffffffffffff, 1⟩],
        [⟨64, 64⟩], true) := by rfl
  obtain ⟨σ, hσ, hsummary⟩ := Option.map_eq_some_iff.mp hrun
  obtain ⟨hwords, hlive, hidle⟩ := PoolState.of_summary hsummary
  refine ⟨σ, System.Reachable.run (.initial twoThreads_initial) _ hσ, fun hexact => ?_⟩
  have hslot : slotBit σ.words 63 = true := by
    rw [hwords]
    rfl
  rcases ((hexact hidle).1.slots 63).mp hslot with ⟨b, hb, hi⟩ | ⟨hsize, -⟩
  · rw [hlive, List.mem_singleton] at hb
    subst hb
    exact absurd hi.1 (by decide)
  · exact absurd hsize (by decide)

end TwoThreads

end RPiKernel.Containers
