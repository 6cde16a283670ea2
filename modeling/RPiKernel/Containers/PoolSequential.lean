import RPiKernel.Containers.PoolDeallocation
import RPiKernel.Containers.PoolSearch

/-!
# Calls executed one after another

`Represents` says that the words of a pool stand for a list of live blocks.
`allocate_spec`, `getBlockSize_spec`, `deallocate_spec` and `deallocate_panics`
are the specifications of the operations in these terms, from which clients of
the allocator are verified.
-/

namespace RPiKernel.Containers

open Interleaving Machine Intervals

/-- The words are the exact encoding of separated live blocks. -/
def Represents (pool : PoolParameters) (words : List Word) (live : List Span) : Prop :=
  (poolProtocol Unit pool False fun _ => True).Inv live words fun _ => none

/-- The words are exactly the encoding of a list of blocks. -/
structure IsEncodingOf (pool : PoolParameters) (live : List Span) (words : List Word) : Prop where
  length : words.length = pool.wordCount
  slots : ∀ i, slotBit words i = true ↔
    (∃ b ∈ live, i ∈ b) ∨ (pool.size ≤ i ∧ i < 64 * pool.wordCount)
  starts : ∀ i, startBit words i = true ↔
    (∃ b ∈ live, b.start = i) ∨ (i = pool.size ∧ i < 64 * pool.wordCount)

section Owners

variable {ι : Type*} {live : List Span} {γ : ι → Option Span}

/-- Where the participants own nothing, the spans are the live blocks. -/
theorem exists_owners_iff (hγ : ∀ t, γ t = none) (P : Span → Prop) :
    (∃ k b, owners live γ k = some b ∧ P b) ↔ ∃ b ∈ live, P b := by
  constructor
  · rintro ⟨k | t, b, hb, hP⟩
    · obtain ⟨hk, rfl⟩ := Family.ofList_eq_some.mp hb
      exact ⟨k, hk, hP⟩
    · rw [owners, Sum.elim_inr, hγ] at hb
      cases hb
  · rintro ⟨b, hb, hP⟩
    exact ⟨Sum.inl b, b, Family.ofList_eq_some.mpr ⟨hb, rfl⟩, hP⟩

theorem covers_owners (hγ : ∀ t, γ t = none) (i : Nat) :
    (owners live γ).Covers i ↔ ∃ b ∈ live, i ∈ b :=
  exists_owners_iff hγ fun b => i ∈ b

theorem startsAt_owners (hγ : ∀ t, γ t = none) (i : Nat) :
    (owners live γ).StartsAt i ↔ ∃ b ∈ live, b.start = i :=
  exists_owners_iff hγ fun b => b.start = i

variable {pool : PoolParameters} {leaky : Prop} {words : List Word}

theorem Encodes.isEncodingOf (h : Encodes pool leaky words (owners live γ)) (hleaky : ¬ leaky)
    (hγ : ∀ t, γ t = none) : IsEncodingOf pool live words := by
  constructor
  · exact h.length
  · intro i
    rw [h.slots_iff hleaky, covers_owners hγ]
  · intro i
    rw [h.starts, startsAt_owners hγ]

end Owners

namespace Represents

variable {pool : PoolParameters} {words : List Word} {live : List Span} {b : Span}

theorem size_le (h : Represents pool words live) : pool.size ≤ 4294967232 := h.2.fits

theorem length (h : Represents pool words live) : words.length = pool.wordCount := h.2.length

theorem isEncodingOf (h : Represents pool words live) : IsEncodingOf pool live words :=
  h.2.isEncodingOf not_false fun _ => rfl

theorem owns (hb : b ∈ live) : owners live (fun _ : Unit => none) (Sum.inl b) = some b :=
  Family.ofList_eq_some.mpr ⟨hb, rfl⟩

theorem pos (h : Represents pool words live) (hb : b ∈ live) : 0 < b.count :=
  h.2.separated.pos (owns hb)

theorem inside (h : Represents pool words live) (hb : b ∈ live) : b.stop ≤ pool.size :=
  h.2.inside (owns hb)

/-- Different live blocks share no slot. -/
theorem disjoint (h : Represents pool words live) {c : Span} (hb : b ∈ live) (hc : c ∈ live)
    (hne : b ≠ c) (i : Nat) (hi : i ∈ b) : i ∉ c :=
  h.2.separated.disjoint (owns hb) (owns hc) (fun heq => hne (Sum.inl_injective heq)) i hi

theorem pairwise_apart (h : Represents pool words live) : live.Pairwise Span.Apart := by
  refine List.Pairwise.imp_of_mem ?_ h.1
  intro b c hb hc hne
  exact (Span.apart_iff (h.pos hb) (h.pos hc)).mpr (h.disjoint hb hc hne)

theorem startsTaken (h : Represents pool words live) : StartsTaken words :=
  fun _ => h.2.startBit_of_free

/-- A run of slots is free when it lies in the pool and meets no live block. -/
theorem freeRun_iff (h : Represents pool words live) {count r : Nat} :
    FreeRun words count r ↔
      ∀ i, r ≤ i → i < r + count → i < pool.size ∧ ∀ b ∈ live, i ∉ b := by
  have hslots := h.isEncodingOf.slots
  have hsize := PoolParameters.size_le h.size_le
  have hlen := h.length
  constructor
  · intro hfree i hi hi'
    obtain ⟨hlt, hslot⟩ := hfree i hi hi'
    have hnot : ¬ slotBit words i = true := by
      rw [hslot]
      decide
    rw [hslots, not_or] at hnot
    refine ⟨by omega, fun b hb hib => hnot.1 ⟨b, hb, hib⟩⟩
  · intro hfree i hi hi'
    obtain ⟨hlt, hout⟩ := hfree i hi hi'
    refine ⟨by omega, ?_⟩
    rw [← Bool.not_eq_true, hslots]
    rintro (⟨b, hb, hib⟩ | hge)
    · exact hout b hb hib
    · omega

end Represents

/-- Words whose participants own nothing represent the live blocks. -/
theorem represents_of_idle {ι : Type*} {pool : PoolParameters} {words : List Word}
    {live : List Span} {γ : ι → Option Span} {permitted : (Word → Except Fault Word) → Prop}
    (h : (poolProtocol ι pool False permitted).Inv live words γ) (hγ : ∀ t, γ t = none) :
    Represents pool words live := by
  obtain ⟨hlive, hF⟩ := h
  have hencoding := hF.isEncodingOf not_false hγ
  have howns : ∀ {k b}, owners live (fun _ : Unit => none) k = some b →
      owners live γ (Sum.inl b) = some b ∧ k = Sum.inl b := by
    rintro (c | t) b hb
    · obtain ⟨hc, rfl⟩ := Family.ofList_eq_some.mp hb
      exact ⟨Family.ofList_eq_some.mpr ⟨hc, rfl⟩, rfl⟩
    · cases hb
  refine ⟨hlive, hF.fits, hF.length, ⟨fun hb => hF.separated.pos (howns hb).1, ?_⟩,
    fun hb => hF.inside (howns hb).1, ?_, hF.beyond, ?_, ?_⟩
  · intro k k' b b' hb hb' hne
    refine hF.separated.disjoint (howns hb).1 (howns hb').1 fun heq => hne ?_
    rw [(howns hb).2, (howns hb').2, Sum.inl_injective heq]
  · intro i hi
    exact (hencoding.slots i).mpr (Or.inl ((covers_owners (fun _ => rfl) i).mp hi))
  · intro i hi
    rcases (hencoding.slots i).mp hi with hc | hge
    · exact Or.inl ((covers_owners (fun _ => rfl) i).mpr hc)
    · exact Or.inr (Or.inl hge.1)
  · intro i
    rw [hencoding.starts, startsAt_owners (fun _ => rfl)]

theorem construct_represents {pool : PoolParameters} {words : List Word}
    (h : pool.construct = .ok words) : Represents pool words [] := by
  refine ⟨List.nodup_nil, Encodes.construct h ?_⟩
  rintro (b | t)
  · rfl
  · rfl

section Operations

variable {pool : PoolParameters} {words : List Word} {live : List Span}

/-- Words in which a free run has been taken as a block represent that block too. -/
theorem Represents.grow {words' : List Word} {r count : Nat} (h : Represents pool words live)
    (hcount : 0 < count) (hfree : FreeRun words count r)
    (hgrown : Grown words words' true r (r + count)) :
    Represents pool words' (⟨r, count⟩ :: live) := by
  have hend := (hfree (r + count - 1) (by omega) (by omega)).1
  rw [h.length] at hend
  have hnone : owners live (fun _ : Unit => none) (Sum.inr ()) = none := rfl
  have hF := h.2.grow (s := r) (by omega) (by omega) (Or.inl ⟨hnone, rfl, rfl⟩)
    (fun i hi hi' => (hfree i hi hi').2) hgrown
  rw [owners, Sum.update_elim_inr, Nat.add_sub_cancel_left] at hF
  have hI : (poolProtocol Unit pool False fun _ => True).Inv live words'
      (Function.update (fun _ => none) () (some ⟨r, count⟩)) := ⟨h.1, hF⟩
  have hpublish := inv_publish hI (Function.update_self _ _ _)
  rwa [Function.update_idem] at hpublish

/-- The undisturbed `Allocate` returns the first fit, and fails only without one, unless its
search meets an overflow before. -/
theorem allocate_outcomes {count alignment : Nat} (h : Represents pool words live)
    (hcount : 0 < count) (hlt : count < 4294967296) (ha : IsPowerOfTwo alignment) :
    (allocate pool count alignment words = (.ok uint32Max, words) ∧
      NoFit words count alignment ∧ ∀ r, ¬ MeetsOverflow words count alignment r) ∨
    (∃ r words', allocate pool count alignment words = (.ok r, words') ∧
      FirstFit words count alignment r ∧ Represents pool words' (⟨r, count⟩ :: live)) ∨
    (allocate pool count alignment words = (.error .undefinedShift, words) ∧
      ∃ r, MeetsOverflow words count alignment r) := by
  have hattempt : allocateInternal pool 0 count alignment =
      searchWords pool count alignment pool.wordCount 0 :=
    allocateInternal_of_aligned hcount ha (Nat.zero_mod alignment)
  have hpassed : Passed words count alignment (64 * 0) :=
    ⟨fun r hr => absurd hr (Nat.not_lt_zero r), fun r hr => absurd hr (Nat.not_lt_zero r),
      fun r hr => absurd hr (Nat.not_lt_zero r)⟩
  rcases run_searchWords h.size_le h.length h.startsTaken hcount hlt ha pool.wordCount
    (by omega) (Nat.zero_mod _) hpassed with
    ⟨hrun, hnone⟩ | ⟨r, words', hrun, hfit, hgrown⟩ | ⟨hrun, hmeets⟩
  · refine Or.inl ⟨?_, hnone⟩
    rw [allocate, allocateLoop, hattempt, hrun]
  · refine Or.inr (Or.inl ⟨r, words', ?_, hfit, h.grow hcount hfit.2.1 hgrown⟩)
    rw [allocate, allocateLoop, hattempt, hrun]
  · refine Or.inr (Or.inr ⟨?_, hmeets⟩)
    rw [allocate, allocateLoop, hattempt, hrun]

/-- A count that no pool can satisfy may end in an undefined shift. -/
theorem allocate_cases {count alignment : Nat} (h : Represents pool words live)
    (hcount : 0 < count) (hlt : count < 4294967296) (ha : IsPowerOfTwo alignment) :
    (allocate pool count alignment words = (.ok uint32Max, words) ∧
      NoFit words count alignment) ∨
    (∃ r words', allocate pool count alignment words = (.ok r, words') ∧
      FirstFit words count alignment r ∧ Represents pool words' (⟨r, count⟩ :: live)) ∨
    (allocate pool count alignment words = (.error .undefinedShift, words) ∧
      4294967232 < count) := by
  rcases allocate_outcomes h hcount hlt ha with ⟨hrun, hnone, -⟩ | hfit | ⟨hrun, r, hmeets⟩
  · exact Or.inl ⟨hrun, hnone⟩
  · exact Or.inr (Or.inl hfit)
  · have hwraps := hmeets.1.wraps
    exact Or.inr (Or.inr ⟨hrun, by omega⟩)

/-- `Allocate` of a count that the pool could hold does not run into the overflow. -/
theorem allocate_spec {count alignment : Nat} (h : Represents pool words live) (hcount : 0 < count)
    (hsize : count ≤ pool.size) (ha : IsPowerOfTwo alignment) :
    (allocate pool count alignment words = (.ok uint32Max, words) ∧
      NoFit words count alignment) ∨
    ∃ r words', allocate pool count alignment words = (.ok r, words') ∧
      FirstFit words count alignment r ∧ Represents pool words' (⟨r, count⟩ :: live) := by
  have hfits := h.size_le
  rcases allocate_cases h hcount (by omega) ha with hnone | hfit | ⟨-, hlarge⟩
  · exact Or.inl hnone
  · exact Or.inr hfit
  · omega

/-- The words when a live block has been taken over by the only participant. -/
theorem Represents.takeOver {b : Span} (h : Represents pool words live) (hb : b ∈ live) :
    (poolProtocol Unit pool False fun _ => True).Inv (live.erase b) words
      (Function.update (fun _ => none) () (some b)) :=
  inv_takeOver h hb rfl

/-- `GetBlockSize` returns the size of a live block and changes nothing. -/
theorem getBlockSize_spec {b : Span} (h : Represents pool words live) (hb : b ∈ live) :
    (getBlockSize pool b.start).run words = (.ok b.count, words) := by
  have hI := h.takeOver hb
  obtain ⟨n, words', g, hrun, hI', hg, -, -, hn⟩ := Protocol.run_of_wp (t := ())
    (fun _ => trivial) hI (wp_getBlockSize h.size_le (h.pos hb) (h.inside hb))
  have hcount : n = b.count := hn not_false
  rw [Function.update_idem, hg, hcount] at hI'
  have hwords : words' = words := hI.2.words_eq hI'.2 not_false
  rw [hrun, hcount, hwords]

/-- `Deallocate` of a live block removes exactly this block. -/
theorem deallocate_spec {b : Span} (h : Represents pool words live) (hb : b ∈ live) :
    ∃ words', (deallocate pool b.start).run words = (.ok (), words') ∧
      Represents pool words' (live.erase b) := by
  obtain ⟨u, words', g, hrun, hI', hg⟩ := Protocol.run_of_wp (t := ())
    (fun _ => trivial) (h.takeOver hb) (wp_deallocate h.size_le (h.pos hb) (h.inside hb))
  rw [Function.update_idem, hg] at hI'
  have hidle : Function.update (fun _ : Unit => (none : Option Span)) () none = fun _ => none :=
    Function.update_eq_self () _
  rw [hidle] at hI'
  exact ⟨words', hrun, hI'⟩

/-- `GetBlockSize` of anything but the start of a live block panics. -/
theorem getBlockSize_panics {a : Nat} (h : Represents pool words live)
    (ha : ∀ b ∈ live, b.start ≠ a) :
    ∃ message, (getBlockSize pool a).run words = (.error (.panic message), words) := by
  by_cases hsize : a ≥ pool.size
  · rw [getBlockSize, if_pos hsize]
    exact ⟨_, rfl⟩
  · have hslots := PoolParameters.size_le h.size_le
    have hlen := h.length
    have hk : a / 64 < words.length := by omega
    have hv := List.getElem?_eq_getElem hk
    have hstart : startBit words a = false := by
      rw [← Bool.not_eq_true, h.isEncodingOf.starts]
      rintro (⟨b, hb, hba⟩ | hend)
      · exact ha b hb hba
      · omega
    have hzero : words[a / 64].starts &&& 1#64 <<< (a % 64) = 0 := by
      rw [and_bit_eq_zero_iff (Nat.mod_lt a (by decide)),
        ← startBit_of_getElem? hv (Nat.mod_lt a (by decide)),
        show 64 * (a / 64) + a % 64 = a by omega, hstart]
    have hshift : a % 64 < 64 := Nat.mod_lt a (by decide)
    rw [getBlockSize, if_neg hsize]
    simp only [Program.bind_def, Program.bind_read, Program.run_load hv, shl_of_lt hshift,
      Program.bind_ofExcept_ok, hzero, if_true]
    exact ⟨_, rfl⟩

/-- `Deallocate` of anything but the start of a live block panics. -/
theorem deallocate_panics {a : Nat} (h : Represents pool words live)
    (ha : ∀ b ∈ live, b.start ≠ a) :
    ∃ message, (deallocate pool a).run words = (.error (.panic message), words) := by
  by_cases hsize : a ≥ pool.size
  · rw [deallocate, if_pos hsize]
    exact ⟨_, rfl⟩
  · obtain ⟨message, hfault⟩ := getBlockSize_panics h ha
    rw [deallocate, if_neg hsize]
    exact ⟨message, Program.run_bind_error hfault⟩

/-- `Allocate` of no slots, or with an alignment that is no power of two, panics. -/
theorem allocate_panics {count alignment : Nat} (hlt : alignment < 4294967296)
    (h : count = 0 ∨ ¬ IsPowerOfTwo alignment) :
    ∃ message, allocate pool count alignment words = (.error (.panic message), words) := by
  have hfault : ∃ message, allocateInternal pool 0 count alignment = .fault (.panic message) := by
    rw [allocateInternal]
    by_cases hcount : count = 0
    · rw [if_pos hcount]
      exact ⟨_, rfl⟩
    · rw [if_neg hcount]
      by_cases hzero : alignment = 0
      · rw [if_pos hzero]
        exact ⟨_, rfl⟩
      · have hbits : alignment > 1 ∧ alignment &&& (alignment - 1) ≠ 0 := by
          have hnot := h.resolve_left hcount
          refine ⟨?_, fun hand => hnot (isPowerOfTwo_of_and_pred hzero hlt hand)⟩
          by_contra hle
          exact hnot ⟨0, by decide, by omega⟩
        rw [if_neg hzero, if_pos hbits]
        exact ⟨_, rfl⟩
  obtain ⟨message, hfault⟩ := hfault
  refine ⟨message, ?_⟩
  rw [allocate, allocateLoop, hfault]
  rfl

end Operations

end RPiKernel.Containers
