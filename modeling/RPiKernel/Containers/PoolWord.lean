import RPiKernel.Containers.PoolEncoding

/-!
# The updates of one pool word, bit by bit

Each update function of the allocator is described by the bits of its result.
`growWord` and `shrinkWord` lift such a description to the family of blocks
that the words encode.
-/

namespace RPiKernel.Containers

open Interleaving Machine Intervals

section Masks

variable {n p j : Nat}

theorem getLsbD_low (hn : n ≤ 64) :
    (uint64Max >>> (64 - n)).getLsbD j = decide (j < n) := by
  rw [BitVec.getLsbD_ushiftRight, getLsbD_uint64Max]
  congr 1
  apply propext
  omega

theorem getLsbD_high (hj : j < 64) :
    (uint64Max <<< p).getLsbD j = decide (p ≤ j) := by
  rw [BitVec.getLsbD_shiftLeft, getLsbD_uint64Max]
  by_cases hp : p ≤ j
  · have h₁ : ¬ j < p := by omega
    have h₂ : j - p < 64 := by omega
    simp [hj, hp, h₁, h₂]
  · have h₁ : j < p := by omega
    simp [hp, h₁]

theorem getLsbD_run (hn : n ≤ 64) (hj : j < 64) :
    ((uint64Max >>> (64 - n)) <<< p).getLsbD j = decide (p ≤ j ∧ j < p + n) := by
  rw [BitVec.getLsbD_shiftLeft, getLsbD_low hn]
  by_cases hp : p ≤ j
  · have h₁ : ¬ j < p := by omega
    have h₂ : j - p < n ↔ j < p + n := by omega
    simp [hj, hp, h₁, h₂]
  · have h₁ : j < p := by omega
    simp [hp, h₁]

theorem getLsbD_bit (hj : j < 64) : (1#64 <<< p).getLsbD j = decide (j = p) := by
  rw [BitVec.getLsbD_shiftLeft, BitVec.getLsbD_one]
  by_cases hp : p ≤ j
  · have h₁ : ¬ j < p := by omega
    have h₂ : j - p = 0 ↔ j = p := by omega
    simp [hj, h₁, h₂]
  · have h₁ : j < p := by omega
    have h₂ : j ≠ p := by omega
    simp [h₁, h₂]

theorem getLsbD_signed (hj : j < 64) :
    (0x7fffffffffffffff#64 <<< p).getLsbD j = decide (p ≤ j ∧ j < p + 63) := by
  have hmask : (0x7fffffffffffffff#64) = uint64Max >>> (64 - 63) := by decide
  rw [hmask, getLsbD_run (by decide) hj]

/-- The test of one bit by a mask. -/
theorem and_bit_eq_zero_iff {x : BitVec 64} (hp : p < 64) :
    x &&& 1#64 <<< p = 0 ↔ x.getLsbD p = false := by
  constructor
  · intro h
    have hb := congrArg (fun y => BitVec.getLsbD y p) h
    simpa only [BitVec.getLsbD_and, getLsbD_bit hp, decide_true, Bool.and_true,
      BitVec.ofNat_eq_ofNat, BitVec.getLsbD_zero] using hb
  · intro h
    apply BitVec.eq_of_getLsbD_eq
    intro j hj
    rw [BitVec.getLsbD_and, getLsbD_bit hj]
    by_cases hjp : j = p
    · simp only [hjp, h, Bool.false_and, BitVec.ofNat_eq_ofNat, BitVec.getLsbD_zero]
    · simp only [hjp, decide_false, Bool.and_false, BitVec.ofNat_eq_ofNat, BitVec.getLsbD_zero]

end Masks

theorem takeSlots_spec (word : Word) {bitIndex count : Nat} (hc : 0 < count)
    (h : bitIndex + count ≤ 64) :
    ∃ w, takeSlots word bitIndex count = .ok w ∧
      (∀ j, j < 64 → w.bitmap.getLsbD j =
        (word.bitmap.getLsbD j || decide (bitIndex ≤ j ∧ j < bitIndex + count))) ∧
      ∀ j, j < 64 → w.starts.getLsbD j = (word.starts.getLsbD j || decide (j = bitIndex)) := by
  have h₁ : sub32 64 count = 64 - count := sub32_of_le (by omega) (by decide)
  have h₂ : 64 - count < 64 := by omega
  have h₃ : bitIndex < 64 := by omega
  refine ⟨_, by simp only [takeSlots, h₁, shr_of_lt h₂, shl_of_lt h₃, ok_bind]; rfl,
    fun j hj => ?_, fun j hj => ?_⟩
  · rw [BitVec.getLsbD_or, getLsbD_run (by omega) hj]
  · rw [BitVec.getLsbD_or, getLsbD_bit hj]

theorem takeRest_spec (word : Word) {bitIndex : Nat} (h : bitIndex < 64) :
    ∃ w, takeRest word bitIndex = .ok w ∧
      (∀ j, j < 64 → w.bitmap.getLsbD j =
        (word.bitmap.getLsbD j || decide (bitIndex ≤ j))) ∧
      ∀ j, j < 64 → w.starts.getLsbD j = (word.starts.getLsbD j || decide (j = bitIndex)) := by
  refine ⟨_, by simp only [takeRest, shl_of_lt h, ok_bind]; rfl, fun j hj => ?_, fun j hj => ?_⟩
  · rw [BitVec.getLsbD_or, getLsbD_high hj]
  · rw [BitVec.getLsbD_or, getLsbD_bit hj]

theorem undoRest_spec (word : Word) {bitIndex : Nat} (h : bitIndex < 64) :
    ∃ w, undoRest bitIndex word = .ok w ∧
      (∀ j, j < 64 → w.bitmap.getLsbD j =
        (word.bitmap.getLsbD j && !decide (bitIndex ≤ j ∧ j < bitIndex + 63))) ∧
      ∀ j, j < 64 → w.starts.getLsbD j = (word.starts.getLsbD j && !decide (j = bitIndex)) := by
  refine ⟨_, by simp only [undoRest, shl_of_lt h, ok_bind]; rfl, fun j hj => ?_, fun j hj => ?_⟩
  · rw [BitVec.getLsbD_and, BitVec.getLsbD_not, getLsbD_signed hj]
    simp [hj]
  · rw [BitVec.getLsbD_and, BitVec.getLsbD_not, getLsbD_bit hj]
    simp [hj]

/-- The round of a release goes through when the slots from `p` to `q` are taken
and hold the expected start only, and it frees exactly these slots. -/
theorem releaseSlots_spec {pool : PoolParameters} {word : Word} {mask expected : BitVec 64}
    {p q : Nat} (hmask : ∀ j, j < 64 → mask.getLsbD j = !decide (p ≤ j ∧ j < q))
    (htaken : ∀ j, j < 64 → p ≤ j → j < q → word.bitmap.getLsbD j = true)
    (hexpected : ∀ j, j < 64 →
      expected.getLsbD j = (word.starts.getLsbD j && decide (p ≤ j ∧ j < q))) :
    ∃ w, releaseSlots pool mask expected word = .ok w ∧
      (∀ j, j < 64 → w.bitmap.getLsbD j =
        (word.bitmap.getLsbD j && !decide (p ≤ j ∧ j < q))) ∧
      ∀ j, j < 64 → w.starts.getLsbD j =
        (word.starts.getLsbD j && !decide (p ≤ j ∧ j < q)) := by
  have hnot : ∀ j, j < 64 → (~~~mask).getLsbD j = decide (p ≤ j ∧ j < q) := by
    intro j hj
    rw [BitVec.getLsbD_not, hmask j hj]
    simp [hj]
  have hbitmap : word.bitmap &&& ~~~mask = ~~~mask := by
    apply BitVec.eq_of_getLsbD_eq
    intro j hj
    rw [BitVec.getLsbD_and, hnot j hj]
    by_cases hpq : p ≤ j ∧ j < q
    · simp [hpq, htaken j hj hpq.1 hpq.2]
    · simp [hpq]
  have hstarts : word.starts &&& ~~~mask = expected := by
    apply BitVec.eq_of_getLsbD_eq
    intro j hj
    rw [BitVec.getLsbD_and, hnot j hj, hexpected j hj]
  have hcheck : ¬ (word.bitmap &&& ~~~mask ≠ ~~~mask ∨ word.starts &&& ~~~mask ≠ expected) := by
    rintro (h | h)
    · exact h hbitmap
    · exact h hstarts
  refine ⟨_, by rw [releaseSlots, if_neg hcheck]; rfl, fun j hj => ?_, fun j hj => ?_⟩
  · rw [BitVec.getLsbD_and, hmask j hj]
  · rw [BitVec.getLsbD_and, hmask j hj]

section Construct

theorem slotBit_replicate (n i : Nat) : slotBit (List.replicate n {}) i = false := by
  unfold slotBit
  rw [List.getElem?_replicate]
  split_ifs <;> simp

theorem startBit_replicate (n i : Nat) : startBit (List.replicate n {}) i = false := by
  unfold startBit
  rw [List.getElem?_replicate]
  split_ifs <;> simp

variable {pool : PoolParameters}

/-- The constructor writes inside the words unless the number of words overflows. -/
theorem construct_eq_ok_iff :
    (∃ words, pool.construct = .ok words) ↔ pool.size ≤ 4294967232 := by
  have hlt := pool.size_lt
  have hcount : pool.wordCount = (pool.size + 63) % 4294967296 / 64 := rfl
  have hr : pool.size % 64 < 64 := Nat.mod_lt _ (by decide)
  rw [PoolParameters.construct, List.length_replicate]
  by_cases hmod : pool.size % 64 = 0
  · rw [if_neg (not_not_intro hmod)]
    exact ⟨fun _ => by omega, fun _ => ⟨_, rfl⟩⟩
  · rw [if_pos hmod]
    by_cases hin : pool.size / 64 < pool.wordCount
    · rw [if_pos hin, shl_of_lt hr, shl_of_lt hr]
      exact ⟨fun _ => by omega, fun _ => ⟨_, rfl⟩⟩
    · rw [if_neg hin]
      refine ⟨?_, fun h => by omega⟩
      rintro ⟨words, h⟩
      cases h

theorem construct_spec {words : List Word} (h : pool.construct = .ok words) :
    pool.size ≤ 4294967232 ∧ words.length = pool.wordCount ∧
      (∀ i, slotBit words i = true ↔ pool.size ≤ i ∧ i < 64 * pool.wordCount) ∧
      ∀ i, startBit words i = true ↔ i = pool.size ∧ i < 64 * pool.wordCount := by
  have hfits : pool.size ≤ 4294967232 := construct_eq_ok_iff.mp ⟨words, h⟩
  have hcount := PoolParameters.wordCount_eq hfits
  rw [PoolParameters.construct] at h
  by_cases hmod : pool.size % 64 = 0
  · rw [if_neg (not_not_intro hmod)] at h
    cases h
    refine ⟨hfits, List.length_replicate, fun i => ?_, fun i => ?_⟩
    · rw [slotBit_replicate]
      simp only [Bool.false_eq_true, false_iff]
      omega
    · rw [startBit_replicate]
      simp only [Bool.false_eq_true, false_iff]
      omega
  · have hlt : pool.size / 64 < (List.replicate pool.wordCount ({} : Word)).length := by
      rw [List.length_replicate]
      omega
    have hr : pool.size % 64 < 64 := Nat.mod_lt _ (by decide)
    rw [if_pos hmod, if_pos hlt, shl_of_lt hr, shl_of_lt hr] at h
    simp only [ok_bind] at h
    cases h
    refine ⟨hfits, by rw [List.length_set, List.length_replicate], fun i => ?_, fun i => ?_⟩
    · rw [slotBit_set _ hlt, slotBit_replicate]
      by_cases hi : i / 64 = pool.size / 64
      · rw [if_pos hi, getLsbD_high (Nat.mod_lt _ (by decide)), decide_eq_true_iff]
        omega
      · rw [if_neg hi]
        simp only [Bool.false_eq_true, false_iff]
        omega
    · rw [startBit_set _ hlt, startBit_replicate]
      by_cases hi : i / 64 = pool.size / 64
      · rw [if_pos hi, getLsbD_bit (Nat.mod_lt _ (by decide)), decide_eq_true_iff]
        omega
      · rw [if_neg hi]
        simp only [Bool.false_eq_true, false_iff]
        omega

/-- The constructor encodes that nobody owns anything. -/
theorem Encodes.construct {κ : Type*} {leaky : Prop} {words : List Word} {F : Family κ}
    (h : pool.construct = .ok words) (hF : ∀ k, F k = none) : Encodes pool leaky words F := by
  obtain ⟨hfits, hlen, hslots, hstarts⟩ := construct_spec h
  have hnone : ∀ {k b}, F k ≠ some b := by
    intro k b hb
    rw [hF] at hb
    cases hb
  constructor
  case fits => exact hfits
  case length => exact hlen
  case separated => exact ⟨fun hb => absurd hb hnone, fun hb => absurd hb hnone⟩
  case inside => exact fun hb => absurd hb hnone
  case covered =>
    rintro i ⟨k, b, hb, -⟩
    exact absurd hb hnone
  case beyond => exact fun hi hlt => (hslots _).mpr ⟨hi, hlt⟩
  case slots => exact fun hi => Or.inr (Or.inl ((hslots _).mp hi).1)
  case starts =>
    intro i
    rw [hstarts]
    refine ⟨Or.inr, ?_⟩
    rintro (⟨k, b, hb, -⟩ | hi)
    · exact absurd hb hnone
    · exact hi

end Construct

namespace Encodes

variable {κ : Type*} [DecidableEq κ] {pool : PoolParameters} {leaky : Prop}
  {words : List Word} {F : Family κ}

/-- Taking the free slots from `p` to `q` of word `k` for one owner. -/
theorem growWord (h : Encodes pool leaky words F) {key : κ} {k p q s : Nat} {v v' : Word}
    (fresh : Bool) (hv : words[k]? = some v) (hpq : p < q) (hq : q ≤ 64)
    (hold : (F key = none ∧ fresh = true ∧ s = 64 * k + p) ∨
      (fresh = false ∧ s < 64 * k + p ∧ F key = some ⟨s, 64 * k + p - s⟩))
    (hfree : ∀ j, p ≤ j → j < q → v.bitmap.getLsbD j = false)
    (hbitmap : ∀ j, j < 64 → v'.bitmap.getLsbD j =
      (v.bitmap.getLsbD j || decide (p ≤ j ∧ j < q)))
    (hstarts : ∀ j, j < 64 → v'.starts.getLsbD j =
      (v.starts.getLsbD j || (fresh && decide (j = p)))) :
    Encodes pool leaky (words.set k v')
      (Function.update F key (some ⟨s, 64 * k + q - s⟩)) := by
  have hk : k < words.length := (List.getElem?_eq_some_iff.mp hv).1
  have hlen := h.length
  refine h.grow (by omega) (by omega) hold ?_ (Grown.set fresh hv (by omega) hq hbitmap hstarts)
  intro i hx hy
  have hi := slotBit_of_getElem? hv (j := i - 64 * k) (by omega)
  rw [show 64 * k + (i - 64 * k) = i by omega] at hi
  rw [hi, hfree _ (by omega) (by omega)]

/-- Giving back the slots of a block from position `p` of word `k` to its end. -/
theorem shrinkWord (h : Encodes pool leaky words F) {key : κ} {k p q : Nat} {v : Word}
    (v' : Word) {b : Span} (hv : words[k]? = some v) (hold : F key = some b) (hq : q ≤ 64)
    (hstop : b.stop = 64 * k + q) (hx : b.start ≤ 64 * k + p) (hpq : p ≤ q)
    (hbitmap : ∀ j, j < 64 →
      v'.bitmap.getLsbD j = (v.bitmap.getLsbD j && !decide (p ≤ j ∧ j < q)) ∨
      (leaky ∧ j = 63 ∧ v'.bitmap.getLsbD j = v.bitmap.getLsbD j))
    (hstarts : ∀ j, j < 64 → v'.starts.getLsbD j =
      (v.starts.getLsbD j && !decide (p ≤ j ∧ j < q))) :
    Encodes pool leaky (words.set k v') (Function.update F key
      (if 64 * k + p = b.start then none else some ⟨b.start, 64 * k + p - b.start⟩)) := by
  have hk : k < words.length := (List.getElem?_eq_some_iff.mp hv).1
  refine h.shrink hold hx (by omega) (by simp) ?_ ?_ ?_
  · intro i hi hout
    rw [slotBit_set v' hk]
    by_cases hik : i / 64 = k
    · have hi' := slotBit_of_getElem? hv (j := i % 64) (by omega)
      rw [show 64 * k + i % 64 = i by omega, hi] at hi'
      rw [if_pos hik]
      have hnot : ¬ (p ≤ i % 64 ∧ i % 64 < q) := by omega
      rcases hbitmap (i % 64) (by omega) with hb | ⟨-, -, hb⟩
      · rw [hb, ← hi']
        simp [hnot]
      · rw [hb, ← hi']
    · rwa [if_neg hik]
  · intro i hi
    rw [slotBit_set v' hk] at hi
    by_cases hik : i / 64 = k
    · have hi' := slotBit_of_getElem? hv (j := i % 64) (by omega)
      rw [show 64 * k + i % 64 = i by omega] at hi'
      rw [if_pos hik] at hi
      rcases hbitmap (i % 64) (by omega) with hb | ⟨hl, h63, hb⟩
      · rw [hb, Bool.and_eq_true] at hi
        have hnot : ¬ (p ≤ i % 64 ∧ i % 64 < q) := by
          simpa only [Bool.not_eq_true', decide_eq_false_iff_not] using hi.2
        exact ⟨hi'.trans hi.1, by omega⟩
      · exact ⟨hi'.trans (hb.symm.trans hi), Or.inr (Or.inr ⟨hl, h63⟩)⟩
    · rw [if_neg hik] at hi
      exact ⟨hi, by omega⟩
  · intro i
    rw [startBit_set v' hk]
    by_cases hik : i / 64 = k
    · have hi' := startBit_of_getElem? hv (j := i % 64) (by omega)
      rw [show 64 * k + i % 64 = i by omega] at hi'
      rw [if_pos hik, hstarts _ (by omega), hi']
      simp only [Bool.and_eq_true, Bool.not_eq_true', decide_eq_false_iff_not]
      have : ¬ (p ≤ i % 64 ∧ i % 64 < q) ↔ i < 64 * k + p ∨ b.stop ≤ i := by omega
      rw [this]
    · rw [if_neg hik]
      have : i < 64 * k + p ∨ b.stop ≤ i := by omega
      simp only [this, and_true]

end Encodes

end RPiKernel.Containers
