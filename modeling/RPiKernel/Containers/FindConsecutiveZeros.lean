import RPiKernel.Machine.Arithmetic

/-!
# Search for free runs inside one bitmap word

`findConsecutiveZeros` and `findConsecutiveZerosAligned` return the lowest
(aligned) position that starts a run of zeros, where the word is taken to be
extended by zeros without end, and 64 when no position inside the word does.

## Implementation notes

The loops `for (;;)` carry the number of iterations still allowed; running out
of it is the fault `diverged`. Every iteration moves past a one, so that 65
iterations are enough for 64 bits.
-/

namespace RPiKernel.Containers

open Interleaving Machine

/-- The loop of `FindConsecutiveZeros`. -/
def searchZeros (data mask : BitVec 64) : Nat → Nat → Except Fault Nat
  | 0, _ => .error .diverged
  | fuel + 1, pos => do
      let datamask ← shr data pos
      if datamask &&& mask = 0 then
        return pos
      let pos := pos + countrZero (← shr data pos)
      let pos := pos + countrOne (← shr data pos)
      if pos ≥ 64 then
        return 64
      searchZeros data mask fuel pos

/-- The lowest position that starts `n` consecutive zeros. -/
def findConsecutiveZeros (data : BitVec 64) (n : Nat) : Except Fault Nat := do
  if n = 0 then
    return 0
  let n := if n > 64 then 64 else n
  let highestPos := 64 - n
  let mask ← shr uint64Max highestPos
  searchZeros data mask 65 (countrOne data)

/-- The loop of `FindConsecutiveZerosAligned`. -/
def searchAlignedZeros (data mask : BitVec 64) (alignment : Nat) : Nat → Nat → Except Fault Nat
  | 0, _ => .error .diverged
  | fuel + 1, pos => do
      let pos := pos + countrOne (← shr data pos)
      let pos := sub32 (add32 pos alignment) 1 &&& not32 (alignment - 1)
      if pos ≥ 64 then
        return 64
      let datamask ← shr data pos
      if datamask &&& mask = 0 then
        return pos
      let pos := pos + countrZero (← shr data pos)
      searchAlignedZeros data mask alignment fuel pos

/-- The lowest multiple of `alignment` that starts `n` consecutive zeros. -/
def findConsecutiveZerosAligned (data : BitVec 64) (n alignment : Nat) : Except Fault Nat := do
  if n = 0 then
    return 0
  if alignment ≤ 1 then
    return ← findConsecutiveZeros data n
  if alignment &&& (alignment - 1) ≠ 0 then
    throw (.panic "Alignment must be a power of two")
  let n := if n > 64 then 64 else n
  let highestPos := 64 - n
  let mask ← shr uint64Max highestPos
  searchAlignedZeros data mask alignment 65 0

/-- The `n` positions from `p` on are zero; beyond the word everything is. -/
def ZerosAt (data : BitVec 64) (n p : Nat) : Prop :=
  ∀ j, p ≤ j → j < p + n → data.getLsbD j = false

/-- What both searches return: the least aligned position of a run, or 64. -/
structure IsFirstRun (data : BitVec 64) (n alignment p : Nat) : Prop where
  le : p ≤ 64
  aligned : p < 64 → p % alignment = 0
  zeros : p < 64 → ZerosAt data n p
  least : ∀ q, q < p → q % alignment = 0 → ¬ ZerosAt data n q

/-- Requests beyond 64 are cut to 64, which changes nothing inside the word. -/
theorem zerosAt_min {data : BitVec 64} {n p : Nat} :
    ZerosAt data (if n > 64 then 64 else n) p ↔ ZerosAt data n p := by
  constructor
  · intro h j hp hj
    by_cases hj64 : j < 64
    · exact h j hp (by split <;> omega)
    · exact BitVec.getLsbD_of_ge data j (by omega)
  · intro h j hp hj
    exact h j hp (by split at hj <;> omega)

/-- The mask test of the source decides whether the run fits. -/
theorem masked_eq_zero_iff {data : BitVec 64} {n p : Nat} (hn : 0 < n) (hn64 : n ≤ 64) :
    (data >>> p) &&& (uint64Max >>> (64 - n)) = 0 ↔ ZerosAt data n p := by
  constructor
  · intro h j hp hj
    have hb := congrArg (fun x => BitVec.getLsbD x (j - p)) h
    have hadd : p + (j - p) = j := by omega
    have hlt : 64 - n + (j - p) < 64 := by omega
    simpa only [BitVec.getLsbD_and, BitVec.getLsbD_ushiftRight, getLsbD_uint64Max, hadd, hlt,
      decide_true, Bool.and_true, BitVec.ofNat_eq_ofNat, BitVec.getLsbD_zero] using hb
  · intro h
    apply BitVec.eq_of_getLsbD_eq
    intro i hi
    by_cases hin : 64 - n + i < 64
    · simp [h (p + i) (by omega) (by omega)]
    · simp [hin]

theorem not_zerosAt_of_one {data : BitVec 64} {n p j : Nat} (hp : p ≤ j) (hj : j < p + n)
    (hb : data.getLsbD j = true) : ¬ ZerosAt data n p := by
  intro h
  rw [h j hp hj] at hb
  exact absurd hb (by decide)

/-- Where the mask test fails, a one lies within the run, at the end of its zeros. -/
theorem one_after_zeros {data : BitVec 64} {n p : Nat} (h : ¬ ZerosAt data n p) :
    data.getLsbD (p + countrZero (data >>> p)) = true ∧
      countrZero (data >>> p) < n ∧ p + countrZero (data >>> p) < 64 := by
  simp only [ZerosAt, not_forall, Bool.not_eq_false] at h
  obtain ⟨j, hp, hj, hb⟩ := h
  have hshift : (data >>> p).getLsbD (j - p) = true := by
    rw [BitVec.getLsbD_ushiftRight, show p + (j - p) = j by omega]
    exact hb
  have hle := countrZero_le_of_getLsbD hshift
  have hj64 := lt_of_getLsbD hb
  have hone := getLsbD_countrZero (x := data >>> p) (by omega)
  rw [BitVec.getLsbD_ushiftRight] at hone
  exact ⟨hone, by omega, by omega⟩

/-- The positions counted by `countr_one` from `p` on are ones. -/
theorem one_of_countrOne (data : BitVec 64) {p j : Nat} (hp : p ≤ j)
    (hj : j < p + countrOne (data >>> p)) : data.getLsbD j = true := by
  have h := getLsbD_of_lt_countrOne (x := data >>> p) (j := j - p) (by omega)
  rwa [BitVec.getLsbD_ushiftRight, show p + (j - p) = j by omega] at h

theorem getLsbD_after_countrOne (data : BitVec 64) (p : Nat) :
    data.getLsbD (p + countrOne (data >>> p)) = false := by
  have h := getLsbD_countrOne (data >>> p)
  rwa [BitVec.getLsbD_ushiftRight] at h

/-- The loop of the unaligned search, from any position below which nothing fits. -/
theorem searchZeros_spec (data : BitVec 64) (n : Nat) (hn : 0 < n) (hn64 : n ≤ 64)
    (fuel pos : Nat) (hpos : pos < 64) (hfuel : 64 ≤ pos + fuel)
    (hbelow : ∀ q, q < pos → ¬ ZerosAt data n q) :
    ∃ p, searchZeros data (uint64Max >>> (64 - n)) fuel pos = .ok p ∧
      IsFirstRun data n 1 p := by
  induction fuel generalizing pos with
  | zero => omega
  | succ fuel ih =>
      by_cases hfit : ZerosAt data n pos
      · refine ⟨pos, ?_, ⟨by omega, fun _ => Nat.mod_one pos, fun _ => hfit,
          fun q hq _ => hbelow q hq⟩⟩
        simp only [searchZeros, shr_of_lt hpos, ok_bind,
          if_pos ((masked_eq_zero_iff hn hn64).mpr hfit)]
        rfl
      · obtain ⟨hone, hzn, hz64⟩ := one_after_zeros hfit
        have hmask := (masked_eq_zero_iff hn hn64).not.mpr hfit
        have hskip : ∀ q, q < pos + countrZero (data >>> pos) +
            countrOne (data >>> (pos + countrZero (data >>> pos))) → ¬ ZerosAt data n q := by
          intro q hq
          by_cases hqpos : q < pos
          · exact hbelow q hqpos
          · by_cases hqz : q ≤ pos + countrZero (data >>> pos)
            · exact not_zerosAt_of_one hqz (by omega) hone
            · exact not_zerosAt_of_one le_rfl (by omega) (one_of_countrOne data (by omega) hq)
        have hprogress : 0 < countrOne (data >>> (pos + countrZero (data >>> pos))) := by
          by_contra hzero
          have hstop := getLsbD_after_countrOne data (pos + countrZero (data >>> pos))
          rw [Nat.eq_zero_of_not_pos hzero, Nat.add_zero, hone] at hstop
          exact absurd hstop (by decide)
        simp only [searchZeros, shr_of_lt hpos, shr_of_lt hz64, ok_bind, if_neg hmask]
        by_cases hend : pos + countrZero (data >>> pos) +
            countrOne (data >>> (pos + countrZero (data >>> pos))) ≥ 64
        · exact ⟨64, by rw [if_pos hend]; rfl, ⟨le_rfl, fun h => absurd h (by decide),
            fun h => absurd h (by decide), fun q hq _ => hskip q (by omega)⟩⟩
        · rw [if_neg hend]
          exact ih _ (by omega) (by omega) hskip

/-- The unaligned search on a word that is not full. -/
theorem findConsecutiveZeros_spec {data : BitVec 64} {n : Nat} (hn : 0 < n)
    (hdata : data ≠ uint64Max) :
    ∃ p, findConsecutiveZeros data n = .ok p ∧ IsFirstRun data n 1 p := by
  have hones : countrOne data < 64 := by
    by_contra hge
    apply hdata
    apply BitVec.eq_of_getLsbD_eq
    intro i hi
    rw [getLsbD_of_lt_countrOne (by omega)]
    simp [hi]
  have hbelow : ∀ q, q < countrOne data →
      ¬ ZerosAt data (if n > 64 then 64 else n) q := fun q hq =>
    not_zerosAt_of_one le_rfl (by split <;> omega) (getLsbD_of_lt_countrOne hq)
  obtain ⟨p, hp, hrun⟩ := searchZeros_spec data (if n > 64 then 64 else n)
    (by split <;> omega) (by split <;> omega) 65 (countrOne data) hones (by omega) hbelow
  refine ⟨p, ?_, ⟨hrun.le, hrun.aligned, fun h => zerosAt_min.mp (hrun.zeros h),
    fun q hq ha h => hrun.least q hq ha (zerosAt_min.mpr h)⟩⟩
  have hlt : 64 - (if n > 64 then 64 else n) < 64 := by split <;> omega
  simp only [findConsecutiveZeros, if_neg hn.ne', shr_of_lt hlt, ok_bind]
  exact hp

/-- Rounding up as the source does it, for a position in the word. -/
theorem roundUp_eq {alignment pos : Nat} (ha : IsPowerOfTwo alignment) (hpos : pos ≤ 64) :
    sub32 (add32 pos alignment) 1 &&& not32 (alignment - 1) =
      (pos + alignment - 1) / alignment * alignment := by
  have h₁ := ha.pos
  have h₂ := ha.le
  rw [add32_of_lt (by omega), sub32_of_le (by omega) (by omega), ha.and_not_pred (by omega)]

theorem roundUp_bounds {alignment : Nat} (pos : Nat) (ha : 0 < alignment) :
    pos ≤ (pos + alignment - 1) / alignment * alignment ∧
      ∀ q, pos ≤ q → q % alignment = 0 → (pos + alignment - 1) / alignment * alignment ≤ q := by
  have hdiv := Nat.div_add_mod (pos + alignment - 1) alignment
  have hmod := Nat.mod_lt (pos + alignment - 1) ha
  rw [Nat.mul_comm] at hdiv
  refine ⟨by omega, fun q hq hqa => ?_⟩
  obtain ⟨c, rfl⟩ := Nat.dvd_of_mod_eq_zero hqa
  rw [Nat.mul_comm alignment c] at hq ⊢
  apply Nat.mul_le_mul_right
  have hlt : pos + alignment - 1 < (c + 1) * alignment := by
    rw [Nat.succ_mul]
    omega
  exact Nat.le_of_lt_succ (Nat.div_lt_of_lt_mul (by rwa [Nat.mul_comm]))

/-- The loop of the aligned search, from any position below which nothing fits. -/
theorem searchAlignedZeros_spec (data : BitVec 64) (n : Nat) {alignment : Nat} (hn : 0 < n)
    (hn64 : n ≤ 64) (ha : IsPowerOfTwo alignment) (fuel pos : Nat) (hpos : pos < 64)
    (hfuel : 65 ≤ pos + fuel)
    (hbelow : ∀ q, q < pos → q % alignment = 0 → ¬ ZerosAt data n q) :
    ∃ p, searchAlignedZeros data (uint64Max >>> (64 - n)) alignment fuel pos = .ok p ∧
      IsFirstRun data n alignment p := by
  induction fuel generalizing pos with
  | zero => omega
  | succ fuel ih =>
      have hle : pos + countrOne (data >>> pos) ≤ 64 := by
        by_contra hgt
        have hb := one_of_countrOne data (p := pos) (j := 64) (by omega) (by omega)
        exact absurd (lt_of_getLsbD hb) (by decide)
      have hround := roundUp_eq ha hle
      obtain ⟨hup, hleast⟩ := roundUp_bounds (pos + countrOne (data >>> pos)) ha.pos
      generalize hpos' : (pos + countrOne (data >>> pos) + alignment - 1) / alignment *
        alignment = pos' at hround hup hleast
      have halign : pos' % alignment = 0 := by
        rw [← hpos']
        exact Nat.mul_mod_left _ _
      have hskip : ∀ q, q < pos' → q % alignment = 0 → ¬ ZerosAt data n q := by
        intro q hq hqa
        by_cases hqpos : q < pos
        · exact hbelow q hqpos hqa
        · by_cases hqo : q < pos + countrOne (data >>> pos)
          · exact not_zerosAt_of_one le_rfl (by omega) (one_of_countrOne data (by omega) hqo)
          · have := hleast q (by omega) hqa
            omega
      simp only [searchAlignedZeros, shr_of_lt hpos, ok_bind, hround]
      by_cases hend : pos' ≥ 64
      · exact ⟨64, by rw [if_pos hend]; rfl, ⟨le_rfl, fun h => absurd h (by decide),
          fun h => absurd h (by decide), fun q hq hqa => hskip q (by omega) hqa⟩⟩
      · have hpos64 : pos' < 64 := by omega
        rw [if_neg hend]
        simp only [shr_of_lt hpos64, ok_bind]
        by_cases hfit : ZerosAt data n pos'
        · exact ⟨pos', by rw [if_pos ((masked_eq_zero_iff hn hn64).mpr hfit)]; rfl,
            ⟨by omega, fun _ => halign, fun _ => hfit, hskip⟩⟩
        · obtain ⟨hone, hzn, hz64⟩ := one_after_zeros hfit
          rw [if_neg ((masked_eq_zero_iff hn hn64).not.mpr hfit)]
          have hprogress : pos < pos' + countrZero (data >>> pos') := by
            by_contra hstuck
            have hstop := getLsbD_after_countrOne data pos
            rw [show pos + countrOne (data >>> pos) = pos' + countrZero (data >>> pos') by omega,
              hone] at hstop
            exact absurd hstop (by decide)
          refine ih _ hz64 (by omega) fun q hq hqa => ?_
          by_cases hq' : q < pos'
          · exact hskip q hq' hqa
          · exact not_zerosAt_of_one (by omega) (by omega) hone

/-- The aligned search, for the words and alignments that the pool allocator passes. -/
theorem findConsecutiveZerosAligned_spec {data : BitVec 64} {n alignment : Nat} (hn : 0 < n)
    (ha : IsPowerOfTwo alignment) (hdata : data ≠ uint64Max) :
    ∃ p, findConsecutiveZerosAligned data n alignment = .ok p ∧
      IsFirstRun data n alignment p := by
  have hapos := ha.pos
  by_cases hone : alignment ≤ 1
  · obtain ⟨p, hp, hrun⟩ := findConsecutiveZeros_spec hn hdata
    have heq : alignment = 1 := by omega
    refine ⟨p, ?_, heq ▸ hrun⟩
    simp only [findConsecutiveZerosAligned, if_neg hn.ne', if_pos hone, hp]
  · obtain ⟨p, hp, hrun⟩ := searchAlignedZeros_spec data (if n > 64 then 64 else n)
      (by split <;> omega) (by split <;> omega) ha 65 0
      (by omega) (by omega) (fun q hq => absurd hq (Nat.not_lt_zero q))
    refine ⟨p, ?_, ⟨hrun.le, hrun.aligned, fun h => zerosAt_min.mp (hrun.zeros h),
      fun q hq hqa h => hrun.least q hq hqa (zerosAt_min.mpr h)⟩⟩
    have hlt : 64 - (if n > 64 then 64 else n) < 64 := by split <;> omega
    have hpow : ¬ alignment &&& (alignment - 1) ≠ 0 := by
      simp only [ha.and_pred, Nat.mod_self, ne_eq, not_true, not_false_iff]
    simp only [findConsecutiveZerosAligned, if_neg hn.ne', if_neg hone, if_neg hpow,
      shr_of_lt hlt, ok_bind]
    exact hp

example : findConsecutiveZerosAligned 0x0f1b#64 3 4 = .ok 12 := by decide

/-- A position in the word from which the run is free, at a multiple of the alignment. -/
structure FreeRunAt (data : BitVec 64) (n alignment p : Nat) : Prop where
  lt : p < 64
  aligned : p % max alignment 1 = 0
  free : ∀ i, i < min n 64 → data.getLsbD (p + i) = false

theorem freeRunAt_iff {data : BitVec 64} {n alignment p : Nat} :
    FreeRunAt data n alignment p ↔ p < 64 ∧ p % max alignment 1 = 0 ∧ ZerosAt data n p := by
  constructor
  · rintro ⟨hlt, haligned, hfree⟩
    refine ⟨hlt, haligned, zerosAt_min.mp fun j hp hj => ?_⟩
    have hbit := hfree (j - p) (by split at hj <;> omega)
    rwa [Nat.add_sub_cancel' hp] at hbit
  · rintro ⟨hlt, haligned, hzeros⟩
    exact ⟨hlt, haligned, fun i hi => hzeros (p + i) (Nat.le_add_right p i) (by omega)⟩

/-- The first run is the least position of a free one, or there is none. -/
theorem IsFirstRun.isLeast_or_none {data : BitVec 64} {n alignment p : Nat}
    (h : IsFirstRun data n (max alignment 1) p) :
    FreeRunAt data n alignment p ∧ (∀ q, FreeRunAt data n alignment q → p ≤ q) ∨
      p = 64 ∧ ∀ q, ¬ FreeRunAt data n alignment q := by
  have hleast : ∀ q, FreeRunAt data n alignment q → p ≤ q := by
    intro q hq
    obtain ⟨-, haligned, hzeros⟩ := freeRunAt_iff.mp hq
    exact Nat.le_of_not_lt fun hlt => h.least q hlt haligned hzeros
  obtain hlt | hend := Nat.lt_or_eq_of_le h.le
  · exact Or.inl ⟨freeRunAt_iff.mpr ⟨hlt, h.aligned hlt, h.zeros hlt⟩, hleast⟩
  · refine Or.inr ⟨hend, fun q hq => ?_⟩
    have hle := hleast q hq
    have hlt := hq.lt
    omega

/-- Both searches return the least aligned position of a free run, or 64 if there is none. -/
theorem search_exact {data : BitVec 64} {n alignment : Nat} (hdata : data ≠ uint64Max)
    (hn : 1 ≤ n) (ha : alignment = 0 ∨ IsPowerOfTwo alignment) :
    ∃ p, findConsecutiveZerosAligned data n alignment = .ok p ∧
      (alignment ≤ 1 → findConsecutiveZeros data n = .ok p) ∧
      (FreeRunAt data n alignment p ∧ (∀ q, FreeRunAt data n alignment q → p ≤ q) ∨
        p = 64 ∧ ∀ q, ¬ FreeRunAt data n alignment q) := by
  by_cases hone : alignment ≤ 1
  · obtain ⟨p, hp, hrun⟩ := findConsecutiveZeros_spec hn hdata
    have hmax : max alignment 1 = 1 := Nat.max_eq_right hone
    rw [← hmax] at hrun
    refine ⟨p, ?_, fun _ => hp, hrun.isLeast_or_none⟩
    simp only [findConsecutiveZerosAligned, if_neg (Nat.ne_of_gt hn), if_pos hone, hp]
  · have hpow : IsPowerOfTwo alignment := ha.resolve_left fun hzero => hone (by omega)
    have hmax : max alignment 1 = alignment := Nat.max_eq_left (by omega)
    obtain ⟨p, hp, hrun⟩ := findConsecutiveZerosAligned_spec hn hpow hdata
    have hfirst : IsFirstRun data n (max alignment 1) p := by
      rw [hmax]
      exact hrun
    exact ⟨p, hp, fun h => absurd h hone, hfirst.isLeast_or_none⟩

theorem search_exact_nibbles :
    ∃ p, findConsecutiveZerosAligned 0x0f1b#64 3 4 = .ok p ∧
      (4 ≤ 1 → findConsecutiveZeros 0x0f1b#64 3 = .ok p) ∧
      (FreeRunAt 0x0f1b#64 3 4 p ∧ (∀ q, FreeRunAt 0x0f1b#64 3 4 q → p ≤ q) ∨
        p = 64 ∧ ∀ q, ¬ FreeRunAt 0x0f1b#64 3 4 q) :=
  search_exact (by decide) (by decide) (.inr ⟨2, by decide, rfl⟩)

end RPiKernel.Containers
