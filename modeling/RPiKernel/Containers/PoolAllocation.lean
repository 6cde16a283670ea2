import RPiKernel.Containers.PoolProtocol

/-!
# What an allocation owns

`wp_allocateInternal` is the specification of one attempt at an allocation
under any interference: it fails for good and owns nothing, or it lost a race
and owns nothing, or it owns the block that it returns.
-/

namespace RPiKernel.Containers

open Interleaving Machine Intervals

variable {ι : Type*} [DecidableEq ι] {t : ι} {pool : PoolParameters} {leaky : Prop}
  {permitted : (Word → Except Fault Word) → Prop}

section Search

variable {alignment : Nat}

/-- The number of words that an alignment spans. -/
theorem wordAlignment_eq (ha : IsPowerOfTwo alignment) :
    add32 alignment 63 / 64 = (alignment + 63) / 64 := by
  have := ha.le
  rw [add32_of_lt (by omega)]

theorem wordAlignment_isPowerOfTwo (ha : IsPowerOfTwo alignment) :
    IsPowerOfTwo ((alignment + 63) / 64) := by
  obtain ⟨k, hk, rfl⟩ := ha
  rcases Nat.lt_or_ge k 6 with hlt | hge
  · have hpos := Nat.two_pow_pos k
    have hle : 2 ^ k ≤ 2 ^ 6 := Nat.pow_le_pow_right Nat.two_pos hlt.le
    exact ⟨0, by omega, by omega⟩
  · refine ⟨k - 6, by omega, ?_⟩
    have hsplit : 2 ^ k = 64 * 2 ^ (k - 6) := by
      rw [show 64 = 2 ^ 6 by rfl, ← Nat.pow_add]
      congr 1
      omega
    omega

/-- The next word of the search is the next one at which an aligned block can
begin in the first slot. -/
theorem nextWordIndex_eq {k : Nat} (ha : IsPowerOfTwo alignment) (hk : k < 67108864) :
    nextWordIndex k alignment =
      (k + (alignment + 63) / 64) / ((alignment + 63) / 64) * ((alignment + 63) / 64) := by
  have hle := ha.le
  have hpow := wordAlignment_isPowerOfTwo ha
  have hpos := hpow.pos
  have hmask : mul32 uint32Max ((alignment + 63) / 64) = not32 ((alignment + 63) / 64 - 1) := by
    simp only [mul32, uint32Max, not32]
    omega
  rw [nextWordIndex, wordAlignment_eq ha, hmask, add32_of_lt (by omega),
    hpow.and_not_pred (by omega)]

theorem lt_nextWordIndex {k : Nat} (ha : IsPowerOfTwo alignment) (hk : k < 67108864) :
    k < nextWordIndex k alignment := by
  have hpos := (wordAlignment_isPowerOfTwo ha).pos
  rw [nextWordIndex_eq ha hk, Nat.add_div_right _ hpos, Nat.succ_mul]
  have hdiv := Nat.div_add_mod' k ((alignment + 63) / 64)
  have hmod := Nat.mod_lt k hpos
  omega

theorem nextWordIndex_mod {k : Nat} (ha : IsPowerOfTwo alignment) (hk : k < 67108864) :
    nextWordIndex k alignment % ((alignment + 63) / 64) = 0 := by
  rw [nextWordIndex_eq ha hk, Nat.mul_mod_left]

/-- Between a word and the next one of the search no aligned position lies. -/
theorem div_le_of_lt_nextWordIndex {k r : Nat} (ha : IsPowerOfTwo alignment) (hk : k < 67108864)
    (hr : r / 64 % ((alignment + 63) / 64) = 0) (hlt : r < 64 * nextWordIndex k alignment) :
    r / 64 ≤ k := by
  have hpos := (wordAlignment_isPowerOfTwo ha).pos
  rw [nextWordIndex_eq ha hk, Nat.add_div_right _ hpos] at hlt
  obtain ⟨c, hc⟩ := Nat.dvd_of_mod_eq_zero hr
  have hdiv : r / 64 < (k / ((alignment + 63) / 64) + 1) * ((alignment + 63) / 64) := by omega
  rw [hc, Nat.mul_comm] at hdiv ⊢
  have hle : c ≤ k / ((alignment + 63) / 64) :=
    Nat.le_of_lt_succ (Nat.lt_of_mul_lt_mul_right hdiv)
  calc
    c * ((alignment + 63) / 64) ≤ k / ((alignment + 63) / 64) * ((alignment + 63) / 64) :=
      Nat.mul_le_mul_right _ hle
    _ ≤ k := Nat.div_mul_le_self k _

/-- An aligned position inside an aligned word is aligned in the pool. -/
theorem position_mod {k p : Nat} (ha : IsPowerOfTwo alignment)
    (hk : k % ((alignment + 63) / 64) = 0) (hp : p % alignment = 0) (hlt : p < 64) :
    (64 * k + p) % alignment = 0 := by
  rcases ha.dvd_or_dvd with hdvd | ⟨c, rfl⟩
  · exact Nat.mod_eq_zero_of_dvd
      (Nat.dvd_add (Nat.dvd_mul_right_of_dvd hdvd k) (Nat.dvd_of_mod_eq_zero hp))
  · have hpos := ha.pos
    have hc : (64 * c + 63) / 64 = c := by omega
    have hp0 : p = 0 := by
      have hlt' : p < 64 * c := by omega
      rwa [Nat.mod_eq_of_lt hlt'] at hp
    rw [hc] at hk
    rw [hp0, Nat.add_zero, Nat.mul_mod_mul_left, hk, Nat.mul_zero]

/-- The word of an aligned position is aligned. -/
theorem div_mod_wordAlignment {hint : Nat} (ha : IsPowerOfTwo alignment)
    (hh : hint % alignment = 0) : hint / 64 % ((alignment + 63) / 64) = 0 := by
  have hpos := ha.pos
  rcases ha.dvd_or_dvd with hdvd | ⟨c, rfl⟩
  · have hle := Nat.le_of_dvd (by decide) hdvd
    have hone : (alignment + 63) / 64 = 1 := by omega
    rw [hone, Nat.mod_one]
  · obtain ⟨d, rfl⟩ := Nat.dvd_of_mod_eq_zero hh
    have hc : (64 * c + 63) / 64 = c := by omega
    rw [hc, Nat.mul_assoc, Nat.mul_div_cancel_left _ (by decide), Nat.mul_mod_right]

/-- The place of an aligned position in its word is aligned. -/
theorem mod_mod_alignment {r : Nat} (ha : IsPowerOfTwo alignment) (hr : r % alignment = 0) :
    r % 64 % alignment = 0 := by
  rcases ha.dvd_or_dvd with hdvd | hdvd
  · rw [Nat.mod_mod_of_dvd r hdvd, hr]
  · have hzero : r % 64 = 0 :=
      Nat.mod_eq_zero_of_dvd (Nat.dvd_trans hdvd (Nat.dvd_of_mod_eq_zero hr))
    rw [hzero, Nat.zero_mod]

end Search

section Attempt

variable {g : Option Span}

/-- The scan from word `k` on accounts for all slots that were needed there. -/
def Probed (pool : PoolParameters) (k needed : Nat) : Probe → Prop
  | .exhausted => True
  | .blocked k' => k ≤ k' ∧ k' < pool.wordCount
  | .free k' rest => k ≤ k' ∧ k' ≤ pool.wordCount ∧ rest < 64 ∧ 64 * (k' - k) + rest = needed

theorem Probed.of_succ {k needed : Nat} (hneeded : needed ≥ 64) {r : Probe}
    (h : Probed pool (k + 1) (needed - 64) r) : Probed pool k needed r := by
  cases r with
  | exhausted => trivial
  | blocked k' => exact ⟨by have := h.1; omega, h.2⟩
  | free k' rest =>
      obtain ⟨h₁, h₂, h₃, h₄⟩ := h
      exact ⟨by omega, h₂, h₃, by omega⟩

theorem wp_skipFreeWords (fuel : Nat) {k needed : Nat} (hk : k ≤ pool.wordCount)
    (hfuel : pool.wordCount < k + fuel) :
    (poolProtocol ι pool leaky permitted).wp t (skipFreeWords pool fuel k needed) g
      (fun r g' => g' = g ∧ Probed pool k needed r) := by
  induction fuel generalizing k needed with
  | zero => omega
  | succ fuel ih =>
      by_cases hneeded : needed ≥ 64
      · by_cases hend : k ≥ pool.wordCount
        · simp only [skipFreeWords, hneeded, hend, if_true]
          exact ⟨rfl, trivial⟩
        · simp only [skipFreeWords, hneeded, hend, if_true, if_false]
          refine Protocol.wp_read (inBounds (by omega)) fun v _ => ?_
          by_cases hzero : v.bitmap = 0
          · simp only [hzero, ne_eq, not_true, if_false]
            refine Protocol.wp_mono (ih (by omega) (by omega)) ?_
            rintro r g' ⟨rfl, hr⟩
            exact ⟨rfl, hr.of_succ hneeded⟩
          · simp only [ne_eq, hzero, not_false_iff, if_true]
            exact ⟨rfl, le_rfl, by omega⟩
      · simp only [skipFreeWords, hneeded, if_false]
        exact ⟨rfl, le_rfl, hk, by omega, by omega⟩

theorem wp_probeWords {k needed : Nat} (hk : 0 < k) (hle : k ≤ pool.wordCount) :
    (poolProtocol ι pool leaky permitted).wp t (probeWords pool k needed) g
      (fun r g' => g' = g ∧ Probed pool k needed r ∧
        ∀ k' rest, r = .free k' rest → 0 < rest → k' < pool.wordCount) := by
  refine Protocol.wp_bind (Protocol.wp_mono (wp_skipFreeWords _ hle (by omega)) ?_)
  rintro r g' ⟨rfl, hr⟩
  cases r with
  | exhausted => exact ⟨rfl, trivial, by simp⟩
  | blocked k' => exact ⟨rfl, hr, by simp⟩
  | free k' rest =>
      by_cases hrest : rest > 0
      · by_cases hend : k' ≥ pool.wordCount
        · simp only [hrest, hend, if_true]
          exact ⟨rfl, trivial, by simp⟩
        · simp only [hrest, hend, if_true, if_false]
          refine Protocol.wp_read (inBounds (by omega)) fun v _ => ?_
          refine Protocol.wp_ofExcept (shl_of_lt (by omega)) ?_
          by_cases hzero : v.bitmap <<< (64 - rest) = 0
          · simp only [hzero, ne_eq, not_true, if_false]
            exact ⟨rfl, hr, fun k'' rest' h _ => by cases h; omega⟩
          · simp only [ne_eq, hzero, not_false_iff, if_true]
            exact ⟨rfl, ⟨hr.1, by omega⟩, by simp⟩
      · simp only [hrest, if_false]
        exact ⟨rfl, hr, fun k'' rest' h h' => by cases h; omega⟩

/-- What an attempt ends with: a lasting failure, a block, or a lost race. -/
def Attempted (count alignment : Nat) (r : Nat × Bool) (g : Option Span) : Prop :=
  (r = (uint32Max, true) ∧ g = none) ∨
  (r.2 = true ∧ r.1 % alignment = 0 ∧ g = some ⟨r.1, count⟩) ∨
  (r.2 = false ∧ r.1 % alignment = 0 ∧ g = none)

/-- The last commit appends the low slots of a word in which they are free. -/
theorem allows_takeLow {last s rest : Nat} {bitmap starts : BitVec 64} (hs : s < 64 * last)
    (hrest : 0 < rest) (hrest64 : rest ≤ 64) :
    (poolProtocol ι pool leaky permitted).Allows t (some ⟨s, 64 * last - s⟩) last
      { bitmap := bitmap &&& ~~~(uint64Max >>> (64 - rest)), starts }
      { bitmap := bitmap &&& ~~~(uint64Max >>> (64 - rest)) ||| (uint64Max >>> (64 - rest)), starts }
      (some ⟨s, 64 * last + rest - s⟩) := by
  apply allows_of_encodes
  intro words F key hF hg hv
  refine hF.growWord (p := 0) (q := rest) false hv hrest hrest64
    (Or.inr ⟨rfl, hs, hg⟩) ?_ ?_ ?_
  · intro j _ hj
    rw [BitVec.getLsbD_and, BitVec.getLsbD_not, getLsbD_low hrest64]
    simp [hj]
  · intro j hj
    rw [BitVec.getLsbD_or, getLsbD_low hrest64]
    simp only [Nat.zero_le, true_and]
  · intro j hj
    simp only [Bool.false_and, Bool.or_false]

/-- Committing an allocation that begins in the free slots at the end of a word. -/
theorem wp_commit {count alignment k bitIndex last rest : Nat} {currentWord : Word}
    (hfits : pool.size ≤ 4294967232) (hundo : UndoAllowed leaky permitted)
    (hbit : bitIndex < 64) (hprobed : Probed pool (k + 1) (count - (64 - bitIndex)) (.free last rest))
    (hrest : 0 < rest → last < pool.wordCount) (hcount : 64 < bitIndex + count)
    (hzeros : ∀ j, bitIndex ≤ j → j < 64 → currentWord.bitmap.getLsbD j = false)
    (halign : (64 * k + bitIndex) % alignment = 0) :
    (poolProtocol ι pool leaky permitted).wp t
      (commit pool k bitIndex last rest currentWord) none (Attempted count alignment) := by
  obtain ⟨hk, hlast, hrest64, hneeded⟩ := hprobed
  have hwords := PoolParameters.wordCount_le hfits
  have hresult : add32 bitIndex (mul32 k 64) = 64 * k + bitIndex := by
    rw [mul32_of_lt (by omega), add32_of_lt (by omega)]
    omega
  obtain ⟨newWord, hnew, hbitmap, hstarts⟩ := takeRest_spec currentWord hbit
  simp only [commit, hresult]
  refine Protocol.wp_ofExcept hnew ⟨inBounds (by omega), fun _ => ⟨some ⟨64 * k + bitIndex,
    64 * (k + 1) - (64 * k + bitIndex)⟩, ?_, ?_⟩, fun v _ _ => Or.inr (Or.inr ⟨rfl, halign, rfl⟩)⟩
  · apply allows_of_encodes
    intro words F key hF hg hv
    refine hF.growWord (p := bitIndex) (q := 64) true hv hbit le_rfl
      (Or.inl ⟨hg, rfl, rfl⟩) hzeros ?_ ?_
    · intro j hj
      simp only [hbitmap j hj, hj, and_true]
    · intro j hj
      simp only [hstarts j hj, Bool.true_and]
  · simp only [Bool.not_true, Bool.false_eq_true, if_false]
    refine Protocol.wp_bind (Protocol.wp_mono (wp_commitWords hlast (by omega) _ (by omega) hk) ?_)
    rintro ⟨stopped, cleanupNeeded⟩ g ⟨rfl, hge, hle, hend⟩
    have hrollback : (poolProtocol ι pool leaky permitted).wp t
        ((rollback pool k bitIndex stopped newWord).bind fun _ =>
          .done (64 * k + bitIndex, false))
        (some ⟨64 * k + bitIndex, 64 * stopped - (64 * k + bitIndex)⟩)
        (Attempted count alignment) := by
      refine Protocol.wp_bind (Protocol.wp_mono
        (wp_rollback hfits hundo hbit (by omega) (by omega)) ?_)
      rintro - g rfl
      exact Or.inr (Or.inr ⟨rfl, halign, rfl⟩)
    cases cleanupNeeded with
    | true =>
        simp only [Bool.not_true, Bool.false_and, Bool.false_eq_true, if_false, if_true]
        exact hrollback
    | false =>
        have hstopped : stopped = last := hend rfl
        subst hstopped
        by_cases hrest0 : rest = 0
        · simp only [Bool.not_false, Bool.true_and, hrest0, decide_true, if_true]
          exact Or.inr (Or.inl ⟨rfl, halign, by congr 2; omega⟩)
        · simp only [Bool.not_false, Bool.true_and, hrest0, decide_false, Bool.false_eq_true,
            if_false]
          refine Protocol.wp_read (inBounds (hrest (by omega))) fun v _ => ?_
          refine Protocol.wp_ofExcept (shr_of_lt (by omega)) ⟨inBounds (hrest (by omega)),
            fun _ => ⟨_, allows_takeLow (by omega) (by omega) hrest64.le, ?_⟩, fun v _ _ => hrollback⟩
          exact Or.inr (Or.inl ⟨rfl, halign, by congr 2; omega⟩)

/-- The search from word `k` on ends within the words of the pool. -/
theorem wp_searchWords {count alignment : Nat} (hfits : pool.size ≤ 4294967232)
    (hundo : UndoAllowed leaky permitted) (hcount : 0 < count) (hsize : count ≤ pool.size)
    (ha : IsPowerOfTwo alignment) (fuel : Nat) {k : Nat} (hfuel : pool.wordCount ≤ k + fuel)
    (hk : k % ((alignment + 63) / 64) = 0) :
    (poolProtocol ι pool leaky permitted).wp t (searchWords pool count alignment fuel k) none
      (Attempted count alignment) := by
  have hwords := PoolParameters.wordCount_le hfits
  induction fuel generalizing k with
  | zero =>
      have hend : ¬ k < pool.wordCount := by omega
      simp only [searchWords, hend, if_false]
      exact Or.inl ⟨rfl, rfl⟩
  | succ fuel ih =>
      by_cases hlt : k < pool.wordCount
      · have hnext : ∀ k', k ≤ k' → k' < pool.wordCount →
            (poolProtocol ι pool leaky permitted).wp t
              (searchWords pool count alignment fuel (nextWordIndex k' alignment)) none
              (Attempted count alignment) := by
          intro k' hge hlt'
          have hinc := lt_nextWordIndex (k := k') ha (by omega)
          exact ih (by omega) (nextWordIndex_mod ha (by omega))
        simp only [searchWords, hlt, if_true]
        refine Protocol.wp_read (inBounds hlt) fun v _ => ?_
        by_cases hfull : v.bitmap = uint64Max
        · rw [if_pos hfull]
          exact hnext k le_rfl hlt
        · rw [if_neg hfull]
          obtain ⟨p, hp, hrun⟩ := findConsecutiveZerosAligned_spec hcount ha hfull
          refine Protocol.wp_ofExcept hp ?_
          by_cases hp64 : p = 64
          · rw [if_pos hp64]
            exact hnext k le_rfl hlt
          · have hple := hrun.le
            have hbit : p < 64 := by omega
            have halign := position_mod ha hk (hrun.aligned hbit) hbit
            rw [if_neg hp64, add32_of_lt (by omega)]
            by_cases hword : p + count ≤ 64
            · rw [if_pos hword]
              obtain ⟨w, hw, hbitmap, hstarts⟩ := takeSlots_spec v hcount hword
              have hresult : add32 p (mul32 k 64) = 64 * k + p := by
                rw [mul32_of_lt (by omega), add32_of_lt (by omega)]
                omega
              rw [hresult]
              refine Protocol.wp_ofExcept hw ⟨inBounds hlt, fun _ =>
                ⟨some ⟨64 * k + p, 64 * k + (p + count) - (64 * k + p)⟩, ?_, ?_⟩,
                fun _ _ _ => Or.inr (Or.inr ⟨rfl, halign, rfl⟩)⟩
              · apply allows_of_encodes
                intro words F key hF hg hv
                exact hF.growWord true hv (by omega) hword (Or.inl ⟨hg, rfl, rfl⟩)
                  (hrun.zeros hbit) hbitmap (fun j hj => by rw [hstarts j hj, Bool.true_and])
              · exact Or.inr (Or.inl ⟨rfl, halign, by congr 2; omega⟩)
            · rw [if_neg hword, sub32_of_le (by omega) (by omega)]
              refine Protocol.wp_bind (Protocol.wp_mono (wp_probeWords (by omega) hlt) ?_)
              rintro r g ⟨rfl, hr, hrest⟩
              cases r with
              | exhausted => exact Or.inl ⟨rfl, rfl⟩
              | blocked k' =>
                  obtain ⟨hge, hlt'⟩ := hr
                  simp only
                  rw [sub32_of_le (by omega) (by omega)]
                  exact hnext (k' - 1) (by omega) (by omega)
              | free last rest =>
                  exact wp_commit hfits hundo hbit hr (hrest last rest rfl) (by omega)
                    (fun j hj hj64 => hrun.zeros hbit j hj (by omega)) halign
      · simp only [searchWords, hlt, if_false]
        exact Or.inl ⟨rfl, rfl⟩

/-- Admissible arguments pass the checks of the attempt. -/
theorem allocateInternal_of_aligned {hint count alignment : Nat} (hcount : 0 < count)
    (ha : IsPowerOfTwo alignment) (hhint : hint % alignment = 0) :
    allocateInternal pool hint count alignment =
      searchWords pool count alignment pool.wordCount (hint / 64) := by
  have hpow : ¬ (alignment > 1 ∧ alignment &&& (alignment - 1) ≠ 0) := by
    rw [ha.and_pred, Nat.mod_self]
    exact fun h => h.2 rfl
  have hhint' : ¬ hint &&& (alignment - 1) ≠ 0 := by
    rw [ha.and_pred, hhint]
    exact fun h => h rfl
  rw [allocateInternal, if_neg hcount.ne', if_neg ha.pos.ne', if_neg hpow, if_neg hhint']

/-- One attempt at an allocation, for the arguments that the callers pass. -/
theorem wp_allocateInternal {hint count alignment : Nat} (hfits : pool.size ≤ 4294967232)
    (hundo : UndoAllowed leaky permitted) (hcount : 0 < count) (hsize : count ≤ pool.size)
    (ha : IsPowerOfTwo alignment) (hhint : hint % alignment = 0) :
    (poolProtocol ι pool leaky permitted).wp t (allocateInternal pool hint count alignment) none
      (Attempted count alignment) := by
  rw [allocateInternal_of_aligned hcount ha hhint]
  exact wp_searchWords hfits hundo hcount hsize ha _ (by omega) (div_mod_wordAlignment ha hhint)

end Attempt

end RPiKernel.Containers
