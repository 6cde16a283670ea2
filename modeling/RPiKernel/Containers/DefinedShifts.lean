import RPiKernel.Containers.PoolOversize
import RPiKernel.Interleaving.Faults

/-!
# Shifts of the bitmaps

A shift of a 64-bit word by 64 or more is undefined. The unaligned search starts with such a shift
in a full word, and a fit within one word is tested by an addition that can overflow, whereupon the
mask is shifted by more than 64. All other shifts are defined, whatever the words hold and whatever
other threads do. `shiftsDefined_iff` says so for the two searches and for runs of any calls of any
number of threads.

## Implementation notes

`requestsOf` has the calls of `PoolSystem` with any arguments and `GetBlockSize` besides, and no
account of the blocks: a call may release what another one holds. A thread that a fault has stopped
stays in its call.
-/

namespace RPiKernel.Containers

open Interleaving Machine Transition

section Search

variable {data : BitVec 64} {n alignment : Nat}

theorem countrOne_uint64Max : countrOne uint64Max = 64 :=
  countrOne_eq (fun j hj => by simp [hj]) (by simp)

/-- The loop of the unaligned search shifts before it looks at the position. -/
theorem searchZeros_end (data mask : BitVec 64) (fuel : Nat) :
    searchZeros data mask (fuel + 1) 64 = .error .undefinedShift := by
  have hfirst : shr data 64 = .error .undefinedShift := if_neg (by omega)
  rw [searchZeros, hfirst]
  rfl

theorem findConsecutiveZeros_full (hn : 0 < n) :
    findConsecutiveZeros uint64Max n = .error .undefinedShift := by
  have hmask : 64 - (if n > 64 then 64 else n) < 64 := by split <;> omega
  simp only [findConsecutiveZeros, if_neg hn.ne', shr_of_lt hmask, ok_bind, countrOne_uint64Max]
  exact searchZeros_end _ _ 64

/-- The unaligned search shifts by 64 in a full word, and only there. -/
theorem findConsecutiveZeros_defined_iff :
    findConsecutiveZeros data n ≠ .error .undefinedShift ↔ n = 0 ∨ data ≠ uint64Max := by
  rcases Nat.eq_zero_or_pos n with rfl | hn
  · exact iff_of_true (fun h => by cases h) (Or.inl rfl)
  · by_cases hdata : data = uint64Max
    · subst hdata
      exact iff_of_false (fun h => h (findConsecutiveZeros_full hn)) (by simp [hn.ne'])
    · obtain ⟨p, hp, -⟩ := findConsecutiveZeros_spec hn hdata
      exact iff_of_true (fun h => by rw [hp] at h; cases h) (Or.inr hdata)

/-- The aligned search leaves the word before it shifts by 64. -/
theorem findConsecutiveZerosAligned_aligned (data : BitVec 64) (hn : 0 < n)
    (halignment : 1 < alignment) (ha : IsPowerOfTwo alignment) :
    ∃ p, findConsecutiveZerosAligned data n alignment = .ok p := by
  obtain ⟨p, hp, -⟩ := searchAlignedZeros_spec data (if n > 64 then 64 else n)
    (by split <;> omega) (by split <;> omega) ha 65 0 (by omega) (by omega)
    (fun q hq => absurd hq (Nat.not_lt_zero q))
  have hmask : 64 - (if n > 64 then 64 else n) < 64 := by split <;> omega
  have hpow : ¬ alignment &&& (alignment - 1) ≠ 0 := by
    rw [ha.and_pred, Nat.mod_self]
    exact fun h => h rfl
  refine ⟨p, ?_⟩
  simp only [findConsecutiveZerosAligned, if_neg hn.ne', if_neg (Nat.not_le.mpr halignment),
    if_neg hpow, shr_of_lt hmask, ok_bind]
  exact hp

/-- The aligned search without an alignment is the unaligned one. -/
theorem findConsecutiveZerosAligned_unaligned (halignment : alignment ≤ 1) :
    findConsecutiveZerosAligned data n alignment = findConsecutiveZeros data n := by
  rcases Nat.eq_zero_or_pos n with rfl | hn
  · rfl
  · rw [findConsecutiveZerosAligned, if_neg hn.ne', if_pos halignment]

theorem findConsecutiveZerosAligned_defined_iff (hlt : alignment < 4294967296) :
    findConsecutiveZerosAligned data n alignment ≠ .error .undefinedShift ↔
      n = 0 ∨ 1 < alignment ∨ data ≠ uint64Max := by
  by_cases halignment : alignment ≤ 1
  · have hnot : ¬ 1 < alignment := Nat.not_lt.mpr halignment
    rw [findConsecutiveZerosAligned_unaligned halignment, findConsecutiveZeros_defined_iff]
    simp only [hnot, false_or]
  · have hlarge : 1 < alignment := Nat.lt_of_not_le halignment
    refine iff_of_true (fun h => ?_) (Or.inr (Or.inl hlarge))
    rcases Nat.eq_zero_or_pos n with rfl | hn
    · cases h
    · by_cases hpow : alignment &&& (alignment - 1) = 0
      · obtain ⟨p, hp⟩ := findConsecutiveZerosAligned_aligned data hn hlarge
          (isPowerOfTwo_of_and_pred (by omega) hlt hpow)
        rw [hp] at h
        cases h
      · rw [findConsecutiveZerosAligned, if_neg hn.ne', if_neg halignment, if_pos hpow] at h
        cases h

/-- There is only one first run. -/
theorem IsFirstRun.eq {p q : Nat} (hp : IsFirstRun data n alignment p)
    (hq : IsFirstRun data n alignment q) : p = q := by
  have hp64 := hp.le
  have hq64 := hq.le
  rcases Nat.lt_trichotomy p q with hlt | heq | hlt
  · exact absurd (hp.zeros (by omega)) (hq.least p hlt (hp.aligned (by omega)))
  · exact heq
  · exact absurd (hq.zeros (by omega)) (hp.least q hlt (hq.aligned (by omega)))

end Search

/-- A shift beyond the word, or a loop that exceeds the bound of the model. -/
def ShiftOrLoop (e : Fault) : Prop := e = .undefinedShift ∨ e = .diverged

theorem not_shiftOrLoop_panic (message : String) : ¬ ShiftOrLoop (.panic message) := by
  rintro (h | h) <;> cases h

section Programs

variable {pool : PoolParameters}

theorem avoids_skipFreeWords (fuel : Nat) {k needed : Nat} (hk : k ≤ pool.wordCount)
    (hfuel : pool.wordCount < k + fuel) :
    (skipFreeWords pool fuel k needed).Avoids ShiftOrLoop (fun _ _ => False)
      (Probed pool k needed) := by
  induction fuel generalizing k needed with
  | zero => omega
  | succ fuel ih =>
      by_cases hneeded : needed ≥ 64
      · by_cases hend : k ≥ pool.wordCount
        · simp only [skipFreeWords, hneeded, hend, if_true]
          trivial
        · simp only [skipFreeWords, hneeded, hend, if_true, if_false]
          refine Program.Avoids.read fun v => ?_
          by_cases hzero : v.bitmap = 0
          · simp only [hzero, ne_eq, not_true, if_false]
            exact (ih (by omega) (by omega)).mono fun r hr => hr.of_succ hneeded
          · simp only [ne_eq, hzero, not_false_iff, if_true]
            exact ⟨le_rfl, by omega⟩
      · simp only [skipFreeWords, hneeded, if_false]
        exact ⟨le_rfl, hk, by omega, by omega⟩

theorem avoids_probeWords {k needed : Nat} (hk : 0 < k) (hle : k ≤ pool.wordCount) :
    (probeWords pool k needed).Avoids ShiftOrLoop (fun _ _ => False) (Probed pool k needed) := by
  refine Program.Avoids.bind ((avoids_skipFreeWords _ hle (by omega)).mono fun r hr => ?_)
  cases r with
  | exhausted => trivial
  | blocked k' => exact hr
  | free k' rest =>
      obtain ⟨hge, hle', hrest64, hneeded⟩ := hr
      by_cases hrest : rest > 0
      · by_cases hend : k' ≥ pool.wordCount
        · simp only [hrest, hend, if_true]
          trivial
        · simp only [hrest, hend, if_true, if_false]
          refine Program.Avoids.read fun v => Program.Avoids.ofExcept (shl_of_lt (by omega)) ?_
          by_cases hzero : v.bitmap <<< (64 - rest) = 0
          · simp only [hzero, ne_eq, not_true, if_false]
            exact ⟨hge, hle', hrest64, hneeded⟩
          · simp only [ne_eq, hzero, not_false_iff, if_true]
            exact ⟨hge, by omega⟩
      · simp only [hrest, if_false]
        exact ⟨hge, hle', hrest64, hneeded⟩

theorem avoids_commitWords {last : Nat} (fuel : Nat) {k : Nat} (hk : k ≤ last)
    (hfuel : last ≤ k + fuel) :
    (commitWords last fuel k).Avoids ShiftOrLoop (fun _ _ => False)
      (fun r => k ≤ r.1 ∧ r.1 ≤ last) := by
  induction fuel generalizing k with
  | zero =>
      have hend : ¬ k < last := by omega
      simp only [commitWords, hend, if_false]
      exact ⟨le_rfl, hk⟩
  | succ fuel ih =>
      by_cases hlt : k < last
      · simp only [commitWords, hlt, if_true]
        intro ok v
        cases ok with
        | true =>
            refine (ih hlt (by omega)).mono fun r hr => ⟨?_, hr.2⟩
            have hge := hr.1
            omega
        | false => exact ⟨le_rfl, hk⟩
      · simp only [commitWords, hlt, if_false]
        exact ⟨le_rfl, hk⟩

theorem avoids_clearWords {start : Nat} (fuel : Nat) {k : Nat} (hk : start ≤ k)
    (hfuel : k ≤ start + fuel) (hlt : k < 4294967296) :
    (clearWords start fuel k).Avoids ShiftOrLoop (fun _ _ => False) (fun _ => True) := by
  induction fuel generalizing k with
  | zero =>
      have hend : ¬ k ≠ start := by omega
      simp only [clearWords, hend, if_false]
      trivial
  | succ fuel ih =>
      by_cases hend : k = start
      · rw [clearWords, if_neg (not_not_intro hend)]
        trivial
      · have hprev : sub32 k 1 = k - 1 := sub32_of_le (by omega) hlt
        rw [clearWords, if_pos hend, hprev]
        exact ih (by omega) (by omega) (by omega)

theorem avoids_rollback {k bitIndex stopped : Nat} {newWord : Word}
    (hfits : pool.size ≤ 4294967232) (hbit : bitIndex < 64) (hk : k < stopped)
    (hstopped : stopped ≤ pool.wordCount) :
    (rollback pool k bitIndex stopped newWord).Avoids ShiftOrLoop (fun _ _ => False)
      (fun _ => True) := by
  have hwords := PoolParameters.wordCount_le hfits
  have hprev : sub32 stopped 1 = stopped - 1 := sub32_of_le (by omega) (by omega)
  rw [rollback, hprev]
  refine Program.Avoids.bind ((avoids_clearWords _ (by omega) (by omega) (by omega)).mono
    fun _ _ => ⟨fun v e he => ?_, trivial⟩)
  obtain ⟨w, hw, -⟩ := undoRest_spec v hbit
  rw [hw] at he
  cases he

theorem avoids_commit {needed k bitIndex last rest : Nat} {currentWord : Word}
    (hfits : pool.size ≤ 4294967232) (hbit : bitIndex < 64)
    (hprobed : Probed pool (k + 1) needed (.free last rest)) :
    (commit pool k bitIndex last rest currentWord).Avoids ShiftOrLoop (fun _ _ => False)
      (fun _ => True) := by
  obtain ⟨hk, hlast, hrest64, -⟩ := hprobed
  obtain ⟨newWord, hnew, -⟩ := takeRest_spec currentWord hbit
  refine Program.Avoids.ofExcept hnew fun ok v => ?_
  cases ok with
  | false => trivial
  | true =>
      simp only [Bool.not_true, Bool.false_eq_true, if_false]
      refine Program.Avoids.bind ((avoids_commitWords _ hk (by omega)).mono ?_)
      rintro ⟨stopped, cleanupNeeded⟩ ⟨hge, hle⟩
      have hrollback : ∀ result : Nat × Bool,
          ((rollback pool k bitIndex stopped newWord).bind fun _ => .done result).Avoids
            ShiftOrLoop (fun _ _ => False) (fun _ => True) := by
        intro result
        exact Program.Avoids.bind ((avoids_rollback hfits hbit (by omega) (by omega)).mono
          fun _ _ => trivial)
      cases cleanupNeeded with
      | true =>
          simp only [Bool.not_true, Bool.false_and, Bool.false_eq_true, if_false, if_true]
          exact hrollback _
      | false =>
          by_cases hrest : rest = 0
          · simp only [Bool.not_false, Bool.true_and, hrest, decide_true, if_true]
            trivial
          · simp only [Bool.not_false, Bool.true_and, hrest, decide_false, Bool.false_eq_true,
              if_false]
            refine Program.Avoids.read fun v =>
              Program.Avoids.ofExcept (shr_of_lt (by omega)) fun ok _ => ?_
            cases ok with
            | true => trivial
            | false => exact hrollback _

/-- The first aligned position from which the word is free to its end, and the count added to it
overflows. -/
def OverflowsIn (bitmap : BitVec 64) (count alignment : Nat) : Prop :=
  ∃ p < 64, IsFirstRun bitmap count alignment p ∧ 4294967296 ≤ p + count

/-- The search is at a word in which the test for a fit overflows. -/
def SearchOverflows (pool : PoolParameters) (count alignment : Nat)
    (rest : Program Word (Nat × Bool)) (word : Word) : Prop :=
  IsPowerOfTwo alignment ∧ OverflowsIn word.bitmap count alignment ∧
    ∃ fuel k, k < pool.wordCount ∧ rest = searchWords pool count alignment (fuel + 1) k

/-- The shifts of the search are defined except where the test for a fit overflows. -/
theorem avoids_searchWords {count alignment : Nat} (hfits : pool.size ≤ 4294967232)
    (hcount : 0 < count) (ha : IsPowerOfTwo alignment) (fuel : Nat) {k : Nat}
    (hfuel : pool.wordCount ≤ k + fuel) :
    (searchWords pool count alignment fuel k).Avoids ShiftOrLoop
      (SearchOverflows pool count alignment) (fun _ => True) := by
  have hwords := PoolParameters.wordCount_le hfits
  induction fuel generalizing k with
  | zero =>
      have hend : ¬ k < pool.wordCount := by omega
      simp only [searchWords, hend, if_false]
      trivial
  | succ fuel ih =>
      by_cases hlt : k < pool.wordCount
      · have hnext : ∀ k', k ≤ k' → k' < pool.wordCount →
            (searchWords pool count alignment fuel (nextWordIndex k' alignment)).Avoids
              ShiftOrLoop (SearchOverflows pool count alignment) (fun _ => True) := by
          intro k' hge hlt'
          have hinc := lt_nextWordIndex (k := k') ha (by omega)
          exact ih (by omega)
        simp only [searchWords, hlt, if_true, Program.bind_def, Program.bind_read]
        refine Program.Avoids.load fun v hv => ?_
        have hfits' : ∀ p < 64, IsFirstRun v.bitmap count alignment p →
            p + count < 4294967296 := by
          intro p hp hrun
          by_contra hwraps
          exact hv ⟨ha, ⟨p, hp, hrun, Nat.le_of_not_lt hwraps⟩, fuel, k, hlt,
            by rw [searchWords, if_pos hlt]; rfl⟩
        by_cases hfull : v.bitmap = uint64Max
        · rw [if_pos hfull]
          exact hnext k le_rfl hlt
        · rw [if_neg hfull]
          obtain ⟨p, hp, hrun⟩ := findConsecutiveZerosAligned_spec hcount ha hfull
          refine Program.Avoids.ofExcept hp ?_
          by_cases hp64 : p = 64
          · rw [if_pos hp64]
            exact hnext k le_rfl hlt
          · have hple := hrun.le
            have hbit : p < 64 := by omega
            have hsum := hfits' p hbit hrun
            rw [if_neg hp64, add32_of_lt hsum]
            by_cases hword : p + count ≤ 64
            · obtain ⟨w, hw, -⟩ := takeSlots_spec v hcount hword
              rw [if_pos hword]
              exact Program.Avoids.ofExcept hw fun _ _ => trivial
            · rw [if_neg hword]
              refine Program.Avoids.bind ((avoids_probeWords (by omega) hlt).mono fun r hr => ?_)
              cases r with
              | exhausted => trivial
              | blocked k' =>
                  obtain ⟨hge, hlt'⟩ := hr
                  have hprev : sub32 k' 1 = k' - 1 := sub32_of_le (by omega) (by omega)
                  simp only [hprev]
                  exact hnext (k' - 1) (by omega) (by omega)
              | free last rest => exact (avoids_commit hfits hbit hr).of_all
      · simp only [searchWords, hlt, if_false]
        trivial

/-- Where the test for a fit overflows, the mask of the fit is shifted by more than 64. -/
theorem step_of_searchOverflows {count alignment : Nat} (hlt32 : count < 4294967296)
    {words : List Word} {rest : Program Word (Nat × Bool)}
    (h : Program.ReadsExcluded (SearchOverflows pool count alignment) words rest) :
    (rest.step words).1 = .fault .undefinedShift := by
  obtain ⟨i, next, v, rfl, hv, ha, ⟨p, hp, hrun, hwraps⟩, fuel, k, hk, hsearch⟩ := h
  have hcount : 0 < count := by omega
  have hfull : v.bitmap ≠ uint64Max := by
    intro hfull
    have hzero := hrun.zeros hp p le_rfl (by omega)
    rw [hfull, getLsbD_uint64Max, decide_eq_true hp] at hzero
    cases hzero
  obtain ⟨q, hq, hqrun⟩ := findConsecutiveZerosAligned_spec hcount ha hfull
  have hsame : q = p := hqrun.eq hrun
  have hadd : add32 p count ≤ 64 := by
    unfold add32
    omega
  have hp64 : p ≠ 64 := by omega
  have htake : takeSlots v p count = .error .undefinedShift :=
    takeSlots_oversize (by omega) hlt32
  simp only [searchWords, hk, if_true, Program.bind_def, Program.bind_read] at hsearch
  obtain ⟨rfl, rfl⟩ := Program.load.inj hsearch
  simp only [Program.step, hv, hfull, if_false, hq, hsame, Program.bind_ofExcept_ok, hp64, hadd,
    if_true, htake, Program.bind_ofExcept_error]

theorem avoids_allocateInternal (hint count : Nat) {alignment : Nat}
    (hfits : pool.size ≤ 4294967232) (hlt : alignment < 4294967296) :
    (allocateInternal pool hint count alignment).Avoids ShiftOrLoop
      (SearchOverflows pool count alignment) (fun _ => True) := by
  unfold allocateInternal
  split
  · exact not_shiftOrLoop_panic _
  · split
    · exact not_shiftOrLoop_panic _
    · split
      · exact not_shiftOrLoop_panic _
      · split
        · exact not_shiftOrLoop_panic _
        · next hcount halignment hpow _ =>
            have ha : IsPowerOfTwo alignment := by
              by_cases hone : alignment = 1
              · exact ⟨0, by decide, hone⟩
              · have hand : alignment &&& (alignment - 1) = 0 := by
                  by_contra hne
                  exact hpow ⟨by omega, hne⟩
                exact isPowerOfTwo_of_and_pred halignment hlt hand
            exact avoids_searchWords hfits (Nat.pos_of_ne_zero hcount) ha _ (by omega)

/-- The count of a word that is shifted down ends within it. -/
theorem countrOne_shifted_le (x : BitVec 64) {p : Nat} (hp : p ≤ 64) :
    countrOne (x >>> p) ≤ 64 - p := by
  by_contra hgt
  have hone := one_of_countrOne x (p := p) (j := 64) hp (by omega)
  exact absurd (lt_of_getLsbD hone) (by decide)

theorem countrOne_le (x : BitVec 64) : countrOne x ≤ 64 := by
  have h := countrOne_shifted_le x (Nat.zero_le 64)
  rwa [BitVec.ushiftRight_zero] at h

theorem avoids_extendBlock (bound : Nat) (hbound : bound < 4294967296) (fuel : Nat)
    {k position count : Nat} (hk : k < pool.wordCount) (hfuel : pool.wordCount ≤ k + 1 + fuel)
    (hcount : 0 < count) (hle : count + 64 * (pool.wordCount - (k + 1)) ≤ bound) :
    (extendBlock pool fuel k position count).Avoids ShiftOrLoop (fun _ _ => False)
      (fun r => 0 < r ∧ r ≤ bound) := by
  induction fuel generalizing k position count with
  | zero =>
      have hend : ¬ (position = 64 ∧ k + 1 < pool.wordCount) := by omega
      simp only [extendBlock, hend, if_false]
      exact ⟨hcount, by omega⟩
  | succ fuel ih =>
      by_cases hnext : position = 64 ∧ k + 1 < pool.wordCount
      · rw [extendBlock, if_pos hnext]
        refine Program.Avoids.read fun v => ?_
        have hones := countrOne_le (v.bitmap ^^^ v.starts)
        have hlt := hnext.2
        have hadd : add32 count (countrOne (v.bitmap ^^^ v.starts)) =
            count + countrOne (v.bitmap ^^^ v.starts) := add32_of_lt (by omega)
        simp only [hadd]
        exact ih hlt (by omega) (by omega) (by omega)
      · rw [extendBlock, if_neg hnext]
        exact ⟨hcount, by omega⟩

/-- The size of a block is at least one slot and ends with the words. -/
theorem avoids_getBlockSize (start : Nat) (hfits : pool.size ≤ 4294967232) :
    (getBlockSize pool start).Avoids ShiftOrLoop (fun _ _ => False)
      (fun r => start < pool.size ∧ 0 < r ∧ start + r ≤ 64 * pool.wordCount) := by
  have hwords := PoolParameters.wordCount_le hfits
  have hslots := PoolParameters.size_le hfits
  unfold getBlockSize
  split
  · exact not_shiftOrLoop_panic _
  · next hstart =>
      have hk : start / 64 < pool.wordCount := by omega
      have hpos : start % 64 < 64 := Nat.mod_lt _ (by decide)
      refine Program.Avoids.read fun v => Program.Avoids.ofExcept (shl_of_lt hpos) ?_
      split
      · exact not_shiftOrLoop_panic _
      · have hextend : ∀ count, 0 < count → start % 64 + count ≤ 64 →
            (extendBlock pool pool.wordCount (start / 64) (start % 64 + count) count).Avoids
              ShiftOrLoop (fun _ _ => False)
              (fun r => start < pool.size ∧ 0 < r ∧ start + r ≤ 64 * pool.wordCount) := by
          intro count hcount hle
          refine (avoids_extendBlock (64 * pool.wordCount - start) (by omega) _ hk (by omega)
            hcount (by omega)).mono fun r hr => ?_
          obtain ⟨hpos', hle'⟩ := hr
          exact ⟨by omega, hpos', by omega⟩
        split
        · next hlast =>
            have hones := countrOne_shifted_le (v.bitmap ^^^ v.starts) hlast.le
            refine Program.Avoids.ofExcept (shr_of_lt hlast) ?_
            exact hextend _ (by omega) (by omega)
        · exact hextend 1 Nat.one_pos (by omega)

theorem avoids_releaseLoop {k : Nat} {mask expected : BitVec 64} :
    (releaseLoop pool k mask expected).Avoids ShiftOrLoop (fun _ _ => False)
      (fun _ => True) := by
  refine Program.Avoids.read fun v => ⟨fun w e he => ?_, trivial⟩
  unfold releaseSlots at he
  split at he
  · cases he
    exact not_shiftOrLoop_panic _
  · cases he

theorem avoids_releaseWords {k bitIndex last : Nat} (hfits : pool.size ≤ 4294967232)
    (hbit : bitIndex < 64) (hlast : 64 * (k + 1) < last) (hend : last ≤ 64 * pool.wordCount) :
    (releaseWords pool k bitIndex last).Avoids ShiftOrLoop (fun _ _ => False)
      (fun _ => True) := by
  have hwords := PoolParameters.wordCount_le hfits
  have hprev : sub32 last 1 = last - 1 := sub32_of_le (by omega) (by omega)
  have hclear : ∀ stopped, k ≤ stopped → stopped < pool.wordCount →
      ((clearWords k pool.wordCount stopped).bind fun _ =>
        (Program.ofExcept (shl uint64Max bitIndex)).bind fun rest =>
          (Program.ofExcept (shl 1#64 bitIndex)).bind fun start =>
            releaseLoop pool k (~~~rest) start).Avoids ShiftOrLoop (fun _ _ => False)
        (fun _ => True) := by
    intro stopped hge hlt
    refine Program.Avoids.bind ((avoids_clearWords _ hge (by omega) (by omega)).mono fun _ _ => ?_)
    exact Program.Avoids.ofExcept (shl_of_lt hbit)
      (Program.Avoids.ofExcept (shl_of_lt hbit) avoids_releaseLoop)
  rw [releaseWords, hprev]
  split
  · exact not_shiftOrLoop_panic _
  · next hinside =>
      split
      · have hbefore : sub32 ((last - 1) / 64) 1 = (last - 1) / 64 - 1 :=
          sub32_of_le (by omega) (by omega)
        have hmod : last % 64 < 64 := Nat.mod_lt last (by decide)
        refine Program.Avoids.ofExcept (shl_of_lt hmod) ?_
        refine Program.Avoids.bind (avoids_releaseLoop.mono fun _ _ => ?_)
        rw [hbefore]
        exact hclear _ (by omega) (by omega)
      · exact hclear _ (by omega) (by omega)

theorem avoids_deallocate (start : Nat) (hfits : pool.size ≤ 4294967232) :
    (deallocate pool start).Avoids ShiftOrLoop (fun _ _ => False) (fun _ => True) := by
  have hwords := PoolParameters.wordCount_le hfits
  unfold deallocate
  split
  · exact not_shiftOrLoop_panic _
  · refine Program.Avoids.bind ((avoids_getBlockSize start hfits).mono fun count hcount => ?_)
    obtain ⟨hstart, hpos, hend⟩ := hcount
    have hbit : start % 64 < 64 := Nat.mod_lt _ (by decide)
    have hadd : add32 (start % 64) count = start % 64 + count := add32_of_lt (by omega)
    have hlast : add32 start count = start + count := add32_of_lt (by omega)
    simp only [hadd, hlast]
    split
    · have hrest : sub32 64 count = 64 - count := sub32_of_le (by omega) (by decide)
      rw [hrest]
      refine Program.Avoids.ofExcept (shr_of_lt (by omega)) ?_
      refine Program.Avoids.ofExcept (shl_of_lt hbit) ?_
      exact Program.Avoids.ofExcept (shl_of_lt hbit) avoids_releaseLoop
    · exact avoids_releaseWords hfits hbit (by omega) hend

end Programs

/-- The call that a thread executes, with the rest of its program. -/
inductive RequestState where
  | idle
  | allocating (count alignment : Nat) (rest : Program Word (Nat × Bool))
  | deallocating (rest : Program Word Unit)
  | measuring (rest : Program Word Nat)

/-- The calls of the pool, with any arguments. -/
inductive Request where
  | allocate (count alignment : Nat)
  | deallocate (start : Nat)
  | getBlockSize (start : Nat)

structure RequestsState (ι : Type*) where
  words : List Word
  thread : ι → RequestState

inductive RequestAction (ι : Type*) where
  | call (t : ι) (request : Request)
  | step (t : ι)

section Requests

variable {ι : Type*} [DecidableEq ι] (pool : PoolParameters)

/-- The begin of a call, whose arguments are unsigned 32-bit numbers. -/
def Request.begin : Request → Option RequestState
  | .allocate count alignment =>
      if count < 4294967296 ∧ alignment < 4294967296 then
        some (.allocating count alignment (allocateInternal pool 0 count alignment))
      else
        none
  | .deallocate start => some (.deallocating (Containers.deallocate pool start))
  | .getBlockSize start => some (.measuring (Containers.getBlockSize pool start))

/-- One step within a call, or the return from it, and the words afterwards. -/
def RequestState.step (words : List Word) : RequestState → Option (RequestState × List Word)
  | .idle => none
  | .allocating count alignment rest =>
      match rest.result? with
      | some (_, true) => some (.idle, words)
      | some (result, false) =>
          some (.allocating count alignment (allocateInternal pool result count alignment), words)
      | none => some (.allocating count alignment (rest.step words).1, (rest.step words).2)
  | .deallocating rest =>
      match rest.result? with
      | some _ => some (.idle, words)
      | none => some (.deallocating (rest.step words).1, (rest.step words).2)
  | .measuring rest =>
      match rest.result? with
      | some _ => some (.idle, words)
      | none => some (.measuring (rest.step words).1, (rest.step words).2)

/-- The effect of an action, where it is possible. -/
def RequestsState.next (σ : RequestsState ι) : RequestAction ι → Option (RequestsState ι)
  | .call t request =>
      match σ.thread t with
      | .idle =>
          (request.begin pool).map fun state =>
            { σ with thread := Function.update σ.thread t state }
      | _ => none
  | .step t =>
      ((σ.thread t).step pool σ.words).map fun r =>
        { words := r.2, thread := Function.update σ.thread t r.1 }

/-- The threads of `ι` with any calls on one pool, from the constructor on. -/
def requestsOf (ι : Type*) [DecidableEq ι] (pool : PoolParameters) :
    System (RequestsState ι) (RequestAction ι) where
  Initial σ := pool.construct = .ok σ.words ∧ ∀ t, σ.thread t = .idle
  next := RequestsState.next pool

/-- The fault has stopped the call of the thread. -/
def RequestState.StoppedBy (e : Fault) : RequestState → Prop
  | .idle => False
  | .allocating _ _ rest => rest = .fault e
  | .deallocating rest => rest = .fault e
  | .measuring rest => rest = .fault e

/-- The thread is in its search, at a word in which the test for a fit overflows. -/
def RequestState.MeetsSearchOverflow (words : List Word) : RequestState → Prop
  | .allocating count alignment rest =>
      Program.ReadsExcluded (SearchOverflows pool count alignment) words rest
  | _ => False

/-- The condition on a step: the thread does not come to an overflow of the test for a fit. -/
def MeetsNoSearchOverflow (σ : RequestsState ι) : RequestAction ι → Prop
  | .call _ _ => True
  | .step t => ¬ (σ.thread t).MeetsSearchOverflow pool σ.words

/-- A call is stopped by an undefined shift, or nothing of the kind can stop it but an overflow. -/
def RequestState.Inv : RequestState → Prop
  | .idle => True
  | .allocating count alignment rest =>
      (count < 4294967296 ∧ alignment < 4294967296) ∧
        (rest = .fault .undefinedShift ∨
          rest.Avoids ShiftOrLoop (SearchOverflows pool count alignment) fun _ => True)
  | .deallocating rest => rest.Avoids ShiftOrLoop (fun _ _ => False) fun _ => True
  | .measuring rest => rest.Avoids ShiftOrLoop (fun _ _ => False) fun _ => True

variable {pool}

theorem not_shiftOrLoop_outOfBounds : ¬ ShiftOrLoop .outOfBounds := by
  rintro (h | h) <;> cases h

/-- A step inside a call that no read is excluded for. -/
theorem avoids_step {α : Type} (words : List Word) {p : Program Word α}
    (h : p.Avoids ShiftOrLoop (fun _ _ => False) fun _ => True) :
    (p.step words).1.Avoids ShiftOrLoop (fun _ _ => False) fun _ => True := by
  refine h.step not_shiftOrLoop_outOfBounds ?_
  rintro ⟨i, next, v, -, -, hfalse⟩
  exact hfalse

/-- A step of the search makes an undefined shift exactly at an overflow. -/
theorem search_step {count alignment : Nat} (hlt32 : count < 4294967296) (words : List Word)
    {p : Program Word (Nat × Bool)}
    (h : p = .fault .undefinedShift ∨
      p.Avoids ShiftOrLoop (SearchOverflows pool count alignment) fun _ => True) :
    ((p.step words).1 = .fault .undefinedShift ∨
      (p.step words).1.Avoids ShiftOrLoop (SearchOverflows pool count alignment) fun _ => True) ∧
    ((p.step words).1 = .fault .undefinedShift ↔ p = .fault .undefinedShift ∨
      Program.ReadsExcluded (SearchOverflows pool count alignment) words p) := by
  rcases h with rfl | havoids
  · exact ⟨Or.inl rfl, iff_of_true rfl (Or.inl rfl)⟩
  · by_cases hread : Program.ReadsExcluded (SearchOverflows pool count alignment) words p
    · have hfault := step_of_searchOverflows hlt32 hread
      exact ⟨Or.inl hfault, iff_of_true hfault (Or.inr hread)⟩
    · have hnext := havoids.step not_shiftOrLoop_outOfBounds hread
      refine ⟨Or.inr hnext, iff_of_false (hnext.ne_fault (Or.inl rfl)) ?_⟩
      rintro (hfault | hread')
      · exact havoids.ne_fault (Or.inl rfl) hfault
      · exact hread hread'

theorem Request.begin_inv (hfits : pool.size ≤ 4294967232) {request : Request}
    {state : RequestState} (h : request.begin pool = some state) :
    state.Inv pool ∧ ¬ state.StoppedBy .undefinedShift := by
  cases request with
  | allocate count alignment =>
      rw [Request.begin] at h
      split at h
      · next hargs =>
          cases h
          have hattempt := avoids_allocateInternal 0 count hfits hargs.2
          exact ⟨⟨hargs, Or.inr hattempt⟩, hattempt.ne_fault (Or.inl rfl)⟩
      · cases h
  | deallocate start =>
      cases h
      have hrelease := avoids_deallocate start hfits
      exact ⟨hrelease, hrelease.ne_fault (Or.inl rfl)⟩
  | getBlockSize start =>
      cases h
      have hmeasure := avoids_getBlockSize start hfits
      exact ⟨hmeasure.mono fun _ _ => trivial, hmeasure.ne_fault (Or.inl rfl)⟩

/-- What a step of a call keeps that no read is excluded for. -/
theorem RequestState.spec_of_avoids {α : Type} (call : Program Word α → RequestState)
    {words : List Word} {p : Program Word α} {r : RequestState × List Word}
    (hinv : ∀ p, (call p).Inv pool ↔ p.Avoids ShiftOrLoop (fun _ _ => False) fun _ => True)
    (hstopped : ∀ p, (call p).StoppedBy .undefinedShift ↔ p = .fault .undefinedShift)
    (hmeets : ∀ p, ¬ (call p).MeetsSearchOverflow pool words) (hI : (call p).Inv pool)
    (hr : r = (call (p.step words).1, (p.step words).2) ∨ r = (.idle, words)) :
    r.1.Inv pool ∧ (r.1.StoppedBy .undefinedShift ↔
      (call p).StoppedBy .undefinedShift ∨ (call p).MeetsSearchOverflow pool words) := by
  have havoids := (hinv p).mp hI
  have hnot : ¬ ((call p).StoppedBy .undefinedShift ∨ (call p).MeetsSearchOverflow pool words) := by
    rintro (hfault | hmeet)
    · exact havoids.ne_fault (Or.inl rfl) ((hstopped p).mp hfault)
    · exact hmeets p hmeet
  rcases hr with rfl | rfl
  · have hnext := avoids_step words havoids
    refine ⟨(hinv _).mpr hnext, iff_of_false ?_ hnot⟩
    exact fun hfault => hnext.ne_fault (Or.inl rfl) ((hstopped _).mp hfault)
  · exact ⟨trivial, iff_of_false not_false hnot⟩

/-- What a step of a thread keeps, and when it makes an undefined shift. -/
theorem RequestState.step_spec (hfits : pool.size ≤ 4294967232) {words : List Word}
    {state : RequestState} {r : RequestState × List Word} (hI : state.Inv pool)
    (h : state.step pool words = some r) :
    r.1.Inv pool ∧ (r.1.StoppedBy .undefinedShift ↔
      state.StoppedBy .undefinedShift ∨ state.MeetsSearchOverflow pool words) := by
  cases state with
  | idle => cases h
  | allocating count alignment rest =>
      obtain ⟨hargs, hrest⟩ := hI
      cases hresult : rest.result? with
      | none =>
          simp only [RequestState.step, hresult, Option.some.injEq] at h
          subst h
          obtain ⟨hinv, hiff⟩ := search_step hargs.1 words hrest
          exact ⟨⟨hargs, hinv⟩, hiff⟩
      | some result =>
          have hdone := Program.result?_eq_some.mp hresult
          subst hdone
          have hnot : ¬ (RequestState.StoppedBy .undefinedShift
                (.allocating count alignment (.done result)) ∨
              RequestState.MeetsSearchOverflow pool words
                (.allocating count alignment (.done result))) := by
            rintro (hfault | ⟨i, next, v, hload, -⟩)
            · cases hfault
            · cases hload
          obtain ⟨position, decisive⟩ := result
          cases decisive with
          | true =>
              cases h
              exact ⟨trivial, iff_of_false not_false hnot⟩
          | false =>
              cases h
              have hretry := avoids_allocateInternal position count hfits hargs.2
              exact ⟨⟨hargs, Or.inr hretry⟩,
                iff_of_false (hretry.ne_fault (Or.inl rfl)) hnot⟩
  | deallocating rest =>
      refine RequestState.spec_of_avoids .deallocating (fun _ => Iff.rfl) (fun _ => Iff.rfl)
        (fun _ => not_false) hI ?_
      cases hresult : rest.result? with
      | none =>
          simp only [RequestState.step, hresult, Option.some.injEq] at h
          exact Or.inl h.symm
      | some result =>
          simp only [RequestState.step, hresult, Option.some.injEq] at h
          exact Or.inr h.symm
  | measuring rest =>
      refine RequestState.spec_of_avoids .measuring (fun _ => Iff.rfl) (fun _ => Iff.rfl)
        (fun _ => not_false) hI ?_
      cases hresult : rest.result? with
      | none =>
          simp only [RequestState.step, hresult, Option.some.injEq] at h
          exact Or.inl h.symm
      | some result =>
          simp only [RequestState.step, hresult, Option.some.injEq] at h
          exact Or.inr h.symm

/-- The pool is one that the constructor builds, and no thread can come to an undefined shift
but at an overflow of its search. -/
structure RequestsInv (pool : PoolParameters) (σ : RequestsState ι) : Prop where
  fits : pool.size ≤ 4294967232
  threads : ∀ t, (σ.thread t).Inv pool

/-- Some call is stopped by an undefined shift. -/
def ShiftedBeyond (σ : RequestsState ι) : Prop := ∃ t, (σ.thread t).StoppedBy .undefinedShift

theorem RequestsInv.initial {σ : RequestsState ι} (h : (requestsOf ι pool).Initial σ) :
    RequestsInv pool σ := by
  obtain ⟨hwords, hidle⟩ := h
  refine ⟨construct_eq_ok_iff.mp ⟨_, hwords⟩, fun t => ?_⟩
  rw [hidle t]
  trivial

/-- What a thread changes of its own state is what the action changes. -/
theorem exists_update_iff {P : RequestState → Prop} {thread : ι → RequestState} {t : ι}
    {state : RequestState} {c : Prop} (h : P state ↔ P (thread t) ∨ c) :
    (∃ t', P (Function.update thread t state t')) ↔ (∃ t', P (thread t')) ∨ c := by
  constructor
  · rintro ⟨t', ht'⟩
    by_cases hsame : t' = t
    · subst hsame
      rw [Function.update_self] at ht'
      exact (h.mp ht').imp_left fun hP => ⟨t', hP⟩
    · rw [Function.update_of_ne hsame] at ht'
      exact Or.inl ⟨t', ht'⟩
  · rintro (⟨t', ht'⟩ | hc)
    · by_cases hsame : t' = t
      · subst hsame
        exact ⟨t', by rw [Function.update_self]; exact h.mpr (Or.inl ht')⟩
      · exact ⟨t', by rwa [Function.update_of_ne hsame]⟩
    · exact ⟨t, by rw [Function.update_self]; exact h.mpr (Or.inr hc)⟩

theorem forall_update {P : RequestState → Prop} {thread : ι → RequestState} {t : ι}
    {state : RequestState} (h : ∀ t', P (thread t')) (hstate : P state) (t' : ι) :
    P (Function.update thread t state t') := by
  by_cases hsame : t' = t
  · subst hsame
    rwa [Function.update_self]
  · rw [Function.update_of_ne hsame]
    exact h t'

/-- What an action keeps, and when it makes an undefined shift. -/
theorem RequestsInv.next {σ σ' : RequestsState ι} {a : RequestAction ι} (h : RequestsInv pool σ)
    (hs : (requestsOf ι pool).next σ a = some σ') :
    RequestsInv pool σ' ∧
      (ShiftedBeyond σ' ↔ ShiftedBeyond σ ∨ ¬ MeetsNoSearchOverflow pool σ a) := by
  cases a with
  | call t request =>
      change RequestsState.next pool σ (.call t request) = some σ' at hs
      cases hstate : σ.thread t with
      | idle =>
          simp only [RequestsState.next, hstate] at hs
          obtain ⟨state, hbegin, rfl⟩ := Option.map_eq_some_iff.mp hs
          obtain ⟨hinv, hnot⟩ := Request.begin_inv h.fits hbegin
          refine ⟨⟨h.fits, forall_update h.threads hinv⟩, ?_⟩
          refine exists_update_iff (P := RequestState.StoppedBy .undefinedShift) ?_
          rw [hstate]
          refine iff_of_false hnot ?_
          rintro (hidle | hmeets)
          · exact hidle
          · exact hmeets trivial
      | allocating count alignment rest => simp [RequestsState.next, hstate] at hs
      | deallocating rest => simp [RequestsState.next, hstate] at hs
      | measuring rest => simp [RequestsState.next, hstate] at hs
  | step t =>
      obtain ⟨r, hr, rfl⟩ := Option.map_eq_some_iff.mp hs
      obtain ⟨hinv, hiff⟩ := RequestState.step_spec h.fits (h.threads t) hr
      refine ⟨⟨h.fits, forall_update h.threads hinv⟩, ?_⟩
      refine exists_update_iff (P := RequestState.StoppedBy .undefinedShift) ?_
      rw [MeetsNoSearchOverflow, not_not]
      exact hiff

theorem RequestsInv.of_reachable {σ : RequestsState ι} (h : (requestsOf ι pool).Reachable σ) :
    RequestsInv pool σ :=
  h.invariant (fun _ => RequestsInv.initial) fun _ _ _ hI hs => (hI.next hs).1

/-- No loop of a call exceeds the bound that the model gives to it. -/
theorem not_stoppedBy_diverged {σ : RequestsState ι} (h : (requestsOf ι pool).Reachable σ) (t : ι) :
    ¬ (σ.thread t).StoppedBy .diverged := by
  have hI := (RequestsInv.of_reachable h).threads t
  intro hstopped
  cases hstate : σ.thread t with
  | idle =>
      rw [hstate] at hstopped
      exact hstopped
  | allocating count alignment rest =>
      rw [hstate] at hI hstopped
      rcases hI.2 with hfault | havoids
      · cases hfault.symm.trans hstopped
      · exact havoids.ne_fault (Or.inr rfl) hstopped
  | deallocating rest =>
      rw [hstate] at hI hstopped
      exact Program.Avoids.ne_fault hI (Or.inr rfl) hstopped
  | measuring rest =>
      rw [hstate] at hI hstopped
      exact Program.Avoids.ne_fault hI (Or.inr rfl) hstopped

/-- In a run of any calls a shift is undefined exactly where a search meets an overflow. -/
theorem shiftedBeyond_iff {σ₀ σ : RequestsState ι} {actions : List (RequestAction ι)}
    (hinitial : (requestsOf ι pool).Initial σ₀)
    (hrun : (requestsOf ι pool).run σ₀ actions = some σ) :
    ShiftedBeyond σ ↔ ¬ (requestsOf ι pool).StepsMeet (MeetsNoSearchOverflow pool) σ₀ actions := by
  have hnext : ∀ s a s', RequestsInv pool s → (requestsOf ι pool).next s a = some s' →
      RequestsInv pool s' := fun _ _ _ hI hs => (hI.next hs).1
  have hmark : ∀ s a s', RequestsInv pool s → (requestsOf ι pool).next s a = some s' →
      (ShiftedBeyond s' ↔ ShiftedBeyond s ∨ ¬ MeetsNoSearchOverflow pool s a) :=
    fun _ _ _ hI hs => (hI.next hs).2
  rw [System.mark_iff_not_stepsMeet hnext hmark (RequestsInv.initial hinitial) actions hrun]
  refine or_iff_right ?_
  rintro ⟨t, ht⟩
  rw [hinitial.2 t] at ht
  exact ht

variable (ι pool) in
/-- Every shift of a word in the bitmap code is defined: in the searches for any data, count and
admissible alignment, and in the calls of the pool in every reachable state. -/
structure ShiftsDefined : Prop where
  search : ∀ data n, findConsecutiveZeros data n ≠ .error .undefinedShift
  alignedSearch : ∀ data n alignment, alignment ≤ 1 ∨ IsPowerOfTwo alignment →
    findConsecutiveZerosAligned data n alignment ≠ .error .undefinedShift
  requests : ∀ σ, (requestsOf ι pool).Reachable σ → ¬ ShiftedBeyond σ

variable (ι pool) in
/-- The unaligned searches of a full word and the overflows of the test for a fit make the
undefined shifts of the bitmap code, and nothing else does. -/
theorem shiftsDefined_iff :
    (∀ data n, findConsecutiveZeros data n ≠ .error .undefinedShift ↔
      n = 0 ∨ data ≠ uint64Max) ∧
    (∀ data n alignment, alignment < 4294967296 →
      (findConsecutiveZerosAligned data n alignment ≠ .error .undefinedShift ↔
        n = 0 ∨ 1 < alignment ∨ data ≠ uint64Max)) ∧
    ∀ σ₀ σ actions, (requestsOf ι pool).Initial σ₀ →
      (requestsOf ι pool).run σ₀ actions = some σ →
      (¬ ShiftedBeyond σ ↔
        (requestsOf ι pool).StepsMeet (MeetsNoSearchOverflow pool) σ₀ actions) := by
  refine ⟨fun data n => findConsecutiveZeros_defined_iff, fun data n alignment hlt =>
    findConsecutiveZerosAligned_defined_iff hlt, fun σ₀ σ actions hinitial hrun => ?_⟩
  rw [shiftedBeyond_iff hinitial hrun, not_not]

/-- A thread of a new pool begins the allocation of one slot. -/
theorem shiftsDefined_iff_new :
    (findConsecutiveZerosAligned uint64Max 1 2 ≠ .error .undefinedShift ↔
      1 = 0 ∨ 1 < 2 ∨ uint64Max ≠ uint64Max) ∧
    (¬ ShiftedBeyond (ι := Unit) ⟨[{}], Function.update (fun _ => .idle) ()
        (.allocating 1 1 (allocateInternal onePool 0 1 1))⟩ ↔
      (requestsOf Unit onePool).StepsMeet (MeetsNoSearchOverflow onePool) ⟨[{}], fun _ => .idle⟩
        [.call () (.allocate 1 1)]) :=
  ⟨(shiftsDefined_iff Unit onePool).2.1 uint64Max 1 2 (by decide),
    (shiftsDefined_iff Unit onePool).2.2 _ _ _ ⟨rfl, fun _ => rfl⟩ rfl⟩

/-- The search for one slot in a full word begins with a shift by 64. -/
theorem not_shiftsDefined :
    findConsecutiveZeros uint64Max 1 = .error .undefinedShift ∧ ¬ ShiftsDefined Unit onePool := by
  have hfull : findConsecutiveZeros uint64Max 1 = .error .undefinedShift :=
    findConsecutiveZeros_full Nat.one_pos
  exact ⟨hfull, fun h => h.search uint64Max 1 hfull⟩

end Requests

end RPiKernel.Containers
