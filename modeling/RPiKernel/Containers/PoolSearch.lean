import RPiKernel.Containers.PoolAllocation

/-!
# The search of an undisturbed allocation

Without interference one attempt is decisive. It finds the lowest aligned
position from which enough slots are free, or there is no such position.
-/

namespace RPiKernel.Containers

open Interleaving Machine Intervals

variable {pool : PoolParameters} {words : List Word}

/-- The `count` slots from `r` on are slots of the words and not taken. -/
def FreeRun (words : List Word) (count r : Nat) : Prop :=
  ∀ i, r ≤ i → i < r + count → i < 64 * words.length ∧ slotBit words i = false

theorem not_freeRun_of_slot {count r i : Nat} (hr : r ≤ i) (hi : i < r + count)
    (hslot : slotBit words i = true) : ¬ FreeRun words count r := by
  intro h
  rw [(h i hr hi).2] at hslot
  cases hslot

/-- No start is set for a slot that is not taken. -/
def StartsTaken (words : List Word) : Prop :=
  ∀ i, slotBit words i = false → startBit words i = false

theorem eq_empty_of_bitmap {k : Nat} {v : Word} (h : StartsTaken words)
    (hv : words[k]? = some v) (hzero : v.bitmap = 0) : v = {} := by
  have hstarts : v.starts = 0 := by
    apply BitVec.eq_of_getLsbD_eq
    intro j hj
    rw [← startBit_of_getElem? hv hj, BitVec.ofNat_eq_ofNat, BitVec.getLsbD_zero]
    apply h
    rw [slotBit_of_getElem? hv hj, hzero, BitVec.ofNat_eq_ofNat, BitVec.getLsbD_zero]
  cases v
  simp_all

/-- A word without taken slots is empty. -/
theorem getElem?_eq_empty {k : Nat} (h : StartsTaken words) (hk : k < words.length)
    (hfree : ∀ i, 64 * k ≤ i → i < 64 * (k + 1) → slotBit words i = false) :
    words[k]? = some {} := by
  have hv := List.getElem?_eq_getElem hk
  rw [hv, Option.some.injEq]
  apply eq_empty_of_bitmap h hv
  apply BitVec.eq_of_getLsbD_eq
  intro j hj
  rw [← slotBit_of_getElem? hv hj, hfree _ (by omega) (by omega), BitVec.ofNat_eq_ofNat,
    BitVec.getLsbD_zero]

/-- Where the low slots of a word are not taken, they are no starts either. -/
theorem low_bits_of_free {k n : Nat} (h : StartsTaken words) (hk : k < words.length) (hn : n ≤ 64)
    (hfree : ∀ i, 64 * k ≤ i → i < 64 * k + n → slotBit words i = false) :
    ∃ v, words[k]? = some v ∧ (∀ j, j < n → v.bitmap.getLsbD j = false) ∧
      ∀ j, j < n → v.starts.getLsbD j = false := by
  have hv := List.getElem?_eq_getElem hk
  refine ⟨words[k], hv, fun j hj => ?_, fun j hj => ?_⟩
  · rw [← slotBit_of_getElem? hv (by omega)]
    exact hfree _ (by omega) (by omega)
  · rw [← startBit_of_getElem? hv (by omega)]
    exact h _ (hfree _ (by omega) (by omega))

/-- What the scan after the first word has found about the `needed` slots from
word `k` on, as far as whole words are concerned. -/
def ProbedAt (words : List Word) (k needed : Nat) : Probe → Prop
  | .exhausted => 64 * words.length < 64 * k + needed
  | .blocked k' => k ≤ k' ∧ k' < words.length ∧
      ∃ i, 64 * k' ≤ i ∧ i < 64 * k + needed ∧ slotBit words i = true
  | .free k' rest => k ≤ k' ∧ k' ≤ words.length ∧ rest < 64 ∧ 64 * (k' - k) + rest = needed ∧
      ∀ i, 64 * k ≤ i → i < 64 * k' → slotBit words i = false

/-- The word that the scan has reached; all the words before it are free. -/
def Probe.reached (words : List Word) : Probe → Nat
  | .exhausted => words.length
  | .blocked k => k
  | .free k _ => k

theorem ProbedAt.of_succ {k needed : Nat} {r : Probe} (hneeded : needed ≥ 64)
    (hfree : ∀ i, 64 * k ≤ i → i < 64 * (k + 1) → slotBit words i = false)
    (h : ProbedAt words (k + 1) (needed - 64) r) : ProbedAt words k needed r := by
  cases r with
  | exhausted =>
      simp only [ProbedAt] at h ⊢
      omega
  | blocked k' =>
      obtain ⟨hk, hlt, i, hi, hi', hslot⟩ := h
      exact ⟨by omega, hlt, i, hi, by omega, hslot⟩
  | free k' rest =>
      obtain ⟨hk, hle, hrest, hneeded', hall⟩ := h
      refine ⟨by omega, hle, hrest, by omega, fun i hi hi' => ?_⟩
      by_cases hik : i < 64 * (k + 1)
      · exact hfree i hi hik
      · exact hall i (by omega) hi'

/-- A word is zero exactly when none of its slots is taken. -/
theorem exists_slot_of_bitmap {k : Nat} {v : Word} {n : Nat} (hv : words[k]? = some v)
    (h : ¬ ∀ j, j < n → v.bitmap.getLsbD j = false) :
    ∃ i, 64 * k ≤ i ∧ i < 64 * k + n ∧ slotBit words i = true := by
  simp only [not_forall, Bool.not_eq_false] at h
  obtain ⟨j, hj, hbit⟩ := h
  refine ⟨64 * k + j, by omega, by omega, ?_⟩
  rw [slotBit_of_getElem? hv (lt_of_getLsbD hbit), hbit]

theorem slot_of_bitmap {k : Nat} {v : Word} {n : Nat} (hv : words[k]? = some v) (hn : n ≤ 64)
    (h : ∀ j, j < n → v.bitmap.getLsbD j = false) (i : Nat) (hi : 64 * k ≤ i)
    (hi' : i < 64 * k + n) : slotBit words i = false := by
  have hbit := slotBit_of_getElem? hv (j := i - 64 * k) (by omega)
  rw [show 64 * k + (i - 64 * k) = i by omega] at hbit
  rw [hbit, h _ (by omega)]

theorem bitmap_eq_zero_iff {x : BitVec 64} : x = 0 ↔ ∀ j, j < 64 → x.getLsbD j = false := by
  constructor
  · rintro rfl j -
    rw [BitVec.ofNat_eq_ofNat, BitVec.getLsbD_zero]
  · intro h
    apply BitVec.eq_of_getLsbD_eq
    intro j hj
    rw [h j hj, BitVec.ofNat_eq_ofNat, BitVec.getLsbD_zero]

/-- The test of the low slots of a word by a shift. -/
theorem shiftLeft_eq_zero_iff {x : BitVec 64} {n : Nat} (hn : n ≤ 64) :
    x <<< (64 - n) = 0 ↔ ∀ j, j < n → x.getLsbD j = false := by
  rw [bitmap_eq_zero_iff]
  constructor
  · intro h j hj
    have hbit := h (64 - n + j) (by omega)
    rw [BitVec.getLsbD_shiftLeft, show 64 - n + j - (64 - n) = j by omega] at hbit
    have h₁ : 64 - n + j < 64 := by omega
    have h₂ : ¬ 64 - n + j < 64 - n := by omega
    simpa only [h₁, h₂, decide_true, decide_false, Bool.not_false, Bool.true_and] using hbit
  · intro h j hj
    rw [BitVec.getLsbD_shiftLeft]
    by_cases hj' : j < 64 - n
    · simp only [hj', decide_true, Bool.not_true, Bool.and_false, Bool.false_and]
    · rw [h (j - (64 - n)) (by omega), Bool.and_false]

section Probing

variable (hlen : words.length = pool.wordCount)
include hlen

theorem run_skipFreeWords (fuel : Nat) {k : Nat} (needed : Nat) (hk : k ≤ words.length)
    (hfuel : words.length < k + fuel) :
    ∃ r, (skipFreeWords pool fuel k needed).run words = (.ok r, words) ∧
      ProbedAt words k needed r ∧
      ∀ i, 64 * k ≤ i → i < 64 * r.reached words → slotBit words i = false := by
  induction fuel generalizing k needed with
  | zero => omega
  | succ fuel ih =>
      by_cases hneeded : needed ≥ 64
      · by_cases hend : k ≥ pool.wordCount
        · refine ⟨.exhausted, by simp only [skipFreeWords, hneeded, hend, if_true]; rfl, ?_,
            fun i hi hi' => ?_⟩
          · simp only [ProbedAt]
            omega
          · simp only [Probe.reached] at hi'
            omega
        · have hlt : k < words.length := by omega
          have hv := List.getElem?_eq_getElem hlt
          simp only [skipFreeWords, hneeded, hend, if_true, if_false, Program.bind_def,
            Program.bind_read, Program.run_load hv]
          by_cases hzero : words[k].bitmap = 0
          · obtain ⟨r, hrun, hr, hreached⟩ := ih (k := k + 1) (needed - 64) (by omega) (by omega)
            have hword : ∀ i, 64 * k ≤ i → i < 64 * (k + 1) → slotBit words i = false :=
              slot_of_bitmap hv le_rfl (bitmap_eq_zero_iff.mp hzero)
            rw [if_neg (not_not_intro hzero)]
            refine ⟨r, hrun, hr.of_succ hneeded hword, fun i hi hi' => ?_⟩
            by_cases hik : i < 64 * (k + 1)
            · exact hword i hi hik
            · exact hreached i (by omega) hi'
          · rw [if_pos hzero]
            obtain ⟨i, hi, hi', hslot⟩ :=
              exists_slot_of_bitmap hv (fun h => hzero (bitmap_eq_zero_iff.mpr h))
            refine ⟨.blocked k, rfl, ⟨le_rfl, hlt, i, hi, by omega, hslot⟩, fun j hj hj' => ?_⟩
            simp only [Probe.reached] at hj'
            omega
      · refine ⟨.free k needed, by simp only [skipFreeWords, hneeded, if_false]; rfl,
          ⟨le_rfl, hk, by omega, by omega, fun i hi hi' => by omega⟩, fun i hi hi' => ?_⟩
        simp only [Probe.reached] at hi'
        omega

theorem run_probeWords {k : Nat} (needed : Nat) (hk : 0 < k) (hle : k ≤ words.length) :
    ∃ r, (probeWords pool k needed).run words = (.ok r, words) ∧ ProbedAt words k needed r ∧
      (∀ i, 64 * k ≤ i → i < 64 * r.reached words → slotBit words i = false) ∧
      ∀ k' rest, r = .free k' rest → (0 < rest → k' < words.length) ∧
        ∀ i, 64 * k' ≤ i → i < 64 * k' + rest → slotBit words i = false := by
  obtain ⟨r, hrun, hr, hreached⟩ := run_skipFreeWords hlen pool.wordCount needed hle (by omega)
  simp only [probeWords, Program.bind_def, Program.run_bind_ok hrun]
  cases r with
  | exhausted => exact ⟨.exhausted, rfl, hr, hreached, by simp⟩
  | blocked k' => exact ⟨.blocked k', rfl, hr, hreached, by simp⟩
  | free k' rest =>
      obtain ⟨hk', hle', hrest64, hneeded, hfree⟩ := hr
      by_cases hrest : rest > 0
      · by_cases hend : k' ≥ pool.wordCount
        · refine ⟨.exhausted, by simp only [hrest, hend, if_true]; rfl, ?_, fun i hi hi' => ?_,
            by simp⟩
          · simp only [ProbedAt]
            omega
          · simp only [Probe.reached] at hi'
            exact hfree i hi (by omega)
        · have hlt : k' < words.length := by omega
          have hv := List.getElem?_eq_getElem hlt
          have hshift : 64 - rest < 64 := by omega
          simp only [hrest, hend, if_true, if_false, Program.bind_read, Program.run_load hv,
            shl_of_lt hshift, Program.bind_ofExcept_ok]
          by_cases hzero : words[k'].bitmap <<< (64 - rest) = 0
          · rw [if_neg (not_not_intro hzero)]
            refine ⟨.free k' rest, rfl, ⟨hk', hle', hrest64, hneeded, hfree⟩, hreached, ?_⟩
            rintro k'' rest' h
            cases h
            exact ⟨fun _ => hlt, slot_of_bitmap hv hrest64.le
              ((shiftLeft_eq_zero_iff hrest64.le).mp hzero)⟩
          · rw [if_pos hzero]
            obtain ⟨i, hi, hi', hslot⟩ := exists_slot_of_bitmap hv
              (fun h => hzero ((shiftLeft_eq_zero_iff hrest64.le).mpr h))
            exact ⟨.blocked k', rfl, ⟨hk', hlt, i, hi, by omega, hslot⟩, hreached, by simp⟩
      · refine ⟨.free k' rest, by simp only [hrest, if_false]; rfl,
          ⟨hk', hle', hrest64, hneeded, hfree⟩, hreached, ?_⟩
        rintro k'' rest' h
        cases h
        exact ⟨fun h => by omega, fun i hi hi' => by omega⟩

end Probing

section Committing

/-- Empty words are committed one after another, up to `last`. -/
theorem run_commitWords {last : Nat} (fuel : Nat) {k : Nat} (mem : List Word) (hk : k ≤ last)
    (hfuel : last ≤ k + fuel) (hempty : ∀ m, k ≤ m → m < last → mem[m]? = some {}) :
    ∃ mem', (commitWords last fuel k).run mem = (.ok (last, false), mem') ∧
      mem'[last]? = mem[last]? ∧ Grown mem mem' false (64 * k) (64 * last) := by
  induction fuel generalizing k mem with
  | zero =>
      have heq : k = last := by omega
      subst heq
      exact ⟨mem, by simp only [commitWords, lt_irrefl, if_false]; rfl, rfl, Grown.refl mem _⟩
  | succ fuel ih =>
      by_cases hlt : k < last
      · have hne : last ≠ k := by omega
        have hset : Grown mem (mem.set k { bitmap := uint64Max }) false (64 * k + 0) (64 * k + 64) :=
          Grown.set false (hempty k le_rfl hlt) (by decide) le_rfl
            (fun j hj => by simp [hj]) (fun j hj => by simp)
        simp only [commitWords, hlt, if_true,
          Program.run_compareExchange_same (hempty k le_rfl hlt)]
        obtain ⟨mem', hrun, hlast, hgrown⟩ := ih (k := k + 1)
          (mem.set k { bitmap := uint64Max }) hlt (by omega) fun m hm hm' => by
            rw [List.getElem?_set_ne (by omega)]
            exact hempty m (by omega) hm'
        exact ⟨mem', hrun, by rw [hlast, List.getElem?_set_ne hne.symm],
          hset.trans (by omega) (by omega) hgrown⟩
      · have heq : k = last := by omega
        subst heq
        exact ⟨mem, by simp only [commitWords, lt_irrefl, if_false]; rfl, rfl, Grown.refl mem _⟩

/-- Clearing bits that are clear changes nothing. -/
theorem and_not_low_eq_self {x : BitVec 64} {n : Nat} (hn : n ≤ 64)
    (h : ∀ j, j < n → x.getLsbD j = false) : x &&& ~~~(uint64Max >>> (64 - n)) = x := by
  apply BitVec.eq_of_getLsbD_eq
  intro j hj
  rw [BitVec.getLsbD_and, BitVec.getLsbD_not, getLsbD_low hn]
  by_cases hj' : j < n
  · rw [h j hj', Bool.false_and]
  · simp only [hj, hj', decide_true, decide_false, Bool.not_false, Bool.and_true]

/-- A commit of words that are still as the search has read them succeeds. -/
theorem run_commit {k bitIndex last rest : Nat} {currentWord : Word}
    (hfits : pool.size ≤ 4294967232) (hlen : words.length = pool.wordCount) (hbit : bitIndex < 64)
    (hv : words[k]? = some currentWord) (hk : k + 1 ≤ last) (hlast : last ≤ words.length)
    (hrest : rest < 64) (hempty : ∀ m, k + 1 ≤ m → m < last → words[m]? = some {})
    (hfinal : 0 < rest → ∃ v, words[last]? = some v ∧
      (∀ j, j < rest → v.bitmap.getLsbD j = false) ∧ ∀ j, j < rest → v.starts.getLsbD j = false) :
    ∃ words', (commit pool k bitIndex last rest currentWord).run words =
        (.ok (64 * k + bitIndex, true), words') ∧
      Grown words words' true (64 * k + bitIndex) (64 * last + rest) := by
  have hwords := PoolParameters.wordCount_le hfits
  have hresult : add32 bitIndex (mul32 k 64) = 64 * k + bitIndex := by
    rw [mul32_of_lt (by omega), add32_of_lt (by omega)]
    omega
  obtain ⟨newWord, hnew, hnewBitmap, hnewStarts⟩ := takeRest_spec currentWord hbit
  have hfirst : Grown words (words.set k newWord) true (64 * k + bitIndex) (64 * k + 64) := by
    apply Grown.set true hv hbit le_rfl
    · intro j hj
      simp only [hnewBitmap j hj, hj, and_true]
    · intro j hj
      simp only [hnewStarts j hj, Bool.true_and]
  obtain ⟨mem, hrun, hmem, hwhole⟩ := run_commitWords pool.wordCount (words.set k newWord) hk
    (by omega) fun m hm hm' => by
      rw [List.getElem?_set_ne (by omega)]
      exact hempty m hm hm'
  have hcommitted := hfirst.trans (by omega) (by omega) hwhole
  simp only [commit, hresult, Program.bind_def, hnew, Program.bind_ofExcept_ok,
    Program.run_compareExchange_same hv, Bool.not_true, Bool.false_eq_true, if_false,
    Program.run_bind_ok hrun, Bool.not_false, Bool.true_and, decide_eq_true_eq]
  by_cases hzero : rest = 0
  · rw [if_pos hzero, hzero, Nat.add_zero]
    exact ⟨mem, rfl, hcommitted⟩
  · obtain ⟨v, hv', hbitmap, hstarts⟩ := hfinal (by omega)
    have hread : mem[last]? = some v := by
      rw [hmem, List.getElem?_set_ne (by omega), hv']
    have hshift : 64 - rest < 64 := by omega
    rw [if_neg hzero]
    simp only [Program.bind_read, Program.run_load hread, shr_of_lt hshift,
      Program.bind_ofExcept_ok, and_not_low_eq_self hrest.le hbitmap,
      and_not_low_eq_self hrest.le hstarts, Program.run_compareExchange_same hread, if_true]
    refine ⟨_, rfl, hcommitted.trans (by omega) (Nat.le_add_right _ _) ?_⟩
    apply Grown.set (p := 0) false hread (by decide) hrest.le
    · intro j hj
      rw [BitVec.getLsbD_or, getLsbD_low hrest.le]
      simp only [Nat.zero_le, true_and]
    · intro j hj
      simp only [Bool.false_and, Bool.or_false]

end Committing

section Search

/-- The zeros of a word are slots that are not taken. -/
theorem slot_of_zerosAt {k p n : Nat} {v : Word} (hv : words[k]? = some v)
    (h : ZerosAt v.bitmap n p) (i : Nat) (hi : 64 * k + p ≤ i) (hi' : i < 64 * k + p + n)
    (hi64 : i < 64 * (k + 1)) : slotBit words i = false := by
  have hbit := slotBit_of_getElem? hv (j := i - 64 * k) (by omega)
  rw [show 64 * k + (i - 64 * k) = i by omega] at hbit
  rw [hbit, h _ (by omega) (by omega)]

/-- No aligned position below `x` starts a free run. -/
def NoFitBelow (words : List Word) (count alignment x : Nat) : Prop :=
  ∀ r, r < x → r % alignment = 0 → ¬ FreeRun words count r

/-- The lowest aligned position that starts a free run. -/
def FirstFit (words : List Word) (count alignment r : Nat) : Prop :=
  r % alignment = 0 ∧ FreeRun words count r ∧ NoFitBelow words count alignment r

/-- No aligned position starts a free run. -/
def NoFit (words : List Word) (count alignment : Nat) : Prop :=
  ∀ r, r % alignment = 0 → ¬ FreeRun words count r

/-- What the first run inside word `k` says about the positions up to it. -/
theorem NoFitBelow.extend {count alignment k p : Nat} {v : Word} (ha : IsPowerOfTwo alignment)
    (hv : words[k]? = some v) (hp : p ≤ 64) (hbelow : NoFitBelow words count alignment (64 * k))
    (hleast : ∀ q, q < p → q % alignment = 0 → ¬ ZerosAt v.bitmap count q) :
    NoFitBelow words count alignment (64 * k + p) := by
  intro r hr halign hfree
  by_cases hrk : r < 64 * k
  · exact hbelow r hrk halign hfree
  · have hmod := mod_mod_alignment ha halign
    refine hleast (r - 64 * k) (by omega) (by rw [show r - 64 * k = r % 64 by omega, hmod]) ?_
    intro j hj hj'
    by_cases hj64 : j < 64
    · rw [← slotBit_of_getElem? hv hj64]
      exact (hfree (64 * k + j) (by omega) (by omega)).2
    · exact BitVec.getLsbD_of_ge _ _ (by omega)

/-- A run that was found blocked blocks all positions up to the blocking word. -/
theorem NoFitBelow.blocked {count alignment k p m : Nat}
    (hbelow : NoFitBelow words count alignment (64 * k + p))
    (hblock : ∃ i, 64 * m ≤ i ∧ i < 64 * k + p + count ∧ slotBit words i = true) :
    NoFitBelow words count alignment (64 * m) := by
  intro r hr halign
  obtain ⟨i, hi, hi', hslot⟩ := hblock
  by_cases hrp : r < 64 * k + p
  · exact hbelow r hrp halign
  · exact not_freeRun_of_slot (by omega) (by omega) hslot

/-- Beyond the end of the words nothing fits. -/
theorem NoFitBelow.noFit {count alignment x : Nat} (hcount : 0 < count)
    (hbelow : NoFitBelow words count alignment x) (hx : 64 * words.length < x + count) :
    NoFit words count alignment := by
  intro r halign hfree
  by_cases hr : r < x
  · exact hbelow r hr halign hfree
  · have hend := (hfree (r + count - 1) (by omega) (by omega)).1
    omega

/-- An aligned position from which the slots up to the end of its word are free is the first
one in its word, and the test for a fit within the word overflows there. -/
structure Overflows (words : List Word) (count alignment r : Nat) : Prop where
  aligned : r % alignment = 0
  free : FreeRun words (64 - r % 64) r
  first : ∀ q, q < r → q / 64 = r / 64 → q % alignment = 0 → ¬ FreeRun words (64 - q % 64) q
  wraps : 4294967296 ≤ r % 64 + count

/-- An aligned position from which the slots up to the end of the words are free. -/
structure OpenEnded (words : List Word) (alignment r : Nat) : Prop where
  lt : r < 64 * words.length
  aligned : r % alignment = 0
  free : FreeRun words (64 * words.length - r) r

/-- The search comes to an overflow: in no word before could it have run into the end. -/
def MeetsOverflow (words : List Word) (count alignment r : Nat) : Prop :=
  Overflows words count alignment r ∧ ∀ q, q < 64 * (r / 64) → ¬ OpenEnded words alignment q

/-- The search has passed the positions below `x`. -/
structure Passed (words : List Word) (count alignment x : Nat) : Prop where
  noFit : NoFitBelow words count alignment x
  noOverflow : ∀ r, r < x → ¬ Overflows words count alignment r
  notOpen : ∀ r, r < x → ¬ OpenEnded words alignment r

theorem Overflows.lt {count alignment r : Nat} (h : Overflows words count alignment r) :
    r < 64 * words.length :=
  (h.free r le_rfl (by omega)).1

theorem OpenEnded.wordEnd {alignment r : Nat} (h : OpenEnded words alignment r) :
    FreeRun words (64 - r % 64) r := by
  intro i hi hi'
  have hlt := h.lt
  exact h.free i hi (by omega)

/-- Slots that are free up to the end of a word are zeros of any length of its bitmap. -/
theorem zerosAt_of_freeRun {k r n : Nat} {v : Word} (hv : words[k]? = some v) (hr : r / 64 = k)
    (h : FreeRun words (64 - r % 64) r) : ZerosAt v.bitmap n (r % 64) := by
  intro j hj _
  by_cases hj64 : j < 64
  · rw [← slotBit_of_getElem? hv hj64]
    exact (h (64 * k + j) (by omega) (by omega)).2
  · exact BitVec.getLsbD_of_ge _ _ (by omega)

/-- In a word without a run, the search passes all positions. -/
theorem Passed.word {count alignment k : Nat} {v : Word} (ha : IsPowerOfTwo alignment)
    (hv : words[k]? = some v) (h : Passed words count alignment (64 * k))
    (hleast : ∀ q, q < 64 → q % alignment = 0 → ¬ ZerosAt v.bitmap count q) :
    Passed words count alignment (64 * (k + 1)) := by
  have hblocked : ∀ r, 64 * k ≤ r → r < 64 * (k + 1) → r % alignment = 0 →
      ¬ FreeRun words (64 - r % 64) r := fun r hr hr' halign hfree =>
    hleast (r % 64) (Nat.mod_lt r (by decide)) (mod_mod_alignment ha halign)
      (zerosAt_of_freeRun hv (by omega) hfree)
  constructor
  case noFit => exact h.noFit.extend ha hv le_rfl hleast
  case noOverflow =>
    intro r hr hover
    by_cases hrk : r < 64 * k
    · exact h.noOverflow r hrk hover
    · exact hblocked r (by omega) hr hover.aligned hover.free
  case notOpen =>
    intro r hr hopen
    by_cases hrk : r < 64 * k
    · exact h.notOpen r hrk hopen
    · exact hblocked r (by omega) hr hopen.aligned hopen.wordEnd

section FirstRun

variable {count alignment k p : Nat} {v : Word} (ha : IsPowerOfTwo alignment)
  (hv : words[k]? = some v) (hfirst : IsFirstRun v.bitmap count alignment p)
include ha hv hfirst

/-- No overflow lies between the first run of a word, which does not overflow, and a word up to
which all the words are free. -/
theorem not_overflows_of_firstRun {m : Nat} (hlt : p + count < 4294967296)
    (halign : (64 * k + p) % alignment = 0)
    (hend : FreeRun words (64 - p) (64 * k + p))
    (hfree : ∀ i, 64 * (k + 1) ≤ i → i < 64 * m → slotBit words i = false) {r : Nat}
    (hr : 64 * k ≤ r) (hr' : r < 64 * m ∨ r < 64 * (k + 1)) :
    ¬ Overflows words count alignment r := by
  intro hover
  have hwraps := hover.wraps
  have hmod : (64 * k + p) % 64 = p := by omega
  by_cases hrk : r < 64 * (k + 1)
  · rcases Nat.lt_trichotomy (r % 64) p with hlow | heq | hhigh
    · exact hfirst.least (r % 64) hlow (mod_mod_alignment ha hover.aligned)
        (zerosAt_of_freeRun hv (by omega) hover.free)
    · omega
    · exact hover.first (64 * k + p) (by omega) (by omega) halign (by rwa [hmod])
  · -- in a free word the first aligned position is the first of the word
    have hlast := hover.lt
    have hzero : r % 64 = 0 := by
      by_contra hne
      rcases ha.dvd_or_dvd with hdvd | hdvd
      · refine hover.first (64 * (r / 64)) (by omega) (by omega)
          (Nat.mod_eq_zero_of_dvd (Nat.dvd_mul_right_of_dvd hdvd _)) fun i hi hi' => ?_
        exact ⟨by omega, hfree i (by omega) (by omega)⟩
      · exact hne (Nat.mod_eq_zero_of_dvd (Nat.dvd_trans hdvd
          (Nat.dvd_of_mod_eq_zero hover.aligned)))
    omega

/-- The search passes a first run that is blocked by a slot further on. -/
theorem Passed.blocked {m : Nat} (h : Passed words count alignment (64 * k))
    (hlt : p + count < 4294967296) (halign : (64 * k + p) % alignment = 0)
    (hend : FreeRun words (64 - p) (64 * k + p))
    (hfree : ∀ i, 64 * (k + 1) ≤ i → i < 64 * m → slotBit words i = false)
    (hblock : ∃ i, 64 * m ≤ i ∧ i < 64 * k + p + count ∧ slotBit words i = true) :
    Passed words count alignment (64 * m) := by
  constructor
  case noFit => exact (h.noFit.extend ha hv hfirst.le hfirst.least).blocked hblock
  case noOverflow =>
    intro r hr
    by_cases hrk : r < 64 * k
    · exact h.noOverflow r hrk
    · exact not_overflows_of_firstRun ha hv hfirst hlt halign hend hfree (by omega) (Or.inl hr)
  case notOpen =>
    intro r hr hopen
    obtain ⟨i, hi, -, hslot⟩ := hblock
    have hlast := lt_length_of_slotBit hslot
    refine not_freeRun_of_slot (r := r) (by omega) ?_ hslot hopen.free
    omega

/-- A first run that overflows is met. -/
theorem Passed.meetsOverflow (h : Passed words count alignment (64 * k)) (hp : p < 64)
    (halign : (64 * k + p) % alignment = 0) (hwrap : 4294967296 ≤ p + count) :
    MeetsOverflow words count alignment (64 * k + p) := by
  have hmod : (64 * k + p) % 64 = p := by omega
  obtain ⟨hk, -⟩ := List.getElem?_eq_some_iff.mp hv
  refine ⟨⟨halign, fun i hi hi' => ?_, fun q hq hqk hqalign hfree => ?_, by omega⟩,
    fun q hq => h.notOpen q (by omega)⟩
  · exact ⟨by omega, slot_of_zerosAt hv (hfirst.zeros hp) i hi (by omega) (by omega)⟩
  · exact hfirst.least (q % 64) (by omega) (mod_mod_alignment ha hqalign)
      (zerosAt_of_freeRun hv (by omega) hfree)

/-- A first run behind which all the slots are free ends the search before any overflow. -/
theorem Passed.not_meetsOverflow_of_open (h : Passed words count alignment (64 * k)) (hp : p < 64)
    (hlt : p + count < 4294967296) (halign : (64 * k + p) % alignment = 0)
    (hend : FreeRun words (64 - p) (64 * k + p))
    (hfree : ∀ i, 64 * (k + 1) ≤ i → i < 64 * words.length → slotBit words i = false) (r : Nat) :
    ¬ MeetsOverflow words count alignment r := by
  obtain ⟨hk, -⟩ := List.getElem?_eq_some_iff.mp hv
  have hopen : OpenEnded words alignment (64 * k + p) := by
    refine ⟨by omega, halign, fun i hi hi' => ⟨by omega, ?_⟩⟩
    by_cases hik : i < 64 * (k + 1)
    · exact (hend i hi (by omega)).2
    · exact hfree i (by omega) (by omega)
  rintro ⟨hover, hbefore⟩
  by_cases hrk : r < 64 * k
  · exact h.noOverflow r hrk hover
  · by_cases hrk' : r < 64 * (k + 1)
    · exact not_overflows_of_firstRun ha hv hfirst hlt halign hend hfree (by omega)
        (Or.inr hrk') hover
    · exact hbefore (64 * k + p) (by omega) hopen

end FirstRun

/-- Continuing behind word `k` skips no aligned position. -/
theorem Passed.next {count alignment k : Nat} (ha : IsPowerOfTwo alignment) (hk : k < 67108864)
    (h : Passed words count alignment (64 * (k + 1))) :
    Passed words count alignment (64 * nextWordIndex k alignment) := by
  have hbefore : ∀ r, r < 64 * nextWordIndex k alignment → r % alignment = 0 →
      r < 64 * (k + 1) := by
    intro r hr halign
    have hle := div_le_of_lt_nextWordIndex ha hk (div_mod_wordAlignment ha halign) hr
    omega
  constructor
  case noFit => exact fun r hr halign => h.noFit r (hbefore r hr halign) halign
  case noOverflow =>
    exact fun r hr hover => h.noOverflow r (hbefore r hr hover.aligned) hover
  case notOpen => exact fun r hr hopen => h.notOpen r (hbefore r hr hopen.aligned) hopen

/-- A search that has passed all the words has met no overflow. -/
theorem Passed.not_meetsOverflow {count alignment x : Nat} (h : Passed words count alignment x)
    (hx : 64 * words.length ≤ x) (r : Nat) : ¬ MeetsOverflow words count alignment r :=
  fun hmeets => h.noOverflow r (Nat.lt_of_lt_of_le hmeets.1.lt hx) hmeets.1

/-- A run of more than a word is shifted out of the word that it is to be taken from. -/
theorem takeSlots_oversize {word : Word} {bitIndex count : Nat} (hcount : 64 < count)
    (hlt : count < 4294967296) : takeSlots word bitIndex count = .error .undefinedShift := by
  have hshift : ¬ sub32 64 count < 64 := by
    unfold sub32
    omega
  rw [takeSlots, shr, if_neg hshift]
  rfl

/-- The search has come to its end: without a fit, with the first one, or at an overflow of the test
for a fit within one word. -/
def SearchEnds (words : List Word) (count alignment : Nat)
    (result : Except Fault (Nat × Bool) × List Word) : Prop :=
  (result = (.ok (uint32Max, true), words) ∧
    NoFit words count alignment ∧ ∀ r, ¬ MeetsOverflow words count alignment r) ∨
  (∃ r words', result = (.ok (r, true), words') ∧
    FirstFit words count alignment r ∧ Grown words words' true r (r + count)) ∨
  (result = (.error .undefinedShift, words) ∧ ∃ r, MeetsOverflow words count alignment r)

section Rounds

variable {count alignment k p : Nat} {v : Word} (hfits : pool.size ≤ 4294967232)
  (hlen : words.length = pool.wordCount) (hcount : 0 < count) (ha : IsPowerOfTwo alignment)
  (hmod : k % ((alignment + 63) / 64) = 0) (hpassed : Passed words count alignment (64 * k))
include hfits hlen hcount ha hmod hpassed

/-- The slots within one word are taken, or the test for them overflows. -/
theorem run_takeSlots (hlt32 : count < 4294967296) (hv : words[k]? = some v)
    (hrun : IsFirstRun v.bitmap count alignment p) (hbit : p < 64)
    (hword : add32 p count ≤ 64) :
    SearchEnds words count alignment
      (((Program.ofExcept (takeSlots v p count)).bind fun newWord =>
        .compareExchange k v newWord fun ok _ =>
          .done (add32 p (mul32 k 64), ok)).run words) := by
  have hwords := PoolParameters.wordCount_le hfits
  have hk : k < words.length := List.getElem?_eq_some_iff.mp hv |>.1
  have halign := position_mod ha hmod (hrun.aligned hbit) hbit
  by_cases hwrap : 4294967296 ≤ p + count
  · rw [takeSlots_oversize (by omega) hlt32]
    exact Or.inr (Or.inr ⟨rfl, 64 * k + p,
      hpassed.meetsOverflow ha hv hrun hbit halign hwrap⟩)
  · rw [add32_of_lt (by omega)] at hword
    have hzeros := slot_of_zerosAt hv (hrun.zeros hbit)
    obtain ⟨w, hw, hbitmap, hstart⟩ := takeSlots_spec v hcount hword
    have hresult : add32 p (mul32 k 64) = 64 * k + p := by
      rw [mul32_of_lt (by omega), add32_of_lt (by omega)]
      omega
    rw [hw, hresult]
    simp only [Program.bind_ofExcept_ok, Program.run_compareExchange_same hv]
    refine Or.inr (Or.inl ⟨64 * k + p, _, rfl, ⟨halign, fun i hi hi' =>
      ⟨by omega, hzeros i hi (by omega) (by omega)⟩,
      hpassed.noFit.extend ha hv hrun.le hrun.least⟩, ?_⟩)
    rw [Nat.add_assoc]
    exact Grown.set true hv hbit hword hbitmap
      fun j hj => by rw [hstart j hj, Bool.true_and]

/-- A block of several words is taken, or there is no room behind the first of them, or the search
goes on behind what is in the way. -/
theorem run_spanning (hstarts : StartsTaken words) (hv : words[k]? = some v)
    (hrun : IsFirstRun v.bitmap count alignment p) (hbit : p < 64) (hword : 64 < p + count)
    (hfit : p + count < 4294967296) (next : Nat → Program Word (Nat × Bool)) :
    SearchEnds words count alignment
      (((probeWords pool (k + 1) (sub32 count (64 - p))).bind fun probe =>
        match probe with
        | .exhausted => .done (uint32Max, true)
        | .blocked blockedIndex => next (sub32 blockedIndex 1)
        | .free last rest => commit pool k p last rest v).run words) ∨
    ∃ k', k ≤ k' ∧ k' < pool.wordCount ∧ Passed words count alignment (64 * (k' + 1)) ∧
      ((probeWords pool (k + 1) (sub32 count (64 - p))).bind fun probe =>
        match probe with
        | .exhausted => .done (uint32Max, true)
        | .blocked blockedIndex => next (sub32 blockedIndex 1)
        | .free last rest => commit pool k p last rest v).run words = (next k').run words := by
  have hwords := PoolParameters.wordCount_le hfits
  have hk : k < words.length := List.getElem?_eq_some_iff.mp hv |>.1
  have halign := position_mod ha hmod (hrun.aligned hbit) hbit
  have hzeros := slot_of_zerosAt hv (hrun.zeros hbit)
  have hbelow := hpassed.noFit.extend ha hv hrun.le hrun.least
  have hopen : FreeRun words (64 - p) (64 * k + p) := fun i hi hi' =>
    ⟨by omega, hzeros i hi (by omega) (by omega)⟩
  rw [sub32_of_le (by omega) (by omega)]
  obtain ⟨r, hprobe, hr, hreached, hfinal⟩ := run_probeWords hlen (k := k + 1)
    (count - (64 - p)) (by omega) hk
  simp only [Program.run_bind_ok hprobe]
  cases r with
  | exhausted =>
      simp only [ProbedAt] at hr
      exact Or.inl (Or.inl ⟨rfl, hbelow.noFit hcount (by omega),
        hpassed.not_meetsOverflow_of_open ha hv hrun hbit (by omega) halign hopen hreached⟩)
  | blocked k' =>
      obtain ⟨hge, hlt', i, hi, hi', hslot⟩ := hr
      have hblocked : Passed words count alignment (64 * (k' - 1 + 1)) := by
        rw [Nat.sub_add_cancel (by omega)]
        exact hpassed.blocked ha hv hrun (by omega) halign hopen hreached
          ⟨i, hi, by omega, hslot⟩
      refine Or.inr ⟨k' - 1, by omega, by omega, hblocked, ?_⟩
      simp only [sub32_of_le (show 1 ≤ k' by omega) (show k' < 4294967296 by omega)]
  | free last rest =>
      obtain ⟨hge, hle, hrest, hneeded, hfree⟩ := hr
      obtain ⟨hlast, hend⟩ := hfinal last rest rfl
      obtain ⟨words', hcommit, hgrown⟩ := run_commit hfits hlen
        hbit hv hge hle hrest
        (fun m hm hm' => getElem?_eq_empty hstarts (by omega)
          fun i hi hi' => hfree i (by omega) (by omega))
        (fun hpos => low_bits_of_free hstarts (hlast hpos) hrest.le hend)
      have hstop : 64 * last + rest = 64 * k + p + count := by omega
      rw [hstop] at hgrown
      refine Or.inl (Or.inr (Or.inl ⟨64 * k + p, words', hcommit,
        ⟨halign, fun i hi hi' => ?_, hbelow⟩, hgrown⟩))
      refine ⟨by omega, ?_⟩
      by_cases hik : i < 64 * (k + 1)
      · exact hzeros i hi (by omega) hik
      · by_cases hil : i < 64 * last
        · exact hfree i (by omega) hil
        · exact hend i (by omega) (by omega)

/-- A round of the search ends it, or goes on at a later word, with all before it passed. -/
theorem run_round (hstarts : StartsTaken words) (hlt32 : count < 4294967296) (fuel : Nat)
    (hlt : k < pool.wordCount) :
    SearchEnds words count alignment
      ((searchWords pool count alignment (fuel + 1) k).run words) ∨
    ∃ k', k ≤ k' ∧ k' < pool.wordCount ∧ Passed words count alignment (64 * (k' + 1)) ∧
      (searchWords pool count alignment (fuel + 1) k).run words =
        (searchWords pool count alignment fuel (nextWordIndex k' alignment)).run words := by
  have hk : k < words.length := by omega
  have hv := List.getElem?_eq_getElem hk
  simp only [searchWords, hlt, if_true, Program.bind_def, Program.bind_read, Program.run_load hv]
  by_cases hfull : words[k].bitmap = uint64Max
  · rw [if_pos hfull]
    refine Or.inr ⟨k, le_rfl, hlt, hpassed.word ha hv fun q hq _ => ?_, rfl⟩
    refine not_zerosAt_of_one le_rfl (by omega) ?_
    rw [hfull, getLsbD_uint64Max, decide_eq_true hq]
  · rw [if_neg hfull]
    obtain ⟨p, hp, hrun⟩ := findConsecutiveZerosAligned_spec hcount ha hfull
    simp only [hp, Program.bind_ofExcept_ok]
    by_cases hp64 : p = 64
    · rw [if_pos hp64]
      exact Or.inr ⟨k, le_rfl, hlt, hpassed.word ha hv (hp64 ▸ hrun.least), rfl⟩
    · have hbit : p < 64 := by
        have hple := hrun.le
        omega
      rw [if_neg hp64]
      by_cases hword : add32 p count ≤ 64
      · rw [if_pos hword]
        exact Or.inl (run_takeSlots hfits hlen hcount ha hmod hpassed hlt32 hv hrun hbit hword)
      · rw [if_neg hword]
        have hfit : p + count < 4294967296 ∧ 64 < p + count := by
          unfold add32 at hword
          omega
        exact run_spanning hfits hlen hcount ha hmod hpassed hstarts hv hrun hbit hfit.2 hfit.1
          fun k' => searchWords pool count alignment fuel (nextWordIndex k' alignment)

end Rounds

/-- The undisturbed search from word `k` on finds the first fit, if there is one, unless the
test for a fit within one word overflows before. -/
theorem run_searchWords {count alignment : Nat} (hfits : pool.size ≤ 4294967232)
    (hlen : words.length = pool.wordCount) (hstarts : StartsTaken words) (hcount : 0 < count)
    (hlt32 : count < 4294967296) (ha : IsPowerOfTwo alignment) (fuel : Nat) {k : Nat}
    (hfuel : pool.wordCount ≤ k + fuel) (hmod : k % ((alignment + 63) / 64) = 0)
    (hpassed : Passed words count alignment (64 * k)) :
    SearchEnds words count alignment ((searchWords pool count alignment fuel k).run words) := by
  have hwords := PoolParameters.wordCount_le hfits
  induction fuel generalizing k with
  | zero =>
      have hend : ¬ k < pool.wordCount := by omega
      exact Or.inl ⟨by simp only [searchWords, hend, if_false]; rfl,
        hpassed.noFit.noFit hcount (by omega), hpassed.not_meetsOverflow (by omega)⟩
  | succ fuel ih =>
      by_cases hlt : k < pool.wordCount
      · rcases run_round hfits hlen hcount ha hmod hpassed hstarts hlt32 fuel hlt with
          hends | ⟨k', hge, hlt', hpassed', hgoes⟩
        · exact hends
        · have hinc := lt_nextWordIndex (k := k') ha (by omega)
          rw [hgoes]
          exact ih (k := nextWordIndex k' alignment) (by omega) (nextWordIndex_mod ha (by omega))
            (hpassed'.next ha (by omega))
      · exact Or.inl ⟨by simp only [searchWords, hlt, if_false]; rfl,
          hpassed.noFit.noFit hcount (by omega), hpassed.not_meetsOverflow (by omega)⟩

end Search

end RPiKernel.Containers
