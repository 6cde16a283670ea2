import RPiKernel.Containers.PoolProtocol

/-!
# What a deallocation owns

`wp_getBlockSize` and `wp_deallocate` specify the two operations on a block
under any interference, from the ownership of the block on.

## Implementation notes

Where leaks are allowed, `getBlockSize` may count a leaked slot right behind the
block. The participant then owns that slot as well.
-/

namespace RPiKernel.Containers

open Interleaving Machine Intervals

namespace Encodes

variable {κ : Type*} {pool : PoolParameters} {leaky : Prop} {words : List Word} {F : Family κ}

/-- The starts of a word are among its taken slots, so that a slot of the
combined word is set exactly when it is taken and no start. -/
theorem getLsbD_xor (h : Encodes pool leaky words F) {k : Nat} {v : Word}
    (hv : words[k]? = some v) {j : Nat} (hj : j < 64) :
    (v.bitmap ^^^ v.starts).getLsbD j =
      (slotBit words (64 * k + j) && !startBit words (64 * k + j)) := by
  rw [BitVec.getLsbD_xor, ← slotBit_of_getElem? hv hj, ← startBit_of_getElem? hv hj]
  cases hs : slotBit words (64 * k + j) with
  | true => simp
  | false => simp [h.startBit_of_free hs]

variable [DecidableEq κ]

/-- Counting from position `p` of a word, inside a block or right behind it,
stops at the end of the block, at the end of the word, or behind a leaked slot
which then becomes part of the block. -/
theorem countrOne_spec (h : Encodes pool leaky words F) {key : κ} {b : Span} {k p e : Nat}
    {v : Word} (hold : F key = some b) (hv : words[k]? = some v) (hp : p ≤ 64)
    (hstart : b.start < 64 * k + p) (hstop : 64 * k + p ≤ b.stop)
    (he : p + countrOne ((v.bitmap ^^^ v.starts) >>> p) = e) :
    e ≤ 64 ∧ (e < 64 → b.stop ≤ 64 * k + e) ∧ (¬ leaky → 64 * k + e ≤ b.stop) ∧
      Encodes pool leaky words
        (Function.update F key (some ⟨b.start, max b.count (64 * k + e - b.start)⟩)) := by
  have hcount : ∀ n, (∀ j, p ≤ j → j < p + n → (v.bitmap ^^^ v.starts).getLsbD j = true) →
      (v.bitmap ^^^ v.starts).getLsbD (p + n) = false →
      e = p + n := by
    intro n hones hend
    rw [← he]
    congr 1
    apply countrOne_eq
    · intro j hj
      rw [BitVec.getLsbD_ushiftRight]
      exact hones _ (by omega) (by omega)
    · rwa [BitVec.getLsbD_ushiftRight]
  have hinside : ∀ j, p ≤ j → j < 64 → 64 * k + j < b.stop →
      (v.bitmap ^^^ v.starts).getLsbD j = true := by
    intro j hpj hj hlt
    have hmem : 64 * k + j ∈ b := ⟨by omega, hlt⟩
    have hnot : ¬ startBit words (64 * k + j) = true := by
      rw [h.startBit_iff_of_mem hold hmem]
      omega
    rw [h.getLsbD_xor hv hj, h.covered ⟨key, b, hold, hmem⟩]
    simp [hnot]
  have hsame : 64 * k + e ≤ b.stop → Encodes pool leaky words
      (Function.update F key (some ⟨b.start, max b.count (64 * k + e - b.start)⟩)) := by
    intro hle
    simp only [Span.stop] at hle
    rwa [Nat.max_eq_left (by omega), ← hold, Function.update_eq_self]
  by_cases hlong : 64 * (k + 1) ≤ b.stop
  · have hn : e = p + (64 - p) :=
      hcount _ (fun j hpj hj => hinside j hpj (by omega) (by omega))
        (BitVec.getLsbD_of_ge _ _ (by omega))
    exact ⟨by omega, by omega, fun _ => by omega, hsame (by omega)⟩
  · have hend : (v.bitmap ^^^ v.starts).getLsbD (b.stop - 64 * k) =
        (slotBit words b.stop && !startBit words b.stop) := by
      rw [h.getLsbD_xor hv (by omega), show 64 * k + (b.stop - 64 * k) = b.stop by omega]
    cases hx : slotBit words b.stop && !startBit words b.stop with
    | false =>
        have hn : e = p + (b.stop - 64 * k - p) := by
          apply hcount
          · exact fun j hpj hj => hinside j hpj (by omega) (by omega)
          · rw [show p + (b.stop - 64 * k - p) = b.stop - 64 * k by omega, hend, hx]
        exact ⟨by omega, fun _ => by omega, fun _ => by omega, hsame (by omega)⟩
    | true =>
        rw [Bool.and_eq_true, Bool.not_eq_true'] at hx
        obtain ⟨-, -, hleaky, htop⟩ := h.leaked_behind hold hx.1 hx.2
        have hn : e = p + (64 - p) := by
          apply hcount
          · intro j hpj hj
            by_cases hj' : 64 * k + j < b.stop
            · exact hinside j hpj (by omega) hj'
            · rw [show j = b.stop - 64 * k by omega, hend, hx.1, hx.2]
              rfl
          · exact BitVec.getLsbD_of_ge _ _ (by omega)
        refine ⟨by omega, by omega, fun hnot => absurd hleaky hnot, ?_⟩
        have habsorb := h.absorb hold hx.1 hx.2
        have hgrown : max b.count (64 * k + e - b.start) = b.count + 1 := by
          simp only [Span.stop] at *
          omega
        rwa [hgrown]

end Encodes

variable {ι : Type*} [DecidableEq ι] {t : ι} {pool : PoolParameters} {leaky : Prop}
  {permitted : (Word → Except Fault Word) → Prop}

/-- Counting in a word entitles the owner of a block to the slots counted. -/
theorem learns_countrOne {s c k p : Nat} {v : Word} (hp : p ≤ 64) (hstart : s < 64 * k + p)
    (hstop : 64 * k + p ≤ s + c) :
    (poolProtocol ι pool leaky permitted).Learns t (some ⟨s, c⟩) k v
      (some ⟨s, max c (64 * k + (p + countrOne ((v.bitmap ^^^ v.starts) >>> p)) - s)⟩) := by
  apply learns_of_encodes
  intro words F key hF hg hv
  exact (hF.countrOne_spec hg hv hp hstart hstop rfl).2.2.2

/-- Where counting in a word stops, from what a participant sees there. -/
theorem countrOne_of_sees {s c k p e : Nat} {v : Word} (hp : p ≤ 64) (hstart : s < 64 * k + p)
    (hstop : 64 * k + p ≤ s + c)
    (hv : (poolProtocol ι pool leaky permitted).Sees t (some ⟨s, c⟩) k v)
    (he : p + countrOne ((v.bitmap ^^^ v.starts) >>> p) = e) :
    e ≤ 64 ∧ (e < 64 → s + c ≤ 64 * k + e) ∧ (¬ leaky → 64 * k + e ≤ s + c) ∧
      s + max c (64 * k + e - s) ≤ pool.size := by
  classical
  obtain ⟨words, F, key, hF, hg, hv⟩ := encodes_of_sees hv
  obtain ⟨h64, hshort, hexact, hgrown⟩ := hF.countrOne_spec hg hv hp hstart hstop he
  exact ⟨h64, hshort, hexact, hgrown.inside (Function.update_self key _ F)⟩

/-- The result of counting a block of `c` slots from `s` on: the owner owns what
was counted, which is exactly the block when nothing is leaked. -/
def Measured (pool : PoolParameters) (leaky : Prop) (s c n : Nat) (g : Option Span) : Prop :=
  g = some ⟨s, n⟩ ∧ 0 < n ∧ s + n ≤ pool.size ∧ (¬ leaky → n = c)

/-- Counting on from word `k`, where the count has reached `position` of that word. -/
theorem wp_extendBlock {s c₀ : Nat} (hfits : pool.size ≤ 4294967232) (fuel : Nat)
    {k position c : Nat} (hk : k < pool.wordCount) (hfuel : pool.wordCount ≤ k + 1 + fuel)
    (hsize : s + c ≤ pool.size) (hpos : position ≤ 64) (hlow : s < 64 * k + position)
    (hshort : position < 64 → s + c ≤ 64 * k + position)
    (hreached : 64 * k + position ≤ s + c) (hc : ¬ leaky → c = c₀) :
    (poolProtocol ι pool leaky permitted).wp t
      (extendBlock pool fuel k position (64 * k + position - s)) (some ⟨s, c⟩)
      (Measured pool leaky s c₀) := by
  have hwords := PoolParameters.wordCount_le hfits
  have hslots := PoolParameters.size_le hfits
  induction fuel generalizing k position c with
  | zero =>
      have hend : ¬ (position = 64 ∧ k + 1 < pool.wordCount) := by omega
      have hcount : 64 * k + position - s = c := by omega
      simp only [extendBlock, hend, if_false, hcount]
      exact ⟨rfl, by omega, hsize, hc⟩
  | succ fuel ih =>
      by_cases hnext : position = 64 ∧ k + 1 < pool.wordCount
      · obtain ⟨rfl, hlt⟩ := hnext
        simp only [extendBlock, hlt, and_self, if_true]
        refine Protocol.wp_read_learns (inBounds hlt) fun v hv =>
          ⟨_, learns_countrOne (p := 0) (by omega) (by omega) (by omega), ?_⟩
        obtain ⟨h64, hshort', hexact, hinside⟩ := countrOne_of_sees (p := 0) (by omega) (by omega)
          (by omega) hv rfl
        simp only [Nat.zero_add, BitVec.ushiftRight_zero] at *
        generalize countrOne (v.bitmap ^^^ v.starts) = e at *
        rw [add32_of_lt (by omega), show 64 * k + 64 - s + e = 64 * (k + 1) + e - s by omega]
        exact ih hlt (by omega) hinside h64 (by omega) (by omega) (by omega)
          (fun hnot => by have := hc hnot; have := hexact hnot; omega)
      · have hcount : 64 * k + position - s = c := by omega
        simp only [extendBlock, hnext, if_false, hcount]
        exact ⟨rfl, by omega, hsize, hc⟩

/-- The size of a block is the number of slots that its owner owns afterwards. -/
theorem wp_getBlockSize {s c : Nat} (hfits : pool.size ≤ 4294967232) (hc : 0 < c)
    (hsize : s + c ≤ pool.size) :
    (poolProtocol ι pool leaky permitted).wp t (getBlockSize pool s) (some ⟨s, c⟩)
      (Measured pool leaky s c) := by
  have hslots := PoolParameters.size_le hfits
  have hlt : s / 64 < pool.wordCount := by omega
  rw [getBlockSize, if_neg (by omega)]
  refine Protocol.wp_read_learns (inBounds hlt) fun v hv =>
    ⟨_, learns_countrOne (p := s % 64 + 1) (by omega) (by omega) (by omega), ?_⟩
  obtain ⟨h64, hshort, hexact, hinside⟩ :=
    countrOne_of_sees (p := s % 64 + 1) (by omega) (by omega) (by omega) hv rfl
  refine Protocol.wp_ofExcept (shl_of_lt (by omega)) ?_
  have hstart : ¬ v.starts &&& 1#64 <<< (s % 64) = 0 := by
    obtain ⟨words, F, key, hF, hg, hv'⟩ := encodes_of_sees hv
    have hs := (hF.startBit_iff_of_mem hg (i := s) ⟨le_rfl, by simp only [Span.stop]; omega⟩).mpr rfl
    have hbit := startBit_of_getElem? hv' (j := s % 64) (by omega)
    rw [show 64 * (s / 64) + s % 64 = s by omega, hs] at hbit
    rw [and_bit_eq_zero_iff (by omega), ← hbit]
    decide
  rw [if_neg hstart]
  have hextend : (poolProtocol ι pool leaky permitted).wp t
      (extendBlock pool pool.wordCount (s / 64)
        (s % 64 + (1 + countrOne ((v.bitmap ^^^ v.starts) >>> (s % 64 + 1))))
        (1 + countrOne ((v.bitmap ^^^ v.starts) >>> (s % 64 + 1))))
      (some ⟨s, max c (64 * (s / 64) + (s % 64 + 1 +
        countrOne ((v.bitmap ^^^ v.starts) >>> (s % 64 + 1))) - s)⟩)
      (Measured pool leaky s c) := by
    generalize countrOne ((v.bitmap ^^^ v.starts) >>> (s % 64 + 1)) = e at *
    have hcount : 1 + e = 64 * (s / 64) + (s % 64 + (1 + e)) - s := by omega
    have hmax : max c (64 * (s / 64) + (s % 64 + 1 + e) - s) = max c (1 + e) := by omega
    rw [hmax] at hinside ⊢
    have hextend : (poolProtocol ι pool leaky permitted).wp t
        (extendBlock pool pool.wordCount (s / 64) (s % 64 + (1 + e))
          (64 * (s / 64) + (s % 64 + (1 + e)) - s))
        (some ⟨s, max c (1 + e)⟩) (Measured pool leaky s c) := by
      refine wp_extendBlock hfits _ hlt (by omega) hinside (by omega) (by omega) (by omega)
        (by omega) fun hnot => ?_
      have := hexact hnot
      omega
    rwa [← hcount] at hextend
  by_cases hlast : s % 64 + 1 < 64
  · rw [if_pos hlast, shr_of_lt hlast]
    exact hextend
  · rw [if_neg hlast]
    have hnone : (v.bitmap ^^^ v.starts) >>> (s % 64 + 1) = 0#64 :=
      BitVec.ushiftRight_eq_zero (by omega)
    have hzero : countrOne (0#64) = 0 := countrOne_eq (fun j hj => by omega) (by simp)
    rw [hnone, hzero] at hextend ⊢
    exact hextend

/-- Releasing the slots of a block from position `p` of a word to its end at
position `q` of that word. -/
theorem wp_releaseLoop {k p q s c : Nat} {mask expected : BitVec 64}
    (hk : k < pool.wordCount) (hq : q ≤ 64) (hstop : s + c = 64 * k + q)
    (hx : s ≤ 64 * k + p) (hpq : p < q)
    (hmask : ∀ j, j < 64 → mask.getLsbD j = !decide (p ≤ j ∧ j < q))
    (hexpected : ∀ j, j < 64 →
      expected.getLsbD j = decide ((p ≤ j ∧ j < q) ∧ 64 * k + j = s)) :
    (poolProtocol ι pool leaky permitted).wp t (releaseLoop pool k mask expected) (some ⟨s, c⟩)
      (fun _ g => g = if 64 * k + p = s then none else some ⟨s, 64 * k + p - s⟩) := by
  have hrelease : ∀ words (F : Family (Span ⊕ ι)) key v, Encodes pool leaky words F →
      F key = some ⟨s, c⟩ → words[k]? = some v →
      ∃ w, releaseSlots pool mask expected v = .ok w ∧
        (∀ j, j < 64 → w.bitmap.getLsbD j = (v.bitmap.getLsbD j && !decide (p ≤ j ∧ j < q))) ∧
        ∀ j, j < 64 → w.starts.getLsbD j = (v.starts.getLsbD j && !decide (p ≤ j ∧ j < q)) := by
    intro words F key v hF hg hv
    have hmem : ∀ j, p ≤ j → j < q → 64 * k + j ∈ (⟨s, c⟩ : Span) := by
      intro j hp hj
      rw [Span.mem_iff]
      exact ⟨by simp only; omega, by simp only; omega⟩
    apply releaseSlots_spec hmask
    · intro j hj hp hj'
      rw [← slotBit_of_getElem? hv hj]
      exact hF.covered ⟨key, _, hg, hmem j hp hj'⟩
    · intro j hj
      rw [hexpected j hj, ← startBit_of_getElem? hv hj]
      by_cases hin : p ≤ j ∧ j < q
      · have honly := hF.startBit_iff_of_mem hg (hmem j hin.1 hin.2)
        simp only [hin, and_self, decide_true, Bool.and_true, true_and]
        rw [Bool.eq_iff_iff, honly, decide_eq_true_iff]
      · simp only [hin, false_and, decide_false, Bool.and_false]
  refine Protocol.wp_read (inBounds hk) fun v hv _ => ⟨inBounds hk, ?_, fun v' hv' => ?_⟩
  · obtain ⟨words, F, key, hF, hg, hv⟩ := encodes_of_sees hv
    obtain ⟨w, hw, -, -⟩ := hrelease words F key v hF hg hv
    exact ⟨w, hw⟩
  · obtain ⟨words, F, key, hF, hg, hv'⟩ := encodes_of_sees hv'
    obtain ⟨w, hw, hbitmap, hstarts⟩ := hrelease words F key v' hF hg hv'
    refine ⟨w, _, hw, allows_of_encodes ?_, rfl⟩
    intro words F key hF hg hv
    exact hF.shrinkWord w hv hg hq hstop hx hpq.le (fun j hj => Or.inl (hbitmap j hj)) hstarts

/-- Releasing a block that reaches beyond its first word. -/
theorem wp_releaseWords {s c : Nat} (hfits : pool.size ≤ 4294967232)
    (hsize : s + c ≤ pool.size) (hlong : 64 * (s / 64 + 1) < s + c) :
    (poolProtocol ι pool leaky permitted).wp t (releaseWords pool (s / 64) (s % 64) (s + c))
      (some ⟨s, c⟩) (fun _ g => g = none) := by
  have hslots := PoolParameters.size_le hfits
  have hbit : s % 64 < 64 := Nat.mod_lt s (by decide)
  -- the whole words and the first word, once the block ends with word `k`
  have hwhole : ∀ k, s / 64 ≤ k → k < pool.wordCount →
      (poolProtocol ι pool leaky permitted).wp t
        ((clearWords (s / 64) pool.wordCount k).bind fun _ => do
          let rest ← Program.ofExcept (shl uint64Max (s % 64))
          let start ← Program.ofExcept (shl 1#64 (s % 64))
          releaseLoop pool (s / 64) (~~~rest) start)
        (some ⟨s, 64 * (k + 1) - s⟩) (fun _ g => g = none) := by
    intro k hk hlt
    refine Protocol.wp_bind (Protocol.wp_mono
      (wp_clearWords hfits (by omega) _ (by omega) hk hlt) ?_)
    rintro - g rfl
    refine Protocol.wp_ofExcept (shl_of_lt hbit) (Protocol.wp_ofExcept (shl_of_lt hbit) ?_)
    refine Protocol.wp_mono (wp_releaseLoop (p := s % 64) (q := 64) (by omega) le_rfl
      (by omega) (by omega) hbit ?_ ?_) ?_
    · intro j hj
      rw [BitVec.getLsbD_not, getLsbD_high hj]
      simp only [hj, decide_true, Bool.true_and, and_true]
    · intro j hj
      rw [getLsbD_bit hj, decide_eq_decide]
      omega
    · rintro - g rfl
      exact if_pos (by omega)
  have hlast : ¬ sub32 (s + c) 1 / 64 ≥ pool.wordCount := by
    rw [sub32_of_le (by omega) (by omega)]
    omega
  rw [releaseWords, if_neg hlast, sub32_of_le (by omega) (by omega)]
  by_cases hfull : (s + c) % 64 = 0
  · have hcount : c = 64 * ((s + c - 1) / 64 + 1) - s := by omega
    have hrest := hwhole ((s + c - 1) / 64) (by omega) (by omega)
    rw [← hcount] at hrest
    simp only [hfull, ne_eq, not_true, if_false]
    exact hrest
  · have hmod : (s + c) % 64 ≠ 0 := hfull
    simp only [hmod, ne_eq, not_false_iff, if_true]
    refine Protocol.wp_ofExcept (shl_of_lt (by omega)) (Protocol.wp_bind (Protocol.wp_mono
      (wp_releaseLoop (p := 0) (q := (s + c) % 64) (by omega) (by omega) (by omega) (by omega)
        (by omega) ?_ ?_) ?_))
    · intro j hj
      rw [getLsbD_high hj, ← decide_not, decide_eq_decide]
      omega
    · intro j hj
      rw [BitVec.ofNat_eq_ofNat, BitVec.getLsbD_zero, eq_comm, decide_eq_false_iff_not]
      omega
    · rintro - g rfl
      rw [if_neg (by omega), Program.bind_def, Program.pure_def, Program.bind_done,
        sub32_of_le (by omega) (by omega)]
      have hend : 64 * ((s + c - 1) / 64) + 0 - s = 64 * ((s + c - 1) / 64 - 1 + 1) - s := by
        omega
      rw [hend]
      exact hwhole _ (by omega) (by omega)

/-- Deallocating a block gives all of it back. -/
theorem wp_deallocate {s c : Nat} (hfits : pool.size ≤ 4294967232) (hc : 0 < c)
    (hsize : s + c ≤ pool.size) :
    (poolProtocol ι pool leaky permitted).wp t (deallocate pool s) (some ⟨s, c⟩)
      (fun _ g => g = none) := by
  have hslots := PoolParameters.size_le hfits
  rw [deallocate, if_neg (by omega)]
  refine Protocol.wp_bind (Protocol.wp_mono (wp_getBlockSize hfits hc hsize) ?_)
  rintro n g ⟨rfl, hn, hn', -⟩
  simp only
  rw [add32_of_lt (by omega)]
  by_cases hword : s % 64 + n ≤ 64
  · rw [if_pos hword, sub32_of_le (by omega) (by omega)]
    refine Protocol.wp_ofExcept (shr_of_lt (by omega)) (Protocol.wp_ofExcept (shl_of_lt (by omega))
      (Protocol.wp_ofExcept (shl_of_lt (by omega)) ?_))
    refine Protocol.wp_mono (wp_releaseLoop (p := s % 64) (q := s % 64 + n) (by omega) hword
      (by omega) (by omega) (by omega) ?_ ?_) ?_
    · intro j hj
      rw [BitVec.getLsbD_not, getLsbD_run (by omega) hj]
      simp only [hj, decide_true, Bool.true_and]
    · intro j hj
      rw [getLsbD_bit hj, decide_eq_decide]
      omega
    · rintro - g rfl
      exact if_pos (by omega)
  · rw [if_neg hword, add32_of_lt (by omega)]
    exact wp_releaseWords hfits hn' (by omega)

end RPiKernel.Containers
