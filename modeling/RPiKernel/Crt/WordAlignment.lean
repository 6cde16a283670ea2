import RPiKernel.Crt.CopyAndFill

/-!
# The alignment of the word stores

`firstBytes` is the distance of the destination from the multiple of eight below it. The
prologue ends at a multiple of eight if that is also the distance to the next one, which it
is at multiples of four. Elsewhere every word store is off by twice the distance.
-/

namespace RPiKernel.Crt

open Machine

/-- Every word is stored at a multiple of eight, and no shorter prologue reaches one. -/
structure WellAligned (p size : BitVec 64) (ram : Ram) : Prop where
  words : ∀ q ∈ ram.wordStores, q.toNat % 8 = 0
  shortest : ∀ k < firstBytes p size, (p + BitVec.ofNat 64 k).toNat % 8 ≠ 0

/-- The destination is a multiple of four, or the block ends before a word is stored and
before the prologue passes a multiple of eight. -/
def PrologueFits (p size : BitVec 64) : Prop :=
  p.toNat % 4 = 0 ∨ p.toNat % 8 < 4 ∧ size.toNat < 8 + p.toNat % 8 ∨
    4 < p.toNat % 8 ∧ size.toNat ≤ 8 - p.toNat % 8

instance (p size : BitVec 64) : Decidable (PrologueFits p size) :=
  inferInstanceAs (Decidable (_ ∨ _))

section Loops

variable {count wholeQwords : Nat} {d s : BitVec 64} {ram : Ram}

theorem add_one_add (p : BitVec 64) (count : Nat) :
    p + 1 + BitVec.ofNat 64 count = p + BitVec.ofNat 64 (count + 1) := by
  rw [Nat.add_comm, ← add_add p 1 count]
  rfl

/-- The loop over bytes moves the destination and stores no word. -/
theorem copyBytes_moves (count : Nat) (d s : BitVec 64) (ram : Ram) :
    (copyBytes count d s ram).1 = d + BitVec.ofNat 64 count ∧
      (copyBytes count d s ram).2.2.wordStores = ram.wordStores := by
  induction count generalizing d s ram with
  | zero => exact ⟨(BitVec.add_zero d).symm, rfl⟩
  | succ count ih =>
    rw [copyBytes, (ih _ _ _).1, (ih _ _ _).2, add_one_add]
    exact ⟨rfl, rfl⟩

/-- The loop over words stores them one behind the other. -/
theorem copyWords_wordStores (wholeQwords : Nat) (d s : BitVec 64) (ram : Ram) :
    (copyWords wholeQwords d s ram).2.2.wordStores =
      ram.wordStores ++ (List.range wholeQwords).map fun k => d + BitVec.ofNat 64 (8 * k) := by
  induction wholeQwords generalizing d s ram with
  | zero => simp [copyWords]
  | succ count ih =>
    have hoffset : ∀ k, d + 8 + BitVec.ofNat 64 (8 * k) = d + BitVec.ofNat 64 (8 * (k + 1)) := by
      intro k
      rw [Nat.mul_succ, Nat.add_comm, ← add_add d 8]
      rfl
    rw [copyWords, ih]
    simp only [hoffset, List.range_succ_eq_map, List.map_cons, List.map_map, Function.comp_def,
      List.append_assoc, List.singleton_append, Nat.mul_zero, BitVec.add_zero,
      Nat.succ_eq_add_one]

/-- The word stores of `memcpy`, for a source anywhere. -/
theorem wordStores_memcpy (s1 s2 n : BitVec 64) (m : Memory) :
    (memcpy s1 s2 n ⟨m, []⟩).2.wordStores = wordAddresses s1 n := by
  have hprologue := copyBytes_moves (firstBytes s1 n) s1 s2 ⟨m, []⟩
  rw [memcpy]
  dsimp only
  split
  · rw [(copyBytes_moves _ _ _ _).2, copyWords_wordStores, hprologue.1, hprologue.2, wordAddresses]
    simp only [add_add, List.nil_append]
  · next hnone =>
    rw [(copyBytes_moves _ _ _ _).2, hprologue.2, wordAddresses, Nat.eq_zero_of_not_pos hnone]
    rfl

end Loops

section Alignment

variable {p size : BitVec 64} {ram : Ram}

theorem toNat_add_mod_eight (p : BitVec 64) (x : Nat) :
    (p + BitVec.ofNat 64 x).toNat % 8 = (p.toNat + x) % 8 := by
  rw [BitVec.toNat_add, BitVec.toNat_ofNat]
  omega

/-- The words behind the prologue are at multiples of eight if there is none, or if the prologue
ends at one. -/
theorem wordAddresses_aligned_iff :
    (∀ q ∈ wordAddresses p size, q.toNat % 8 = 0) ↔
      size.toNat - firstBytes p size < 8 ∨ (p.toNat + firstBytes p size) % 8 = 0 := by
  rw [wordAddresses, List.forall_mem_map]
  simp only [toNat_add_mod_eight, List.mem_range]
  constructor
  · intro hall
    by_cases hnone : size.toNat - firstBytes p size < 8
    · exact .inl hnone
    · exact .inr (hall 0 (by omega))
  · rintro (hnone | halign) k hk
    · omega
    · omega

/-- The prologue passes no multiple of eight if it ends before the next one. -/
theorem firstBytes_shortest_iff :
    (∀ k < firstBytes p size, (p + BitVec.ofNat 64 k).toNat % 8 ≠ 0) ↔
      p.toNat % 8 + firstBytes p size ≤ 8 := by
  have hfirst := firstBytes_eq p size
  simp only [toNat_add_mod_eight]
  constructor
  · intro hall
    by_contra hpasses
    exact hall (8 - p.toNat % 8) (by omega) (by omega)
  · intro hle k hk
    omega

theorem wellAligned_iff (hstores : ram.wordStores = wordAddresses p size) :
    WellAligned p size ram ↔ PrologueFits p size := by
  have hfirst := firstBytes_eq p size
  have hsplit : WellAligned p size ram ↔
      (∀ q ∈ wordAddresses p size, q.toNat % 8 = 0) ∧
        ∀ k < firstBytes p size, (p + BitVec.ofNat 64 k).toNat % 8 ≠ 0 :=
    ⟨fun h => ⟨hstores ▸ h.words, h.shortest⟩, fun h => ⟨hstores ▸ h.1, h.2⟩⟩
  rw [hsplit, wordAddresses_aligned_iff, firstBytes_shortest_iff, PrologueFits]
  omega

end Alignment

/-- `memset` and `memcpy` store words at multiples of eight, behind the shortest prologue that
allows it, exactly if the destination is a multiple of four or the block is short. -/
theorem word_stores_wellAligned_iff (dst size : BitVec 64) (m : Memory) :
    (∀ val, WellAligned dst size (memset dst val size ⟨m, []⟩).2 ↔ PrologueFits dst size) ∧
      ∀ src, WellAligned dst size (memcpy dst src size ⟨m, []⟩).2 ↔ PrologueFits dst size :=
  ⟨fun val => wellAligned_iff (by rw [memset_eq]),
    fun src => wellAligned_iff (wordStores_memcpy dst src size m)⟩

/-- Nine bytes from address 1 on: a word is stored at address 2. -/
theorem not_word_stores_wellAligned :
    ¬ ∀ dst size m,
      (∀ val, WellAligned dst size (memset dst val size ⟨m, []⟩).2) ∧
        ∀ src, WellAligned dst size (memcpy dst src size ⟨m, []⟩).2 := by
  intro hholds
  have haligned := (hholds 1 9 fun _ => 0).1 0
  rw [wellAligned_iff (by rw [memset_eq])] at haligned
  exact absurd haligned (by decide)

end RPiKernel.Crt
