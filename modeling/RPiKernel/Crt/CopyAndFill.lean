import RPiKernel.Machine.ByteMemory

/-!
# `memset`, `memcpy` and `memmove`

The three functions work in a prologue of bytes, a body of words of eight bytes and a tail of
bytes. A loop that has done the first `i` bytes has replaced the run of these bytes, whatever
the width of its stores; for the copies this holds as long as no byte of the source is
replaced before it is read.

## Implementation notes

Pointers and sizes are 64-bit words, and the loops run over a count. Next to the memory, the
addresses of the 8-byte stores are recorded.
-/

namespace RPiKernel.Crt

open Machine

/-- The memory, and the addresses of the 8-byte stores so far. -/
structure Ram where
  memory : Memory
  wordStores : List (BitVec 64) := []

/-- `static_cast<uint8_t>(val)`. -/
def lowByte (val : BitVec 32) : UInt8 := UInt8.ofBitVec (val.setWidth 8)

/-- `firstBytes`: the length of the prologue. -/
def firstBytes (p size : BitVec 64) : Nat :=
  if size.toNat < (p &&& 7).toNat then size.toNat else (p &&& 7).toNat

/-- The loops of `memset` over bytes. -/
def fillBytes (value : UInt8) : Nat → BitVec 64 → Ram → BitVec 64 × Ram
  | 0, p, ram => (p, ram)
  | count + 1, p, ram =>
      fillBytes value count (p + 1) { ram with memory := store8 ram.memory p value }

/-- The loop of `memset` over words. -/
def fillWords (val64 : Nat) : Nat → BitVec 64 → Ram → BitVec 64 × Ram
  | 0, q, ram => (q, ram)
  | wholeQwords + 1, q, ram =>
      fillWords val64 wholeQwords (q + 8)
        { memory := store64 ram.memory q val64, wordStores := ram.wordStores ++ [q] }

/-- `memset`. -/
def memset (dst : BitVec 64) (val : BitVec 32) (size : BitVec 64) (ram : Ram) : BitVec 64 × Ram :=
  let first := firstBytes dst size
  let left := size.toNat - first
  let (p, ram) := fillBytes (lowByte val) first dst ram
  let wholeQwords := left / 8
  if 0 < wholeQwords then
    let left := left - wholeQwords * 8
    let val64 := (lowByte val).toNat * 0x0101010101010101
    let (p, ram) := fillWords val64 wholeQwords p ram
    (dst, (fillBytes (lowByte val) left p ram).2)
  else
    (dst, (fillBytes (lowByte val) left p ram).2)

/-- The loops of `memcpy` over bytes. -/
def copyBytes : Nat → BitVec 64 → BitVec 64 → Ram → BitVec 64 × BitVec 64 × Ram
  | 0, d, s, ram => (d, s, ram)
  | count + 1, d, s, ram =>
      copyBytes count (d + 1) (s + 1) { ram with memory := store8 ram.memory d (ram.memory s) }

/-- The loop of `memcpy` over words. -/
def copyWords : Nat → BitVec 64 → BitVec 64 → Ram → BitVec 64 × BitVec 64 × Ram
  | 0, qd, qs, ram => (qd, qs, ram)
  | wholeQwords + 1, qd, qs, ram =>
      copyWords wholeQwords (qd + 8) (qs + 8)
        { memory := store64 ram.memory qd (load64 ram.memory qs)
          wordStores := ram.wordStores ++ [qd] }

/-- `memcpy`. -/
def memcpy (s1 s2 n : BitVec 64) (ram : Ram) : BitVec 64 × Ram :=
  let first := firstBytes s1 n
  let left := n.toNat - first
  let (d, s, ram) := copyBytes first s1 s2 ram
  let wholeQwords := left / 8
  if 0 < wholeQwords then
    let left := left - wholeQwords * 8
    let (d, s, ram) := copyWords wholeQwords d s ram
    (s1, (copyBytes left d s ram).2.2)
  else
    (s1, (copyBytes left d s ram).2.2)

/-- The loop of `memmove`, from the ends of the blocks down. -/
def copyBackward : Nat → BitVec 64 → BitVec 64 → Ram → Ram
  | 0, _, _, ram => ram
  | n + 1, d, s, ram =>
      copyBackward n (d - 1) (s - 1)
        { ram with memory := store8 ram.memory (d - 1) (ram.memory (s - 1)) }

/-- `memmove`. -/
def memmove (dest src n : BitVec 64) (ram : Ram) : BitVec 64 × Ram :=
  if dest < src ∨ src + n ≤ dest then
    memcpy dest src n ram
  else
    (dest, copyBackward n.toNat (dest + n) (src + n) ram)

/-- A block of `n` bytes in the address space. -/
structure Block (n : Nat) where
  start : BitVec 64
  fits : start.toNat + n ≤ 2 ^ 64

section Prologue

variable {p size : BitVec 64}

theorem toNat_and_seven (p : BitVec 64) : (p &&& 7).toNat = p.toNat % 8 := by
  rw [BitVec.toNat_and]
  exact Nat.and_two_pow_sub_one_eq_mod p.toNat 3

theorem firstBytes_eq (p size : BitVec 64) : firstBytes p size = min size.toNat (p.toNat % 8) := by
  rw [firstBytes, toNat_and_seven]
  split
  · omega
  · omega

theorem firstBytes_le (p size : BitVec 64) : firstBytes p size ≤ size.toNat := by
  rw [firstBytes_eq]
  exact min_le_left _ _

/-- The addresses of the words behind the prologue. -/
def wordAddresses (p size : BitVec 64) : List (BitVec 64) :=
  (List.range ((size.toNat - firstBytes p size) / 8)).map fun k =>
    p + BitVec.ofNat 64 (firstBytes p size + 8 * k)

end Prologue

section Fill

theorem add_one (base : BitVec 64) (i : Nat) :
    base + BitVec.ofNat 64 i + 1 = base + BitVec.ofNat 64 (i + 1) :=
  add_add base i 1

theorem add_eight (base : BitVec 64) (i : Nat) :
    base + BitVec.ofNat 64 i + 8 = base + BitVec.ofNat 64 (i + 8) :=
  add_add base i 8

variable {m : Memory} {base : BitVec 64} {value : UInt8} {log : List (BitVec 64)}

/-- The bytes of `val64`. -/
theorem byteOf_val64 (value : UInt8) {k : Nat} (hk : k < 8) :
    byteOf (value.toNat * 0x0101010101010101) k = value := by
  have hall : ∀ (v : Fin 256) (k : Fin 8),
      extract (8 * k.val) 8 (v.val * 0x0101010101010101) = v.val := by decide +kernel
  rw [byteOf, hall ⟨value.toNat, value.toNat_lt⟩ ⟨k, hk⟩, UInt8.ofNat_toNat]

/-- The loop over bytes, from offset `i` on. -/
theorem fillBytes_eq {count i : Nat} (h : i + count ≤ 2 ^ 64) :
    fillBytes value count (base + BitVec.ofNat 64 i) ⟨overlay m base i fun _ => value, log⟩ =
      (base + BitVec.ofNat 64 (i + count), ⟨overlay m base (i + count) fun _ => value, log⟩) := by
  induction count generalizing i with
  | zero => rfl
  | succ count ih =>
    have hstore := overlay_succ m base (fun _ => value) (by omega : i < 2 ^ 64)
    rw [fillBytes, hstore, add_one, ih (by omega), Nat.add_right_comm, Nat.add_assoc]

/-- The loop over words, from offset `i` on. -/
theorem fillWords_eq {wholeQwords i : Nat} (h : i + 8 * wholeQwords ≤ 2 ^ 64) :
    fillWords (value.toNat * 0x0101010101010101) wholeQwords (base + BitVec.ofNat 64 i)
        ⟨overlay m base i fun _ => value, log⟩ =
      (base + BitVec.ofNat 64 (i + 8 * wholeQwords),
        ⟨overlay m base (i + 8 * wholeQwords) fun _ => value,
          log ++ (List.range wholeQwords).map fun k => base + BitVec.ofNat 64 (i + 8 * k)⟩) := by
  induction wholeQwords generalizing i log with
  | zero => simp [fillWords]
  | succ count ih =>
    have hstore := @overlay_word (fun _ => value) i m base _ (by omega) fun k hk =>
      byteOf_val64 value hk
    have hoffset : ∀ k, i + 8 + 8 * k = i + 8 * (k + 1) := fun k => by omega
    rw [fillWords, hstore, add_eight, ih (by omega), hoffset]
    simp only [hoffset, List.range_succ_eq_map, List.map_cons, List.map_map, Function.comp_def,
      Nat.mul_zero, Nat.add_zero, Nat.succ_eq_add_one, List.append_assoc, List.singleton_append]

end Fill

section Copy

variable {m : Memory} {d s : BitVec 64} {log : List (BitVec 64)} {n : Nat}

/-- The source of a copy of `n` bytes is not replaced from below before it is read: it begins
less than the rest of the address space above the destination. -/
def Ahead (d s : BitVec 64) (n : Nat) : Prop := offsetOf d s + n ≤ 2 ^ 64

/-- A source that has no byte in common with the destination. -/
theorem ahead_of_disjoint {n : BitVec 64} (h : ∀ j < n.toNat, ∀ k < n.toNat,
    d + BitVec.ofNat 64 j ≠ s + BitVec.ofNat 64 k) : Ahead d s n.toNat := by
  by_contra hnot
  rw [Ahead] at hnot
  have hn := n.isLt
  have hoffset := offsetOf_lt d s
  apply h 0 (by omega) (2 ^ 64 - offsetOf d s) (by omega)
  rw [← add_offsetOf d s, add_add, offsetOf_add hoffset, Nat.add_sub_cancel' hoffset.le]
  rfl

/-- A byte of the source behind what has been copied. -/
theorem read_ahead {f : Nat → UInt8} {i k : Nat} (h : Ahead d s n) (hik : i ≤ k) (hk : k < n) :
    overlay m d i f (s + BitVec.ofNat 64 k) = m (s + BitVec.ofNat 64 k) := by
  rw [Ahead] at h
  have hoffset : offsetOf d (s + BitVec.ofNat 64 k) = offsetOf d s + k := by
    rw [← add_offsetOf d s, add_add, offsetOf_add (by omega), offsetOf_add (by omega)]
  refine if_neg ?_
  rw [hoffset]
  omega

/-- The loop over bytes, from offset `i` on. -/
theorem copyBytes_eq {count i : Nat} (h : Ahead d s n) (hn : n < 2 ^ 64) (hi : i + count ≤ n) :
    copyBytes count (d + BitVec.ofNat 64 i) (s + BitVec.ofNat 64 i)
        ⟨overlay m d i fun k => m (s + BitVec.ofNat 64 k), log⟩ =
      (d + BitVec.ofNat 64 (i + count), s + BitVec.ofNat 64 (i + count),
        ⟨overlay m d (i + count) fun k => m (s + BitVec.ofNat 64 k), log⟩) := by
  induction count generalizing i with
  | zero => rfl
  | succ count ih =>
    have hstore := overlay_succ m d (fun k => m (s + BitVec.ofNat 64 k)) (by omega : i < 2 ^ 64)
    rw [copyBytes]
    dsimp only
    rw [read_ahead h le_rfl (by omega), hstore, add_one, add_one, ih (by omega),
      Nat.add_right_comm, Nat.add_assoc]

/-- The loop over words, from offset `i` on. -/
theorem copyWords_eq {wholeQwords i : Nat} (h : Ahead d s n) (hn : n < 2 ^ 64)
    (hi : i + 8 * wholeQwords ≤ n) :
    copyWords wholeQwords (d + BitVec.ofNat 64 i) (s + BitVec.ofNat 64 i)
        ⟨overlay m d i fun k => m (s + BitVec.ofNat 64 k), log⟩ =
      (d + BitVec.ofNat 64 (i + 8 * wholeQwords), s + BitVec.ofNat 64 (i + 8 * wholeQwords),
        ⟨overlay m d (i + 8 * wholeQwords) fun k => m (s + BitVec.ofNat 64 k),
          log ++ (List.range wholeQwords).map fun k => d + BitVec.ofNat 64 (i + 8 * k)⟩) := by
  induction wholeQwords generalizing i log with
  | zero => simp [copyWords]
  | succ count ih =>
    have hstore := @overlay_word (fun k => m (s + BitVec.ofNat 64 k)) i m d
      (load64 (overlay m d i fun k => m (s + BitVec.ofNat 64 k)) (s + BitVec.ofNat 64 i)) (by omega)
      fun k hk => by rw [byteOf_load64 _ _ hk, add_add, read_ahead h (by omega) (by omega)]
    have hoffset : ∀ k, i + 8 + 8 * k = i + 8 * (k + 1) := fun k => by omega
    rw [copyWords, hstore, add_eight, add_eight, ih (by omega), hoffset]
    simp only [hoffset, List.range_succ_eq_map, List.map_cons, List.map_map, Function.comp_def,
      Nat.mul_zero, Nat.add_zero, Nat.succ_eq_add_one, List.append_assoc, List.singleton_append]

end Copy

section Phases

/-- The prologue, the body and the tail. -/
theorem phases_add {first size : Nat} (h : first ≤ size) :
    first + 8 * ((size - first) / 8) + (size - first - (size - first) / 8 * 8) = size := by
  omega

/-- What `memset` leaves. -/
theorem memset_eq (dst : BitVec 64) (val : BitVec 32) (size : BitVec 64) (m : Memory) :
    memset dst val size ⟨m, []⟩ =
      (dst, ⟨overlay m dst size.toNat fun _ => lowByte val, wordAddresses dst size⟩) := by
  have hfirst := firstBytes_le dst size
  have hsize := size.isLt
  have hprologue := @fillBytes_eq m dst (lowByte val) [] (firstBytes dst size) 0 (by omega)
  rw [overlay_zero, BitVec.add_zero, Nat.zero_add] at hprologue
  have hbody := @fillWords_eq m dst (lowByte val) [] ((size.toNat - firstBytes dst size) / 8)
    (firstBytes dst size) (by omega)
  rw [List.nil_append] at hbody
  rw [memset, wordAddresses]
  simp only [hprologue]
  split
  · rw [hbody]
    dsimp only
    rw [fillBytes_eq (by omega), phases_add hfirst]
  · next hnone =>
    rw [fillBytes_eq (by omega), Nat.eq_zero_of_not_pos hnone, Nat.add_sub_cancel' hfirst]
    rfl

/-- What `memcpy` leaves. -/
theorem memcpy_eq {s1 s2 n : BitVec 64} (h : Ahead s1 s2 n.toNat) (m : Memory) :
    memcpy s1 s2 n ⟨m, []⟩ =
      (s1, ⟨overlay m s1 n.toNat fun k => m (s2 + BitVec.ofNat 64 k), wordAddresses s1 n⟩) := by
  have hfirst := firstBytes_le s1 n
  have hn := n.isLt
  have hprologue := @copyBytes_eq m s1 s2 [] n.toNat (firstBytes s1 n) 0 h hn (by omega)
  rw [overlay_zero, BitVec.add_zero, BitVec.add_zero, Nat.zero_add] at hprologue
  have hbody := @copyWords_eq m s1 s2 [] n.toNat ((n.toNat - firstBytes s1 n) / 8)
    (firstBytes s1 n) h hn (by omega)
  rw [List.nil_append] at hbody
  rw [memcpy, wordAddresses]
  simp only [hprologue]
  split
  · rw [hbody]
    dsimp only
    rw [copyBytes_eq h hn (by omega), phases_add hfirst]
  · next hnone =>
    rw [copyBytes_eq h hn (by omega), Nat.eq_zero_of_not_pos hnone, Nat.add_sub_cancel' hfirst]
    rfl

end Phases

section Move

variable {m : Memory} {d s : BitVec 64} {log : List (BitVec 64)} {n : Nat}

/-- The bytes of the destination when the bytes from `k` on are copied. -/
def copiedFrom (m : Memory) (d s : BitVec 64) (k : Nat) : Nat → UInt8 := fun j =>
  if j < k then m (d + BitVec.ofNat 64 j) else m (s + BitVec.ofNat 64 j)

theorem update_copiedFrom (m : Memory) (d s : BitVec 64) (k : Nat) :
    Function.update (copiedFrom m d s (k + 1)) k (m (s + BitVec.ofNat 64 k)) =
      copiedFrom m d s k := by
  funext j
  obtain rfl | hne := eq_or_ne j k
  · rw [Function.update_self, copiedFrom, if_neg (lt_irrefl j)]
  · rw [Function.update_of_ne hne, copiedFrom, copiedFrom]
    exact if_congr (by omega) rfl rfl

/-- A source that begins less than the rest of the address space below the destination: its bytes
are read before they are replaced from above. -/
theorem read_behind {k : Nat} (h : offsetOf s d + n ≤ 2 ^ 64) (hk : k < n) :
    overlay m d n (copiedFrom m d s (k + 1)) (s + BitVec.ofNat 64 k) =
      m (s + BitVec.ofNat 64 k) := by
  rw [overlay]
  split
  · next hinside =>
    have hsplit : offsetOf s d + offsetOf d (s + BitVec.ofNat 64 k) = k := by
      have hoffset := @offsetOf_moved s (s + BitVec.ofNat 64 k) _ (offsetOf_lt s d)
      rw [add_offsetOf, offsetOf_add (by omega)] at hoffset
      split at hoffset
      · omega
      · omega
    rw [copiedFrom, if_pos (by omega), add_offsetOf]
  · rfl

theorem sub_one (base : BitVec 64) (k : Nat) :
    base + BitVec.ofNat 64 (k + 1) - 1 = base + BitVec.ofNat 64 k := by
  rw [← add_one, BitVec.add_sub_cancel]

/-- The loop of `memmove`, with `k` bytes left. -/
theorem copyBackward_eq {k : Nat} (h : offsetOf s d + n ≤ 2 ^ 64) (hn : n < 2 ^ 64) (hk : k ≤ n) :
    copyBackward k (d + BitVec.ofNat 64 k) (s + BitVec.ofNat 64 k)
        ⟨overlay m d n (copiedFrom m d s k), log⟩ =
      ⟨overlay m d n fun j => m (s + BitVec.ofNat 64 j), log⟩ := by
  induction k with
  | zero => rfl
  | succ k ih =>
    rw [copyBackward, sub_one, sub_one]
    dsimp only
    rw [read_behind h (by omega), store8_overlay (by omega) (by omega), update_copiedFrom]
    exact ih (by omega)

/-- What `memmove` leaves of blocks in the address space. -/
theorem memmove_eq {n : BitVec 64} (dest src : Block n.toNat) (m : Memory) :
    (memmove dest.start src.start n ⟨m, []⟩).2.memory =
      overlay m dest.start n.toNat fun k => m (src.start + BitVec.ofNat 64 k) := by
  have hdest := dest.fits
  have hsrc := src.fits
  have hn := n.isLt
  rw [memmove]
  split
  · next hforward =>
    rw [BitVec.lt_def, BitVec.le_def, BitVec.toNat_add] at hforward
    have hahead : Ahead dest.start src.start n.toNat := by
      rw [Ahead, offsetOf, BitVec.toNat_sub]
      omega
    rw [memcpy_eq hahead]
  · next hbackward =>
    rw [BitVec.lt_def, BitVec.le_def, BitVec.toNat_add] at hbackward
    have hbehind : offsetOf src.start dest.start + n.toNat ≤ 2 ^ 64 := by
      rw [offsetOf, BitVec.toNat_sub]
      omega
    have hloop := @copyBackward_eq m dest.start src.start [] n.toNat n.toNat hbehind hn le_rfl
    have hself : overlay m dest.start n.toNat (copiedFrom m dest.start src.start n.toNat) = m :=
      (overlay_congr fun k hk => if_pos hk).trans (overlay_self m dest.start n.toNat)
    rw [hself, BitVec.ofNat_toNat, BitVec.setWidth_eq] at hloop
    rw [hloop]

end Move

/-- `memset` stores its byte in exactly the bytes at its destination; `memcpy` between disjoint runs
and `memmove` between any two blocks leave there the bytes of the source, and no other byte
changes. -/
theorem memory_functions_replace :
    (∀ dst val size m, Replaces m (memset dst val size ⟨m, []⟩).2.memory dst size.toNat
      fun _ => lowByte val) ∧
    (∀ (s1 s2 n : BitVec 64) m, (∀ j < n.toNat, ∀ k < n.toNat,
        s1 + BitVec.ofNat 64 j ≠ s2 + BitVec.ofNat 64 k) →
      Replaces m (memcpy s1 s2 n ⟨m, []⟩).2.memory s1 n.toNat
        fun k => m (s2 + BitVec.ofNat 64 k)) ∧
    ∀ (n : BitVec 64) (dest src : Block n.toNat) m,
      Replaces m (memmove dest.start src.start n ⟨m, []⟩).2.memory dest.start n.toNat
        fun k => m (src.start + BitVec.ofNat 64 k) := by
  refine ⟨fun dst val size m => ?_, fun s1 s2 n m hdisjoint => ?_, fun n dest src m => ?_⟩
  · rw [memset_eq]
    exact replaces_overlay m dst (fun _ => lowByte val) size.isLt.le
  · rw [memcpy_eq (ahead_of_disjoint hdisjoint)]
    exact replaces_overlay m s1 (fun k => m (s2 + BitVec.ofNat 64 k)) n.isLt.le
  · rw [memmove_eq]
    exact replaces_overlay m dest.start _ n.isLt.le

/-- Four bytes, between the addresses 0 and 16. -/
theorem memory_functions_replace_four :
    Replaces (fun a => UInt8.ofNat a.toNat)
      (memcpy 0 16 4 ⟨fun a => UInt8.ofNat a.toNat, []⟩).2.memory 0 4
      fun k => UInt8.ofNat (16 + BitVec.ofNat 64 k).toNat :=
  memory_functions_replace.2.1 0 16 4 _ (by decide)

end RPiKernel.Crt
