import Mathlib.Data.BitVec
import RPiKernel.Machine.BitFields

/-!
# Memory of bytes

A memory has one byte at each 64-bit address. Runs of bytes are addressed by their offset
from a base, modulo `2 ^ 64`, so that no lemma here asks where in the address space a run
lies. `overlay` replaces a run; `Replaces` says the same byte by byte.
-/

namespace RPiKernel.Machine

/-- The bytes of an address space. -/
abbrev Memory := BitVec 64 → UInt8

/-- The distance from a base up to an address, modulo `2 ^ 64`. -/
def offsetOf (base a : BitVec 64) : Nat := (a - base).toNat

/-- The memory with the `n` bytes from `base` on replaced by `f`. -/
def overlay (m : Memory) (base : BitVec 64) (n : Nat) (f : Nat → UInt8) : Memory := fun a =>
  if offsetOf base a < n then f (offsetOf base a) else m a

/-- A byte of a little-endian word. -/
def byteOf (word k : Nat) : UInt8 := UInt8.ofNat (extract (8 * k) 8 word)

/-- The store of a byte. -/
def store8 (m : Memory) (a : BitVec 64) (value : UInt8) : Memory := overlay m a 1 fun _ => value

/-- The store of a little-endian word of two bytes. -/
def store16 (m : Memory) (a : BitVec 64) (word : Nat) : Memory := overlay m a 2 (byteOf word)

/-- The store of a little-endian word of eight bytes. -/
def store64 (m : Memory) (a : BitVec 64) (word : Nat) : Memory := overlay m a 8 (byteOf word)

/-- The little-endian word of eight bytes at an address. -/
def load64 (m : Memory) (a : BitVec 64) : Nat :=
  pack ((List.range 8).map fun k => (8, (m (a + BitVec.ofNat 64 k)).toNat))

/-- A memory differs from another one in the `n` bytes from `base` on, which are those of `f`. -/
structure Replaces (m m' : Memory) (base : BitVec 64) (n : Nat) (f : Nat → UInt8) : Prop where
  inside : ∀ k < n, m' (base + BitVec.ofNat 64 k) = f k
  outside : ∀ a, (∀ k < n, a ≠ base + BitVec.ofNat 64 k) → m' a = m a

section Offset

variable {base a : BitVec 64} {i j k n : Nat}

theorem offsetOf_lt (base a : BitVec 64) : offsetOf base a < 2 ^ 64 := (a - base).isLt

theorem offsetOf_add (hk : k < 2 ^ 64) : offsetOf base (base + BitVec.ofNat 64 k) = k := by
  rw [offsetOf, BitVec.add_comm, BitVec.add_sub_cancel, BitVec.toNat_ofNat]
  exact Nat.mod_eq_of_lt hk

theorem add_offsetOf (base a : BitVec 64) : base + BitVec.ofNat 64 (offsetOf base a) = a := by
  rw [offsetOf, BitVec.ofNat_toNat, BitVec.setWidth_eq, BitVec.add_comm, BitVec.sub_add_cancel]

theorem add_add (base : BitVec 64) (i j : Nat) :
    base + BitVec.ofNat 64 i + BitVec.ofNat 64 j = base + BitVec.ofNat 64 (i + j) := by
  rw [BitVec.add_assoc, BitVec.ofNat_add]

/-- The offset from a base that is moved up. -/
theorem offsetOf_moved (hi : i < 2 ^ 64) :
    offsetOf (base + BitVec.ofNat 64 i) a =
      if i ≤ offsetOf base a then offsetOf base a - i else offsetOf base a + 2 ^ 64 - i := by
  have hlt := offsetOf_lt base a
  rw [offsetOf, sub_add_eq_sub_sub, BitVec.toNat_sub, BitVec.toNat_ofNat, Nat.mod_eq_of_lt hi]
  change (2 ^ 64 - i + offsetOf base a) % 2 ^ 64 = _
  split
  · omega
  · omega

end Offset

section Overlay

variable {m m' : Memory} {base : BitVec 64} {f g : Nat → UInt8} {i j k n : Nat}

@[simp] theorem overlay_zero (m : Memory) (base : BitVec 64) (f : Nat → UInt8) :
    overlay m base 0 f = m :=
  funext fun _ => if_neg (Nat.not_lt_zero _)

theorem overlay_inside (hk : k < n) (hn : k < 2 ^ 64) :
    overlay m base n f (base + BitVec.ofNat 64 k) = f k := by
  rw [overlay, offsetOf_add hn, if_pos hk]

theorem overlay_congr (h : ∀ k < n, f k = g k) : overlay m base n f = overlay m base n g := by
  funext a
  rw [overlay, overlay]
  split
  · next hlt => exact h _ hlt
  · rfl

/-- A run, and the run behind it. -/
theorem overlay_append (h : i + j ≤ 2 ^ 64) :
    overlay (overlay m base i f) (base + BitVec.ofNat 64 i) j (fun k => f (i + k)) =
      overlay m base (i + j) f := by
  funext a
  have hlt := offsetOf_lt base a
  obtain hi | rfl := (by omega : i < 2 ^ 64 ∨ i = 2 ^ 64)
  · rw [overlay, overlay, overlay, offsetOf_moved hi]
    by_cases hle : i ≤ offsetOf base a
    · rw [if_pos hle, if_neg (not_lt.mpr hle)]
      refine if_congr (by omega) ?_ rfl
      rw [Nat.add_sub_cancel' hle]
    · rw [if_neg hle, if_neg (by omega), if_pos (not_le.mp hle), if_pos (by omega)]
  · obtain rfl : j = 0 := by omega
    rw [overlay_zero, Nat.add_zero]

/-- A byte behind a run. -/
theorem overlay_succ (m : Memory) (base : BitVec 64) (f : Nat → UInt8) (h : n < 2 ^ 64) :
    store8 (overlay m base n f) (base + BitVec.ofNat 64 n) (f n) = overlay m base (n + 1) f := by
  rw [← overlay_append (by omega : n + 1 ≤ 2 ^ 64), store8]
  exact overlay_congr fun _ hk => by rw [Nat.lt_one_iff.mp hk, Nat.add_zero]

/-- A word behind a run. -/
theorem overlay_word (m : Memory) (base : BitVec 64) {word : Nat} (h : n + 8 ≤ 2 ^ 64)
    (hword : ∀ k < 8, byteOf word k = f (n + k)) :
    store64 (overlay m base n f) (base + BitVec.ofNat 64 n) word = overlay m base (n + 8) f := by
  rw [← overlay_append h, store64]
  exact overlay_congr hword

/-- A byte within a run. -/
theorem store8_overlay (hk : k < n) (hn : k < 2 ^ 64) (value : UInt8) :
    store8 (overlay m base n f) (base + BitVec.ofNat 64 k) value =
      overlay m base n (Function.update f k value) := by
  funext a
  have hlt := offsetOf_lt base a
  rw [store8, overlay, overlay, overlay, offsetOf_moved hn]
  by_cases heq : offsetOf base a = k
  · rw [if_pos heq.ge, if_pos (by omega), if_pos (by omega), heq, Function.update_self]
  · rw [Function.update_of_ne heq, if_neg]
    split
    · omega
    · omega

/-- A run that is replaced by itself. -/
theorem overlay_self (m : Memory) (base : BitVec 64) (n : Nat) :
    overlay m base n (fun k => m (base + BitVec.ofNat 64 k)) = m := by
  funext a
  rw [overlay]
  split
  · exact congrArg m (add_offsetOf base a)
  · rfl

theorem replaces_overlay (m : Memory) (base : BitVec 64) (f : Nat → UInt8) (hn : n ≤ 2 ^ 64) :
    Replaces m (overlay m base n f) base n f where
  inside _ hk := overlay_inside hk (hk.trans_le hn)
  outside a ha := if_neg fun hlt => ha _ hlt (add_offsetOf base a).symm

end Overlay

section Word

theorem byteOf_toNat (value : UInt8) : UInt8.ofNat (value.toNat % 2 ^ 8) = value := by
  rw [Nat.mod_eq_of_lt value.toNat_lt, UInt8.ofNat_toNat]

/-- A byte of a word that is packed from bytes. -/
theorem byteOf_pack (value : Nat → Nat) {n k : Nat} (hk : k < n) :
    byteOf (pack ((List.range n).map fun k => (8, value k))) k = UInt8.ofNat (value k % 2 ^ 8) := by
  obtain ⟨after, hsplit⟩ : ∃ after, List.range n = List.range k ++ k :: after := by
    obtain ⟨rest, rfl⟩ : ∃ rest, n = k + (rest + 1) := ⟨n - 1 - k, by omega⟩
    rw [List.range_add, List.range_succ_eq_map, List.map_cons]
    exact ⟨_, rfl⟩
  have hread := extract_pack_append ((List.range k).map fun k => (8, value k)) 8 (value k)
    (after.map fun k => (8, value k))
  rw [widthOf_map, List.length_range] at hread
  rw [byteOf, hsplit, List.map_append, List.map_cons, hread]

/-- A byte of a word that is read from memory. -/
theorem byteOf_load64 (m : Memory) (a : BitVec 64) {k : Nat} (hk : k < 8) :
    byteOf (load64 m a) k = m (a + BitVec.ofNat 64 k) := by
  rw [load64, byteOf_pack _ hk, byteOf_toNat]

end Word

end RPiKernel.Machine
