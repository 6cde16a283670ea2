import Mathlib.Data.BitVec

/-!
# Masks of address bits

The address bits of a range whose size is a power of two are those from the exponent on. A register
that holds them has fixed bits below, takes only them from what is written to it, and gives its
size away when it is written with ones.
-/

namespace RPiKernel.Machine

/-- The bits of a word from one on. -/
def onesFrom (w k : Nat) : BitVec w := BitVec.allOnes w <<< k

/-- A register by the bits of it that can be written and the values of the other ones. -/
structure MaskedRegister (w : Nat) where
  writable : BitVec w
  fixed : BitVec w

/-- What a register holds after a write. -/
def MaskedRegister.take {w : Nat} (register : MaskedRegister w) (value : BitVec w) : BitVec w :=
  value &&& register.writable ||| register.fixed

section

variable {w k n : Nat} {fixed value : BitVec w}

theorem getLsbD_onesFrom (i : Nat) :
    (onesFrom w k).getLsbD i = (decide (i < w) && decide (k ≤ i)) := by
  rw [onesFrom, BitVec.getLsbD_shiftLeft, BitVec.getLsbD_allOnes]
  by_cases hk : k ≤ i
  · by_cases hi : i < w
    · simp [hk, hi, Nat.not_lt.mpr hk, Nat.lt_of_le_of_lt (Nat.sub_le i k) hi]
    · simp [hi]
  · simp [hk, Nat.lt_of_not_le hk]

theorem toNat_onesFrom (hk : k ≤ w) : (onesFrom w k).toNat = 2 ^ w - 2 ^ k := by
  have hpow : 2 ^ k ≤ 2 ^ w := Nat.pow_le_pow_right Nat.two_pos hk
  have hpos : 0 < 2 ^ k := Nat.two_pow_pos k
  have hsplit : (2 ^ w - 1) * 2 ^ k = 2 ^ w * (2 ^ k - 1) + (2 ^ w - 2 ^ k) := by
    have hle : 2 ^ w ≤ 2 ^ w * 2 ^ k := Nat.le_mul_of_pos_right _ hpos
    rw [Nat.sub_mul, Nat.mul_sub, Nat.one_mul, Nat.mul_one]
    omega
  rw [onesFrom, BitVec.toNat_shiftLeft, BitVec.toNat_allOnes, Nat.shiftLeft_eq, hsplit,
    Nat.mul_add_mod, Nat.mod_eq_of_lt (Nat.sub_lt (Nat.two_pow_pos w) hpos)]

/-- The size of a range from its address bits. -/
theorem size_of_onesFrom (hk : k < w) : (~~~(onesFrom w k) + 1).toNat = 2 ^ k := by
  have hpow : 2 ^ k < 2 ^ w := Nat.pow_lt_pow_right Nat.one_lt_two hk
  have hneg : ~~~(onesFrom w k) + 1 = -onesFrom w k := (BitVec.neg_eq_not_add _).symm
  rw [hneg, BitVec.toNat_neg, toNat_onesFrom hk.le, Nat.sub_sub_self hpow.le,
    Nat.mod_eq_of_lt hpow]

theorem onesFrom_and (hn : n ≤ k) : onesFrom w k &&& onesFrom w n = onesFrom w k := by
  apply BitVec.eq_of_getLsbD_eq
  intro i _
  rw [BitVec.getLsbD_and, getLsbD_onesFrom, getLsbD_onesFrom]
  by_cases hk : k ≤ i
  · simp [hk, Nat.le_trans hn hk]
  · simp [hk]

/-- Bits below the address bits are cut off by a mask. -/
theorem onesFrom_or_and (hn : n ≤ k) (hfixed : fixed &&& onesFrom w n = 0) :
    (onesFrom w k ||| fixed) &&& onesFrom w n = onesFrom w k := by
  rw [BitVec.and_or_distrib_right, onesFrom_and hn, hfixed]
  exact BitVec.or_zero

/-- The address bits of a word, put together from those of its halves. -/
theorem onesFrom_halves :
    (onesFrom w (k - w)).setWidth (w + w) <<< w + (onesFrom w k).setWidth (w + w) =
      onesFrom (w + w) k := by
  have hbits : ∀ i, ((onesFrom w (k - w)).setWidth (w + w) <<< w).getLsbD i =
      (decide (i < w + w) && decide (w ≤ i) && decide (k ≤ i)) ∧
      ((onesFrom w k).setWidth (w + w)).getLsbD i = (decide (i < w) && decide (k ≤ i)) := by
    intro i
    rw [BitVec.getLsbD_shiftLeft, BitVec.getLsbD_setWidth, BitVec.getLsbD_setWidth,
      getLsbD_onesFrom, getLsbD_onesFrom]
    constructor <;> grind
  rw [BitVec.add_eq_or_of_and_eq_zero]
  · apply BitVec.eq_of_getLsbD_eq
    intro i hi
    rw [BitVec.getLsbD_or, (hbits i).1, (hbits i).2, getLsbD_onesFrom]
    grind
  · apply BitVec.eq_of_getLsbD_eq
    intro i hi
    rw [BitVec.getLsbD_and, (hbits i).1, (hbits i).2]
    grind

/-- A register takes what it holds as it is. -/
theorem take_take (register : MaskedRegister w) :
    register.take (register.take value) = register.take value := by
  apply BitVec.eq_of_getLsbD_eq
  intro i _
  simp only [MaskedRegister.take, BitVec.getLsbD_or, BitVec.getLsbD_and]
  grind

/-- The bits outside those that can be written are the fixed ones. -/
theorem take_and {register : MaskedRegister w} {mask : BitVec w}
    (hmask : register.writable &&& mask = 0) :
    register.take value &&& mask = register.fixed &&& mask := by
  rw [MaskedRegister.take, BitVec.and_or_distrib_right, BitVec.and_assoc, hmask]
  simp

theorem take_allOnes (register : MaskedRegister w) :
    register.take (BitVec.allOnes w) = register.writable ||| register.fixed := by
  rw [MaskedRegister.take, BitVec.allOnes_and]

end

end RPiKernel.Machine
