import Mathlib.Algebra.Order.Group.Nat
import RPiKernel.Interleaving.Program

/-!
# Fixed-width arithmetic

Unsigned 32-bit values are natural numbers below `2 ^ 32` with the reduction
written out. Unsigned 64-bit words are bit vectors; their shifts are undefined
for amounts of 64 and more. `countrOne` and `countrZero` count the ones and
zeros at the low end of a word.
-/

namespace RPiKernel.Machine

open Interleaving

/-- The largest unsigned 32-bit value. -/
def uint32Max : Nat := 4294967295

/-- Addition of unsigned 32-bit values. -/
def add32 (a b : Nat) : Nat := (a + b) % 4294967296

/-- Subtraction of unsigned 32-bit values. -/
def sub32 (a b : Nat) : Nat := (a + 4294967296 - b) % 4294967296

/-- Multiplication of unsigned 32-bit values. -/
def mul32 (a b : Nat) : Nat := a * b % 4294967296

/-- Bitwise complement of an unsigned 32-bit value. -/
def not32 (a : Nat) : Nat := uint32Max - a

theorem add32_of_lt {a b : Nat} (h : a + b < 4294967296) : add32 a b = a + b :=
  Nat.mod_eq_of_lt h

theorem sub32_of_le {a b : Nat} (hb : b ≤ a) (ha : a < 4294967296) : sub32 a b = a - b := by
  unfold sub32
  omega

theorem mul32_of_lt {a b : Nat} (h : a * b < 4294967296) : mul32 a b = a * b :=
  Nat.mod_eq_of_lt h

/-- A power of two that fits into 32 bits. -/
def IsPowerOfTwo (a : Nat) : Prop := ∃ k, k < 32 ∧ a = 2 ^ k

instance (a : Nat) : Decidable (IsPowerOfTwo a) :=
  inferInstanceAs (Decidable (∃ k, k < 32 ∧ a = 2 ^ k))

theorem IsPowerOfTwo.pos {a : Nat} (h : IsPowerOfTwo a) : 0 < a := by
  obtain ⟨k, -, rfl⟩ := h
  exact Nat.two_pow_pos k

theorem IsPowerOfTwo.le {a : Nat} (h : IsPowerOfTwo a) : a ≤ 2147483648 := by
  obtain ⟨k, hk, rfl⟩ := h
  exact Nat.pow_le_pow_right Nat.two_pos (by omega : k ≤ 31)

/-- The test `x & (a - 1)` for a power of two `a` is the remainder. -/
theorem IsPowerOfTwo.and_pred {a : Nat} (h : IsPowerOfTwo a) (x : Nat) :
    x &&& (a - 1) = x % a := by
  obtain ⟨k, -, rfl⟩ := h
  exact Nat.and_two_pow_sub_one_eq_mod x k

/-- The test `x & (x - 1)` finds the powers of two. -/
theorem isPowerOfTwo_of_and_pred {a : Nat} (hne : a ≠ 0) (hlt : a < 4294967296)
    (h : a &&& (a - 1) = 0) : IsPowerOfTwo a := by
  obtain ⟨k, rfl⟩ := (Nat.and_sub_one_eq_zero_iff_isPowerOfTwo hne).mp h
  refine ⟨k, ?_, rfl⟩
  have hpow : 2 ^ k < 2 ^ 32 := hlt
  exact (Nat.pow_lt_pow_iff_right (by decide)).mp hpow

/-- A power of two divides 64 or is a multiple of it. -/
theorem IsPowerOfTwo.dvd_or_dvd {a : Nat} (h : IsPowerOfTwo a) : a ∣ 64 ∨ 64 ∣ a := by
  obtain ⟨k, -, rfl⟩ := h
  rcases Nat.le_total k 6 with hk | hk
  · exact Or.inl (Nat.pow_dvd_pow 2 hk)
  · exact Or.inr (Nat.pow_dvd_pow 2 hk)

/-- Clearing the low bits of `x` below a power of two `a` rounds down to a multiple. -/
theorem IsPowerOfTwo.and_not_pred {a x : Nat} (h : IsPowerOfTwo a) (hx : x < 4294967296) :
    x &&& not32 (a - 1) = x / a * a := by
  obtain ⟨k, hk, rfl⟩ := h
  have hmask : not32 (2 ^ k - 1) = (2 ^ (32 - k) - 1) <<< k := by
    have hsplit : 2 ^ (32 - k) * 2 ^ k = 2 ^ 32 := by
      rw [← Nat.pow_add]
      congr 1
      omega
    have hpos := Nat.two_pow_pos k
    rw [Nat.shiftLeft_eq, Nat.sub_mul, hsplit]
    simp only [not32, uint32Max]
    omega
  have hround : x / 2 ^ k * 2 ^ k = (x >>> k) <<< k := by
    rw [Nat.shiftRight_eq_div_pow, Nat.shiftLeft_eq]
  rw [hmask, hround]
  apply Nat.eq_of_testBit_eq
  intro i
  simp only [Nat.testBit_and, Nat.testBit_shiftLeft, Nat.testBit_two_pow_sub_one,
    Nat.testBit_shiftRight]
  by_cases hki : k ≤ i
  · have hadd : k + (i - k) = i := by omega
    simp only [hki, decide_true, Bool.true_and, hadd]
    by_cases hi : i < 32
    · have hlt : i - k < 32 - k := by omega
      simp [hlt]
    · have hbit : x.testBit i = false :=
        Nat.testBit_lt_two_pow (hx.trans_le (Nat.pow_le_pow_right Nat.two_pos (by omega : 32 ≤ i)))
      simp [hbit]
  · simp [hki]

/-- The word of all ones. -/
def uint64Max : BitVec 64 := BitVec.allOnes 64

@[simp] theorem getLsbD_uint64Max (i : Nat) : uint64Max.getLsbD i = decide (i < 64) :=
  BitVec.getLsbD_allOnes

@[simp] theorem ok_bind {α β : Type} (a : α) (f : α → Except Fault β) :
    (Except.ok a >>= f) = f a := by
  simp only [bind, Except.bind]

section Words

variable {w : Nat}

/-- The left shift of the language, undefined from the width of the word on. -/
def shl (x : BitVec w) (n : Nat) : Except Fault (BitVec w) :=
  if n < w then .ok (x <<< n) else .error .undefinedShift

/-- The logical right shift of the language, undefined from the width of the word on. -/
def shr (x : BitVec w) (n : Nat) : Except Fault (BitVec w) :=
  if n < w then .ok (x >>> n) else .error .undefinedShift

@[simp] theorem shl_of_lt {x : BitVec w} {n : Nat} (h : n < w) : shl x n = .ok (x <<< n) :=
  if_pos h

@[simp] theorem shr_of_lt {x : BitVec w} {n : Nat} (h : n < w) : shr x n = .ok (x >>> n) :=
  if_pos h

/-- Count ones from position `i` on, at most `fuel` of them. -/
def countOnesFrom (x : BitVec w) : Nat → Nat → Nat
  | 0, i => i
  | fuel + 1, i => if x.getLsbD i then countOnesFrom x fuel (i + 1) else i

/-- The number of consecutive ones at the low end of a word. -/
def countrOne (x : BitVec w) : Nat := countOnesFrom x w 0

/-- The number of consecutive zeros at the low end of a word. -/
def countrZero (x : BitVec w) : Nat := countrOne (~~~x)

theorem countOnesFrom_spec (x : BitVec w) (fuel i : Nat) (hi : i + fuel = w) :
    i ≤ countOnesFrom x fuel i ∧ countOnesFrom x fuel i ≤ w ∧
      (∀ j, i ≤ j → j < countOnesFrom x fuel i → x.getLsbD j = true) ∧
      x.getLsbD (countOnesFrom x fuel i) = false := by
  induction fuel generalizing i with
  | zero =>
      refine ⟨le_rfl, by simp only [countOnesFrom]; omega, fun j h₁ h₂ => ?_, ?_⟩
      · simp only [countOnesFrom] at h₂
        omega
      · exact BitVec.getLsbD_of_ge x _ (by simp only [countOnesFrom]; omega)
  | succ fuel ih =>
      cases hb : x.getLsbD i with
      | false =>
          simp only [countOnesFrom, hb, Bool.false_eq_true, if_false]
          exact ⟨le_rfl, by omega, fun j h₁ h₂ => by omega, trivial⟩
      | true =>
          simp only [countOnesFrom, hb, if_true]
          obtain ⟨h₁, h₂, h₃, h₄⟩ := ih (i + 1) (by omega)
          refine ⟨by omega, h₂, fun j hj hlt => ?_, h₄⟩
          rcases Nat.eq_or_lt_of_le hj with rfl | hj
          · exact hb
          · exact h₃ j hj hlt

theorem getLsbD_of_lt_countrOne {x : BitVec w} {j : Nat} (hj : j < countrOne x) :
    x.getLsbD j = true :=
  (countOnesFrom_spec x w 0 (by omega)).2.2.1 j (Nat.zero_le j) hj

theorem getLsbD_countrOne (x : BitVec w) : x.getLsbD (countrOne x) = false :=
  (countOnesFrom_spec x w 0 (by omega)).2.2.2

/-- The count is the only position after a run of ones that holds no one. -/
theorem countrOne_eq {x : BitVec w} {n : Nat} (hones : ∀ j, j < n → x.getLsbD j = true)
    (hstop : x.getLsbD n = false) : countrOne x = n := by
  rcases Nat.lt_trichotomy (countrOne x) n with h | h | h
  · have := hones _ h
    rw [getLsbD_countrOne] at this
    exact absurd this (by decide)
  · exact h
  · rw [getLsbD_of_lt_countrOne h] at hstop
    exact absurd hstop (by decide)

theorem getLsbD_of_lt_countrZero {x : BitVec w} {j : Nat} (hj : j < countrZero x) :
    x.getLsbD j = false := by
  have h := getLsbD_of_lt_countrOne hj
  simp only [BitVec.getLsbD_not, Bool.and_eq_true, Bool.not_eq_true'] at h
  exact h.2

theorem getLsbD_countrZero {x : BitVec w} (h : countrZero x < w) :
    x.getLsbD (countrZero x) = true := by
  have hs := getLsbD_countrOne (~~~x)
  change (~~~x).getLsbD (countrZero x) = false at hs
  simpa [BitVec.getLsbD_not, h] using hs

/-- A word with a one somewhere has fewer zeros at its low end than bits. -/
theorem countrZero_le_of_getLsbD {x : BitVec w} {j : Nat} (hj : x.getLsbD j = true) :
    countrZero x ≤ j := by
  by_contra hlt
  rw [getLsbD_of_lt_countrZero (by omega)] at hj
  exact absurd hj (by decide)

theorem lt_of_getLsbD {x : BitVec w} {j : Nat} (hj : x.getLsbD j = true) : j < w := by
  by_contra hge
  rw [BitVec.getLsbD_of_ge x j (by omega)] at hj
  exact absurd hj (by decide)

end Words

end RPiKernel.Machine
