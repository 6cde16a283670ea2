import Mathlib.Algebra.Ring.Defs
import Mathlib.Data.Nat.Init
import Mathlib.Logic.Function.Iterate
import Mathlib.Tactic.Ring

/-!
# Congruential generators

An affine map whose factor is one more than a multiple of four and whose increment is odd reaches
every element of a ring where `2 ^ n` is zero, from every element, in less than `2 ^ n` steps
(`exists_iterate_eq`). The argument goes by the low bits: `2 ^ k` steps change bit `k` and no
lower one.
-/

namespace RPiKernel.Machine

variable {R : Type*} [CommRing R]

/-- `2 ^ k` steps of an affine map. -/
theorem exists_iterate_two_pow {f : R → R} {t s : R} (hf : ∀ x, f x = (1 + 4 * t) * x + (1 + 2 * s))
    (k : Nat) :
    ∃ t' s' : R, ∀ x, f^[2 ^ k] x = (1 + 2 ^ (k + 2) * t') * x + 2 ^ k * (1 + 2 * s') := by
  induction k with
  | zero =>
      refine ⟨t, s, fun x => ?_⟩
      rw [pow_zero, Function.iterate_one, hf]
      ring
  | succ k ih =>
      obtain ⟨t', s', ih⟩ := ih
      refine ⟨t' + 2 ^ (k + 1) * t' ^ 2, s' + 2 ^ k * t' * (1 + 2 * s'), fun x => ?_⟩
      calc
        f^[2 ^ (k + 1)] x = f^[2 ^ k] (f^[2 ^ k] x) := by
          rw [pow_succ, Nat.mul_two, Function.iterate_add_apply]
        _ = (1 + 2 ^ (k + 2) * t') * ((1 + 2 ^ (k + 2) * t') * x + 2 ^ k * (1 + 2 * s')) +
            2 ^ k * (1 + 2 * s') := by rw [ih, ih]
        _ = _ := by ring

/-- Every element is reached up to its low bits. -/
theorem exists_iterate_eq_add {f : R → R} {t s : R}
    (hf : ∀ x, f x = (1 + 4 * t) * x + (1 + 2 * s)) (heven : ∀ u : R, ∃ v, u = 2 * v ∨ u = 1 + 2 * v)
    (x y : R) (k : Nat) : ∃ m < 2 ^ k, ∃ u, f^[m] x = y + 2 ^ k * u := by
  induction k with
  | zero => exact ⟨0, Nat.one_pos, x - y, by rw [Function.iterate_zero, id]; ring⟩
  | succ k ih =>
      obtain ⟨m, hm, u, hu⟩ := ih
      have hdouble : 2 ^ (k + 1) = 2 ^ k + 2 ^ k := by rw [pow_succ, Nat.mul_two]
      obtain ⟨v, rfl | rfl⟩ := heven u
      · exact ⟨m, by omega, v, by rw [hu]; ring⟩
      · obtain ⟨t', s', hpow⟩ := exists_iterate_two_pow hf k
        refine ⟨2 ^ k + m, by omega, 1 + v + s' + 2 * t' * (y + 2 ^ k * (1 + 2 * v)), ?_⟩
        rw [Function.iterate_add_apply, hu, hpow]
        ring

/-- Every element is reached from every element. -/
theorem exists_iterate_eq {f : R → R} {t s : R} (hf : ∀ x, f x = (1 + 4 * t) * x + (1 + 2 * s))
    (heven : ∀ u : R, ∃ v, u = 2 * v ∨ u = 1 + 2 * v) {n : Nat} (hzero : (2 : R) ^ n = 0) (x y : R) :
    ∃ m < 2 ^ n, f^[m] x = y := by
  obtain ⟨m, hm, u, hu⟩ := exists_iterate_eq_add hf heven x y n
  exact ⟨m, hm, by rw [hu, hzero, zero_mul, add_zero]⟩

end RPiKernel.Machine
