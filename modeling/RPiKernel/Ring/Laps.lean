import Mathlib.Algebra.Order.Group.Nat
import Mathlib.Logic.Function.Basic

/-!
# Rings whose slots carry the parity of the lap

A producer writes items into a ring of `n` slots, item `k` into slot `k % n`, and marks each
item with the parity of its lap. `Holds` says what the slots are after `w` items.
`Holds.mark_iff_lt` is the rule a consumer relies on: the mark alone tells whether the next
slot has been written.
-/

namespace RPiKernel.Ring

/-- The mark of the items of a lap: set on the first lap, and inverted on every wrap. -/
def lap (n k : Nat) : Bool := k / n % 2 == 0

section Lap

variable {n k : Nat}

theorem lap_of_lt (h : k < n) : lap n k = true := by
  rw [lap, Nat.div_eq_of_lt h]
  rfl

theorem lap_add_self (hn : 0 < n) (k : Nat) : lap n (k + n) = !lap n k := by
  rw [lap, lap, Nat.add_div_right k hn, Bool.eq_iff_iff]
  simp only [beq_iff_eq, Bool.not_eq_true', beq_eq_false_iff_ne]
  omega

/-- The lap changes when the slots begin anew. -/
theorem lap_succ (n k : Nat) :
    lap n (k + 1) = if (k + 1) % n = 0 then !lap n k else lap n k := by
  have hsucc : (k + 1) / n = if (k + 1) % n = 0 then k / n + 1 else k / n := by
    rw [Nat.succ_div]
    simp only [Nat.dvd_iff_mod_eq_zero]
    split
    · rfl
    · rfl
  rw [lap, lap, hsucc]
  split
  · rw [Bool.eq_iff_iff]
    simp only [beq_iff_eq, Bool.not_eq_true', beq_eq_false_iff_ne]
    omega
  · rfl

/-- Two items less than a lap apart share no slot. -/
theorem eq_of_mod_eq {a b : Nat} (hle : a ≤ b) (hlt : b < a + n) (hmod : a % n = b % n) :
    a = b := by
  have hsub : (b - a) % n = 0 := Nat.sub_mod_eq_zero_of_mod_eq hmod.symm
  rw [Nat.mod_eq_of_lt (by omega)] at hsub
  omega

end Lap

/-- The slots of a ring after `w` items: the last `n` of them, and unmarked slots where none
has been written. -/
structure Holds {α : Type*} (n : Nat) (mark : α → Bool) (item : Nat → α) (slots : Nat → α)
    (w : Nat) : Prop where
  recent : ∀ k, k < w → w ≤ k + n → slots (k % n) = item k
  blank : ∀ i, w ≤ i → i < n → mark (slots i) = false

namespace Holds

variable {α : Type*} {n w : Nat} {mark : α → Bool} {item : Nat → α} {slots : Nat → α}

/-- A ring that has been cleared holds nothing. -/
theorem initial (h : ∀ i, i < n → mark (slots i) = false) : Holds n mark item slots 0 where
  recent := fun _ hk => absurd hk (Nat.not_lt_zero _)
  blank := fun i _ hi => h i hi

/-- The next item is written over the one a lap before it. -/
theorem push (h : Holds n mark item slots w) :
    Holds n mark item (Function.update slots (w % n) (item w)) (w + 1) where
  recent := by
    intro k hk hle
    rcases Nat.lt_succ_iff_lt_or_eq.mp hk with hlt | rfl
    · have hne : k % n ≠ w % n := by
        intro hmod
        have heq : k = w := eq_of_mod_eq hlt.le (by omega) hmod
        omega
      rw [Function.update_of_ne hne]
      exact h.recent k hlt (by omega)
    · rw [Function.update_self]
  blank := by
    intro i hle hi
    have hne : i ≠ w % n := by
      rw [Nat.mod_eq_of_lt (by omega)]
      omega
    rw [Function.update_of_ne hne]
    exact h.blank i (by omega) hi

/-- The slot that comes next does not carry the mark of the current lap. -/
theorem mark_next (hn : 0 < n) (hmark : ∀ k, mark (item k) = lap n k)
    (h : Holds n mark item slots w) : mark (slots (w % n)) = !lap n w := by
  rcases Nat.lt_or_ge w n with hlt | hge
  · rw [Nat.mod_eq_of_lt hlt, h.blank w le_rfl hlt, lap_of_lt hlt]
    rfl
  · obtain ⟨k, rfl⟩ := Nat.exists_eq_add_of_le' hge
    rw [Nat.add_mod_right, h.recent k (by omega) le_rfl, hmark, lap_add_self hn, Bool.not_not]

/-- A consumer that is at most a lap behind finds the mark of its lap exactly in the slots
that have been written. -/
theorem mark_iff_lt (hn : 0 < n) (hmark : ∀ k, mark (item k) = lap n k)
    (h : Holds n mark item slots w) {k : Nat} (hle : k ≤ w) (hlap : w ≤ k + n) :
    mark (slots (k % n)) = lap n k ↔ k < w := by
  constructor
  · intro heq
    rcases hle.lt_or_eq with hlt | rfl
    · exact hlt
    · rw [h.mark_next hn hmark] at heq
      exact absurd heq (Bool.not_ne_self _)
  · intro hlt
    rw [h.recent k hlt hlap, hmark]

end Holds

end RPiKernel.Ring
