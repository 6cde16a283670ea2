import Mathlib.Order.Basic
import Mathlib.Tactic.Common

/-!
# The serpentine of a grid

The cells of a grid in the order of a path that goes through its rows, every second one from the
right to the left. Cells that follow each other lie beside each other, and no cell comes twice.
-/

namespace RPiKernel.Grid

/-- Two cells that share a side. -/
def Beside (p q : Nat × Nat) : Prop :=
  (p.1 = q.1 ∧ (p.2 + 1 = q.2 ∨ q.2 + 1 = p.2)) ∨ (p.2 = q.2 ∧ (p.1 + 1 = q.1 ∨ q.1 + 1 = p.1))

theorem Beside.symm {p q : Nat × Nat} (h : Beside p q) : Beside q p := by
  rcases h with ⟨hx, hy⟩ | ⟨hy, hx⟩
  · exact Or.inl ⟨hx.symm, hy.symm⟩
  · exact Or.inr ⟨hy.symm, hx.symm⟩

/-- The column of a place in a row, which goes to the right in the even rows. -/
def column (width row place : Nat) : Nat := if row % 2 = 0 then place else width - 1 - place

/-- The cell with a number on the path through a grid of some width. -/
def serpentine (width k : Nat) : Nat × Nat := (column width (k / width) (k % width), k / width)

section Path

variable {width : Nat}

theorem column_lt {row place : Nat} (h : place < width) : column width row place < width := by
  unfold column
  split <;> omega

/-- A column and its place in the row determine each other. -/
theorem column_column (row : Nat) {place : Nat} (h : place < width) :
    column width row (column width row place) = place := by
  unfold column
  split <;> omega

theorem serpentine_fst_lt (hwidth : 0 < width) (k : Nat) : (serpentine width k).1 < width :=
  column_lt (Nat.mod_lt k hwidth)

/-- The number behind one at the end of a row begins the next one. -/
theorem div_mod_succ (hwidth : 0 < width) (k : Nat) :
    (k % width + 1 < width ∧ (k + 1) / width = k / width ∧ (k + 1) % width = k % width + 1) ∨
    (k % width + 1 = width ∧ (k + 1) / width = k / width + 1 ∧ (k + 1) % width = 0) := by
  have hmod := Nat.mod_lt k hwidth
  have hsplit := Nat.div_add_mod k width
  by_cases hend : k % width + 1 < width
  · refine Or.inl ⟨hend, ?_⟩
    have hnext : k + 1 = (k % width + 1) + width * (k / width) := by omega
    rw [hnext, Nat.add_mul_div_left _ _ hwidth, Nat.add_mul_mod_self_left,
      Nat.div_eq_of_lt hend, Nat.mod_eq_of_lt hend]
    exact ⟨Nat.zero_add _, rfl⟩
  · have hlast : k % width + 1 = width := by omega
    refine Or.inr ⟨hlast, ?_⟩
    have hnext : k + 1 = 0 + width * (k / width + 1) := by
      rw [Nat.mul_succ]
      omega
    rw [hnext, Nat.add_mul_div_left _ _ hwidth, Nat.add_mul_mod_self_left, Nat.zero_div,
      Nat.zero_mod]
    exact ⟨Nat.zero_add _, rfl⟩

/-- Cells that follow each other lie beside each other. -/
theorem serpentine_beside (hwidth : 0 < width) (k : Nat) :
    Beside (serpentine width k) (serpentine width (k + 1)) := by
  have hmod := Nat.mod_lt k hwidth
  rcases div_mod_succ hwidth k with ⟨hlt, hdiv, hmod'⟩ | ⟨hlast, hdiv, hmod'⟩
  · refine Or.inr ⟨hdiv.symm, ?_⟩
    simp only [serpentine, hdiv, hmod', column]
    split <;> omega
  · refine Or.inl ⟨?_, Or.inl hdiv.symm⟩
    simp only [serpentine, hdiv, hmod', column]
    split <;> split <;> omega

/-- No cell comes twice. -/
theorem serpentine_injective (hwidth : 0 < width) : (serpentine width).Injective := by
  intro j k h
  obtain ⟨hcolumn, hrow⟩ := Prod.mk.inj h
  rw [hrow] at hcolumn
  have hplace : j % width = k % width := by
    rw [← column_column (k / width) (Nat.mod_lt j hwidth), hcolumn,
      column_column (k / width) (Nat.mod_lt k hwidth)]
  rw [← Nat.div_add_mod j width, ← Nat.div_add_mod k width, hrow, hplace]

/-- Every cell of the grid is on the path. -/
theorem exists_serpentine_eq {p : Nat × Nat} (h : p.1 < width) :
    ∃ k, serpentine width k = p ∧ k / width = p.2 := by
  have hwidth : 0 < width := by omega
  have hplace : column width p.2 p.1 < width := column_lt h
  have hdiv : (column width p.2 p.1 + width * p.2) / width = p.2 := by
    rw [Nat.add_mul_div_left _ _ hwidth, Nat.div_eq_of_lt hplace, Nat.zero_add]
  refine ⟨column width p.2 p.1 + width * p.2, ?_, hdiv⟩
  rw [serpentine, hdiv, Nat.add_mul_mod_self_left, Nat.mod_eq_of_lt hplace, column_column p.2 h]

end Path

end RPiKernel.Grid
