import Mathlib.Data.List.Range
import RPiKernel.Snake.Game

/-!
# The tail as a list

`body` is the list of the cells of the tail. The loops over the array move it, search it and draw it
as a list, as long as it is not longer than the array.
-/

namespace RPiKernel.Snake

open Interleaving Machine

/-- The first cells of the tail. -/
def cells (tail : Nat → Cell) (n : Nat) : List Cell := (List.range n).map tail

/-- The cells of the tail. -/
def Game.body (g : Game) : List Cell := cells g.tail g.tailLength

section Cells

variable {tail : Nat → Cell} {n : Nat} {c : Cell}

@[simp] theorem length_cells : (cells tail n).length = n := by
  rw [cells, List.length_map, List.length_range]

theorem cells_succ : cells tail (n + 1) = cells tail n ++ [tail n] := by
  rw [cells, List.range_succ, List.map_append]
  rfl

theorem cells_congr {tail' : Nat → Cell} (h : ∀ i < n, tail i = tail' i) :
    cells tail n = cells tail' n := by
  unfold cells
  apply List.map_congr_left
  intro i hi
  exact h i (List.mem_range.mp hi)

/-- Another cell in front of all of the tail. -/
theorem cells_cons {tail' : Nat → Cell} (h₀ : tail' 0 = c) (h : ∀ i < n, tail' (i + 1) = tail i) :
    cells tail' (n + 1) = c :: cells tail n := by
  rw [cells, List.range_succ_eq_map, List.map_cons, List.map_map, h₀]
  congr 1
  apply List.map_congr_left
  intro i hi
  exact h i (List.mem_range.mp hi)

end Cells

section Loops

variable {tail : Nat → Cell} {head : Cell}

/-- The tail moves by an element, up to an index. -/
theorem moveTail_eq {i : Nat} (hi : i < tailSize) (tail : Nat → Cell) :
    moveTail i tail = .ok fun j => if 1 ≤ j ∧ j ≤ i then tail (j - 1) else tail j := by
  induction i generalizing tail with
  | zero =>
      rw [moveTail]
      congr 1
      funext j
      rw [if_neg (by omega)]
  | succ i ih =>
      have hget : tailGet tail i = .ok (tail i) := if_pos (by omega)
      have hset : tailSet tail (i + 1) (tail i) = .ok (Function.update tail (i + 1) (tail i)) :=
        if_pos hi
      rw [moveTail, hget, ok_bind, hset, ok_bind, ih (by omega)]
      congr 1
      funext j
      by_cases hj : 1 ≤ j ∧ j ≤ i
      · rw [if_pos hj, if_pos (by omega), Function.update_of_ne (by omega)]
      · rw [if_neg hj]
        by_cases hlast : j = i + 1
        · subst hlast
          rw [Function.update_self, if_pos (by omega)]
          rfl
        · rw [Function.update_of_ne hlast, if_neg (by omega)]

/-- The search finds the head among the elements that it looks at. -/
theorem hitsTail_eq_range (n : Nat) {i : Nat} (hn : i + n ≤ tailSize) :
    hitsTail tail head n i = .ok (decide (head ∈ (List.range' i n).map tail)) := by
  induction n generalizing i with
  | zero => rfl
  | succ n ih =>
      have hget : tailGet tail i = .ok (tail i) := if_pos (by omega)
      rw [hitsTail, hget, ok_bind, List.range'_succ, List.map_cons]
      by_cases hhead : tail i = head
      · rw [if_pos hhead, hhead]
        simp only [List.mem_cons_self, decide_true]
        rfl
      · have hne : head ≠ tail i := fun h => hhead h.symm
        rw [if_neg hhead, ih (by omega)]
        simp only [List.mem_cons, hne, false_or]

theorem hitsTail_eq {n : Nat} (hn : n ≤ tailSize) :
    hitsTail tail head n 0 = .ok (decide (head ∈ cells tail n)) := by
  rw [hitsTail_eq_range n (by omega), cells, List.range_eq_range']

/-- All elements of the tail are drawn. -/
theorem exists_drawTail_eq (tail : Nat → Cell) (n i : Nat) (hn : i + n ≤ tailSize) :
    ∃ picture, drawTail tail n i = .ok picture := by
  induction n generalizing i with
  | zero => exact ⟨[], rfl⟩
  | succ n ih =>
      obtain ⟨picture, hpicture⟩ := ih (i + 1) (by omega)
      have hget : tailGet tail i = .ok (tail i) := if_pos (by omega)
      refine ⟨cellRectangle (tail i) .green :: picture, ?_⟩
      rw [drawTail, hget, ok_bind, hpicture, ok_bind]
      rfl

end Loops

section Moves

variable {setup : Setup} {g : Game}

theorem exists_draw_eq (setup : Setup) (h : g.tailLength ≤ tailSize) :
    ∃ picture, draw setup g = .ok picture := by
  obtain ⟨picture, hpicture⟩ := exists_drawTail_eq g.tail g.tailLength 0 (by omega)
  rw [draw, hpicture]
  exact ⟨_, rfl⟩

/-- Where the head was comes in front of the tail, and the last cell leaves it. -/
theorem moveSnake_spec (h : g.tailLength ≤ tailSize) :
    ∃ tail, moveSnake g = .ok { g with tail, head := moveHead g.direction g.head } ∧
      cells tail g.tailLength = (g.head :: g.body).take g.tailLength := by
  rcases Nat.eq_zero_or_pos g.tailLength with hzero | hpos
  · refine ⟨g.tail, ?_, by rw [hzero]; rfl⟩
    rw [moveSnake, if_neg (by omega)]
    rfl
  · obtain ⟨n, hlength⟩ := Nat.exists_eq_add_of_lt hpos
    rw [Nat.zero_add] at hlength
    have hprev : sub32 g.tailLength 1 = n := by
      have hsize : g.tailLength ≤ 100 := h
      rw [sub32_of_le (by omega) (by omega), hlength, Nat.add_sub_cancel]
    have hmove := moveTail_eq (i := n) (by omega) g.tail
    refine ⟨Function.update (fun j => if 1 ≤ j ∧ j ≤ n then g.tail (j - 1) else g.tail j) 0
      g.head, ?_, ?_⟩
    · rw [moveSnake, if_pos hpos, hprev, hmove, ok_bind, tailSet, if_pos (by decide), ok_bind]
      rfl
    · have hbody : g.body.take n = cells g.tail n := by
        rw [Game.body, hlength, cells_succ, List.take_left' length_cells]
      rw [hlength, List.take_succ_cons, hbody]
      refine cells_cons (Function.update_self _ _ _) fun i hi => ?_
      rw [Function.update_of_ne (by omega), if_pos (by omega), Nat.add_sub_cancel]

end Moves

end RPiKernel.Snake
