import Mathlib.Algebra.Order.Group.Nat

/-!
# Words made of bit fields

`pack` lays out fields from the lowest bit on, each with its width and cut to
it. `extract` reads the bits of a word at an offset. What is packed at a
position is read back from there (`extract_pack_append`).
-/

namespace RPiKernel.Machine

/-- The word whose fields, from the lowest bit on, have the given widths and values. -/
def pack : List (Nat × Nat) → Nat
  | [] => 0
  | (width, value) :: fields => value % 2 ^ width + 2 ^ width * pack fields

/-- The field of a width at an offset of a word. -/
def extract (offset width word : Nat) : Nat := word / 2 ^ offset % 2 ^ width

/-- The number of bits that the fields take. -/
def widthOf : List (Nat × Nat) → Nat
  | [] => 0
  | (width, _) :: fields => width + widthOf fields

theorem extract_pack_cons (width value : Nat) (fields : List (Nat × Nat)) :
    extract 0 width (pack ((width, value) :: fields)) = value % 2 ^ width := by
  rw [extract, pack, Nat.pow_zero, Nat.div_one, Nat.add_mul_mod_self_left, Nat.mod_mod]

/-- Reading behind the first field is reading the other fields. -/
theorem extract_pack_skip (width value offset width' : Nat) (fields : List (Nat × Nat)) :
    extract (width + offset) width' (pack ((width, value) :: fields)) =
      extract offset width' (pack fields) := by
  have hpos := Nat.two_pow_pos width
  have hlt := Nat.mod_lt value hpos
  rw [extract, extract, pack, Nat.pow_add, ← Nat.div_div_eq_div_mul,
    Nat.add_mul_div_left _ _ hpos, Nat.div_eq_of_lt hlt, Nat.zero_add]

/-- What is packed behind other fields is read at the offset that they take. -/
theorem extract_pack_append (before : List (Nat × Nat)) (width value : Nat)
    (after : List (Nat × Nat)) :
    extract (widthOf before) width (pack (before ++ (width, value) :: after)) =
      value % 2 ^ width := by
  induction before with
  | nil => exact extract_pack_cons width value after
  | cons field before ih =>
      obtain ⟨width', value'⟩ := field
      rw [widthOf, List.cons_append, extract_pack_skip]
      exact ih

/-- Fields of one width. -/
theorem widthOf_map {α : Type} (width : Nat) (value : α → Nat) (l : List α) :
    widthOf (l.map fun x => (width, value x)) = width * l.length := by
  induction l with
  | nil => rfl
  | cons x l ih => rw [List.map_cons, widthOf, ih, List.length_cons, Nat.mul_succ, Nat.add_comm]

/-- A packed word has the width of its fields. -/
theorem pack_lt (fields : List (Nat × Nat)) : pack fields < 2 ^ widthOf fields := by
  induction fields with
  | nil => exact Nat.one_pos
  | cons field fields ih =>
      obtain ⟨width, value⟩ := field
      have hlt := Nat.mod_lt value (Nat.two_pow_pos width)
      calc
        pack ((width, value) :: fields) = value % 2 ^ width + 2 ^ width * pack fields := rfl
        _ < 2 ^ width + 2 ^ width * pack fields := Nat.add_lt_add_right hlt _
        _ = 2 ^ width * (pack fields + 1) := by rw [Nat.mul_succ, Nat.add_comm]
        _ ≤ 2 ^ width * 2 ^ widthOf fields := Nat.mul_le_mul_left _ ih
        _ = 2 ^ widthOf ((width, value) :: fields) := by rw [widthOf, Nat.pow_add]

end RPiKernel.Machine
