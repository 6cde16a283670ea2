import Mathlib.Algebra.Group.Nat.Defs
import Mathlib.Data.List.Basic
import Mathlib.Data.List.Range

/-!
# Ranges of cells

A `reg` property is a list of ranges, each with its address and then its size in as many words as
the parent of the node says. Decoding the words with other numbers of cells gives other ranges,
apart from a few lists that are nearly all zero.
-/

namespace RPiKernel.DeviceTree

/-- The value of some cells, the most significant one first. -/
def cellsValue (cells : List (BitVec 32)) : BitVec 64 :=
  cells.foldl (fun value cell => value <<< 32 ||| cell.setWidth 64) 0

/-- The base and the size at the front of some words. -/
def rangeAt (addressCells sizeCells : Nat) (words : List (BitVec 32)) : BitVec 64 × BitVec 64 :=
  (cellsValue (words.take addressCells),
    cellsValue ((words.drop addressCells).take sizeCells))

/-- The ranges that some words hold. -/
def decodeRanges (addressCells sizeCells : Nat) (words : List (BitVec 32)) :
    List (BitVec 64 × BitVec 64) :=
  let cells := addressCells + sizeCells
  (List.range (words.length / cells)).map fun i =>
    rangeAt addressCells sizeCells (words.drop (cells * i))

/-- The words whose ranges are the same with two cells for the address and one for the size. -/
def FitsTwoOne (addressCells sizeCells : Nat) (words : List (BitVec 32)) : Prop :=
  if addressCells = 2 then
    sizeCells = 1 ∨ words.length ≤ 8 ∧ ∀ word ∈ words.drop 2, word = 0
  else
    words = [] ∨ sizeCells = 2 ∧
      ∀ range ∈ decodeRanges 1 2 words, range.1 = 0 ∧ range.2.toNat < 2 ^ 32

section

variable {addressCells sizeCells : Nat} {words rest : List (BitVec 32)}

theorem length_decodeRanges :
    (decodeRanges addressCells sizeCells words).length =
      words.length / (addressCells + sizeCells) := by
  rw [decodeRanges, List.length_map, List.length_range]

theorem decodeRanges_of_short (h : words.length < addressCells + sizeCells) :
    decodeRanges addressCells sizeCells words = [] := by
  rw [decodeRanges, Nat.div_eq_of_lt h]
  rfl

/-- The first range, and those behind it. -/
theorem decodeRanges_append {chunk : List (BitVec 32)}
    (hchunk : chunk.length = addressCells + sizeCells) (hcells : 0 < addressCells + sizeCells) :
    decodeRanges addressCells sizeCells (chunk ++ rest) =
      rangeAt addressCells sizeCells (chunk ++ rest) ::
        decodeRanges addressCells sizeCells rest := by
  rw [decodeRanges, decodeRanges, List.length_append, hchunk, Nat.add_div_left _ hcells,
    List.range_succ_eq_map, List.map_cons, List.map_map]
  refine congrArg₂ _ rfl (List.map_congr_left fun i _ => ?_)
  rw [Function.comp_apply, Nat.mul_succ, Nat.add_comm, ← List.drop_drop, ← hchunk, List.drop_left]

theorem cellsValue_one (a : BitVec 32) : cellsValue [a] = a.setWidth 64 := by
  have hvalue : cellsValue [a] = 0#64 <<< 32 ||| a.setWidth 64 := rfl
  rw [hvalue, BitVec.zero_shiftLeft, BitVec.zero_or]

theorem cellsValue_two (a b : BitVec 32) :
    cellsValue [a, b] = a.setWidth 64 <<< 32 ||| b.setWidth 64 := by
  have hvalue : cellsValue [a, b] = cellsValue [a] <<< 32 ||| b.setWidth 64 := rfl
  rw [hvalue, cellsValue_one]

theorem toNat_cellsValue_one (a : BitVec 32) : (cellsValue [a]).toNat = a.toNat := by
  rw [cellsValue_one, BitVec.toNat_setWidth]
  exact Nat.mod_eq_of_lt (a.isLt.trans (by decide))

theorem toNat_cellsValue_two (a b : BitVec 32) :
    (cellsValue [a, b]).toNat = a.toNat * 2 ^ 32 + b.toNat := by
  have ha := a.isLt
  have hb := b.isLt
  rw [cellsValue_two, BitVec.toNat_or, BitVec.toNat_shiftLeft, ← cellsValue_one,
    toNat_cellsValue_one, ← cellsValue_one, toNat_cellsValue_one,
    Nat.mod_eq_of_lt (by rw [Nat.shiftLeft_eq]; omega), ← Nat.shiftLeft_add_eq_or_of_lt hb,
    Nat.shiftLeft_eq]

theorem decodeRanges_two_one (a b c : BitVec 32) :
    decodeRanges 2 1 (a :: b :: c :: rest) =
      (cellsValue [a, b], cellsValue [c]) :: decodeRanges 2 1 rest :=
  @decodeRanges_append 2 1 rest [a, b, c] rfl (by decide)

theorem decodeRanges_one_two (a b c : BitVec 32) :
    decodeRanges 1 2 (a :: b :: c :: rest) =
      (cellsValue [a], cellsValue [b, c]) :: decodeRanges 1 2 rest :=
  @decodeRanges_append 1 2 rest [a, b, c] rfl (by decide)

theorem decodeRanges_two_two (a b c d : BitVec 32) :
    decodeRanges 2 2 (a :: b :: c :: d :: rest) =
      (cellsValue [a, b], cellsValue [c, d]) :: decodeRanges 2 2 rest :=
  @decodeRanges_append 2 2 rest [a, b, c, d] rfl (by decide)

/-- One cell for the base and two for the size: every base is zero and every size has one word. -/
theorem decodeRanges_one_two_iff (hlength : 3 ∣ words.length) :
    decodeRanges 2 1 words = decodeRanges 1 2 words ↔
      ∀ range ∈ decodeRanges 1 2 words, range.1 = 0 ∧ range.2.toNat < 2 ^ 32 := by
  obtain ⟨n, hn⟩ := hlength
  induction n generalizing words with
  | zero =>
    obtain rfl : words = [] := List.length_eq_zero_iff.mp hn
    exact iff_of_true rfl (List.forall_mem_nil _)
  | succ n ih =>
    match words, hn with
    | a :: b :: c :: rest, hn =>
      have hrest : rest.length = 3 * n := by
        simp only [List.length_cons] at hn
        omega
      have hfirst : (cellsValue [a, b], cellsValue [c]) = (cellsValue [a], cellsValue [b, c]) ↔
          cellsValue [a] = 0 ∧ (cellsValue [b, c]).toNat < 2 ^ 32 := by
        have hzero : (0 : BitVec 64).toNat = 0 := rfl
        rw [Prod.mk.injEq]
        simp only [← BitVec.toNat_inj, toNat_cellsValue_one, toNat_cellsValue_two, hzero]
        omega
      rw [decodeRanges_two_one, decodeRanges_one_two, List.cons.injEq, List.forall_mem_cons,
        hfirst, ih hrest]

/-- Two cells for each part: eight words at most, and nothing but zeros behind the first base. -/
theorem decodeRanges_two_two_iff (hlength : 4 ∣ words.length) :
    decodeRanges 2 1 words = decodeRanges 2 2 words ↔
      words.length ≤ 8 ∧ ∀ word ∈ words.drop 2, word = 0 := by
  have hle : decodeRanges 2 1 words = decodeRanges 2 2 words → words.length ≤ 8 := by
    intro h
    have hlengths := congrArg List.length h
    rw [length_decodeRanges, length_decodeRanges] at hlengths
    omega
  have hzero : ∀ word : BitVec 32, word = 0 ↔ word.toNat = 0 := fun word =>
    BitVec.toNat_inj.symm
  by_cases hshort : words.length ≤ 8
  · rw [and_iff_right hshort]
    obtain hn | hn | hn : words.length = 0 ∨ words.length = 4 ∨ words.length = 8 := by omega
    · obtain rfl : words = [] := List.length_eq_zero_iff.mp hn
      exact iff_of_true rfl (List.forall_mem_nil _)
    · match words, hn with
      | [a, b, c, d], _ =>
        rw [decodeRanges_two_one, decodeRanges_two_two, decodeRanges_of_short (by simp),
          decodeRanges_of_short (by simp)]
        simp only [List.drop_succ_cons, List.drop_zero, List.forall_mem_cons, List.not_mem_nil,
          List.cons.injEq, Prod.mk.injEq, hzero, ← BitVec.toNat_inj, toNat_cellsValue_one,
          toNat_cellsValue_two]
        grind
    · match words, hn with
      | [a, b, c, d, e, f, g, h], _ =>
        rw [decodeRanges_two_one, decodeRanges_two_two, decodeRanges_two_one,
          decodeRanges_two_two, decodeRanges_of_short (by simp), decodeRanges_of_short (by simp)]
        simp only [List.drop_succ_cons, List.drop_zero, List.forall_mem_cons, List.not_mem_nil,
          List.cons.injEq, Prod.mk.injEq, hzero, ← BitVec.toNat_inj, toNat_cellsValue_one,
          toNat_cellsValue_two]
        grind
  · exact iff_of_false (fun h => hshort (hle h)) fun h => hshort h.1

theorem decodeRanges_eq_iff (haddress : addressCells = 1 ∨ addressCells = 2)
    (hsize : sizeCells = 1 ∨ sizeCells = 2) (hlength : addressCells + sizeCells ∣ words.length) :
    decodeRanges 2 1 words = decodeRanges addressCells sizeCells words ↔
      FitsTwoOne addressCells sizeCells words := by
  have hshort : words.length / 3 = words.length / 2 → 2 ∣ words.length → words = [] := by
    intro h heven
    exact List.length_eq_zero_iff.mp (by omega)
  obtain rfl | rfl := haddress <;> obtain rfl | rfl := hsize
  · rw [FitsTwoOne, if_neg (by decide), or_iff_left fun h => absurd h.1 (by decide)]
    constructor
    · intro h
      have hlengths := congrArg List.length h
      rw [length_decodeRanges, length_decodeRanges] at hlengths
      exact hshort hlengths hlength
    · rintro rfl
      rfl
  · rw [FitsTwoOne, if_neg (by decide), decodeRanges_one_two_iff hlength, and_iff_right rfl]
    refine (or_iff_right_of_imp ?_).symm
    rintro rfl
    exact List.forall_mem_nil _
  · exact iff_of_true rfl (by rw [FitsTwoOne, if_pos rfl]; exact Or.inl rfl)
  · rw [FitsTwoOne, if_pos rfl, decodeRanges_two_two_iff hlength,
      or_iff_right (by decide : ¬ 2 = 1)]

end

end RPiKernel.DeviceTree
