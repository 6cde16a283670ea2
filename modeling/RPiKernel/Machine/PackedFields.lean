import Mathlib.Logic.Function.Basic

/-!
# Fields packed into an array of words

A `FieldArray` numbers fields of one width through the words of an array: so many to a word, from
the lowest bit on. Writing a field changes this one and no other (`read_write`), and nothing
outside the words of the array matters to it (`read_update_of_forall_ne`).

The last section is about writes one after another: what is seen in the end is what the last one
of them has put there (`view_foldl`).
-/

namespace RPiKernel.Machine

section Field

variable {n w w' shift shift' : Nat}

/-- The word that has ones where the field at a shift is. -/
def fieldMask (n w shift : Nat) : BitVec n := (BitVec.allOnes w).setWidth n <<< shift

/-- The field at a shift. -/
def getField (w shift : Nat) (word : BitVec n) : BitVec w := word.extractLsb' shift w

/-- The word after its field at a shift has been cleared and then set. -/
def putField (shift : Nat) (v : BitVec w) (word : BitVec n) : BitVec n :=
  word &&& ~~~fieldMask n w shift ||| v.setWidth n <<< shift

theorem getLsbD_putField (v : BitVec w) (word : BitVec n) {i : Nat} (hi : i < n) :
    (putField shift v word).getLsbD i =
      if shift ≤ i ∧ i < shift + w then v.getLsbD (i - shift) else word.getLsbD i := by
  have hsub : i - shift < n := by omega
  simp only [putField, fieldMask, BitVec.getLsbD_or, BitVec.getLsbD_and, BitVec.getLsbD_not,
    BitVec.getLsbD_shiftLeft, BitVec.getLsbD_setWidth, BitVec.getLsbD_allOnes, hi, hsub]
  split
  · next h =>
    have hbit : i - shift < w := by omega
    simp [Nat.not_lt.mpr h.1, hbit]
  · next h =>
    by_cases hlow : i < shift
    · simp [hlow]
    · have hbit : ¬i - shift < w := by omega
      simp [hlow, hbit, BitVec.getLsbD_of_ge v (i - shift) (Nat.not_lt.mp hbit)]

theorem getField_putField (v : BitVec w) (word : BitVec n) (h : shift + w ≤ n) :
    getField w shift (putField shift v word) = v := by
  ext i hi
  rw [getField, BitVec.getElem_extractLsb', getLsbD_putField v word (by omega),
    if_pos ⟨Nat.le_add_right _ _, Nat.add_lt_add_left hi _⟩, Nat.add_sub_cancel_left,
    BitVec.getLsbD_eq_getElem hi]

theorem getField_putField_of_disjoint (v : BitVec w) (word : BitVec n) (h : shift' + w' ≤ n)
    (hne : shift + w ≤ shift' ∨ shift' + w' ≤ shift) :
    getField w' shift' (putField shift v word) = getField w' shift' word := by
  ext i hi
  rw [getField, getField, BitVec.getElem_extractLsb', BitVec.getElem_extractLsb',
    getLsbD_putField v word (by omega), if_neg (by omega)]

end Field

/-- Fields of one width, so many to a word of 32 bits, in words behind each other. -/
structure FieldArray where
  /-- The offset of the first word in bytes. -/
  base : Nat
  width : Nat
  perWord : Nat
  pos : 0 < perWord
  fits : perWord * width ≤ 32

namespace FieldArray

variable (a : FieldArray) {file : Nat → BitVec 32} {i j : Nat}

/-- The offset of the word with a field. -/
def offset (i : Nat) : Nat := a.base + 4 * (i / a.perWord)

def shift (i : Nat) : Nat := i % a.perWord * a.width

def read (file : Nat → BitVec 32) (i : Nat) : BitVec a.width :=
  getField a.width (a.shift i) (file (a.offset i))

def write (file : Nat → BitVec 32) (i : Nat) (v : BitVec a.width) : Nat → BitVec 32 :=
  Function.update file (a.offset i) (putField (a.shift i) v (file (a.offset i)))

theorem shift_add_width_le (i : Nat) : a.shift i + a.width ≤ 32 := by
  have hlt : i % a.perWord < a.perWord := Nat.mod_lt i a.pos
  calc
    a.shift i + a.width = (i % a.perWord + 1) * a.width := (Nat.succ_mul _ _).symm
    _ ≤ a.perWord * a.width := Nat.mul_le_mul_right _ hlt
    _ ≤ 32 := a.fits

/-- Two fields of one word do not overlap. -/
theorem shift_disjoint (h : i % a.perWord ≠ j % a.perWord) :
    a.shift i + a.width ≤ a.shift j ∨ a.shift j + a.width ≤ a.shift i := by
  have hbelow {k l : Nat} (hlt : k < l) : k * a.width + a.width ≤ l * a.width := by
    rw [← Nat.succ_mul]
    exact Nat.mul_le_mul_right _ hlt
  rcases Nat.lt_or_gt_of_ne h with hlt | hlt
  · exact Or.inl (hbelow hlt)
  · exact Or.inr (hbelow hlt)

/-- Writing a field changes this field alone. -/
theorem read_write (v : BitVec a.width) :
    a.read (a.write file i v) j = if j = i then v else a.read file j := by
  split
  · next h =>
    rw [h, read, write, Function.update_self]
    exact getField_putField v _ (a.shift_add_width_le i)
  · next h =>
    rw [read, write]
    by_cases hword : a.offset j = a.offset i
    · rw [hword, Function.update_self, getField_putField_of_disjoint, read, hword]
      · exact a.shift_add_width_le j
      · apply a.shift_disjoint
        intro hmod
        have hdiv : j / a.perWord = i / a.perWord := by
          rw [offset, offset] at hword
          omega
        exact h (by rw [← Nat.div_add_mod j a.perWord, hdiv, ← hmod, Nat.div_add_mod])
    · rw [Function.update_of_ne hword, read]

/-- Words at other offsets do not matter. -/
theorem read_update_of_ne {k : Nat} (h : a.offset j ≠ k) (word : BitVec 32) :
    a.read (Function.update file k word) j = a.read file j := by
  rw [read, Function.update_of_ne h, read]

/-- The words of the first fields. -/
theorem offset_lt {m : Nat} (h : i < m * a.perWord) : a.offset i < a.base + 4 * m := by
  have hdiv : i / a.perWord < m := Nat.div_lt_of_lt_mul (by rwa [Nat.mul_comm])
  rw [offset]
  omega

theorem le_offset (i : Nat) : a.base ≤ a.offset i := Nat.le_add_right _ _

end FieldArray

section Writes

variable {σ γ β : Type*} {step : σ → γ → σ} {write : γ → Option β}

/-- Where every step sets what is seen or leaves it alone, the last one that sets it counts. -/
theorem view_foldl (view : σ → β) {calls : List γ}
    (h : ∀ s, ∀ c ∈ calls, view (step s c) = (write c).getD (view s)) (s : σ) :
    view (calls.foldl step s) = (calls.filterMap write).getLast?.getD (view s) := by
  induction calls generalizing s with
  | nil => rfl
  | cons c calls ih =>
      rw [List.foldl_cons, ih fun s d hd => h s d (List.mem_cons_of_mem c hd),
        h s c List.mem_cons_self]
      cases hc : write c with
      | none => rw [List.filterMap_cons_none hc, Option.getD_none]
      | some v => rw [List.filterMap_cons_some hc, List.getLast?_cons, Option.getD_some,
          Option.getD_some]

end Writes

end RPiKernel.Machine
