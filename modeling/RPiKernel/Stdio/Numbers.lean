import RPiKernel.Machine.Strings

/-!
# Numbers as text

`ulong_to_string` puts the digits of a number into `temp`, the last one first, with a division or
with a mask and a shift, and copies them in reverse. Both ways give the numeral, and `temp` has
room for its digits.
-/

namespace RPiKernel.Stdio

open Machine

/-- `digits_lc`. -/
def digitsLc : List UInt8 :=
  [ch '0', ch '1', ch '2', ch '3', ch '4', ch '5', ch '6', ch '7', ch '8', ch '9', ch 'a', ch 'b',
    ch 'c', ch 'd', ch 'e', ch 'f']

/-- `digits_uc`. -/
def digitsUc : List UInt8 :=
  [ch '0', ch '1', ch '2', ch '3', ch '4', ch '5', ch '6', ch '7', ch '8', ch '9', ch 'A', ch 'B',
    ch 'C', ch 'D', ch 'E', ch 'F']

def baseToNbits : List Nat := [0, 0, 1, 0, 2, 0, 0, 0, 3, 0, 0, 0, 0, 0, 0, 0, 4]

def longBits : Nat := 64

/-- The digits, from the last one on, while there is room in `temp`. -/
def digitLoop (digits : List UInt8) (digit next : BitVec 64 → BitVec 64) :
    Nat → BitVec 64 → List UInt8 → Option (List UInt8)
  | 0, _, _ => none
  | room + 1, num, temp =>
      let temp := temp ++ [digits.getD (digit num).toNat 0]
      if next num = 0 then some temp else digitLoop digits digit next room (next num) temp

/-- `ulong_to_string`. -/
def ulongToString (num : BitVec 64) (base : Nat) (altDigits : Bool) : Option (List UInt8) :=
  let digits := if altDigits then digitsUc else digitsLc
  let temp :=
    if baseToNbits.getD base 0 = 0 then
      digitLoop digits (fun num => num % BitVec.ofNat 64 base)
        (fun num => num / BitVec.ofNat 64 base) longBits num []
    else
      let shift := baseToNbits.getD base 0
      let mask := (1 : BitVec 64) <<< shift - 1
      digitLoop digits (fun num => num &&& mask) (fun num => num >>> shift) longBits num []
  temp.map List.reverse

section

variable {base d : Nat} {altDigits : Bool} {digit next : BitVec 64 → BitVec 64}

theorem digits_getD (h : d < 16) :
    (if altDigits then digitsUc else digitsLc).getD d 0 = digitChar altDigits d := by
  interval_cases d <;> cases altDigits <;> rfl

/-- The loop puts the digits of a number behind each other. -/
theorem digitLoop_eq (hbase : 1 < base) (hlast : base ≤ 16)
    (hdigit : ∀ num, (digit num).toNat = num.toNat % base)
    (hnext : ∀ num, (next num).toNat = num.toNat / base) {room : Nat} {num : BitVec 64}
    (temp : List UInt8) (hroom : 0 < room) (h : num.toNat < base ^ room) :
    digitLoop (if altDigits then digitsUc else digitsLc) digit next room num temp =
      some (temp ++ (numeral base altDigits num.toNat).reverse) := by
  induction room generalizing num temp with
  | zero => exact absurd hroom (Nat.lt_irrefl 0)
  | succ room ih =>
    have hchar : (digit num).toNat < 16 :=
      (hdigit num ▸ Nat.mod_lt _ (Nat.zero_lt_of_lt hbase)).trans_le hlast
    rw [digitLoop, digits_getD hchar, hdigit, reverse_numeral hbase, ← hnext]
    have hzero : next num = 0 ↔ (next num).toNat = 0 := BitVec.toNat_inj.symm
    split
    · next hlast => rw [if_pos (hzero.mp hlast)]
    · next hmore =>
      rw [if_neg fun h => hmore (hzero.mpr h)]
      have hrest : (next num).toNat < base ^ room := by
        rw [hnext]
        exact Nat.div_lt_of_lt_mul (Nat.pow_succ' ▸ h)
      have hroom : 0 < room := by
        refine Nat.pos_of_ne_zero fun hnone => hmore (hzero.mpr ?_)
        rw [hnone, Nat.pow_zero] at hrest
        exact Nat.lt_one_iff.mp hrest
      rw [ih _ hroom hrest, List.append_assoc, List.singleton_append]

theorem toNat_and_mask {shift : Nat} {mask : BitVec 64} (h : mask.toNat = 2 ^ shift - 1)
    (num : BitVec 64) : (num &&& mask).toNat = num.toNat % 2 ^ shift := by
  rw [BitVec.toNat_and, h, Nat.and_two_pow_sub_one_eq_mod]

theorem toNat_shiftRight (shift : Nat) (num : BitVec 64) :
    (num >>> shift).toNat = num.toNat / 2 ^ shift := by
  rw [BitVec.toNat_ushiftRight, Nat.shiftRight_eq_div_pow]

theorem toNat_base (hlast : base ≤ 16) : (BitVec.ofNat 64 base).toNat = base := by
  rw [BitVec.toNat_ofNat]
  omega

theorem toNat_umod (hlast : base ≤ 16) (num : BitVec 64) :
    (num % BitVec.ofNat 64 base).toNat = num.toNat % base := by
  rw [BitVec.toNat_umod, toNat_base hlast]

theorem toNat_udiv (hlast : base ≤ 16) (num : BitVec 64) :
    (num / BitVec.ofNat 64 base).toNat = num.toNat / base := by
  rw [BitVec.toNat_udiv, toNat_base hlast]

theorem le_pow_longBits (num : BitVec 64) (hbase : 1 < base) : num.toNat < base ^ longBits :=
  num.isLt.trans_le (Nat.pow_le_pow_left hbase 64)

/-- The digits of every number fit `temp`. -/
theorem length_numeral_toNat_le (num : BitVec 64) (hbase : 1 < base) :
    (numeral base altDigits num.toNat).length ≤ longBits :=
  length_numeral_le hbase (by decide) (le_pow_longBits num hbase)

/-- The table has the exponent of a base that is a power of two, and a zero for the others. -/
theorem exists_baseToNbits (hbase : 1 < base) (hlast : base ≤ 16) :
    ∃ nbits, baseToNbits[base]? = some nbits ∧
      (nbits = 0 ∨ 0 < nbits ∧ nbits ≤ 4 ∧ base = 2 ^ nbits) := by
  interval_cases base <;> exact ⟨_, rfl, by decide⟩

theorem toNat_mask {shift : Nat} (h : shift ≤ 4) :
    ((1 : BitVec 64) <<< shift - 1).toNat = 2 ^ shift - 1 := by
  interval_cases shift <;> rfl

/-- The digits by mask and shift. -/
theorem digitLoop_shift {shift : Nat} (num : BitVec 64) (hpos : 0 < shift) (hle : shift ≤ 4) :
    digitLoop (if altDigits then digitsUc else digitsLc)
        (fun num => num &&& ((1 : BitVec 64) <<< shift - 1)) (fun num => num >>> shift)
        longBits num [] =
      some (numeral (2 ^ shift) altDigits num.toNat).reverse := by
  have hbase : 1 < 2 ^ shift := Nat.one_lt_two_pow (Nat.ne_of_gt hpos)
  have hlast : 2 ^ shift ≤ 16 := Nat.pow_le_pow_right Nat.zero_lt_two hle
  exact digitLoop_eq hbase hlast (toNat_and_mask (toNat_mask hle)) (toNat_shiftRight shift) []
    (by decide) (le_pow_longBits num hbase)

/-- The digits by division. -/
theorem digitLoop_division (num : BitVec 64) (hbase : 1 < base) (hlast : base ≤ 16) :
    digitLoop (if altDigits then digitsUc else digitsLc)
        (fun num => num % BitVec.ofNat 64 base) (fun num => num / BitVec.ofNat 64 base)
        longBits num [] =
      some (numeral base altDigits num.toNat).reverse := by
  exact digitLoop_eq hbase hlast (toNat_umod hlast) (toNat_udiv hlast) [] (by decide)
    (le_pow_longBits num hbase)

/-- `ulong_to_string` gives the numeral. -/
theorem ulongToString_eq (num : BitVec 64) (hbase : 1 < base) (hlast : base ≤ 16) :
    ulongToString num base altDigits = some (numeral base altDigits num.toNat) := by
  obtain ⟨nbits, hnbits, hcase⟩ := exists_baseToNbits hbase hlast
  have htable : baseToNbits.getD base 0 = nbits := by
    rw [List.getD_eq_getElem?_getD, hnbits, Option.getD_some]
  rw [ulongToString]
  dsimp only
  obtain rfl | ⟨hpos, hle, rfl⟩ := hcase
  · rw [if_pos htable, digitLoop_division num hbase hlast]
    exact congrArg some (List.reverse_reverse _)
  · rw [htable, if_neg (Nat.ne_of_gt hpos), digitLoop_shift num hpos hle]
    exact congrArg some (List.reverse_reverse _)

end

end RPiKernel.Stdio
