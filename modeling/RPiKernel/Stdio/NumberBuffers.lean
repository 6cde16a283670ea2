import RPiKernel.Machine.Buffers
import RPiKernel.Stdio.Numbers

/-!
# The buffers of a number

`ulong_to_string` fills `temp` with a zero and the digits of a number, from the last one on, and
copies it to `str` from the last element down to the zero. The 65 elements of `temp` are enough for
the digits of every number in every base, and division gives the same string as mask and shift.

## Implementation notes

The lists of `Numbers` are refined to the elements of `temp` and to the memory at `str`. What `temp`
holds at first is arbitrary. An access outside an array and a division by zero have no result. The
loops over the digits run with a round for each element of `temp`, since one round more would write
behind it.
-/

namespace RPiKernel.Stdio.Buffered

open Machine

/-- The number of elements of `temp`. -/
def tempSize : Nat := longBits + 1

/-- `digits[i]`. The array has the zero at the end of the string as well. -/
def digitAt (digits : List UInt8) (i : Nat) : Option UInt8 := (digits ++ [0])[i]?

/-- The loops that put the digits into `temp`, with the index of the last one. -/
def digitLoop (digits : List UInt8) (digit next : BitVec 64 → BitVec 64) :
    Nat → BitVec 64 → Vector UInt8 tempSize → Nat → Option (Vector UInt8 tempSize × Nat)
  | 0, _, _, _ => none
  | fuel + 1, num, temp, i => do
      let c ← digitAt digits (digit num).toNat
      let temp ← assign temp i c
      if next num = 0 then some (temp, i)
      else digitLoop digits digit next fuel (next num) temp (i + 1)

/-- `ulong_to_string`, compiled with or without `ALWAYS_USE_DIVISION`. -/
def ulongToString (alwaysUseDivision : Bool) (temp : Vector UInt8 tempSize) (m : Memory)
    (num str : BitVec 64) (base : Nat) (altDigits : Bool) : Option Memory := do
  let digits := if altDigits then digitsUc else digitsLc
  let temp ← assign temp 0 0
  let divides ←
    if alwaysUseDivision then some true
    else (baseToNbits[base]?).map fun nbits => decide (nbits = 0)
  let (temp, i) ←
    if divides then
      if base = 0 then none
      else
        digitLoop digits (fun num => num % BitVec.ofNat 64 base)
          (fun num => num / BitVec.ofNat 64 base) tempSize num temp 1
    else do
      let shift ← baseToNbits[base]?
      let mask := (1 : BitVec 64) <<< shift - 1
      digitLoop digits (fun num => num &&& mask) (fun num => num >>> shift) tempSize num temp 1
  copyDown temp i m str

section Loops

variable {digits : List UInt8} {digit next : BitVec 64 → BitVec 64} {base : Nat} {altDigits : Bool}

theorem digitAt_eq {i : Nat} (h : i < digits.length) :
    digitAt digits i = some (digits.getD i 0) := by
  rw [digitAt, List.getElem?_append_left h, List.getD_eq_getElem?_getD,
    List.getElem?_eq_getElem h, Option.getD_some]

/-- The loop over the array puts into it what the loop over the list puts behind it. -/
theorem digitLoop_of_list {room fuel : Nat} {num : BitVec 64} {temp : Vector UInt8 tempSize}
    {text more : List UInt8} (hdigit : ∀ num, (digit num).toNat < digits.length)
    (h : Stdio.digitLoop digits digit next room num text = some more)
    (htemp : Begins temp (0 :: text)) (hroom : text.length + room < tempSize)
    (hfuel : room ≤ fuel) :
    ∃ temp', digitLoop digits digit next fuel num temp (text.length + 1) =
        some (temp', more.length) ∧ Begins temp' (0 :: more) := by
  induction room generalizing fuel num temp text with
  | zero => cases h
  | succ room ih =>
    obtain ⟨fuel, rfl⟩ := Nat.exists_eq_succ_of_ne_zero (Nat.ne_of_gt (Nat.zero_lt_of_lt hfuel))
    obtain ⟨temp', hassign, hbegins⟩ := htemp.assign
      (by rw [List.length_cons]; omega) (digits.getD (digit num).toNat 0)
    rw [List.length_cons] at hassign
    rw [Stdio.digitLoop] at h
    rw [digitLoop, digitAt_eq (hdigit num), Option.bind_eq_bind, Option.bind_some, hassign,
      Option.bind_eq_bind, Option.bind_some]
    have hlength : (text ++ [digits.getD (digit num).toNat 0]).length = text.length + 1 := by
      rw [List.length_append, List.length_singleton]
    by_cases hlast : next num = 0
    · rw [if_pos hlast] at h
      obtain rfl := Option.some.inj h
      exact ⟨temp', by rw [if_pos hlast, hlength], hbegins⟩
    · rw [if_neg hlast] at h
      have hrest : (text ++ [digits.getD (digit num).toNat 0]).length + room < tempSize := by omega
      obtain ⟨temp'', hloop, hbegins'⟩ := ih h hbegins hrest (Nat.le_of_succ_le_succ hfuel)
      rw [hlength] at hloop
      exact ⟨temp'', by rw [if_neg hlast, hloop], hbegins'⟩

/-- The bytes of a string at an address. -/
def storeString (m : Memory) (str : BitVec 64) (text : List UInt8) : Memory :=
  overlay m str (text.length + 1) fun k => (text ++ [0]).getD k 0

/-- A loop over the digits and the copy behind it write the digits in their order. -/
theorem digitLoop_copyDown {num : BitVec 64} {temp : Vector UInt8 tempSize} {text : List UInt8}
    (hdigit : ∀ num, (digit num).toNat < digits.length)
    (h : Stdio.digitLoop digits digit next longBits num [] = some text.reverse)
    (htemp : Begins temp [0]) (m : Memory) (str : BitVec 64) :
    ((digitLoop digits digit next tempSize num temp 1).bind fun r => copyDown r.1 r.2 m str) =
      some (storeString m str text) := by
  obtain ⟨temp', hloop, hbegins⟩ :=
    digitLoop_of_list hdigit h htemp (by decide) (by decide : longBits ≤ tempSize)
  have hlength : text.reverse.length = text.length := List.length_reverse
  have hcopy : copyDown temp' text.reverse.length m str = some (storeString m str text) := by
    have hfits : text.reverse.length < 2 ^ 64 := by
      have hle : text.reverse.length + 1 ≤ 65 := hbegins.length_le
      omega
    rw [copyDown_eq hbegins List.length_cons hfits, List.reverse_cons, List.reverse_reverse,
      hlength]
    rfl
  rw [List.length_nil, Nat.zero_add] at hloop
  rw [hloop, Option.bind_some]
  exact hcopy

end Loops

section Numbers

variable {base : Nat} {altDigits : Bool}

/-- A digit of the base stands in the array of the digits. -/
theorem lt_length_digits (altDigits : Bool) {digit : BitVec 64 → BitVec 64} (hbase : 1 < base)
    (hlast : base ≤ 16) (hdigit : ∀ num, (digit num).toNat = num.toNat % base) (num : BitVec 64) :
    (digit num).toNat < (if altDigits then digitsUc else digitsLc).length := by
  have hlength : (if altDigits then digitsUc else digitsLc).length = 16 := by
    cases altDigits <;> rfl
  calc
    (digit num).toNat = num.toNat % base := hdigit num
    _ < base := Nat.mod_lt _ (Nat.zero_lt_of_lt hbase)
    _ ≤ 16 := hlast
    _ = _ := hlength.symm

/-- The string that is written, whichever way the digits are made. -/
theorem ulongToString_eq (alwaysUseDivision : Bool) (temp : Vector UInt8 tempSize) (m : Memory)
    (num str : BitVec 64) (hbase : 1 < base) (hlast : base ≤ 16) :
    ulongToString alwaysUseDivision temp m num str base altDigits =
      some (storeString m str (numeral base altDigits num.toNat)) := by
  have hpos : 0 < base := Nat.zero_lt_of_lt hbase
  obtain ⟨temp', hassign, htemp⟩ : ∃ temp', assign temp 0 0 = some temp' ∧ Begins temp' [0] :=
    begins_nil.assign (by decide) 0
  have hdivision := digitLoop_copyDown (lt_length_digits altDigits hbase hlast (toNat_umod hlast))
    (digitLoop_division num hbase hlast) htemp m str
  rw [ulongToString]
  dsimp only
  rw [hassign, Option.bind_eq_bind, Option.bind_some]
  cases alwaysUseDivision with
  | true =>
    rw [if_pos rfl, Option.bind_eq_bind, Option.bind_some, if_pos rfl, if_neg (Nat.ne_of_gt hpos)]
    exact hdivision
  | false =>
    obtain ⟨nbits, hnbits, hcase⟩ := exists_baseToNbits hbase hlast
    rw [if_neg Bool.false_ne_true, hnbits, Option.map_some, Option.bind_eq_bind, Option.bind_some]
    obtain rfl | ⟨hbits, hle, rfl⟩ := hcase
    · rw [if_pos (decide_eq_true rfl), if_neg (Nat.ne_of_gt hpos)]
      exact hdivision
    · have hmask := lt_length_digits altDigits hbase hlast (toNat_and_mask (toNat_mask hle))
      rw [if_neg (ne_true_of_eq_false (decide_eq_false (Nat.ne_of_gt hbits))),
        Option.bind_eq_bind, Option.bind_some]
      exact digitLoop_copyDown hmask (digitLoop_shift num hbits hle) htemp m str

example : (ulongToString false (Vector.replicate tempSize 0xff) (fun _ => 0xff) 0xc0de 0 16
    true).map (fun m => [m 0, m 1, m 2, m 3, m 4, m 5]) =
      some [ch 'C', ch '0', ch 'D', ch 'E', 0, 0xff] := by decide +kernel

/-- The strings of the lists are those of the memory. -/
theorem ulongToString_refines (alwaysUseDivision : Bool) (temp : Vector UInt8 tempSize)
    (m : Memory) (num str : BitVec 64) (hbase : 1 < base) (hlast : base ≤ 16) :
    ulongToString alwaysUseDivision temp m num str base altDigits =
      (Stdio.ulongToString num base altDigits).map (storeString m str) := by
  rw [ulongToString_eq alwaysUseDivision temp m num str hbase hlast,
    Stdio.ulongToString_eq num hbase hlast, Option.map_some]

/-- The one text without zeros in front that stands for the number is written with a zero behind it,
in at most 65 bytes and nowhere else, by division as well as by mask and shift. -/
def WritesNumeral (temp : Vector UInt8 tempSize) (m : Memory) (num str : BitVec 64) (base : Nat)
    (altDigits : Bool) : Prop :=
  ∃ text m', IsNumeral base altDigits num.toNat text ∧
    (∀ other, IsNumeral base altDigits num.toNat other → other = text) ∧
    text.length + 1 ≤ 65 ∧
    Replaces m m' str (text.length + 1) (fun k => (text ++ [0]).getD k 0) ∧
    ∀ alwaysUseDivision,
      ulongToString alwaysUseDivision temp m num str base altDigits = some m'

theorem ulongToString_exact (temp : Vector UInt8 tempSize) (m : Memory) (num str : BitVec 64)
    (base : Nat) (altDigits : Bool) (hbase : 2 ≤ base) (hlast : base ≤ 16) :
    WritesNumeral temp m num str base altDigits := by
  have hlength : (numeral base altDigits num.toNat).length ≤ 64 := length_numeral_toNat_le num hbase
  refine ⟨numeral base altDigits num.toNat, storeString m str (numeral base altDigits num.toNat),
    isNumeral_numeral hbase hlast, fun other hother => hother.eq_numeral hbase hlast,
    Nat.succ_le_succ hlength, replaces_overlay m str _ (by omega), fun alwaysUseDivision => ?_⟩
  exact ulongToString_eq alwaysUseDivision temp m num str hbase hlast

/-- The longest string: 64 binary digits. -/
theorem ulongToString_exact_ones :
    WritesNumeral (Vector.replicate tempSize 0xff) (fun _ => 0xff) (BitVec.allOnes 64) 0x1000 2
      false :=
  ulongToString_exact _ _ _ _ 2 false (by decide) (by decide)

end Numbers

end RPiKernel.Stdio.Buffered
