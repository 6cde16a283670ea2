import RPiKernel.Machine.Buffers
import RPiKernel.Machine.Grouping

/-!
# Numbers on the serial line

`PutHex` and `PutBin` print all digits of a value, `PutDec` those from the first one that is not zero
on, with an apostrophe between groups of digits. `PutDec` collects its digits in a buffer of twenty
elements, the last digit first.

## Implementation notes

A function of the source that prints is the list of the characters that it passes to `Putc`. The
namespace `Raw` and the class `PL011Uart` of the boot library have the same functions.
-/

namespace RPiKernel.Uart

open Machine

/-- `hexDigits`. -/
def hexDigits : List UInt8 :=
  [ch '0', ch '1', ch '2', ch '3', ch '4', ch '5', ch '6', ch '7', ch '8', ch '9', ch 'A', ch 'B',
    ch 'C', ch 'D', ch 'E', ch 'F']

/-- The separator of digits. -/
def separator : UInt8 := ch '\''

section Raw

variable {w : Nat}

/-- The loop of `PutHex` from `i = 4 * (n - 1)` on. -/
def putHexFrom (value : BitVec w) : Nat → List UInt8
  | 0 => []
  | n + 1 =>
      let i := 4 * n
      hexDigits.getD (value >>> i &&& 0xF).toNat 0 ::
        if 0 < i ∧ i % 16 = 0 then separator :: putHexFrom value n else putHexFrom value n

/-- `PutHex`. -/
def putHex (value : BitVec w) : List UInt8 := ch '0' :: ch 'x' :: putHexFrom value (w / 4)

/-- The loop of `PutBin` from `i = n - 1` on. -/
def putBinFrom (value : BitVec w) : Nat → List UInt8
  | 0 => []
  | n + 1 =>
      let i := n
      (ch '0' + UInt8.ofNat (value >>> i &&& 0x1).toNat) ::
        if 0 < i ∧ i % 4 = 0 then separator :: putBinFrom value n else putBinFrom value n

/-- `PutBin`. -/
def putBin (value : BitVec w) : List UInt8 := ch '0' :: ch 'b' :: putBinFrom value w

/-- The number of elements of `buffer`. -/
def bufferSize : Nat := 20

/-- The loop that puts the digits into `buffer`, with the index behind the last one. -/
def digitLoop : Nat → Nat → Vector UInt8 bufferSize → Nat → Option (Vector UInt8 bufferSize × Nat)
  | 0, _, _, _ => none
  | fuel + 1, value, buffer, index =>
      if 0 < value then do
        let buffer ← assign buffer index (ch '0' + UInt8.ofNat (value % 10))
        digitLoop fuel (value / 10) buffer (index + 1)
      else some (buffer, index)

/-- The loop that prints `buffer` in reverse order, from `i = index - 1` on. -/
def printLoop (buffer : Vector UInt8 bufferSize) : Nat → Option (List UInt8)
  | 0 => some []
  | i + 1 => do
      let c ← buffer[i]?
      let rest ← printLoop buffer i
      some (c :: if 0 < i ∧ i % 3 = 0 then separator :: rest else rest)

/-- `PutDec`. What `buffer` holds at first is arbitrary. -/
def putDec (buffer : Vector UInt8 bufferSize) (value : BitVec w) : Option (List UInt8) :=
  if value = 0 then some [ch '0']
  else do
    let (buffer, index) ← digitLoop (bufferSize + 1) value.toNat buffer 0
    printLoop buffer index

end Raw

section Digits

variable {w : Nat} {value : BitVec w}

theorem hexDigits_getD {d : Nat} (h : d < 16) : hexDigits.getD d 0 = digitChar true d := by
  interval_cases d <;> rfl

theorem decimal_eq {d : Nat} (h : d < 10) : ch '0' + UInt8.ofNat d = digitChar true d := by
  interval_cases d <;> rfl

theorem toNat_mask {k mask : Nat} (hmask : mask < 2 ^ k) (hw : k ≤ w) :
    (BitVec.ofNat w mask).toNat = mask := by
  rw [BitVec.toNat_ofNat, Nat.mod_eq_of_lt]
  exact hmask.trans_le (Nat.pow_le_pow_right (by decide) hw)

/-- A digit of a value, cut out by a shift and a mask. -/
theorem toNat_shift_and {k i : Nat} (mask : BitVec w) (hmask : mask.toNat = 2 ^ k - 1) :
    (value >>> i &&& mask).toNat = value.toNat / 2 ^ i % 2 ^ k := by
  rw [BitVec.toNat_and, BitVec.toNat_ushiftRight, hmask, Nat.shiftRight_eq_div_pow,
    Nat.and_two_pow_sub_one_eq_mod]

theorem putHexFrom_eq (hw : 4 ≤ w) (n : Nat) :
    putHexFrom value n = grouped separator 4 (padded 16 true value.toNat n) := by
  have hmask : (0xF : BitVec w).toNat = 2 ^ 4 - 1 := toNat_mask (by decide) hw
  induction n with
  | zero => rfl
  | succ n ih =>
      have hdigit : (value >>> (4 * n) &&& 0xF).toNat = value.toNat / 16 ^ n % 16 := by
        rw [toNat_shift_and _ hmask, Nat.pow_mul]
        rfl
      have hgroup : 0 < 4 * n ∧ 4 * n % 16 = 0 ↔ 0 < n ∧ n % 4 = 0 := by omega
      rw [putHexFrom, padded, grouped, length_padded]
      simp only [hdigit, hexDigits_getD (Nat.mod_lt _ (by decide)), hgroup, ih]

theorem putBinFrom_eq (hw : 1 ≤ w) (n : Nat) :
    putBinFrom value n = grouped separator 4 (padded 2 true value.toNat n) := by
  have hmask : (0x1 : BitVec w).toNat = 2 ^ 1 - 1 := toNat_mask (by decide) hw
  induction n with
  | zero => rfl
  | succ n ih =>
      have hdigit : (value >>> n &&& 0x1).toNat = value.toNat / 2 ^ n % 2 :=
        toNat_shift_and _ hmask
      have hlt : value.toNat / 2 ^ n % 2 < 10 := (Nat.mod_lt _ (by decide)).trans (by decide)
      rw [putBinFrom, padded, grouped, length_padded]
      simp only [hdigit, decimal_eq hlt, ih]

/-- The loop puts the digits of the value into the buffer, the last one first, if they find room
there. -/
theorem digitLoop_eq {fuel v : Nat} {buffer : Vector UInt8 bufferSize} {text : List UInt8}
    (hbuffer : Begins buffer text) (hroom : text.length + (Nat.digits 10 v).length ≤ bufferSize)
    (hfuel : (Nat.digits 10 v).length < fuel) :
    ∃ buffer', digitLoop fuel v buffer text.length =
        some (buffer', (text ++ (Nat.digits 10 v).map (digitChar true)).length) ∧
      Begins buffer' (text ++ (Nat.digits 10 v).map (digitChar true)) := by
  induction fuel generalizing v buffer text with
  | zero => cases hfuel
  | succ fuel ih =>
      rw [digitLoop]
      obtain rfl | hpos := Nat.eq_zero_or_pos v
      · rw [if_neg (Nat.lt_irrefl 0), Nat.digits_zero, List.map_nil, List.append_nil]
        exact ⟨buffer, rfl, hbuffer⟩
      · rw [Nat.digits_def' (by decide) hpos, List.length_cons] at hroom hfuel
        obtain ⟨buffer₁, hassign, hbegins⟩ :=
          hbuffer.assign (by omega) (ch '0' + UInt8.ofNat (v % 10))
        have hlength : (text ++ [ch '0' + UInt8.ofNat (v % 10)]).length = text.length + 1 := by
          rw [List.length_append, List.length_singleton]
        obtain ⟨buffer₂, hloop, hbegins₂⟩ := ih (v := v / 10) hbegins (by omega) (by omega)
        rw [hlength, List.append_assoc, List.singleton_append,
          decimal_eq (Nat.mod_lt v (by decide))] at hloop
        rw [List.append_assoc, List.singleton_append, decimal_eq (Nat.mod_lt v (by decide))]
          at hbegins₂
        rw [if_pos hpos, hassign, Option.bind_eq_bind, Option.bind_some,
          Nat.digits_def' (by decide) hpos, List.map_cons]
        exact ⟨buffer₂, hloop, hbegins₂⟩

/-- What the buffer begins with is printed in reverse, and grouped. -/
theorem printLoop_eq {buffer : Vector UInt8 bufferSize} {text : List UInt8}
    (h : Begins buffer text) :
    printLoop buffer text.length = some (grouped separator 3 text.reverse) := by
  induction text using List.reverseRecOn with
  | nil => rfl
  | append_singleton text c ih =>
      rw [List.length_append, List.length_singleton, printLoop, h.getElem?_length,
        ih h.of_append, List.reverse_append, List.reverse_singleton, List.singleton_append,
        grouped, List.length_reverse]
      rfl

/-- The buffer has room for the digits of every value of at most 64 bits. -/
theorem putDec_eq (buffer : Vector UInt8 bufferSize) (value : BitVec w) (hw : w ≤ 64) :
    putDec buffer value = some (grouped separator 3 (numeral 10 true value.toNat)) := by
  rw [putDec, numeral]
  by_cases hzero : value = 0
  · rw [if_pos hzero, hzero, BitVec.ofNat_eq_ofNat, BitVec.toNat_ofNat, Nat.zero_mod, if_pos rfl]
    rfl
  · have hvalue : value.toNat ≠ 0 := fun h => hzero (BitVec.toNat_inj.mp (h.trans (by simp)))
    have hlength : (Nat.digits 10 value.toNat).length ≤ bufferSize := by
      refine (Nat.digits_length_le_iff (by decide) value.toNat).mpr ?_
      calc
        value.toNat < 2 ^ w := value.isLt
        _ ≤ 2 ^ 64 := Nat.pow_le_pow_right (by decide) hw
        _ < 10 ^ bufferSize := by decide
    have hempty : Begins buffer [] := begins_nil
    obtain ⟨buffer', hloop, hbegins⟩ :=
      digitLoop_eq (v := value.toNat) hempty (by simpa using hlength) (Nat.lt_succ_of_le hlength)
    rw [if_neg hzero, if_neg hvalue]
    rw [List.length_nil] at hloop
    rw [hloop, Option.bind_eq_bind, Option.bind_some]
    exact printLoop_eq hbegins

end Digits

/-- A text that stands for a number: its digits, with a separator behind every `g` characters from
the last one on, and nothing else. -/
structure IsGroupedNumber (base g v : Nat) (text : List UInt8) : Prop where
  value : readNumber base text = v
  digits : ∀ c ∈ text, c = separator ∨ ∃ d < base, digitChar true d = c
  separators : ∀ k < text.length, text.reverse[k]? = some separator ↔ (k + 1) % (g + 1) = 0
  first : ∃ d < base, text.head? = some (digitChar true d)

section Exact

variable {base g v w : Nat} {text : List UInt8}

theorem digitValue_separator : digitValue separator = none := by decide

theorem separator_ne_digitChar {d : Nat} (h : d < 16) : digitChar true d ≠ separator := by
  intro heq
  have hvalue : digitValue (digitChar true d) = some d := digitValue_digitChar h
  rw [heq, digitValue_separator] at hvalue
  cases hvalue

theorem isGroupedNumber_grouped (hg : 0 < g) (hlast : base ≤ 16) (hnil : text ≠ [])
    (hdigits : ∀ c ∈ text, ∃ d < base, digitChar true d = c) (hvalue : readNumber base text = v) :
    IsGroupedNumber base g v (grouped separator g text) := by
  have hsep : separator ∉ text := by
    intro hmem
    obtain ⟨d, hd, heq⟩ := hdigits separator hmem
    exact separator_ne_digitChar (hd.trans_le hlast) heq
  constructor
  case value => exact (readNumber_grouped digitValue_separator).trans hvalue
  case digits => exact fun c hc => (mem_grouped hc).imp_right (hdigits c)
  case separators => exact fun k hk => getElem?_reverse_grouped hg hsep hk
  case first =>
    obtain ⟨c, text, rfl⟩ := List.exists_cons_of_ne_nil hnil
    obtain ⟨d, hd, rfl⟩ := hdigits c List.mem_cons_self
    exact ⟨d, hd, head?_grouped⟩

/-- All digits of a number, from the most significant one on. -/
theorem isGroupedNumber_padded (hg : 0 < g) (hbase : 0 < base) (hlast : base ≤ 16) {n : Nat}
    (hn : 0 < n) (h : v < base ^ n) :
    IsGroupedNumber base g v (grouped separator g (padded base true v n)) := by
  have hlength : (padded base true v n).length = n := length_padded n
  refine isGroupedNumber_grouped hg hlast (List.ne_nil_of_length_pos (hlength.symm ▸ hn))
    (fun c hc => exists_digit_of_mem_padded hbase hc) ?_
  rw [readNumber_padded hbase hlast, Nat.mod_eq_of_lt h]

/-- What the three functions print of a value: in each base the digits of its number in groups, all
of them in the bases sixteen and two, and in base ten none in front that is zero. -/
structure PrintsNumber (value : BitVec w) (hex bin dec : List UInt8) : Prop where
  hex : ∃ digits, hex = ch '0' :: ch 'x' :: digits ∧ IsGroupedNumber 16 4 value.toNat digits ∧
    (digits.filter (· ≠ separator)).length = w / 4
  bin : ∃ digits, bin = ch '0' :: ch 'b' :: digits ∧ IsGroupedNumber 2 4 value.toNat digits ∧
    (digits.filter (· ≠ separator)).length = w
  dec : IsGroupedNumber 10 3 value.toNat dec ∧ (dec.head? = some (ch '0') → dec = [ch '0'])

theorem separator_not_mem_padded {n : Nat} (hbase : 0 < base) (hlast : base ≤ 16) :
    separator ∉ padded base true v n := by
  intro hmem
  obtain ⟨d, hd, heq⟩ := exists_digit_of_mem_padded hbase hmem
  exact separator_ne_digitChar (hd.trans_le hlast) heq

theorem length_filter_grouped_padded {n : Nat} (hbase : 0 < base) (hlast : base ≤ 16) :
    ((grouped separator g (padded base true v n)).filter (· ≠ separator)).length = n := by
  rw [filter_grouped (separator_not_mem_padded hbase hlast), length_padded]

/-- The functions print what stands for the value, and `PutDec` keeps to its buffer. -/
theorem prints_number (buffer : Vector UInt8 bufferSize) (value : BitVec w) (hbytes : 4 ∣ w)
    (hpos : 0 < w) (hw : w ≤ 64) :
    ∃ dec, putDec buffer value = some dec ∧
      PrintsNumber value (putHex value) (putBin value) dec := by
  refine ⟨_, putDec_eq buffer value hw, ?_⟩
  constructor
  case hex =>
    have hlt : value.toNat < 16 ^ (w / 4) := by
      calc
        value.toNat < 2 ^ w := value.isLt
        _ = 16 ^ (w / 4) := by rw [← Nat.mul_div_cancel' hbytes, Nat.pow_mul, Nat.mul_div_right _
          (by decide)]
    refine ⟨putHexFrom value (w / 4), rfl, ?_, ?_⟩
    · rw [putHexFrom_eq (Nat.le_of_dvd hpos hbytes)]
      exact isGroupedNumber_padded (by decide) (by decide) (by decide)
        (Nat.div_pos (Nat.le_of_dvd hpos hbytes) (by decide)) hlt
    · rw [putHexFrom_eq (Nat.le_of_dvd hpos hbytes)]
      exact length_filter_grouped_padded (by decide) (by decide)
  case bin =>
    refine ⟨putBinFrom value w, rfl, ?_, ?_⟩
    · rw [putBinFrom_eq hpos]
      exact isGroupedNumber_padded (by decide) (by decide) (by decide) hpos value.isLt
    · rw [putBinFrom_eq hpos]
      exact length_filter_grouped_padded (by decide) (by decide)
  case dec =>
    have hnumeral : IsNumeral 10 true value.toNat (numeral 10 true value.toNat) :=
      isNumeral_numeral (by decide) (by decide)
    refine ⟨isGroupedNumber_grouped (by decide) (by decide) hnumeral.ne_nil hnumeral.digits
      hnumeral.value, fun hzero => ?_⟩
    rw [hnumeral.leading (head?_grouped.symm.trans hzero)]
    rfl

/-- The longest number of base ten fills the buffer. -/
theorem prints_number_ones :
    ∃ dec, putDec (Vector.replicate bufferSize 0) (BitVec.allOnes 64) = some dec ∧
      PrintsNumber (BitVec.allOnes 64) (putHex (BitVec.allOnes 64)) (putBin (BitVec.allOnes 64))
        dec :=
  prints_number _ (BitVec.allOnes 64) (by decide) (by decide) (by decide)

example : putDec (Vector.replicate bufferSize 0) (BitVec.ofNat 32 1234567) =
    some [ch '1', ch '\'', ch '2', ch '3', ch '4', ch '\'', ch '5', ch '6', ch '7'] := by
  decide +kernel

end Exact

end RPiKernel.Uart
