import RPiKernel.Stdio.FieldText

/-!
# The layout of a field

What a conversion should print: a body of a sign or prefix and digits padded to the precision, or
of characters cut to it, in a field of the minimum width. `_doprnt` does not print that for every
conversion. It converts no argument to a short type, prints a digit of a zero at precision zero and
a hexadecimal prefix of a zero, leaves the prefix out of the width, has one prefix for both cases
of hexadecimal digits, does not print a character that is zero, and pads characters with zeros also
when there is a precision.
-/

namespace RPiKernel.Stdio

open Machine

/-- The number of bits of the type that a length modifier names. -/
def Modifier.bits : Modifier → Nat
  | none => 32
  | hh => 8
  | h => 16
  | l => 64
  | ll => 64
  | z => 64

namespace Conversion

variable (strings : Strings) (k : Conversion) (ap : VaList)

/-- The slot of the argument. -/
def argument : BitVec 64 := (k.behindPrecision ap).head

/-- The precision, unless it is omitted. -/
def precision? : Option Nat :=
  if k.precisionArg ap < 0 then none else some (k.precisionArg ap).toNat

/-- The `0` flag counts: there is neither a `-` flag nor a precision. -/
def zeros : Bool := k.zeroPads ap && (k.precision? ap).isNone

/-- The value of a signed conversion. -/
def signed : Int := ((k.argument ap).setWidth k.modifier.bits).toInt

/-- The value of an unsigned conversion. -/
def unsigned : Nat := ((k.argument ap).setWidth k.modifier.bits).toNat

/-- Whether a value has no digits. -/
def Blank (v : Nat) : Prop := v = 0 ∧ k.precision? ap = some 0

instance (v : Nat) : Decidable (k.Blank ap v) := inferInstanceAs (Decidable (_ ∧ _))

/-- The digits of a value, padded to the precision. -/
def digits (base : Nat) (upper : Bool) (v : Nat) : List UInt8 :=
  let ds := if k.Blank ap v then [] else numeral base upper v
  List.replicate ((k.precision? ap).getD 1 - ds.length) (ch '0') ++ ds

/-- Octal digits that begin with a zero. -/
def zeroFirst (ds : List UInt8) : List UInt8 :=
  if ds.head? = some (ch '0') then ds else ch '0' :: ds

/-- Characters, cut to the precision. -/
def cutTo (bytes : List UInt8) : List UInt8 :=
  match k.precision? ap with
  | none => bytes
  | some n => bytes.take n

/-- The character of a `%c`. -/
def character : UInt8 := UInt8.ofBitVec ((k.argument ap).setWidth 8)

/-- The string of a `%s`. -/
def string : List UInt8 :=
  if k.argument ap = 0 then nullText else (strings (k.argument ap)).bytes

/-- The body of a conversion: its sign or prefix, and the rest. -/
def content : List UInt8 × List UInt8 :=
  let hash := k.flags.contains .hash
  match k.specifier with
  | .d => (if k.signed ap < 0 then [ch '-'] else [], k.digits ap 10 false (k.signed ap).natAbs)
  | .i => (if k.signed ap < 0 then [ch '-'] else [], k.digits ap 10 false (k.signed ap).natAbs)
  | .u => ([], k.digits ap 10 false (k.unsigned ap))
  | .b => ([], k.digits ap 2 false (k.unsigned ap))
  | .o =>
      let ds := k.digits ap 8 false (k.unsigned ap)
      ([], if hash then zeroFirst ds else ds)
  | .x =>
      (if hash ∧ k.unsigned ap ≠ 0 then [ch '0', ch 'x'] else [],
        k.digits ap 16 false (k.unsigned ap))
  | .X =>
      (if hash ∧ k.unsigned ap ≠ 0 then [ch '0', ch 'X'] else [],
        k.digits ap 16 true (k.unsigned ap))
  | .c => ([], k.cutTo ap [k.character ap])
  | .s => ([], k.cutTo ap (k.string strings ap))

/-- What a conversion should print. -/
def layout : List UInt8 :=
  arrange (k.left ap) (k.zeros ap) (k.fieldWidth ap) (k.content strings ap).1
    (k.content strings ap).2

/-- The value of a signed argument in its slot. -/
def signedSlot : Int := ((k.argument ap).setWidth k.modifier.slotBits).toInt

/-- The value of an unsigned argument in its slot. -/
def unsignedSlot : Nat := ((k.argument ap).setWidth k.modifier.slotBits).toNat

/-- An unsigned argument has the value of its type, and digits. -/
def Plain : Prop := k.unsignedSlot ap = k.unsigned ap ∧ ¬k.Blank ap (k.unsigned ap)

/-- The padding of some characters is the same with and without a precision. -/
def PadsAlike (bytes : List UInt8) : Prop :=
  k.zeroPads ap = true ∧ k.precision? ap ≠ none → k.fieldWidth ap ≤ (k.cutTo ap bytes).length

/-- The length of some characters, as an `int`, counts all that should be printed of them, or the
padding makes up for the others. -/
def KeepsText (bytes : List UInt8) : Prop :=
  let text := k.cutTo ap bytes
  text.length ≤ lenInt bytes ∨
    k.fieldWidth ap + (-lenInt bytes).toNat = max (k.fieldWidth ap) text.length ∧
      if k.left ap then ∀ c ∈ text.drop (lenInt bytes).toNat, c = ch ' '
      else ∀ c ∈ text, c = if k.zeroPads ap then ch '0' else ch ' '

/-- `_doprnt` prints the layout of a conversion. -/
def Conforms : Prop :=
  (k.layout strings ap).length < 2 ^ 31 ∧
    match k.specifier with
    | .d => k.signedSlot ap = k.signed ap ∧ ¬k.Blank ap (k.signed ap).natAbs
    | .i => k.signedSlot ap = k.signed ap ∧ ¬k.Blank ap (k.signed ap).natAbs
    | .u => k.Plain ap
    | .b => k.Plain ap
    | .o =>
        if k.flags.contains .hash then
          let len := (numeral 8 false (k.unsigned ap)).length
          k.unsignedSlot ap = k.unsigned ap ∧
            (k.unsigned ap = 0 ∨ (k.precision? ap).getD 0 ≤ len ∧ k.fieldWidth ap ≤ len)
        else
          k.Plain ap
    | .x =>
        if k.flags.contains .hash then
          let len := (numeral 16 false (k.unsigned ap)).length
          k.unsignedSlot ap = k.unsigned ap ∧ k.unsigned ap ≠ 0 ∧
            k.fieldWidth ap ≤ max ((k.precision? ap).getD 0) len
        else
          k.Plain ap
    | .X => ¬k.flags.contains .hash ∧ k.Plain ap
    | .c =>
        k.precisionArg ap < 2 ^ 31 ∧ (k.character ap ≠ 0 ∨ k.precision? ap = some 0) ∧
          k.PadsAlike ap [k.character ap]
    | .s =>
        k.precisionArg ap < 2 ^ 31 ∧ k.PadsAlike ap (k.string strings ap) ∧
          k.KeepsText ap (k.string strings ap)

end Conversion

section Digits

variable {k : Conversion} {ap : VaList} {base v v' : Nat} {upper : Bool}

theorem length_layout (strings : Strings) :
    (k.layout strings ap).length =
      max (k.fieldWidth ap) ((k.content strings ap).1.length + (k.content strings ap).2.length) :=
  length_arrange

theorem zeros_eq : (k.zeroPads ap && decide (k.precisionArg ap < 0)) = k.zeros ap := by
  rw [Conversion.zeros, Conversion.precision?]
  split
  · next h => rw [decide_eq_true h, Option.isNone_none]
  · next h => rw [decide_eq_false h, Option.isNone_some]

theorem getD_precision? : (k.precision? ap).getD 0 = (k.precisionArg ap).toNat := by
  rw [Conversion.precision?]
  split
  · next h => rw [Option.getD_none, Int.toNat_of_nonpos h.le]
  · rfl

/-- The digits of a value that is not blank. -/
theorem digits_eq (h : ¬k.Blank ap v) :
    k.digits ap base upper v = padDigits (k.precisionArg ap) (numeral base upper v) := by
  have hpos : 0 < (numeral base upper v).length := length_numeral_pos
  rw [Conversion.digits, padDigits, if_neg h, ← getD_precision?]
  cases k.precision? ap with
  | none => rw [Option.getD_none, Option.getD_none, Nat.zero_sub, Nat.sub_eq_zero_of_le hpos]
  | some n => rfl

theorem digits_of_blank (h : k.Blank ap v) : k.digits ap base upper v = [] := by
  rw [Conversion.digits, if_pos h, h.2]
  rfl

theorem zeros_of_blank (h : k.Blank ap v) : k.zeros ap = false := by
  rw [Conversion.zeros, h.2, Option.isNone_some, Bool.and_false]

/-- The digit that is printed of a value that should have none. -/
theorem padDigits_of_blank (h : k.Blank ap v) :
    padDigits (k.precisionArg ap) (numeral base upper v) = [ch '0'] := by
  rw [padDigits, ← getD_precision?, h.1, h.2, numeral, if_pos rfl]
  rfl

theorem readNumber_padDigits (p : Int) (hbase : 1 < base) (hlast : base ≤ 16) :
    readNumber base (padDigits p (numeral base upper v)) = v := by
  rw [padDigits, readNumber_append_of_zero, readNumber_numeral hbase hlast]
  exact fun c hc => List.eq_of_mem_replicate hc ▸ readDigit_zero

theorem readNumber_digits (hbase : 1 < base) (hlast : base ≤ 16) :
    readNumber base (k.digits ap base upper v) = v := by
  by_cases h : k.Blank ap v
  · rw [digits_of_blank h, h.1]
    rfl
  · rw [digits_eq h, readNumber_padDigits _ hbase hlast]

theorem notMem_digits {c : UInt8} (hbase : 1 < base) (hlast : base ≤ 16)
    (hc : digitValue c = none) :
    c ∉ padDigits (k.precisionArg ap) (numeral base upper v) ∧
      c ∉ k.digits ap base upper v := by
  have hnumeral : c ∉ padDigits (k.precisionArg ap) (numeral base upper v) := by
    rw [padDigits, List.mem_append, not_or]
    refine ⟨fun h => ?_, fun h => ?_⟩
    · have hzero : digitValue (ch '0') ≠ none := by decide
      exact hzero (List.eq_of_mem_replicate h ▸ hc)
    · obtain ⟨d, hd⟩ := digitValue_of_mem_numeral hbase hlast h
      exact Option.some_ne_none d (hd.symm.trans hc)
  refine ⟨hnumeral, ?_⟩
  by_cases h : k.Blank ap v
  · rw [digits_of_blank h]
    exact List.not_mem_nil
  · rwa [digits_eq h]

/-- A zero that is printed where there should be no digits. -/
theorem arrange_zero_ne (left : Bool) (w : Nat) :
    arrange left false w [] [ch '0'] ≠ arrange left false w [] [] := by
  have hspaces : arrange left false w [] [] = List.replicate w (ch ' ') := by
    cases left <;> simp [arrange]
  have hmem : ch '0' ∈ arrange left false w [] [ch '0'] := by
    cases left <;> simp [arrange]
  intro h
  rw [h, hspaces] at hmem
  exact absurd (List.eq_of_mem_replicate hmem) (by decide)

/-- The sign in front of a number. -/
def signOf (negative : Bool) : List UInt8 := if negative then [ch '-'] else []

/-- What is printed of a number, with its sign, is what should be printed of the same number,
unless that has no digits. -/
theorem arrange_digits_iff {negative negative' : Bool} {w : Nat} (hbase : 1 < base)
    (hlast : base ≤ 16) (hzero : v = 0 → negative = false) :
    arrange (k.left ap) (k.zeros ap) w (signOf negative')
        (padDigits (k.precisionArg ap) (numeral base upper v')) =
      arrange (k.left ap) (k.zeros ap) w (signOf negative) (k.digits ap base upper v) ↔
    (negative' = negative ∧ v' = v) ∧ ¬k.Blank ap v := by
  have hminus : digitValue (ch '-') = none := by decide
  have hread (negative : Bool) : ∀ c ∈ signOf negative, readDigit base 0 c = 0 := by
    cases negative with
    | false => exact fun c hc => absurd hc List.not_mem_nil
    | true =>
      intro c hc
      rw [List.mem_singleton.mp hc, readDigit, hminus]
  constructor
  · intro h
    have hvalue := congrArg (readNumber base) h
    rw [readNumber_arrange (hread _), readNumber_arrange (hread _),
      readNumber_padDigits _ hbase hlast, readNumber_digits hbase hlast] at hvalue
    have hsign : (ch '-' ∈ signOf negative') ↔ ch '-' ∈ signOf negative := by
      have hmem := congrArg (ch '-' ∈ ·) h
      rw [mem_arrange (by decide) (by decide), mem_arrange (by decide) (by decide),
        or_iff_left (notMem_digits hbase hlast hminus).1,
        or_iff_left (notMem_digits hbase hlast hminus).2] at hmem
      exact iff_of_eq hmem
    have hsame : negative' = negative := by
      cases negative' <;> cases negative <;> first | rfl | exact absurd hsign (by decide)
    refine ⟨⟨hsame, hvalue⟩, fun hblank => ?_⟩
    rw [hsame, hvalue, hzero hblank.1, padDigits_of_blank hblank, digits_of_blank hblank,
      zeros_of_blank hblank] at h
    exact arrange_zero_ne _ _ h
  · rintro ⟨⟨rfl, rfl⟩, hblank⟩
    rw [digits_eq hblank]

theorem length_digits_le : (k.digits ap base upper v).length ≤
    (padDigits (k.precisionArg ap) (numeral base upper v)).length := by
  by_cases h : k.Blank ap v
  · rw [digits_of_blank h]
    exact Nat.zero_le _
  · rw [digits_eq h]

/-- The prefix of hexadecimal digits, which `_doprnt` prints also for a zero, and in front of a
field of its own. -/
theorem hex_iff {left zeros : Bool} {w : Nat} :
    [ch '0', ch 'x'] ++ arrange left zeros w []
        (padDigits (k.precisionArg ap) (numeral 16 false v')) =
      arrange left zeros w (if v ≠ 0 then [ch '0', ch 'x'] else [])
        (k.digits ap 16 false v) ↔
    v' = v ∧ v ≠ 0 ∧
      w ≤ max ((k.precision? ap).getD 0) (numeral 16 false v).length := by
  have hnone : digitValue (ch 'x') = none := by decide
  have hfirst : ∀ c ∈ [ch '0', ch 'x'], readDigit 16 0 c = 0 := by
    intro c hc
    obtain rfl | hc := List.mem_cons.mp hc
    · exact readDigit_zero
    · rw [List.mem_singleton.mp hc, readDigit, hnone]
  have hread : ∀ c ∈ (if v ≠ 0 then [ch '0', ch 'x'] else []), readDigit 16 0 c = 0 := by
    split
    · exact hfirst
    · exact fun c hc => absurd hc List.not_mem_nil
  rw [getD_precision?, ← length_padDigits]
  constructor
  · intro h
    have hvalue := congrArg (readNumber 16) h
    rw [readNumber_append_of_zero hfirst,
      readNumber_arrange (fun c hc => absurd hc List.not_mem_nil),
      readNumber_arrange hread, readNumber_padDigits _ (by decide) (by decide),
      readNumber_digits (by decide) (by decide)] at hvalue
    subst hvalue
    have hlength := congrArg List.length h
    have hle := @length_digits_le k ap 16 v' false
    have hfront : (if v' ≠ 0 then [ch '0', ch 'x'] else []).length = if v' ≠ 0 then 2 else 0 := by
      split
      · rfl
      · rfl
    rw [List.length_append, length_arrange, length_arrange, hfront] at hlength
    simp only [List.length_cons, List.length_nil] at hlength
    refine ⟨rfl, ?_, ?_⟩
    · intro hzero
      rw [if_neg (not_not.mpr hzero)] at hlength
      omega
    · split at hlength
      · omega
      · omega
  · rintro ⟨rfl, hne, hw⟩
    have hblank : ¬k.Blank ap v' := fun h => hne h.1
    rw [if_pos hne, digits_eq hblank, arrange_of_le (by simpa using hw),
      arrange_of_le (hw.trans (Nat.le_add_left _ _))]
    rfl

theorem readDigit_of_mem {c : UInt8} (h : c ∈ [ch '0']) : readDigit base 0 c = 0 := by
  rw [List.mem_singleton.mp h, readDigit_zero]

/-- The zero that stands in front of octal digits. -/
theorem readNumber_zeroFirst (ds : List UInt8) :
    readNumber base (Conversion.zeroFirst ds) = readNumber base ds := by
  rw [Conversion.zeroFirst]
  split
  · rfl
  · exact readNumber_append_of_zero fun c hc => readDigit_of_mem hc

theorem padDigits_of_le {p : Int} {ds : List UInt8} (h : p.toNat ≤ ds.length) :
    padDigits p ds = ds := by
  rw [padDigits, Nat.sub_eq_zero_of_le h, List.replicate_zero, List.nil_append]

/-- Digits that begin with a zero already. -/
theorem zeroFirst_padDigits {p : Int} {ds : List UInt8}
    (h : ds.length < p.toNat ∨ ds.head? = some (ch '0')) :
    Conversion.zeroFirst (padDigits p ds) = padDigits p ds := by
  refine if_pos ?_
  rw [padDigits, List.head?_append, List.head?_replicate]
  split
  · next hnone =>
    obtain hlt | hhead := h
    · omega
    · exact hhead
  · rfl

/-- The octal digits of a zero. -/
theorem zeroFirst_digits_zero :
    Conversion.zeroFirst (k.digits ap 8 upper 0) =
      padDigits (k.precisionArg ap) (numeral 8 upper 0) := by
  by_cases hblank : k.Blank ap 0
  · rw [padDigits_of_blank hblank, digits_of_blank hblank]
    rfl
  · rw [digits_eq hblank, zeroFirst_padDigits (.inr rfl)]

/-- The prefix of octal digits, which `_doprnt` prints also in front of zeros, and in front of a
field of its own. -/
theorem octal_iff {left zeros : Bool} {w : Nat} :
    (if v' ≠ 0 then [ch '0'] else []) ++ arrange left zeros w []
        (padDigits (k.precisionArg ap) (numeral 8 false v')) =
      arrange left zeros w [] (Conversion.zeroFirst (k.digits ap 8 false v)) ↔
    v' = v ∧ (v = 0 ∨ (k.precision? ap).getD 0 ≤ (numeral 8 false v).length ∧
      w ≤ (numeral 8 false v).length) := by
  have hfirst : ∀ c ∈ (if v' ≠ 0 then [ch '0'] else []), readDigit 8 0 c = 0 := by
    split
    · exact fun c hc => readDigit_of_mem hc
    · exact fun c hc => absurd hc List.not_mem_nil
  have hnil : ∀ c ∈ ([] : List UInt8), readDigit 8 0 c = 0 := fun c hc => absurd hc List.not_mem_nil
  rw [getD_precision?]
  constructor
  · intro h
    have hvalue := congrArg (readNumber 8) h
    rw [readNumber_append_of_zero hfirst, readNumber_arrange hnil, readNumber_arrange hnil,
      readNumber_padDigits _ (by decide) (by decide), readNumber_zeroFirst,
      readNumber_digits (by decide) (by decide)] at hvalue
    subst hvalue
    refine ⟨rfl, or_iff_not_imp_left.mpr fun hne => ?_⟩
    have hblank : ¬k.Blank ap v' := fun h => hne h.1
    have hlength := congrArg List.length h
    rw [if_pos hne, digits_eq hblank, List.length_append, length_arrange, length_arrange,
      List.length_singleton, List.length_nil] at hlength
    obtain hlt | hle := Nat.lt_or_ge (numeral 8 false v').length (k.precisionArg ap).toNat
    · rw [zeroFirst_padDigits (.inl hlt)] at hlength
      omega
    · rw [padDigits_of_le hle, Conversion.zeroFirst,
        if_neg (head?_numeral_ne_zero (by decide) (by decide) hne), List.length_cons] at hlength
      omega
  · rintro ⟨rfl, hzero | ⟨hle, hw⟩⟩
    · rw [if_neg (not_not.mpr hzero), List.nil_append, hzero, zeroFirst_digits_zero]
    · by_cases hzero : v' = 0
      · rw [if_neg (not_not.mpr hzero), List.nil_append, hzero, zeroFirst_digits_zero]
      · have hblank : ¬k.Blank ap v' := fun h => hzero h.1
        rw [if_pos hzero, digits_eq hblank, padDigits_of_le hle, Conversion.zeroFirst,
          if_neg (head?_numeral_ne_zero (by decide) (by decide) hzero),
          arrange_of_le (by simpa using hw), arrange_of_le]
        · rfl
        · rw [List.length_cons]
          omega

end Digits

section Specifiers

variable {strings : Strings} {k : Conversion} {ap : VaList} {n base hashtype : Nat}
  {altDigits negative : Bool} {sign : UInt8} {ularg : BitVec 64}

theorem prefixText_number :
    (k.number ap base sign hashtype altDigits ularg).prefixText =
      if base = 0 then
        []
      else if hashtype = 2 ∧ ularg ≠ 0 then
        [ch '0']
      else if hashtype = 3 then
        [ch '0', ch 'x']
      else
        [] :=
  rfl

theorem prefixText_of_lt (h : hashtype < 2) :
    (k.number ap base sign hashtype altDigits ularg).prefixText = [] := by
  have hoctal : ¬(hashtype = 2 ∧ ularg ≠ 0) := by omega
  have hhex : hashtype ≠ 3 := by omega
  rw [prefixText_number, if_neg hoctal, if_neg hhex, ite_self]

theorem prefixText_hex :
    (k.number ap 16 sign 3 altDigits ularg).prefixText = [ch '0', ch 'x'] := by
  rw [prefixText_number, if_neg (by decide), if_neg fun h => absurd h.1 (by decide), if_pos rfl]

/-- A conversion of a number without a prefix. -/
theorem prints_plain_iff
    (hscan : scanSpecifier strings (k.atSpecifier ap) (k.behindPrecision ap) [k.specifier.char] =
      some (k.number ap base sign hashtype altDigits ularg))
    (hbase : base = 2 ∨ base = 8 ∨ base = 10 ∨ base = 16) (hfirst : hashtype < 2)
    (hzero : n = 0 → negative = false) {negative' : Bool}
    (hsign : sign = if negative' then ch '-' else 0)
    (hlayout : k.layout strings ap = arrange (k.left ap) (k.zeros ap) (k.fieldWidth ap)
      (signOf negative) (k.digits ap base altDigits n)) :
    k.Prints strings ap (k.layout strings ap) ↔ (k.layout strings ap).length < 2 ^ 31 ∧
      (negative' = negative ∧ ularg.toNat = n) ∧ ¬k.Blank ap n := by
  have hsignText : (k.number ap base sign hashtype altDigits ularg).signText =
      signOf negative' := by
    change (if sign = 0 then [] else [sign]) = _
    cases negative' <;> subst hsign <;> rfl
  rw [prints_number_iff hscan hbase, prefixText_of_lt hfirst, List.nil_append, hsignText,
    zeros_eq, hlayout, arrange_digits_iff (by omega) (by omega) hzero]

theorem hashtype_atSpecifier_lt : (k.atSpecifier ap).hashtype < 2 := by
  change (if k.flags.contains .hash then 1 else 0) < 2
  split <;> decide

/-- The signed conversions. -/
theorem prints_signed_iff (hchar : k.specifier.char = ch 'd' ∨ k.specifier.char = ch 'i')
    (hcontent : k.content strings ap =
      (if k.signed ap < 0 then [ch '-'] else [], k.digits ap 10 false (k.signed ap).natAbs)) :
    k.Prints strings ap (k.layout strings ap) ↔
      (k.layout strings ap).length < 2 ^ 31 ∧ k.signedSlot ap = k.signed ap ∧
        ¬k.Blank ap (k.signed ap).natAbs := by
  have hlayout : k.layout strings ap = arrange (k.left ap) (k.zeros ap) (k.fieldWidth ap)
      (signOf (decide (k.signed ap < 0))) (k.digits ap 10 false (k.signed ap).natAbs) := by
    rw [Conversion.layout, hcontent, signOf]
    simp
  have hslot : (signedArg k.modifier.size (k.behindPrecision ap)).toInt = k.signedSlot ap :=
    toInt_signedArg k.modifier (k.behindPrecision ap)
  generalize hlarg : signedArg k.modifier.size (k.behindPrecision ap) = larg at hslot
  have hslt : larg.slt 0 = decide (k.signedSlot ap < 0) := by
    rw [BitVec.slt_eq_decide, hslot]
    rfl
  have hscan : scanSpecifier strings (k.atSpecifier ap) (k.behindPrecision ap) [k.specifier.char] =
      some (k.number ap 10 (if decide (k.signedSlot ap < 0) then ch '-' else 0)
        (k.atSpecifier ap).hashtype false (if k.signedSlot ap < 0 then -larg else larg)) := by
    have hswitch : scanSpecifier strings (k.atSpecifier ap) (k.behindPrecision ap)
        [k.specifier.char] =
        if larg.slt 0 then some (k.number ap 10 (ch '-') (k.atSpecifier ap).hashtype false (-larg))
        else some (k.number ap 10 0 (k.atSpecifier ap).hashtype false larg) := by
      rw [← hlarg]
      obtain h | h := hchar <;> rw [h] <;> rfl
    rw [hswitch, hslt]
    by_cases hneg : k.signedSlot ap < 0
    · simp only [hneg, decide_true, if_true]
    · simp only [hneg, decide_false, if_false, Bool.false_eq_true]
  have hvalue : (if k.signedSlot ap < 0 then -larg else larg).toNat = (k.signedSlot ap).natAbs := by
    split
    · next hneg => rw [toNat_neg_of_neg (hslot ▸ hneg), hslot]
    · next hpos =>
      rw [← hslot] at hpos ⊢
      have hlt := larg.isLt
      rw [BitVec.toInt_eq_toNat_cond] at hpos ⊢
      split at hpos
      · next hsmall => rw [if_pos hsmall, Int.natAbs_natCast]
      · omega
  rw [prints_plain_iff hscan (by decide) hashtype_atSpecifier_lt
    (fun h => decide_eq_false (by omega)) rfl hlayout, hvalue, decide_eq_decide]
  have hsame : ((k.signedSlot ap < 0 ↔ k.signed ap < 0) ∧
      (k.signedSlot ap).natAbs = (k.signed ap).natAbs) ↔ k.signedSlot ap = k.signed ap := by
    omega
  rw [hsame]

/-- The unsigned conversions without a prefix. -/
theorem prints_unsigned_iff
    (hscan : scanSpecifier strings (k.atSpecifier ap) (k.behindPrecision ap) [k.specifier.char] =
      some (k.number ap base 0 hashtype altDigits
        (unsignedArg k.modifier.size (k.behindPrecision ap))))
    (hbase : base = 2 ∨ base = 8 ∨ base = 10 ∨ base = 16) (hfirst : hashtype < 2)
    (hcontent : k.content strings ap = ([], k.digits ap base altDigits (k.unsigned ap))) :
    k.Prints strings ap (k.layout strings ap) ↔
      (k.layout strings ap).length < 2 ^ 31 ∧ k.Plain ap := by
  have hlayout : k.layout strings ap = arrange (k.left ap) (k.zeros ap) (k.fieldWidth ap)
      (signOf false) (k.digits ap base altDigits (k.unsigned ap)) := by
    rw [Conversion.layout, hcontent]
    rfl
  have hslot : (unsignedArg k.modifier.size (k.behindPrecision ap)).toNat = k.unsignedSlot ap :=
    toNat_unsignedArg k.modifier (k.behindPrecision ap)
  rw [prints_plain_iff hscan hbase hfirst (fun _ => rfl) (by rfl : 0 = if false then ch '-' else 0)
    hlayout, hslot, Conversion.Plain, eq_self_iff_true, true_and]

/-- The octal conversion with its prefix. -/
theorem prints_octal_iff
    (hscan : scanSpecifier strings (k.atSpecifier ap) (k.behindPrecision ap) [k.specifier.char] =
      some (k.number ap 8 0 2 false (unsignedArg k.modifier.size (k.behindPrecision ap))))
    (hcontent : k.content strings ap =
      ([], Conversion.zeroFirst (k.digits ap 8 false (k.unsigned ap)))) :
    k.Prints strings ap (k.layout strings ap) ↔ (k.layout strings ap).length < 2 ^ 31 ∧
      k.unsignedSlot ap = k.unsigned ap ∧ (k.unsigned ap = 0 ∨
        (k.precision? ap).getD 0 ≤ (numeral 8 false (k.unsigned ap)).length ∧
          k.fieldWidth ap ≤ (numeral 8 false (k.unsigned ap)).length) := by
  have hslot : (unsignedArg k.modifier.size (k.behindPrecision ap)).toNat = k.unsignedSlot ap :=
    toNat_unsignedArg k.modifier (k.behindPrecision ap)
  generalize unsignedArg k.modifier.size (k.behindPrecision ap) = ularg at hscan hslot
  have hfirst : (k.number ap 8 0 2 false ularg).prefixText =
      if k.unsignedSlot ap ≠ 0 then [ch '0'] else [] := by
    rw [prefixText_number, if_neg (by decide), ← hslot]
    by_cases hzero : ularg = 0
    · simp [hzero]
    · have hnat : ularg.toNat ≠ 0 := fun h => hzero (BitVec.eq_of_toNat_eq h)
      rw [if_pos (⟨rfl, hzero⟩ : 2 = 2 ∧ ularg ≠ 0), if_pos hnat]
  have hsign : (k.number ap 8 0 2 false ularg).signText = [] := rfl
  have hlayout : k.layout strings ap = arrange (k.left ap) (k.zeros ap) (k.fieldWidth ap) []
      (Conversion.zeroFirst (k.digits ap 8 false (k.unsigned ap))) := by
    rw [Conversion.layout, hcontent]
  rw [prints_number_iff hscan (by decide), hfirst, hsign, hslot, zeros_eq]
  refine and_congr_right fun _ => ?_
  rw [hlayout, octal_iff]

/-- The hexadecimal conversion with its prefix. -/
theorem prints_hex_iff
    (hscan : scanSpecifier strings (k.atSpecifier ap) (k.behindPrecision ap) [k.specifier.char] =
      some (k.number ap 16 0 3 false (unsignedArg k.modifier.size (k.behindPrecision ap))))
    (hcontent : k.content strings ap =
      (if k.unsigned ap ≠ 0 then [ch '0', ch 'x'] else [],
        k.digits ap 16 false (k.unsigned ap))) :
    k.Prints strings ap (k.layout strings ap) ↔ (k.layout strings ap).length < 2 ^ 31 ∧
      k.unsignedSlot ap = k.unsigned ap ∧ k.unsigned ap ≠ 0 ∧
        k.fieldWidth ap ≤
          max ((k.precision? ap).getD 0) (numeral 16 false (k.unsigned ap)).length := by
  have hslot : (unsignedArg k.modifier.size (k.behindPrecision ap)).toNat = k.unsignedSlot ap :=
    toNat_unsignedArg k.modifier (k.behindPrecision ap)
  generalize unsignedArg k.modifier.size (k.behindPrecision ap) = ularg at hscan hslot
  have hsign : (k.number ap 16 0 3 false ularg).signText = [] := rfl
  have hlayout : k.layout strings ap = arrange (k.left ap) (k.zeros ap) (k.fieldWidth ap)
      (if k.unsigned ap ≠ 0 then [ch '0', ch 'x'] else [])
      (k.digits ap 16 false (k.unsigned ap)) := by
    rw [Conversion.layout, hcontent]
  rw [prints_number_iff hscan (by decide), prefixText_hex, hsign, hslot, zeros_eq]
  refine and_congr_right fun _ => ?_
  rw [hlayout, hex_iff]

/-- The hexadecimal conversion with upper case digits has the prefix of the other one. -/
theorem not_prints_upperHex
    (hscan : scanSpecifier strings (k.atSpecifier ap) (k.behindPrecision ap) [k.specifier.char] =
      some (k.number ap 16 0 3 true (unsignedArg k.modifier.size (k.behindPrecision ap))))
    (hcontent : k.content strings ap =
      (if k.unsigned ap ≠ 0 then [ch '0', ch 'X'] else [],
        k.digits ap 16 true (k.unsigned ap))) :
    ¬k.Prints strings ap (k.layout strings ap) := by
  generalize unsignedArg k.modifier.size (k.behindPrecision ap) = ularg at hscan
  have hx : ch 'x' ∉ k.layout strings ap := by
    rw [Conversion.layout, hcontent, mem_arrange (by decide) (by decide), not_or]
    refine ⟨?_, (notMem_digits (by decide) (by decide) (by decide)).2⟩
    dsimp only
    split <;> decide
  rw [prints_number_iff hscan (by decide), prefixText_hex]
  rintro ⟨-, heq⟩
  exact hx (heq ▸ List.mem_append_left _ (by decide))

section Characters

variable {bytes : List UInt8}

theorem length_cutTo_le : (k.cutTo ap bytes).length ≤ bytes.length := by
  rw [Conversion.cutTo]
  split
  · exact Nat.le_refl _
  · exact List.length_take_le' _ _

theorem keepsText_of_lt (h : bytes.length < 2 ^ 31) : k.KeepsText ap bytes :=
  .inl (lenInt_of_lt h ▸ Int.ofNat_le.mpr length_cutTo_le)

/-- The characters that `_doprnt` keeps of a string where its length counts them. -/
theorem take_eq_cutTo {cut : Int} (h : (k.cutTo ap bytes).length ≤ lenInt bytes)
    (hcut : cut = if 0 ≤ k.precisionArg ap ∧ k.precisionArg ap < lenInt bytes then
      k.precisionArg ap else lenInt bytes) :
    bytes.take cut.toNat = k.cutTo ap bytes ∧ (-cut).toNat = 0 := by
  have hle := (lenInt_bounds bytes).2.2
  rw [Conversion.cutTo, Conversion.precision?] at h ⊢
  obtain hneg | hpos := Int.lt_or_le (k.precisionArg ap) 0
  · rw [if_pos hneg] at h ⊢
    dsimp only at h ⊢
    rw [if_neg fun hand => absurd hneg (Int.not_lt.mpr hand.1)] at hcut
    exact ⟨List.take_of_length_le (by omega), by omega⟩
  · rw [if_neg (Int.not_lt.mpr hpos)] at h ⊢
    rw [List.length_take] at h
    split at hcut
    · rw [hcut]
      exact ⟨rfl, by omega⟩
    · exact ⟨List.take_eq_take_iff.mpr (by omega), by omega⟩

/-- What `_doprnt` keeps of a string where its length does not count them. -/
theorem take_of_lt_cutTo {cut : Int} (h : lenInt bytes < (k.cutTo ap bytes).length)
    (hfits : (k.cutTo ap bytes).length < 2 ^ 31)
    (hcut : cut = if 0 ≤ k.precisionArg ap ∧ k.precisionArg ap < lenInt bytes then
      k.precisionArg ap else lenInt bytes) :
    cut = lenInt bytes ∧ bytes.take cut.toNat = (k.cutTo ap bytes).take cut.toNat ∧
      k.precision? ap ≠ none := by
  rw [Conversion.cutTo, Conversion.precision?] at h hfits ⊢
  obtain hneg | hpos := Int.lt_or_le (k.precisionArg ap) 0
  · rw [if_pos hneg] at h hfits
    exact absurd (lenInt_of_lt hfits) (Int.ne_of_lt h)
  · rw [if_neg (Int.not_lt.mpr hpos)] at h ⊢
    rw [List.length_take] at h
    rw [if_neg (by omega)] at hcut
    refine ⟨hcut, ?_, Option.some_ne_none _⟩
    rw [List.take_take, Nat.min_eq_left (by omega)]

/-- The same characters, padded as the flag and the precision say. -/
theorem arrange_cutTo_iff :
    arrange (k.left ap) (k.zeroPads ap) (k.fieldWidth ap) [] (k.cutTo ap bytes) =
      arrange (k.left ap) (k.zeros ap) (k.fieldWidth ap) [] (k.cutTo ap bytes) ↔
    k.PadsAlike ap bytes := by
  rw [Conversion.zeros, Conversion.PadsAlike]
  cases hpads : k.zeroPads ap with
  | false => simp
  | true =>
    have hleft : k.left ap = false := by
      refine eq_false_of_ne_true fun h => ?_
      exact Bool.false_ne_true ((zeroPads_of_left h).symm.trans hpads)
    cases hprec : k.precision? ap with
    | none => simp
    | some n =>
      rw [Option.isNone_some, Bool.and_false, arrange_zeros_iff, hleft]
      simp

/-- What `_doprnt` keeps of a string, in its field. -/
theorem arrange_cut_iff {cut : Int} (hfits : (k.cutTo ap bytes).length < 2 ^ 31)
    (hcut : cut = if 0 ≤ k.precisionArg ap ∧ k.precisionArg ap < lenInt bytes then
      k.precisionArg ap else lenInt bytes) :
    arrange (k.left ap) (k.zeroPads ap) (k.fieldWidth ap + (-cut).toNat) []
        (bytes.take cut.toNat) =
      arrange (k.left ap) (k.zeros ap) (k.fieldWidth ap) [] (k.cutTo ap bytes) ↔
    k.PadsAlike ap bytes ∧ k.KeepsText ap bytes := by
  obtain hkeeps | hlost := Int.lt_or_le (lenInt bytes) (k.cutTo ap bytes).length |>.symm
  · obtain ⟨htake, hzero⟩ := take_eq_cutTo hkeeps hcut
    rw [htake, hzero, Nat.add_zero, arrange_cutTo_iff]
    exact (and_iff_left (.inl hkeeps)).symm
  · obtain ⟨rfl, htake, hprec⟩ := take_of_lt_cutTo hlost hfits hcut
    have hzeros : k.zeros ap = false := by
      rw [Conversion.zeros, Option.isNone_eq_false_iff.mpr (Option.isSome_iff_ne_none.mpr hprec),
        Bool.and_false]
    have hkeeps : k.KeepsText ap bytes ↔
        k.fieldWidth ap + (-lenInt bytes).toNat =
            max (k.fieldWidth ap) (k.cutTo ap bytes).length ∧
          if k.left ap then ∀ c ∈ (k.cutTo ap bytes).drop (lenInt bytes).toNat, c = ch ' '
          else ∀ c ∈ k.cutTo ap bytes, c = if k.zeroPads ap then ch '0' else ch ' ' :=
      or_iff_right (Int.not_le.mpr hlost)
    have hpads : k.PadsAlike ap bytes ↔
        (k.zeroPads ap = true → k.fieldWidth ap ≤ (k.cutTo ap bytes).length) := by
      rw [Conversion.PadsAlike]
      exact ⟨fun h hzero => h ⟨hzero, hprec⟩, fun h hand => h hand.1⟩
    rw [htake, hzeros, arrange_take_iff zeroPads_of_left (by omega), hkeeps, hpads]
    exact and_left_comm

/-- A string that is not too long. -/
theorem prints_short_iff (h : bytes.length < 2 ^ 31)
    (hscan : scanSpecifier strings (k.atSpecifier ap) (k.behindPrecision ap) [k.specifier.char] =
      some { k.atSpecifier ap with str := bytes }) {text : List UInt8} :
    k.Prints strings ap text ↔ text.length < 2 ^ 31 ∧ k.precisionArg ap < 2 ^ 31 ∧
      arrange (k.left ap) (k.zeroPads ap) (k.fieldWidth ap) [] (k.cutTo ap bytes) = text := by
  obtain ⟨htake, hzero⟩ := @take_eq_cutTo k ap bytes _
    (lenInt_of_lt h ▸ Int.ofNat_le.mpr length_cutTo_le) rfl
  rw [prints_string_iff hscan rfl, htake, hzero, Nat.add_zero]

/-- The string conversion. -/
theorem prints_string_layout_iff
    (hscan : scanSpecifier strings (k.atSpecifier ap) (k.behindPrecision ap) [k.specifier.char] =
      some { k.atSpecifier ap with str := bytes })
    (hcontent : k.content strings ap = ([], k.cutTo ap bytes)) :
    k.Prints strings ap (k.layout strings ap) ↔ (k.layout strings ap).length < 2 ^ 31 ∧
      k.precisionArg ap < 2 ^ 31 ∧ k.PadsAlike ap bytes ∧ k.KeepsText ap bytes := by
  rw [prints_string_iff hscan rfl]
  refine and_congr_right fun hlength => and_congr_right fun _ => ?_
  rw [length_layout, hcontent] at hlength
  dsimp only at hlength
  rw [Conversion.layout, hcontent, arrange_cut_iff (by omega) rfl]

/-- The character conversion of a zero. -/
theorem prints_zero_iff
    (hscan : scanSpecifier strings (k.atSpecifier ap) (k.behindPrecision ap) [k.specifier.char] =
      some { k.atSpecifier ap with str := [] })
    (hcontent : k.content strings ap = ([], k.cutTo ap [0])) :
    k.Prints strings ap (k.layout strings ap) ↔ (k.layout strings ap).length < 2 ^ 31 ∧
      k.precisionArg ap < 2 ^ 31 ∧ k.precision? ap = some 0 ∧ k.PadsAlike ap [0] := by
  have hlayout : k.layout strings ap =
      arrange (k.left ap) (k.zeros ap) (k.fieldWidth ap) [] (k.cutTo ap [0]) := by
    rw [Conversion.layout, hcontent]
  have hnone : k.cutTo ap [] = [] := by
    rw [Conversion.cutTo]
    split
    · rfl
    · exact List.take_nil
  rw [prints_short_iff (by decide) hscan, hnone]
  refine and_congr_right fun _ => and_congr_right fun _ => ?_
  rw [hlayout]
  by_cases hprec : k.precision? ap = some 0
  · have hcut : k.cutTo ap [0] = [] := by
      rw [Conversion.cutTo, hprec]
      rfl
    rw [and_iff_right hprec, ← arrange_cutTo_iff, hcut]
  · have hcut : k.cutTo ap [0] = [0] := by
      rw [Conversion.cutTo]
      cases hp : k.precision? ap with
      | none => rfl
      | some n =>
        have hpos : n ≠ 0 := fun h => hprec (h ▸ hp)
        exact List.take_of_length_le (Nat.pos_of_ne_zero hpos)
    refine iff_of_false (fun h => ?_) fun h => hprec h.1
    have hmem : (0 : UInt8) ∈ arrange (k.left ap) (k.zeros ap) (k.fieldWidth ap) [] [0] :=
      (mem_arrange (by decide) (by decide)).mpr (.inr List.mem_cons_self)
    rw [hcut] at h
    rw [← h, mem_arrange (by decide) (by decide)] at hmem
    obtain hmem | hmem := hmem
    · exact List.not_mem_nil hmem
    · exact List.not_mem_nil hmem

end Characters

end Specifiers

section Layout

variable {strings : Strings} {k : Conversion} {ap : VaList}

/-- The `#` flag of a conversion that has a prefix. -/
theorem hashtype_eq (hashtype : Nat) :
    (if (k.atSpecifier ap).hashtype = 1 then hashtype else (k.atSpecifier ap).hashtype) =
      if k.flags.contains .hash then hashtype else 0 := by
  have hflag : (k.atSpecifier ap).hashtype = if k.flags.contains .hash then 1 else 0 := rfl
  rw [hflag]
  cases k.flags.contains .hash <;> rfl

theorem scan_octal (hspec : k.specifier = .o) :
    scanSpecifier strings (k.atSpecifier ap) (k.behindPrecision ap) [k.specifier.char] =
      some (k.number ap 8 0 (if k.flags.contains .hash then 2 else 0) false
        (unsignedArg k.modifier.size (k.behindPrecision ap))) := by
  rw [hspec, ← hashtype_eq]
  rfl

theorem scan_hex (hspec : k.specifier = .x) :
    scanSpecifier strings (k.atSpecifier ap) (k.behindPrecision ap) [k.specifier.char] =
      some (k.number ap 16 0 (if k.flags.contains .hash then 3 else 0) false
        (unsignedArg k.modifier.size (k.behindPrecision ap))) := by
  rw [hspec, ← hashtype_eq]
  rfl

theorem scan_upperHex (hspec : k.specifier = .X) :
    scanSpecifier strings (k.atSpecifier ap) (k.behindPrecision ap) [k.specifier.char] =
      some (k.number ap 16 0 (if k.flags.contains .hash then 3 else 0) true
        (unsignedArg k.modifier.size (k.behindPrecision ap))) := by
  rw [hspec, ← hashtype_eq]
  rfl

theorem scan_plain {base : Nat}
    (hspec : k.specifier = .u ∧ base = 10 ∨ k.specifier = .b ∧ base = 2) :
    scanSpecifier strings (k.atSpecifier ap) (k.behindPrecision ap) [k.specifier.char] =
      some (k.number ap base 0 (k.atSpecifier ap).hashtype false
        (unsignedArg k.modifier.size (k.behindPrecision ap))) := by
  obtain ⟨hspec, rfl⟩ | ⟨hspec, rfl⟩ := hspec <;> rw [hspec] <;> rfl

/-- The characters of a `%c`, up to the zero behind them. -/
theorem upToNul_character (c : UInt8) : upToNul [c, 0] = if c = 0 then [] else [c] := by
  rw [upToNul]
  split
  · next h => simp [h]
  · next h => simp [h]

theorem scan_character (hspec : k.specifier = .c) :
    scanSpecifier strings (k.atSpecifier ap) (k.behindPrecision ap) [k.specifier.char] =
      some { k.atSpecifier ap with
        str := if k.character ap = 0 then [] else [k.character ap] } := by
  rw [hspec, ← upToNul_character]
  rfl

theorem scan_string (hspec : k.specifier = .s) :
    scanSpecifier strings (k.atSpecifier ap) (k.behindPrecision ap) [k.specifier.char] =
      some { k.atSpecifier ap with str := k.string strings ap } := by
  rw [hspec]
  rfl

/-- `_doprnt` prints the layout of a conversion exactly if that conforms. -/
theorem prints_layout_iff (strings : Strings) (k : Conversion) (ap : VaList) :
    k.Prints strings ap (k.layout strings ap) ↔ k.Conforms strings ap := by
  rw [Conversion.Conforms]
  cases hspec : k.specifier with
  | d => exact prints_signed_iff (.inl (hspec ▸ rfl)) (by rw [Conversion.content, hspec])
  | i => exact prints_signed_iff (.inr (hspec ▸ rfl)) (by rw [Conversion.content, hspec])
  | u =>
    exact prints_unsigned_iff (scan_plain (.inl ⟨hspec, rfl⟩)) (by decide)
      hashtype_atSpecifier_lt (by rw [Conversion.content, hspec])
  | b =>
    exact prints_unsigned_iff (scan_plain (.inr ⟨hspec, rfl⟩)) (by decide)
      hashtype_atSpecifier_lt (by rw [Conversion.content, hspec])
  | o =>
    have hscan := @scan_octal strings k ap hspec
    cases hhash : k.flags.contains .hash with
    | true =>
      rw [hhash] at hscan
      exact prints_octal_iff hscan (by rw [Conversion.content, hspec, hhash]; rfl)
    | false =>
      rw [hhash] at hscan
      exact prints_unsigned_iff hscan (by decide) (by decide)
        (by rw [Conversion.content, hspec, hhash]; rfl)
  | x =>
    have hscan := @scan_hex strings k ap hspec
    cases hhash : k.flags.contains .hash with
    | true =>
      rw [hhash] at hscan
      exact prints_hex_iff hscan (by rw [Conversion.content, hspec, hhash]; simp)
    | false =>
      rw [hhash] at hscan
      exact prints_unsigned_iff hscan (by decide) (by decide)
        (by rw [Conversion.content, hspec, hhash]; simp)
  | X =>
    have hscan := @scan_upperHex strings k ap hspec
    cases hhash : k.flags.contains .hash with
    | true =>
      rw [hhash] at hscan
      refine iff_of_false (not_prints_upperHex hscan ?_) fun h => absurd rfl h.2.1
      rw [Conversion.content, hspec, hhash]
      simp
    | false =>
      rw [hhash] at hscan
      rw [prints_unsigned_iff hscan (by decide) (by decide)
        (by rw [Conversion.content, hspec, hhash]; simp)]
      simp
  | c =>
    have hscan := @scan_character strings k ap hspec
    have hcontent : k.content strings ap = ([], k.cutTo ap [k.character ap]) := by
      rw [Conversion.content, hspec]
    by_cases hzero : k.character ap = 0
    · rw [if_pos hzero] at hscan
      rw [prints_zero_iff hscan (hzero ▸ hcontent)]
      simp [hzero]
    · rw [if_neg hzero] at hscan
      rw [prints_string_layout_iff hscan hcontent,
        and_iff_left (keepsText_of_lt (by rw [List.length_singleton]; decide))]
      simp [hzero]
  | s =>
    have hscan := @scan_string strings k ap hspec
    have hcontent : k.content strings ap = ([], k.cutTo ap (k.string strings ap)) := by
      rw [Conversion.content, hspec]
    exact prints_string_layout_iff hscan hcontent

/-- The prefix of a hexadecimal number stands in front of its field. -/
theorem not_prints_layout :
    ¬ ∀ (strings : Strings) (k : Conversion) (ap : VaList),
      k.Prints strings ap (k.layout strings ap) := by
  intro h
  have hprints := h (fun _ => ⟨[], List.not_mem_nil⟩) prefixedHex fun _ => 255
  rw [prints_iff] at hprints
  have htext : (prefixedHex.field (fun _ => ⟨[], List.not_mem_nil⟩) fun _ => 255).map Field.text =
      some [ch '0', ch 'x', ch ' ', ch ' ', ch ' ', ch ' ', ch 'f', ch 'f'] := by
    decide +kernel
  have hlayout : prefixedHex.layout (fun _ => ⟨[], List.not_mem_nil⟩) (fun _ => 255) =
      [ch ' ', ch ' ', ch '0', ch 'x', ch 'f', ch 'f'] := by
    decide +kernel
  rw [htext, hlayout] at hprints
  exact absurd hprints.1 (by decide)

end Layout

end RPiKernel.Stdio
