import RPiKernel.Stdio.Conversions

/-!
# What `_doprnt` prints for a conversion

The length computations, as long as no `int` overflows: the prefix stands in front of a field that
is padded without it, and a string is cut to the precision with the length that `strlen` gives as
an `int`.
-/

namespace RPiKernel.Stdio

open Machine

section Lengths

variable {v : Variables} {str : List UInt8} {w : Nat} {zeros : Bool} {lenStr numZeroes : Int}

theorem lenInt_of_lt (h : str.length < 2 ^ 31) : lenInt str = str.length := by
  have hnat : (BitVec.ofNat 32 str.length).toNat = str.length := by
    rw [BitVec.toNat_ofNat]
    exact Nat.mod_eq_of_lt (by omega)
  rw [lenInt, BitVec.toInt_eq_toNat_of_lt (by rw [hnat]; omega), hnat]

theorem lenInt_bounds (str : List UInt8) :
    -2 ^ 31 ≤ lenInt str ∧ lenInt str < 2 ^ 31 ∧ lenInt str ≤ str.length := by
  refine ⟨BitVec.le_toInt _, BitVec.toInt_lt, ?_⟩
  have hle : (BitVec.ofNat 32 str.length).toNat ≤ str.length := by
    rw [BitVec.toNat_ofNat]
    exact Nat.mod_le _ _
  rw [lenInt, BitVec.toInt_eq_toNat_cond]
  split
  · omega
  · omega

/-- The sign that is printed. -/
def Variables.signText (v : Variables) : List UInt8 := if v.sign = 0 then [] else [v.sign]

theorem length_signText : (v.signText.length : Int) = if v.sign = 0 then 0 else 1 := by
  rw [Variables.signText]
  split
  · rfl
  · rfl

theorem signLength_nonneg : (0 : Int) ≤ if v.sign = 0 then 0 else 1 :=
  length_signText ▸ Int.natCast_nonneg v.signText.length

/-- What is printed of a field: its prefix, and then the rest in a field of its own. -/
theorem text_padded {lenPadding : Int} (hleft : v.leftjust = true → zeros = false)
    (hzeros : zeros = true → numZeroes = 0)
    (hfill : lenPadding.toNat = w - (v.signText.length +
      (List.replicate numZeroes.toNat (ch '0') ++ str.take lenStr.toNat).length)) :
    (v.padded lenStr numZeroes (if zeros then ch '0' else ch ' ') lenPadding str).text =
      v.prefixText ++ arrange v.leftjust zeros w v.signText
        (List.replicate numZeroes.toNat (ch '0') ++ str.take lenStr.toNat) := by
  rw [arrange, ← hfill, Variables.padded, Variables.signText]
  cases hjust : v.leftjust with
  | true =>
    rw [hleft hjust]
    simp [Field.text, Field.padding]
  | false =>
    cases zeros with
    | true =>
      rw [hzeros rfl]
      simp [Field.text, Field.padding]
    | false =>
      have hblank : ¬(ch ' ' = ch '0') := by decide
      simp [Field.text, Field.padding, hblank]

/-- The padding fills the field. -/
theorem lenPadding_eq {n : Int} (hw : v.fmin = w) (hn : lenStr + numZeroes + v.signText.length = n)
    (hlow : -2 ^ 31 ≤ lenStr) (hzeros : 0 ≤ numZeroes) (hfits : n < 2 ^ 31)
    (hpadding : w - n < 2 ^ 31) :
    v.lenPadding lenStr numZeroes = some ((w - n).toNat : Int) := by
  rw [length_signText] at hn
  have hsign := @signLength_nonneg v
  rw [Variables.lenPadding, int_of_fits (by omega) (by omega)]
  dsimp only [Option.bind_eq_bind, Option.bind_some]
  rw [hn, int_of_fits (by omega) hfits, Option.bind_some, hw]
  split
  · rw [int_of_fits (by omega) hpadding, Int.toNat_of_nonneg (by omega)]
  · rw [Int.toNat_of_nonpos (by omega)]
    rfl

/-- The lengths overflow. -/
theorem lenPadding_eq_none {n : Int} (hw : v.fmin = w)
    (hn : lenStr + numZeroes + v.signText.length = n)
    (hlow : -2 ^ 31 ≤ lenStr) (hzeros : 0 ≤ numZeroes)
    (h : 2 ^ 31 ≤ n ∨ 2 ^ 31 ≤ w - n) :
    v.lenPadding lenStr numZeroes = none := by
  rw [length_signText] at hn
  have hsign := @signLength_nonneg v
  rw [Variables.lenPadding]
  dsimp only [Option.bind_eq_bind]
  obtain hfirst | hmore := Int.lt_or_le (lenStr + numZeroes) (2 ^ 31)
  · rw [int_of_fits (by omega) hfirst, Option.bind_some, hn]
    obtain hfits | hmore := Int.lt_or_le n (2 ^ 31)
    · rw [int_of_fits (by omega) hfits, Option.bind_some, hw, if_pos (by omega),
        int_eq_none (by omega)]
    · rw [int_eq_none hmore]
      rfl
  · rw [int_eq_none hmore]
    rfl

/-- The lengths, part by part. -/
theorem lengths_eq {padChar : UInt8} {lenPadding : Int}
    (hprecision : v.applyPrecision (lenInt str) = some (lenStr, numZeroes, padChar))
    (hpadding : v.lenPadding lenStr numZeroes = some lenPadding) :
    v.lengths str = some (v.padded lenStr numZeroes padChar lenPadding str) := by
  rw [Variables.lengths, hprecision]
  dsimp only [Option.bind_eq_bind, Option.bind_some]
  rw [hpadding, Option.bind_some]

theorem lengths_eq_none {padChar : UInt8}
    (hprecision : v.applyPrecision (lenInt str) = some (lenStr, numZeroes, padChar))
    (hpadding : v.lenPadding lenStr numZeroes = none) : v.lengths str = none := by
  rw [Variables.lengths, hprecision]
  dsimp only [Option.bind_eq_bind, Option.bind_some]
  rw [hpadding, Option.bind_none]

/-- The characters that are printed of a string, as an `int`. -/
def Variables.cut (v : Variables) (str : List UInt8) : Int :=
  if 0 ≤ v.prec ∧ v.prec < lenInt str then v.prec else lenInt str

/-- What is printed of a string: as many characters as the precision and `strlen` say, and as
much padding as the width says, if that is an `int`. -/
theorem text_string (hbase : v.base = 0) (hsign : v.sign = 0) (hw : v.fmin = w)
    (hpad : v.padChar = if zeros then ch '0' else ch ' ')
    (hleft : v.leftjust = true → zeros = false) :
    (v.lengths str).map Field.text =
      if w - v.cut str < 2 ^ 31 then
        some (arrange v.leftjust zeros (w + (-v.cut str).toNat) []
          (str.take (v.cut str).toNat))
      else
        none := by
  obtain ⟨hlow, hhigh, hlength⟩ := lenInt_bounds str
  have hcut : -2 ^ 31 ≤ v.cut str ∧ v.cut str < 2 ^ 31 ∧ v.cut str ≤ str.length := by
    rw [Variables.cut]
    split
    · omega
    · omega
  have hprecision : v.applyPrecision (lenInt str) = some (v.cut str, 0, v.padChar) := by
    rw [Variables.applyPrecision, Variables.cut, if_pos hbase]
    by_cases hprec : 0 ≤ v.prec
    · rw [if_pos hprec]
      simp only [hprec, true_and]
    · rw [if_neg hprec, if_neg fun h => hprec h.1]
  have hnone : v.signText = [] := if_pos hsign
  have hfirst : v.prefixText = [] := if_pos hbase
  have hsum : v.cut str + 0 + v.signText.length = v.cut str := by
    rw [hnone, List.length_nil]
    omega
  obtain hfits | hmore := Int.lt_or_le (w - v.cut str) (2 ^ 31)
  · rw [if_pos hfits, lengths_eq hprecision
      (lenPadding_eq hw hsum hcut.1 (Int.le_refl 0) hcut.2.1 hfits), hpad, Option.map_some,
      text_padded hleft (fun _ => rfl), hfirst, hnone]
    · rfl
    · rw [hnone, Int.toNat_zero, List.replicate_zero, List.nil_append, List.length_take,
        List.length_nil, Nat.zero_add, Nat.min_eq_left (by omega)]
      omega
  · rw [if_neg (Int.not_lt.mpr hmore), lengths_eq_none hprecision
      (lenPadding_eq_none hw hsum hcut.1 (Int.le_refl 0) (.inr hmore)), Option.map_none]

/-- What is printed of a number: its prefix, and a field with its digits, padded to the
precision. -/
theorem text_number (hbase : v.base ≠ 0) (hw : v.fmin = w) (hwfits : w < 2 ^ 31)
    (hprec : v.prec < 2 ^ 31) (hstr : str.length < 2 ^ 31)
    (hpad : v.padChar = if zeros then ch '0' else ch ' ')
    (hleft : v.leftjust = true → zeros = false) :
    (v.lengths str).map Field.text =
      if v.signText.length + max v.prec.toNat str.length < 2 ^ 31 then
        some (v.prefixText ++ arrange v.leftjust (zeros && decide (v.prec < 0)) w v.signText
          (List.replicate (v.prec.toNat - str.length) (ch '0') ++ str))
      else
        none := by
  have hprecision : v.applyPrecision (lenInt str) =
      some ((str.length : Int), ((v.prec.toNat - str.length : Nat) : Int),
        if zeros && decide (v.prec < 0) then ch '0' else ch ' ') := by
    rw [Variables.applyPrecision, lenInt_of_lt hstr, if_neg hbase]
    obtain hneg | hpos := Int.lt_or_le v.prec 0
    · rw [if_neg (Int.not_le.mpr hneg), hpad, decide_eq_true hneg, Bool.and_true,
        Int.toNat_of_nonpos hneg.le, Nat.zero_sub]
      rfl
    · rw [if_pos hpos, decide_eq_false (Int.not_lt.mpr hpos), Bool.and_false]
      dsimp only [Option.bind_eq_bind]
      split
      · rw [int_of_fits (by omega) (by omega), Option.bind_some, Int.ofNat_sub (by omega),
          Int.toNat_of_nonneg hpos]
        rfl
      · rw [Option.bind_some, Nat.sub_eq_zero_of_le (by omega)]
        rfl
  have hsum : (str.length : Int) + ((v.prec.toNat - str.length : Nat) : Int) + v.signText.length =
      ((v.signText.length + max v.prec.toNat str.length : Nat) : Int) := by
    omega
  have htake : str.take ((str.length : Int).toNat) = str := List.take_length
  obtain hfits | hmore := Nat.lt_or_ge (v.signText.length + max v.prec.toNat str.length) (2 ^ 31)
  · rw [if_pos hfits, lengths_eq hprecision
      (lenPadding_eq hw hsum (by omega) (Int.natCast_nonneg _) (by omega) (by omega)),
      Option.map_some, text_padded, htake]
    · rfl
    · intro hjust
      rw [hleft hjust, Bool.false_and]
    · intro hzero
      have hneg : v.prec < 0 := of_decide_eq_true (Bool.and_eq_true_iff.mp hzero).2
      rw [Int.toNat_of_nonpos hneg.le, Nat.zero_sub]
      rfl
    · rw [htake, List.length_append, List.length_replicate]
      omega
  · rw [if_neg (Nat.not_lt.mpr hmore), lengths_eq_none hprecision
      (lenPadding_eq_none hw hsum (by omega) (Int.natCast_nonneg _) (.inl (by omega))),
      Option.map_none]

end Lengths

/-- The number of bits of an argument in its slot. -/
def Modifier.slotBits : Modifier → Nat
  | none => 32
  | hh => 32
  | h => 32
  | l => 64
  | ll => 64
  | z => 64

section Arguments

variable (modifier : Modifier) (ap : VaList)

/-- The argument of a signed conversion, as the number in its slot. -/
theorem toInt_signedArg :
    (signedArg modifier.size ap).toInt = (ap.head.setWidth modifier.slotBits).toInt := by
  cases modifier with
  | none | hh | h => exact BitVec.toInt_signExtend_of_le (by decide)
  | l | ll | z => exact congrArg BitVec.toInt (BitVec.setWidth_eq ap.head).symm

/-- The argument of an unsigned conversion, as the number in its slot. -/
theorem toNat_unsignedArg :
    (unsignedArg modifier.size ap).toNat = (ap.head.setWidth modifier.slotBits).toNat := by
  cases modifier with
  | none | hh | h =>
    change ((ap.head.setWidth 32).setWidth 64).toNat = (ap.head.setWidth 32).toNat
    rw [BitVec.toNat_setWidth]
    exact Nat.mod_eq_of_lt ((ap.head.setWidth 32).isLt.trans (by decide))
  | l | ll | z => exact congrArg BitVec.toNat (BitVec.setWidth_eq ap.head).symm

theorem toNat_neg_of_neg {larg : BitVec 64} (h : larg.toInt < 0) :
    (-larg).toNat = larg.toInt.natAbs := by
  have hlt := larg.isLt
  rw [BitVec.toInt_eq_toNat_cond] at h ⊢
  rw [BitVec.toNat_neg]
  split at h
  · omega
  · next hbig =>
    rw [if_neg hbig]
    omega

end Arguments

section Fields

variable {strings : Strings} {k : Conversion} {ap : VaList} {v : Variables}

/-- The padding of a right-justified field with the `0` flag. -/
def Conversion.zeroPads (k : Conversion) (ap : VaList) : Bool :=
  !k.left ap && k.flags.contains .zero

theorem padChar_atSpecifier :
    (k.atSpecifier ap).padChar = if k.zeroPads ap then ch '0' else ch ' ' := by
  rw [Conversion.atSpecifier, Conversion.zeroPads]
  cases k.left ap <;> simp

theorem zeroPads_of_left (h : k.left ap = true) : k.zeroPads ap = false := by
  rw [Conversion.zeroPads, h]
  rfl

/-- The conversion is not a `%` of its own. -/
theorem head?_body_ne (rest : List UInt8) : (k.body ++ rest).head? ≠ some (ch '%') := by
  obtain ⟨c₂, more₂, hmodifier, hc₂⟩ := @exists_behindPrecision rest k.modifier k.specifier
  obtain ⟨c₁, more₁, hprecision, hc₁⟩ := @exists_behindWidth c₂ more₂ k.precision hc₂
  obtain ⟨c₀, more₀, hwidth, -, -, -, hpercent⟩ := @exists_behindFlags c₁ more₁ k.width hc₁
  rw [body_append hmodifier hprecision hwidth]
  cases k.flags with
  | nil => exact fun h => hpercent (Option.some.inj h)
  | cons flag flags => cases flag <;> exact fun h => absurd (Option.some.inj h) (by decide)

/-- The text of a conversion prints a field, and goes on behind it. -/
def Conversion.Prints (strings : Strings) (k : Conversion) (ap : VaList) (text : List UInt8) :
    Prop :=
  ∀ rest, doprnt recorder strings (ch '%' :: (k.body ++ rest)) ap 0 [] =
    doprnt recorder strings rest (k.behind ap) text.length text

variable {text : List UInt8}

/-- A conversion prints the text of its field, if it can be counted. -/
theorem prints_iff :
    k.Prints strings ap text ↔
      (k.field strings ap).map Field.text = some text ∧ text.length < 2 ^ 31 := by
  have hrun (rest : List UInt8) {f : Field} (hfield : k.field strings ap = some f) :
      doprnt recorder strings (ch '%' :: (k.body ++ rest)) ap 0 [] =
        (recorder.puts f.text 0 []).andThen (doprnt recorder strings rest (k.behind ap)) := by
    have hscan : scanConversion strings ap (k.body ++ rest) =
        some (.field f (k.behind ap) rest) := by
      rw [scanConversion_body, hfield, Option.map_some]
    rw [doprnt_field (head?_body_ne rest) hscan, putField_eq]
  cases hfield : k.field strings ap with
  | none =>
    refine iff_of_false (fun h => ?_) (fun h => ?_)
    · have hscan : scanConversion strings ap (k.body ++ []) = none := by
        rw [scanConversion_body, hfield, Option.map_none]
      have hlast := h []
      rw [doprnt_undefined (head?_body_ne []) hscan, doprnt_nil] at hlast
      exact nomatch hlast
    · exact absurd h.1.symm (Option.some_ne_none text)
  | some f =>
    rw [Option.map_some, Option.some_inj]
    obtain hfits | hmore := Nat.lt_or_ge f.text.length (2 ^ 31)
    · have hputs : recorder.puts f.text 0 [] = .written f.text.length f.text := by
        rw [recorder_puts [] (Int.le_refl 0) (by omega), Int.zero_add, List.nil_append]
      constructor
      · intro h
        have hlast := h []
        rw [hrun [] hfield, hputs, Output.written_andThen, doprnt_nil, doprnt_nil] at hlast
        obtain ⟨-, rfl⟩ := Output.written.inj hlast
        exact ⟨rfl, hfits⟩
      · rintro ⟨rfl, -⟩ rest
        rw [hrun rest hfield, hputs, Output.written_andThen]
    · refine iff_of_false (fun h => ?_) (fun h => ?_)
      · have hlast := h []
        rw [hrun [] hfield, recorder_puts_undefined [] (Int.le_refl 0) (by decide) (by omega),
          Output.undefined_andThen, doprnt_nil] at hlast
        exact nomatch hlast
      · exact absurd h.2 (h.1 ▸ Nat.not_lt.mpr hmore)

/-- What a conversion prints whose text is known where its lengths are `int`s. -/
theorem prints_iff_of_text {fits : Prop} [Decidable fits] {known : List UInt8}
    (htext : k.fieldWidth ap < 2 ^ 31 → k.precisionArg ap < 2 ^ 31 →
      (k.field strings ap).map Field.text = if fits then some known else none)
    (hfits : known.length < 2 ^ 31 → k.precisionArg ap < 2 ^ 31 →
      k.fieldWidth ap < 2 ^ 31 ∧ fits) :
    k.Prints strings ap text ↔
      text.length < 2 ^ 31 ∧ k.precisionArg ap < 2 ^ 31 ∧ known = text := by
  rw [prints_iff]
  constructor
  · rintro ⟨hsome, hlength⟩
    refine ⟨hlength, ?_⟩
    by_cases hboth : k.fieldWidth ap < 2 ^ 31 ∧ k.precisionArg ap < 2 ^ 31
    · rw [htext hboth.1 hboth.2] at hsome
      split at hsome
      · exact ⟨hboth.2, Option.some.inj hsome⟩
      · exact absurd hsome.symm (Option.some_ne_none text)
    · rw [Conversion.field, if_neg hboth] at hsome
      exact absurd hsome.symm (Option.some_ne_none text)
  · rintro ⟨hlength, hprec, rfl⟩
    obtain ⟨hwidth, hcounted⟩ := hfits hlength hprec
    rw [htext hwidth hprec, if_pos hcounted]
    exact ⟨rfl, hlength⟩

/-- Digits with zeros in front of them, up to a precision. -/
def padDigits (precision : Int) (ds : List UInt8) : List UInt8 :=
  List.replicate (precision.toNat - ds.length) (ch '0') ++ ds

theorem length_padDigits (precision : Int) (ds : List UInt8) :
    (padDigits precision ds).length = max precision.toNat ds.length := by
  rw [padDigits, List.length_append, List.length_replicate]
  omega

/-- The variables of a conversion of a number, behind the specifier. -/
def Conversion.number (k : Conversion) (ap : VaList) (base : Nat) (sign : UInt8) (hashtype : Nat)
    (altDigits : Bool) (ularg : BitVec 64) : Variables :=
  { k.atSpecifier ap with base, sign, hashtype, altDigits, ularg }

/-- What a conversion of a number prints. -/
theorem prints_number_iff {base hashtype : Nat} {sign : UInt8} {altDigits : Bool}
    {ularg : BitVec 64}
    (hscan : scanSpecifier strings (k.atSpecifier ap) (k.behindPrecision ap) [k.specifier.char] =
      some (k.number ap base sign hashtype altDigits ularg))
    (hbase : base = 2 ∨ base = 8 ∨ base = 10 ∨ base = 16) :
    k.Prints strings ap text ↔ text.length < 2 ^ 31 ∧
      (k.number ap base sign hashtype altDigits ularg).prefixText ++
        arrange (k.left ap) (k.zeroPads ap && decide (k.precisionArg ap < 0))
          (k.fieldWidth ap) (k.number ap base sign hashtype altDigits ularg).signText
          (padDigits (k.precisionArg ap) (numeral base altDigits ularg.toNat)) = text := by
  generalize hds : numeral base altDigits ularg.toNat = ds
  have hlen : ds.length < 2 ^ 31 := by
    have hle : ds.length ≤ 64 := by
      rw [← hds]
      exact length_numeral_toNat_le ularg (by omega)
    omega
  have hfield : (k.number ap base sign hashtype altDigits ularg).field =
      (k.number ap base sign hashtype altDigits ularg).lengths ds := by
    have hne : (k.number ap base sign hashtype altDigits ularg).base ≠ 0 := by
      change base ≠ 0
      omega
    rw [Variables.field, if_neg hne]
    change (ulongToString ularg base altDigits).bind _ = _
    rw [ulongToString_eq ularg (by omega) (by omega), hds, Option.bind_some]
  generalize hv : k.number ap base sign hashtype altDigits ularg = v at hscan hfield ⊢
  have hnonzero : v.base ≠ 0 := by
    rw [← hv]
    change base ≠ 0
    omega
  have hleft : v.leftjust = k.left ap := congrArg Variables.leftjust hv.symm
  have hfmin : v.fmin = k.fieldWidth ap := congrArg Variables.fmin hv.symm
  have hprec : v.prec = k.precisionArg ap := congrArg Variables.prec hv.symm
  have hpad : v.padChar = if k.zeroPads ap then ch '0' else ch ' ' :=
    (congrArg Variables.padChar hv.symm).trans padChar_atSpecifier
  have htext (hfits : k.fieldWidth ap < 2 ^ 31) (hprecfits : k.precisionArg ap < 2 ^ 31) :
      (k.field strings ap).map Field.text =
        if v.signText.length + max (k.precisionArg ap).toNat ds.length < 2 ^ 31 then
          some (v.prefixText ++ arrange (k.left ap)
            (k.zeroPads ap && decide (k.precisionArg ap < 0)) (k.fieldWidth ap) v.signText
            (padDigits (k.precisionArg ap) ds))
        else
          none := by
    have hnumber := text_number hnonzero hfmin hfits (hprec ▸ hprecfits) hlen hpad
      (fun h => zeroPads_of_left (hleft ▸ h))
    rw [hleft, hprec] at hnumber
    rw [Conversion.field, if_pos ⟨hfits, hprecfits⟩, hscan, Option.bind_some, hfield]
    exact hnumber
  have hcounted : (v.prefixText ++ arrange (k.left ap)
      (k.zeroPads ap && decide (k.precisionArg ap < 0)) (k.fieldWidth ap) v.signText
      (padDigits (k.precisionArg ap) ds)).length < 2 ^ 31 →
      k.precisionArg ap < 2 ^ 31 ∧ k.fieldWidth ap < 2 ^ 31 ∧
        v.signText.length + max (k.precisionArg ap).toNat ds.length < 2 ^ 31 := by
    intro hlength
    rw [List.length_append, length_arrange, length_padDigits] at hlength
    omega
  rw [prints_iff_of_text htext fun hlength _ => (hcounted hlength).2]
  constructor
  · rintro ⟨hlength, -, h⟩
    exact ⟨hlength, h⟩
  · rintro ⟨hlength, rfl⟩
    exact ⟨hlength, (hcounted hlength).1, rfl⟩

/-- What a conversion of characters prints. -/
theorem prints_string_iff {str : List UInt8}
    (hscan : scanSpecifier strings (k.atSpecifier ap) (k.behindPrecision ap) [k.specifier.char] =
      some { k.atSpecifier ap with str }) {cut : Int}
    (hcut : cut = if 0 ≤ k.precisionArg ap ∧ k.precisionArg ap < lenInt str then k.precisionArg ap
      else lenInt str) :
    k.Prints strings ap text ↔ text.length < 2 ^ 31 ∧ k.precisionArg ap < 2 ^ 31 ∧
      arrange (k.left ap) (k.zeroPads ap) (k.fieldWidth ap + (-cut).toNat) []
        (str.take cut.toNat) = text := by
  have htext (hfits : k.fieldWidth ap < 2 ^ 31) (hprecfits : k.precisionArg ap < 2 ^ 31) :
      (k.field strings ap).map Field.text =
        if k.fieldWidth ap - cut < 2 ^ 31 then
          some (arrange (k.left ap) (k.zeroPads ap) (k.fieldWidth ap + (-cut).toNat) []
            (str.take cut.toNat))
        else
          none := by
    have hstring := @text_string { k.atSpecifier ap with str } str (k.fieldWidth ap)
      (k.zeroPads ap) rfl rfl rfl padChar_atSpecifier zeroPads_of_left
    rw [Variables.cut] at hstring
    rw [Conversion.field, if_pos ⟨hfits, hprecfits⟩, hscan, Option.bind_some, hcut]
    exact hstring
  refine prints_iff_of_text htext fun hlength _ => ?_
  rw [length_arrange] at hlength
  omega

end Fields

end RPiKernel.Stdio
