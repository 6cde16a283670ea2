import RPiKernel.Stdio.Doprnt

/-!
# Conversion specifications

The text of a conversion specification, and what its parts mean: the width and the precision,
given as digits or as arguments, and the flags. `_doprnt` reads the text back, if its numbers fit
an `int`.
-/

namespace RPiKernel.Stdio

open Machine

inductive Flag
  | minus
  | zero
  | hash
  deriving DecidableEq

/-- A series of decimal digits that does not begin with a zero, or an argument. -/
inductive Width
  | digits (ds : List (Fin 10)) (h : ds.head? ≠ some 0)
  | star

inductive Precision
  | omitted
  | digits (ds : List (Fin 10))
  | star

inductive Modifier
  | none
  | hh
  | h
  | l
  | ll
  | z
  deriving DecidableEq

inductive Specifier
  | d
  | i
  | u
  | o
  | x
  | X
  | b
  | c
  | s
  deriving DecidableEq

/-- A conversion specification. -/
structure Conversion where
  flags : List Flag
  width : Width
  precision : Precision
  modifier : Modifier
  specifier : Specifier

def Flag.char : Flag → UInt8
  | minus => ch '-'
  | zero => ch '0'
  | hash => ch '#'

def digitText (ds : List (Fin 10)) : List UInt8 := ds.map fun d => digitChar false d

def Width.text : Width → List UInt8
  | digits ds _ => digitText ds
  | star => [ch '*']

def Precision.text : Precision → List UInt8
  | omitted => []
  | digits ds => ch '.' :: digitText ds
  | star => [ch '.', ch '*']

def Modifier.text : Modifier → List UInt8
  | none => []
  | hh => [ch 'h', ch 'h']
  | h => [ch 'h']
  | l => [ch 'l']
  | ll => [ch 'l', ch 'l']
  | z => [ch 'z']

def Specifier.char : Specifier → UInt8
  | d => ch 'd'
  | i => ch 'i'
  | u => ch 'u'
  | o => ch 'o'
  | x => ch 'x'
  | X => ch 'X'
  | b => ch 'b'
  | c => ch 'c'
  | s => ch 's'

/-- A number, read on by some digits. -/
def readDigits (n : Nat) (ds : List (Fin 10)) : Nat := ds.foldl (fun n d => n * 10 + d) n

/-- `%#6x`. -/
def prefixedHex : Conversion where
  flags := [.hash]
  width := .digits [6] (by decide)
  precision := .omitted
  modifier := .none
  specifier := .x

namespace Conversion

variable (k : Conversion) (ap : VaList)

/-- The text behind the `%`. -/
def body : List UInt8 :=
  k.flags.map Flag.char ++
    (k.width.text ++ (k.precision.text ++ (k.modifier.text ++ [k.specifier.char])))

/-- The width, which is negative for a field that is left-justified. -/
def widthArg : Int :=
  match k.width with
  | .digits ds _ => readDigits 0 ds
  | .star => ap.headInt

/-- The arguments behind the width. -/
def behindWidth : VaList :=
  match k.width with
  | .digits _ _ => ap
  | .star => ap.tail

/-- The precision, which is negative if it is omitted. -/
def precisionArg : Int :=
  match k.precision with
  | .omitted => -1
  | .digits ds => readDigits 0 ds
  | .star => (k.behindWidth ap).headInt

/-- The arguments behind the precision. -/
def behindPrecision : VaList :=
  match k.precision with
  | .omitted => k.behindWidth ap
  | .digits _ => k.behindWidth ap
  | .star => (k.behindWidth ap).tail

/-- The field is left-justified. -/
def left : Bool := k.flags.contains .minus || decide (k.widthArg ap < 0)

/-- The minimum width of the field. -/
def fieldWidth : Nat := (k.widthArg ap).natAbs

/-- The arguments behind the conversion. -/
def behind : VaList := (k.behindPrecision ap).tail

end Conversion

def Modifier.size : Modifier → IntegerSize
  | none => .regular
  | hh => .shortShort
  | h => .short
  | l => .long
  | ll => .longLong
  | z => .longLong

/-- The variables of `_doprnt` at the specifier. -/
def Conversion.atSpecifier (k : Conversion) (ap : VaList) : Variables where
  leftjust := k.left ap
  hashtype := if k.flags.contains .hash then 1 else 0
  padChar :=
    if k.left ap then ch ' ' else if k.flags.contains .zero then ch '0' else ch ' '
  fmin := k.fieldWidth ap
  prec := k.precisionArg ap
  size := k.modifier.size

section Scan

variable {k : Conversion} {ap : VaList} {v : Variables} {c : UInt8} {rest : List UInt8}

/-- Flags in front of another character. -/
theorem scanFlags_text (flags : List Flag) (hminus : c ≠ ch '-') (hhash : c ≠ ch '#')
    (hzero : c ≠ ch '0') :
    scanFlags v (flags.map Flag.char ++ c :: rest) =
      ({ v with
        leftjust := v.leftjust || flags.contains .minus
        hashtype := if flags.contains .hash then 1 else v.hashtype
        padChar := if flags.contains .zero then ch '0' else v.padChar }, c :: rest) := by
  induction flags generalizing v with
  | nil =>
    rw [List.map_nil, List.nil_append, scanFlags, if_neg hminus, if_neg hhash, if_neg hzero]
    simp
  | cons flag flags ih =>
    rw [List.map_cons, List.cons_append, scanFlags]
    cases flag with
    | minus =>
      rw [Flag.char, if_pos rfl, ih]
      simp
    | zero =>
      rw [Flag.char, if_neg (by decide), if_neg (by decide), if_pos rfl, ih]
      simp
    | hash =>
      rw [Flag.char, if_neg (by decide), if_pos rfl, ih]
      simp

theorem le_readDigits (n : Nat) (ds : List (Fin 10)) : n ≤ readDigits n ds := by
  induction ds generalizing n with
  | nil => exact Nat.le_refl n
  | cons d ds ih => exact le_trans (by omega) (ih (n * 10 + d))

theorem digitChar_ne_flag {d : Fin 10} (hd : d ≠ 0) :
    digitChar false d ≠ ch '-' ∧ digitChar false d ≠ ch '#' ∧ digitChar false d ≠ ch '0' ∧
      digitChar false d ≠ ch '%' := by
  decide +revert

theorem digitChar_bounds (d : Fin 10) :
    (ch '0' ≤ digitChar false d ∧ digitChar false d ≤ ch '9') ∧
      ((digitChar false d).toNat : Int) - (ch '0').toNat = d := by
  decide +revert

/-- Digits in front of another character. -/
theorem scanDigits_text {n : Nat} (ds : List (Fin 10)) (hrest : ¬(ch '0' ≤ c ∧ c ≤ ch '9'))
    (hn : n < 2 ^ 31) :
    scanDigits n (digitText ds ++ c :: rest) =
      if readDigits n ds < 2 ^ 31 then some ((readDigits n ds : Int), c :: rest) else none := by
  induction ds generalizing n with
  | nil =>
    change scanDigits n (c :: rest) = if n < 2 ^ 31 then some ((n : Int), c :: rest) else none
    rw [scanDigits, if_neg hrest, if_pos hn]
  | cons d ds ih =>
    obtain ⟨hdigit, hvalue⟩ := digitChar_bounds d
    have hle : n * 10 + d ≤ readDigits n (d :: ds) := le_readDigits (n * 10 + d) ds
    have hsum : ((n : Int) * 10 + d) = ((n * 10 + d : Nat) : Int) := by
      rw [Int.natCast_add, Int.natCast_mul]
      rfl
    change scanDigits n (digitChar false d :: (digitText ds ++ c :: rest)) = _
    rw [scanDigits, if_pos hdigit, hvalue]
    obtain hfits | hmore := Nat.lt_or_ge (n * 10 + d) (2 ^ 31)
    · rw [int_of_fits (by omega) (by omega), Option.bind_eq_bind, Option.bind_some,
        int_of_fits (by omega) (by omega), Option.bind_some, hsum, ih hfits]
      rfl
    · rw [if_neg (by omega)]
      obtain hfits | hmore := Int.lt_or_le ((n : Int) * 10) (2 ^ 31)
      · rw [int_of_fits (by omega) hfits, Option.bind_eq_bind, Option.bind_some,
          int_eq_none (by omega)]
        rfl
      · rw [int_eq_none hmore]
        rfl

theorem headInt_bounds (ap : VaList) : -2 ^ 31 ≤ ap.headInt ∧ ap.headInt < 2 ^ 31 :=
  ⟨BitVec.le_toInt _, BitVec.toInt_lt⟩

theorem head?_digitText_ne {d : UInt8} (ds : List (Fin 10)) (hd : ¬(ch '0' ≤ d ∧ d ≤ ch '9'))
    (hne : c ≠ d) : (digitText ds ++ c :: rest).head? ≠ some d := by
  cases ds with
  | nil => exact fun heq => hne (Option.some.inj heq)
  | cons first ds => exact fun heq => hd (Option.some.inj heq ▸ (digitChar_bounds first).1)

theorem scanDigits_zero (ds : List (Fin 10)) (hrest : ¬(ch '0' ≤ c ∧ c ≤ ch '9')) :
    scanDigits 0 (digitText ds ++ c :: rest) =
      if readDigits 0 ds < 2 ^ 31 then some ((readDigits 0 ds : Int), c :: rest) else none :=
  scanDigits_text ds hrest (by decide)

/-- The width in front of another character. -/
theorem scanWidth_text (hrest : ¬(ch '0' ≤ c ∧ c ≤ ch '9')) (hstar : c ≠ ch '*') :
    scanWidth v ap (k.width.text ++ c :: rest) =
      if k.fieldWidth ap < 2 ^ 31 then
        some ({ v with
          leftjust := v.leftjust || decide (k.widthArg ap < 0)
          fmin := k.fieldWidth ap }, k.behindWidth ap, c :: rest)
      else
        none := by
  rw [Conversion.fieldWidth, Conversion.widthArg, Conversion.behindWidth, scanWidth]
  cases k.width with
  | digits ds h =>
    have hpos : ¬((readDigits 0 ds : Int) < 0) := Int.not_lt.mpr (Int.natCast_nonneg _)
    rw [Width.text, if_neg (head?_digitText_ne ds (by decide) hstar), scanDigits_zero ds hrest]
    dsimp only
    rw [Int.natAbs_natCast, decide_eq_false hpos, Bool.or_false]
    split
    · rfl
    · rfl
  | star =>
    obtain ⟨hlow, hhigh⟩ := headInt_bounds ap
    change (if some (ch '*') = some (ch '*') then _ else _) = _
    dsimp only
    rw [if_pos rfl]
    obtain hneg | hpos := Int.lt_or_le ap.headInt 0
    · rw [if_pos hneg, decide_eq_true hneg, Bool.or_true, Int.ofNat_natAbs_of_nonpos hneg.le]
      obtain hfits | hmore := Int.lt_or_le (-ap.headInt) (2 ^ 31)
      · rw [int_of_fits (by omega) hfits, if_pos (by omega)]
        rfl
      · rw [int_eq_none hmore, if_neg (by omega)]
        rfl
    · rw [if_neg (Int.not_lt.mpr hpos), decide_eq_false (Int.not_lt.mpr hpos), Bool.or_false,
        Int.natAbs_of_nonneg hpos, if_pos (by omega)]
      rfl

/-- The precision in front of a letter. -/
theorem scanPrecision_text (hrest : ch 'A' ≤ c) :
    scanPrecision v (k.behindWidth ap) (k.precision.text ++ c :: rest) =
      if k.precisionArg ap < 2 ^ 31 then
        some ({ v with prec := k.precisionArg ap }, k.behindPrecision ap, c :: rest)
      else
        none := by
  have hdigit : ¬(ch '0' ≤ c ∧ c ≤ ch '9') := fun h => absurd (UInt8.le_trans hrest h.2) (by decide)
  have hdot : c ≠ ch '.' := fun h => absurd (h ▸ hrest) (by decide)
  have hstar : c ≠ ch '*' := fun h => absurd (h ▸ hrest) (by decide)
  rw [Conversion.precisionArg, Conversion.behindPrecision, scanPrecision]
  cases k.precision with
  | omitted =>
    rw [Precision.text, List.nil_append, List.head?_cons,
      if_neg fun h => hdot (Option.some.inj h)]
    dsimp only
    rw [if_pos (by decide)]
  | digits ds =>
    rw [Precision.text, List.cons_append, List.tail_cons, List.head?_cons, if_pos rfl,
      if_neg (head?_digitText_ne ds (by decide) hstar), scanDigits_zero ds hdigit]
    dsimp only
    obtain hfits | hmore := Nat.lt_or_ge (readDigits 0 ds) (2 ^ 31)
    · rw [if_pos hfits, if_pos (by omega)]
      rfl
    · rw [if_neg (Nat.not_lt.mpr hmore), if_neg (by omega)]
      rfl
  | star =>
    change (if some (ch '.') = some (ch '.') then if some (ch '*') = some (ch '*') then _ else _
      else _) = _
    dsimp only
    rw [if_pos rfl, if_pos rfl, if_pos (headInt_bounds _).2]
    rfl

/-- The length modifier in front of the specifier. -/
theorem scanSize_text (modifier : Modifier) (specifier : Specifier) :
    scanSize (modifier.text ++ specifier.char :: rest) =
      (modifier.size, specifier.char :: rest) := by
  cases modifier <;> cases specifier <;> rfl

theorem exists_behindPrecision (modifier : Modifier) (specifier : Specifier) :
    ∃ c more, modifier.text ++ specifier.char :: rest = c :: more ∧ ch 'A' ≤ c := by
  cases modifier with
  | none => exact ⟨_, _, rfl, by cases specifier <;> decide⟩
  | _ => exact ⟨_, _, rfl, by decide⟩

theorem exists_behindWidth (precision : Precision) (hc : ch 'A' ≤ c) :
    ∃ c' more, precision.text ++ c :: rest = c' :: more ∧ (c' = ch '.' ∨ ch 'A' ≤ c') := by
  cases precision with
  | omitted => exact ⟨_, _, rfl, .inr hc⟩
  | _ => exact ⟨_, _, rfl, .inl rfl⟩

theorem not_digit_of_behindWidth (hc : c = ch '.' ∨ ch 'A' ≤ c) :
    ¬(ch '0' ≤ c ∧ c ≤ ch '9') ∧ c ≠ ch '*' := by
  obtain rfl | hletter := hc
  · decide
  · exact ⟨fun h => absurd (UInt8.le_trans hletter h.2) (by decide),
      fun h => absurd (h ▸ hletter) (by decide)⟩

/-- What stands behind the flags is none of them. -/
theorem exists_behindFlags (width : Width) (hc : c = ch '.' ∨ ch 'A' ≤ c) :
    ∃ c' more, width.text ++ c :: rest = c' :: more ∧
      c' ≠ ch '-' ∧ c' ≠ ch '#' ∧ c' ≠ ch '0' ∧ c' ≠ ch '%' := by
  cases width with
  | digits ds h =>
    cases ds with
    | nil =>
      refine ⟨c, rest, rfl, ?_⟩
      obtain rfl | hletter := hc
      · decide
      · refine ⟨?_, ?_, ?_, ?_⟩ <;> exact fun h => absurd (h ▸ hletter) (by decide)
    | cons d ds =>
      have hd : d ≠ 0 := fun hzero => h (congrArg some hzero)
      exact ⟨_, _, rfl, digitChar_ne_flag hd⟩
  | star => exact ⟨_, _, rfl, by decide⟩

theorem exists_scanSpecifier {strings : Strings} (specifier : Specifier) :
    ∃ v', scanSpecifier strings v ap [specifier.char] = some v' := by
  cases specifier with
  | d | i =>
    obtain hneg | hpos := Bool.eq_false_or_eq_true ((signedArg v.size ap).slt 0)
    · exact ⟨_, if_pos hneg⟩
    · exact ⟨_, if_neg (ne_true_of_eq_false hpos)⟩
  | _ => exact ⟨_, rfl⟩

/-- What `_doprnt` comes to print for a conversion, unless it overflows. -/
def Conversion.field (strings : Strings) (k : Conversion) (ap : VaList) : Option Field :=
  if k.fieldWidth ap < 2 ^ 31 ∧ k.precisionArg ap < 2 ^ 31 then
    (scanSpecifier strings (k.atSpecifier ap) (k.behindPrecision ap) [k.specifier.char]).bind
      Variables.field
  else
    none

/-- The text of a conversion, from its flags on. -/
theorem body_append {c₀ c₁ c₂ : UInt8} {more₀ more₁ more₂ : List UInt8}
    (hmodifier : k.modifier.text ++ k.specifier.char :: rest = c₂ :: more₂)
    (hprecision : k.precision.text ++ c₂ :: more₂ = c₁ :: more₁)
    (hwidth : k.width.text ++ c₁ :: more₁ = c₀ :: more₀) :
    k.body ++ rest = k.flags.map Flag.char ++ c₀ :: more₀ := by
  rw [← hwidth, ← hprecision, ← hmodifier, Conversion.body]
  simp

/-- The text of a conversion is read back. -/
theorem scanConversion_body {strings : Strings} :
    scanConversion strings ap (k.body ++ rest) =
      (k.field strings ap).map fun f => .field f (k.behind ap) rest := by
  obtain ⟨c₂, more₂, hmodifier, hc₂⟩ :=
    @exists_behindPrecision rest k.modifier k.specifier
  obtain ⟨c₁, more₁, hprecision, hc₁⟩ := @exists_behindWidth c₂ more₂ k.precision hc₂
  obtain ⟨c₀, more₀, hwidth, hminus, hhash, hzero, -⟩ := @exists_behindFlags c₁ more₁ k.width hc₁
  have hrest := not_digit_of_behindWidth hc₁
  rw [scanConversion, body_append hmodifier hprecision hwidth,
    scanFlags_text k.flags hminus hhash hzero]
  dsimp only
  rw [← hwidth, scanWidth_text hrest.1 hrest.2, Conversion.field]
  obtain hfits | hmore := Nat.lt_or_ge (k.fieldWidth ap) (2 ^ 31)
  · rw [if_pos hfits, ← hprecision]
    dsimp only [Option.bind_eq_bind, Option.bind_some]
    rw [scanPrecision_text hc₂]
    obtain hprec | hmore := Int.lt_or_le (k.precisionArg ap) (2 ^ 31)
    · have hboth : k.fieldWidth ap < 2 ^ 31 ∧ k.precisionArg ap < 2 ^ 31 := ⟨hfits, hprec⟩
      rw [if_pos hprec, if_pos hboth, ← hmodifier]
      dsimp only [Option.bind_some]
      rw [scanSize_text]
      rw [Bool.false_or]
      obtain ⟨v, hv⟩ := @exists_scanSpecifier (k.behindPrecision ap) (k.atSpecifier ap) strings
        k.specifier
      split
      · next hnone => exact absurd (hv.symm.trans hnone) (Option.some_ne_none v)
      · next v' hsome =>
        cases hv.symm.trans hsome
        rw [hv, Option.bind_some]
        cases v.field with
        | none => rfl
        | some f => rfl
    · rw [if_neg (Int.not_lt.mpr hmore), if_neg fun h => absurd h.2 (Int.not_lt.mpr hmore)]
      rfl
  · rw [if_neg (Nat.not_lt.mpr hmore), if_neg fun h => absurd h.1 (Nat.not_lt.mpr hmore)]
    rfl

end Scan

end RPiKernel.Stdio
