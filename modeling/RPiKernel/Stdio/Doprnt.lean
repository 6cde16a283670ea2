import RPiKernel.Machine.Sinks
import RPiKernel.Stdio.Numbers

/-!
# `_doprnt`

The formatter reads a conversion specification in five parts, computes the lengths of what it
prints, and prints it piece by piece.

## Implementation notes

`char` is unsigned and `long` has 64 bits. A format is the list of its characters, without the zero
at its end, and the arguments are the slots of a `va_list`. A pointer argument stands for the string
at that address, which is the same throughout a call: a string that is printed does not overlap the
buffer that is written. Signed overflow has no meaning, so that a computation in `int` may fail.
-/

namespace RPiKernel.Stdio

open Machine

/-- `enum integer_size`. -/
inductive IntegerSize
  | shortShort
  | short
  | regular
  | long
  | longLong
  deriving DecidableEq

/-- The slots of the arguments that are left. -/
abbrev VaList := Nat → BitVec 64

namespace VaList

/-- The next slot. -/
def head (ap : VaList) : BitVec 64 := ap 0

/-- The slots behind the next one. -/
def tail (ap : VaList) : VaList := fun i => ap (i + 1)

/-- `va_arg(ap, int)`. -/
def headInt (ap : VaList) : Int := (ap.head.setWidth 32).toInt

end VaList

/-- The strings at the addresses. -/
abbrev Strings := BitVec 64 → CString

/-- The variables of a conversion. `str` are the characters up to the first zero. -/
structure Variables where
  leftjust : Bool := false
  hashtype : Nat := 0
  padChar : UInt8 := ch ' '
  fmin : Int := 0
  prec : Int := -1
  size : IntegerSize := .regular
  base : Nat := 0
  sign : UInt8 := 0
  str : List UInt8 := []
  altDigits : Bool := false
  ularg : BitVec 64 := 0

/-- 1. Zero or more flags. -/
def scanFlags (v : Variables) : List UInt8 → Variables × List UInt8
  | [] => (v, [])
  | c :: fmt =>
      if c = ch '-' then
        scanFlags { v with leftjust := true } fmt
      else if c = ch '#' then
        scanFlags { v with hashtype := 1 } fmt
      else if c = ch '0' then
        scanFlags { v with padChar := ch '0' } fmt
      else
        (v, c :: fmt)

/-- The loop over decimal digits. -/
def scanDigits (n : Int) : List UInt8 → Option (Int × List UInt8)
  | [] => some (n, [])
  | c :: fmt =>
      if ch '0' ≤ c ∧ c ≤ ch '9' then do
        let n ← int (n * 10)
        let n ← int (n + (c.toNat - (ch '0').toNat))
        scanDigits n fmt
      else
        some (n, c :: fmt)

/-- 2. Optional minimum field width. -/
def scanWidth (v : Variables) (ap : VaList) (fmt : List UInt8) :
    Option (Variables × VaList × List UInt8) :=
  if fmt.head? = some (ch '*') then
    if ap.headInt < 0 then do
      let fmin ← int (-ap.headInt)
      some ({ v with fmin, leftjust := true }, ap.tail, fmt.tail)
    else
      some ({ v with fmin := ap.headInt }, ap.tail, fmt.tail)
  else do
    let (fmin, fmt) ← scanDigits 0 fmt
    some ({ v with fmin }, ap, fmt)

/-- 3. Optional precision. -/
def scanPrecision (v : Variables) (ap : VaList) (fmt : List UInt8) :
    Option (Variables × VaList × List UInt8) :=
  if fmt.head? = some (ch '.') then
    if fmt.tail.head? = some (ch '*') then
      some ({ v with prec := ap.headInt }, ap.tail, fmt.tail.tail)
    else do
      let (prec, fmt) ← scanDigits 0 fmt.tail
      some ({ v with prec }, ap, fmt)
  else
    some ({ v with prec := -1 }, ap, fmt)

/-- 4. Optional length modifier. -/
def scanSize (fmt : List UInt8) : IntegerSize × List UInt8 :=
  if fmt.head? = some (ch 'l') then
    if fmt.tail.head? = some (ch 'l') then (.longLong, fmt.tail.tail) else (.long, fmt.tail)
  else if fmt.head? = some (ch 'z') then
    (.longLong, fmt.tail)
  else if fmt.head? = some (ch 'h') then
    if fmt.tail.head? = some (ch 'h') then (.shortShort, fmt.tail.tail) else (.short, fmt.tail)
  else
    (.regular, fmt)

/-- The argument of a signed conversion. -/
def signedArg (size : IntegerSize) (ap : VaList) : BitVec 64 :=
  if size = .long ∨ size = .longLong then ap.head else (ap.head.setWidth 32).signExtend 64

/-- `handle_unsigned`. -/
def unsignedArg (size : IntegerSize) (ap : VaList) : BitVec 64 :=
  if size = .long ∨ size = .longLong then ap.head else (ap.head.setWidth 32).setWidth 64

/-- The characters up to the first zero. -/
def upToNul (string : List UInt8) : List UInt8 := string.takeWhile (· ≠ 0)

/-- `(null)`. -/
def nullText : List UInt8 := [ch '(', ch 'n', ch 'u', ch 'l', ch 'l', ch ')']

/-- 5. Conversion specifier character, unless it is unknown. -/
def scanSpecifier (strings : Strings) (v : Variables) (ap : VaList) (fmt : List UInt8) :
    Option Variables :=
  if fmt.head? = some (ch 'c') then
    some { v with str := upToNul [UInt8.ofBitVec (ap.head.setWidth 8), 0] }
  else if fmt.head? = some (ch 's') then
    some { v with str := if ap.head = 0 then nullText else (strings ap.head).bytes }
  else if fmt.head? = some (ch 'i') ∨ fmt.head? = some (ch 'd') then
    let larg := signedArg v.size ap
    if larg.slt 0 then
      some { v with base := 10, sign := ch '-', ularg := -larg }
    else
      some { v with base := 10, ularg := larg }
  else if fmt.head? = some (ch 'u') then
    some { v with base := 10, ularg := unsignedArg v.size ap }
  else if fmt.head? = some (ch 'o') then
    some { v with
      base := 8
      hashtype := if v.hashtype = 1 then 2 else v.hashtype
      ularg := unsignedArg v.size ap }
  else if fmt.head? = some (ch 'X') then
    some { v with
      base := 16
      altDigits := true
      hashtype := if v.hashtype = 1 then 3 else v.hashtype
      ularg := unsignedArg v.size ap }
  else if fmt.head? = some (ch 'x') then
    some { v with
      base := 16
      hashtype := if v.hashtype = 1 then 3 else v.hashtype
      ularg := unsignedArg v.size ap }
  else if fmt.head? = some (ch 'p') then
    some { v with base := 16, hashtype := 3, ularg := ap.head, padChar := ch '0', fmin := 16 }
  else if fmt.head? = some (ch 'b') then
    some { v with base := 2, ularg := unsignedArg v.size ap }
  else
    none

/-- What a conversion prints: a prefix, padding, a sign, zeroes, the characters of `str`, and the
padding of a field that is left-justified. -/
structure Field where
  prefixText : List UInt8
  leftjust : Bool
  lenPadding : Int
  padChar : UInt8
  sign : UInt8
  numZeroes : Int
  lenStr : Int
  str : List UInt8

/-- The prefix of a number. -/
def Variables.prefixText (v : Variables) : List UInt8 :=
  if v.base = 0 then
    []
  else if v.hashtype = 2 ∧ v.ularg ≠ 0 then
    [ch '0']
  else if v.hashtype = 3 then
    [ch '0', ch 'x']
  else
    []

/-- The length of a string, as an `int`. -/
def lenInt (str : List UInt8) : Int := (BitVec.ofNat 32 str.length).toInt

/-- The number of characters of `str`, the number of zeroes in front of them, and the padding
character, as the precision says. -/
def Variables.applyPrecision (v : Variables) (lenStr : Int) : Option (Int × Int × UInt8) :=
  if 0 ≤ v.prec then
    if v.base = 0 then
      some (if v.prec < lenStr then v.prec else lenStr, 0, v.padChar)
    else do
      let numZeroes ← if lenStr < v.prec then int (v.prec - lenStr) else some 0
      some (lenStr, numZeroes, ch ' ')
  else
    some (lenStr, 0, v.padChar)

/-- The number of padding characters. -/
def Variables.lenPadding (v : Variables) (lenStr numZeroes : Int) : Option Int := do
  let lenNonpadding ← int (lenStr + numZeroes)
  let lenNonpadding ← int (lenNonpadding + if v.sign = 0 then 0 else 1)
  if lenNonpadding < v.fmin then int (v.fmin - lenNonpadding) else some 0

/-- The shortcut for zero padding. -/
def Variables.padded (v : Variables) (lenStr numZeroes : Int) (padChar : UInt8)
    (lenPadding : Int) (str : List UInt8) : Field :=
  if !v.leftjust && padChar = ch '0' then
    ⟨v.prefixText, v.leftjust, 0, padChar, v.sign, lenPadding, lenStr, str⟩
  else
    ⟨v.prefixText, v.leftjust, lenPadding, padChar, v.sign, numZeroes, lenStr, str⟩

/-- The length computations, for the characters of `str`. -/
def Variables.lengths (v : Variables) (str : List UInt8) : Option Field := do
  let (lenStr, numZeroes, padChar) ← v.applyPrecision (lenInt str)
  let lenPadding ← v.lenPadding lenStr numZeroes
  some (v.padded lenStr numZeroes padChar lenPadding str)

/-- What a conversion prints, with the digits of a number. -/
def Variables.field (v : Variables) : Option Field :=
  if v.base = 0 then
    v.lengths v.str
  else do
    let str ← ulongToString v.ularg v.base v.altDigits
    v.lengths str

/-- What has been read of a conversion specification: what it prints with the arguments and the
format behind it, or that it is unknown. -/
inductive Scanned
  | field (field : Field) (ap : VaList) (fmt : List UInt8)
  | unknown (ap : VaList)

/-- A conversion specification, behind its `%`. -/
def scanConversion (strings : Strings) (ap : VaList) (fmt : List UInt8) : Option Scanned := do
  let (v, fmt) := scanFlags {} fmt
  let (v, ap, fmt) ← scanWidth v ap fmt
  let v := { v with padChar := if v.leftjust then ch ' ' else v.padChar }
  let (v, ap, fmt) ← scanPrecision v ap fmt
  let (size, fmt) := scanSize fmt
  match scanSpecifier strings { v with size } ap fmt with
  | none => some (.unknown ap)
  | some v => do
      let field ← v.field
      some (.field field ap.tail fmt.tail)

section Print

variable {σ : Type} (sink : Sink σ)

/-- `for (i = 0; i < count; i++)` over a character. -/
def putRepeated (c : UInt8) (count : Int) : Int → σ → Output σ :=
  sink.puts (List.replicate count.toNat c)

/-- The pieces of a field. -/
def putField (f : Field) (n : Int) (s : σ) : Output σ :=
  (sink.puts f.prefixText n s).andThen fun n s =>
    (if f.leftjust then .written n s else putRepeated sink f.padChar f.lenPadding n s).andThen
      fun n s => (if f.sign = 0 then .written n s else sink.put f.sign n s).andThen
        fun n s => (putRepeated sink (ch '0') f.numZeroes n s).andThen
          fun n s => (sink.puts (f.str.take f.lenStr.toNat) n s).andThen
            fun n s =>
              if f.leftjust then putRepeated sink f.padChar f.lenPadding n s else .written n s

end Print

/-- The padding of a field. -/
def Field.padding (f : Field) : List UInt8 := List.replicate f.lenPadding.toNat f.padChar

/-- The characters of a field. -/
def Field.text (f : Field) : List UInt8 :=
  f.prefixText ++ ((if f.leftjust then [] else f.padding) ++
    ((if f.sign = 0 then [] else [f.sign]) ++ (List.replicate f.numZeroes.toNat (ch '0') ++
      (f.str.take f.lenStr.toNat ++ (if f.leftjust then f.padding else [])))))

/-- A field is printed character by character. -/
theorem putField_eq {σ : Type} (sink : Sink σ) (f : Field) (n : Int) (s : σ) :
    putField sink f n s = sink.puts f.text n s := by
  have hsign : sink.puts (if f.sign = 0 then [] else [f.sign]) =
      fun n s => if f.sign = 0 then .written n s else sink.put f.sign n s := by
    split <;> simp
  rw [Field.text, Field.padding, putField]
  cases f.leftjust with
  | true => simp [Sink.puts_append, putRepeated, hsign]
  | false => simp [Sink.puts_append, putRepeated, hsign]

section Length

variable {v v' : Variables} {ap ap' : VaList} {fmt fmt' : List UInt8}

theorem length_scanFlags (v : Variables) (fmt : List UInt8) :
    (scanFlags v fmt).2.length ≤ fmt.length := by
  induction fmt generalizing v with
  | nil => exact Nat.le_refl _
  | cons c fmt ih =>
    rw [scanFlags]
    split
    · exact Nat.le_succ_of_le (ih _)
    split
    · exact Nat.le_succ_of_le (ih _)
    split
    · exact Nat.le_succ_of_le (ih _)
    · exact Nat.le_refl _

theorem length_scanDigits {n n' : Int} (h : scanDigits n fmt = some (n', fmt')) :
    fmt'.length ≤ fmt.length := by
  induction fmt generalizing n with
  | nil =>
    obtain ⟨-, rfl⟩ := Prod.mk.inj (Option.some.inj h)
    exact Nat.le_refl _
  | cons c fmt ih =>
    rw [scanDigits] at h
    split at h
    · obtain ⟨m, -, h⟩ := Option.bind_eq_some_iff.mp h
      obtain ⟨m, -, h⟩ := Option.bind_eq_some_iff.mp h
      exact Nat.le_succ_of_le (ih h)
    · obtain ⟨-, rfl⟩ := Prod.mk.inj (Option.some.inj h)
      exact Nat.le_refl _

theorem length_tail_le (fmt : List UInt8) : fmt.tail.length ≤ fmt.length :=
  List.length_tail ▸ Nat.sub_le _ _

theorem length_scanWidth (h : scanWidth v ap fmt = some (v', ap', fmt')) :
    fmt'.length ≤ fmt.length := by
  rw [scanWidth] at h
  split at h
  · split at h
    · obtain ⟨m, -, h⟩ := Option.bind_eq_some_iff.mp h
      obtain ⟨-, -, rfl⟩ := by simpa using h
      exact length_tail_le fmt
    · obtain ⟨-, -, rfl⟩ := by simpa using h
      exact length_tail_le fmt
  · obtain ⟨⟨n, fmt''⟩, hdigits, h⟩ := Option.bind_eq_some_iff.mp h
    obtain ⟨-, -, rfl⟩ := by simpa using h
    exact length_scanDigits hdigits

theorem length_scanPrecision (h : scanPrecision v ap fmt = some (v', ap', fmt')) :
    fmt'.length ≤ fmt.length := by
  rw [scanPrecision] at h
  split at h
  · split at h
    · obtain ⟨-, -, rfl⟩ := by simpa using h
      exact (length_tail_le _).trans (length_tail_le fmt)
    · obtain ⟨⟨n, fmt''⟩, hdigits, h⟩ := Option.bind_eq_some_iff.mp h
      obtain ⟨-, -, rfl⟩ := by simpa using h
      exact (length_scanDigits hdigits).trans (length_tail_le fmt)
  · obtain ⟨-, -, rfl⟩ := by simpa using h
    exact Nat.le_refl _

theorem length_scanSize (fmt : List UInt8) : (scanSize fmt).2.length ≤ fmt.length := by
  have hone := length_tail_le fmt
  have htwo := (length_tail_le fmt.tail).trans hone
  rw [scanSize]
  split
  · split
    · exact htwo
    · exact hone
  split
  · exact hone
  split
  · split
    · exact htwo
    · exact hone
  · exact Nat.le_refl _

/-- What is left of a format behind a conversion is no longer than it. -/
theorem length_scanConversion {strings : Strings} {f : Field}
    (h : scanConversion strings ap fmt = some (.field f ap' fmt')) :
    fmt'.length ≤ fmt.length := by
  obtain ⟨⟨v₁, ap₁, fmt₁⟩, hwidth, h⟩ := Option.bind_eq_some_iff.mp h
  obtain ⟨⟨v₂, ap₂, fmt₂⟩, hprec, h⟩ := Option.bind_eq_some_iff.mp h
  dsimp only at h
  split at h
  · simp at h
  · obtain ⟨f', -, h⟩ := Option.bind_eq_some_iff.mp h
    obtain ⟨-, -, rfl⟩ := by simpa using h
    calc
      (scanSize fmt₂).2.tail.length ≤ (scanSize fmt₂).2.length := length_tail_le _
      _ ≤ fmt₂.length := length_scanSize fmt₂
      _ ≤ fmt₁.length := length_scanPrecision hprec
      _ ≤ (scanFlags {} fmt).2.length := length_scanWidth hwidth
      _ ≤ fmt.length := length_scanFlags {} fmt

end Length

section Doprnt

variable {σ : Type} (sink : Sink σ) (strings : Strings)

/-- `_doprnt`, from a character of the format on. -/
def doprnt (fmt : List UInt8) (ap : VaList) (charsWritten : Int) (s : σ) : Output σ :=
  match fmt with
  | [] => .written charsWritten s
  | c :: fmt =>
      if c = ch '%' ∧ fmt.head? ≠ some (ch '%') then
        match h : scanConversion strings ap fmt with
        | none => .undefined
        | some (.unknown ap) => (sink.put c charsWritten s).andThen (doprnt fmt ap)
        | some (.field f ap fmt') =>
            have _hrest := length_scanConversion h
            (putField sink f charsWritten s).andThen (doprnt fmt' ap)
      else
        (sink.put c charsWritten s).andThen (doprnt (if c = ch '%' then fmt.tail else fmt) ap)
termination_by fmt.length
decreasing_by
  · exact Nat.lt_succ_self _
  · exact Nat.lt_succ_of_le _hrest
  · split
    · exact Nat.lt_succ_of_le (length_tail_le fmt)
    · exact Nat.lt_succ_self _

variable {sink strings} {fmt : List UInt8} {ap : VaList} {n : Int} {s : σ}

theorem doprnt_nil : doprnt sink strings [] ap n s = .written n s := by rw [doprnt]

/-- A conversion that is printed. -/
theorem doprnt_field {f : Field} {ap' : VaList} {fmt' : List UInt8}
    (hpercent : fmt.head? ≠ some (ch '%'))
    (h : scanConversion strings ap fmt = some (.field f ap' fmt')) :
    doprnt sink strings (ch '%' :: fmt) ap n s =
      (putField sink f n s).andThen (doprnt sink strings fmt' ap') := by
  rw [doprnt, if_pos ⟨rfl, hpercent⟩]
  split
  · next hnone => exact absurd (h.symm.trans hnone) (Option.some_ne_none _)
  · next hunknown => exact absurd (h.symm.trans hunknown) (by simp)
  · next hfield =>
    obtain ⟨rfl, rfl, rfl⟩ := by simpa using h.symm.trans hfield
    rfl

/-- A conversion that is unknown is a character. -/
theorem doprnt_unknown {ap' : VaList} (hpercent : fmt.head? ≠ some (ch '%'))
    (h : scanConversion strings ap fmt = some (.unknown ap')) :
    doprnt sink strings (ch '%' :: fmt) ap n s =
      (sink.put (ch '%') n s).andThen (doprnt sink strings fmt ap') := by
  rw [doprnt, if_pos ⟨rfl, hpercent⟩]
  split
  · next hnone => exact absurd (h.symm.trans hnone) (Option.some_ne_none _)
  · next hunknown =>
    obtain rfl := by simpa using h.symm.trans hunknown
    rfl
  · next hfield => exact absurd (h.symm.trans hfield) (by simp)

/-- A conversion whose computations overflow. -/
theorem doprnt_undefined (hpercent : fmt.head? ≠ some (ch '%'))
    (h : scanConversion strings ap fmt = none) :
    doprnt sink strings (ch '%' :: fmt) ap n s = .undefined := by
  rw [doprnt, if_pos ⟨rfl, hpercent⟩]
  split
  · rfl
  · next hunknown => exact absurd (hunknown.symm.trans h) (Option.some_ne_none _)
  · next hfield => exact absurd (hfield.symm.trans h) (Option.some_ne_none _)

/-- A character that is none of a conversion. -/
theorem doprnt_literal {c : UInt8} (h : ¬(c = ch '%' ∧ fmt.head? ≠ some (ch '%'))) :
    doprnt sink strings (c :: fmt) ap n s =
      (sink.put c n s).andThen
        (doprnt sink strings (if c = ch '%' then fmt.tail else fmt) ap) := by
  rw [doprnt, if_neg h]

end Doprnt

section Follows

variable {σ τ : Type} {sink : Sink σ} {other : Sink τ} {g : σ → τ} {strings : Strings}

/-- A run goes along with a map between two sinks. -/
theorem doprnt_map (h : sink.Follows other g) (fmt : List UInt8) (ap : VaList) (n : Int) (s : σ) :
    doprnt other strings fmt ap n (g s) = (doprnt sink strings fmt ap n s).map g := by
  induction fmt, ap, n, s using doprnt.induct strings with
  | case1 ap n s =>
    rw [doprnt_nil, doprnt_nil]
    rfl
  | case2 ap n s c fmt hpercent hscan =>
    obtain ⟨rfl, hpercent⟩ := hpercent
    rw [doprnt_undefined hpercent hscan, doprnt_undefined hpercent hscan]
    rfl
  | case3 ap n s c fmt hpercent ap' hscan ih =>
    obtain ⟨rfl, hpercent⟩ := hpercent
    rw [doprnt_unknown hpercent hscan, doprnt_unknown hpercent hscan, h.put]
    exact Output.andThen_map ih
  | case4 ap n s c fmt hpercent f ap' fmt' hscan _ ih =>
    obtain ⟨rfl, hpercent⟩ := hpercent
    rw [doprnt_field hpercent hscan, doprnt_field hpercent hscan, putField_eq, putField_eq, h.puts]
    exact Output.andThen_map ih
  | case5 ap n s c fmt hliteral ih =>
    rw [doprnt_literal hliteral, doprnt_literal hliteral, h.put]
    exact Output.andThen_map ih

/-- A run counts the characters that a recorder keeps. -/
theorem counted_doprnt (fmt : List UInt8) (ap : VaList) {kept : List UInt8}
    (h : (kept.length : Int) < 2 ^ 31) :
    Counted (doprnt recorder strings fmt ap kept.length kept) := by
  generalize hcount : (kept.length : Int) = n
  induction fmt, ap, n, kept using doprnt.induct strings with
  | case1 ap n kept =>
    rw [doprnt_nil, ← hcount]
    exact .written h
  | case2 ap n kept c fmt hpercent hscan =>
    obtain ⟨rfl, hpercent⟩ := hpercent
    rw [doprnt_undefined hpercent hscan]
    exact .undefined
  | case3 ap n kept c fmt hpercent ap' hscan ih =>
    obtain ⟨rfl, hpercent⟩ := hpercent
    rw [doprnt_unknown hpercent hscan, ← hcount]
    exact counted_andThen (counted_put _ h) fun text hfits => ih _ _ hfits rfl
  | case4 ap n kept c fmt hpercent f ap' fmt' hscan _ ih =>
    obtain ⟨rfl, hpercent⟩ := hpercent
    rw [doprnt_field hpercent hscan, putField_eq, ← hcount]
    exact counted_andThen (counted_puts _ h) fun text hfits => ih _ _ hfits rfl
  | case5 ap n kept c fmt hliteral ih =>
    rw [doprnt_literal hliteral, ← hcount]
    exact counted_andThen (counted_put _ h) fun text hfits => ih _ _ hfits rfl

end Follows

end RPiKernel.Stdio
