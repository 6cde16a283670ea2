import Mathlib.Data.Nat.Digits.Defs
import Mathlib.Data.Nat.Digits.Lemmas

/-!
# Strings and numerals

A string is the list of its characters, and a numeral the list of the characters of its digits, the
most significant one first. A text is read as a number by its digits alone, so that what stands
around a numeral does not change the number.
-/

namespace RPiKernel.Machine

/-- The characters of a string, without the zero at its end. -/
structure CString where
  bytes : List UInt8
  noNul : 0 ∉ bytes

/-- A character of the source. -/
def ch (c : Char) : UInt8 := UInt8.ofNat c.toNat

/-- The character of a digit. -/
def digitChar (upper : Bool) (d : Nat) : UInt8 :=
  if d < 10 then UInt8.ofNat (0x30 + d) else UInt8.ofNat ((if upper then 0x37 else 0x57) + d)

/-- A number in some base. -/
def numeral (base : Nat) (upper : Bool) (v : Nat) : List UInt8 :=
  if v = 0 then [ch '0'] else ((Nat.digits base v).map (digitChar upper)).reverse

/-- The digit of a character. -/
def digitValue (c : UInt8) : Option Nat :=
  if 0x30 ≤ c.toNat ∧ c.toNat ≤ 0x39 then
    some (c.toNat - 0x30)
  else if 0x41 ≤ c.toNat ∧ c.toNat ≤ 0x46 then
    some (c.toNat - 0x37)
  else if 0x61 ≤ c.toNat ∧ c.toNat ≤ 0x66 then
    some (c.toNat - 0x57)
  else
    none

/-- A number read on by a character. -/
def readDigit (base n : Nat) (c : UInt8) : Nat :=
  match digitValue c with
  | some d => base * n + d
  | none => n

/-- The number that the digits of a text make. -/
def readNumber (base : Nat) (text : List UInt8) : Nat := text.foldl (readDigit base) 0

/-- A text that stands for a number: digits of the base, without zeros in front of others. -/
structure IsNumeral (base : Nat) (upper : Bool) (v : Nat) (text : List UInt8) : Prop where
  ne_nil : text ≠ []
  digits : ∀ c ∈ text, ∃ d < base, digitChar upper d = c
  value : readNumber base text = v
  leading : text.head? = some (ch '0') → text = [ch '0']

section Digits

variable {base d v : Nat} {upper : Bool} {text more : List UInt8}

theorem digitValue_digitChar (h : d < 16) : digitValue (digitChar upper d) = some d := by
  interval_cases d <;> cases upper <;> decide

theorem readDigit_digitChar (n : Nat) (h : d < 16) :
    readDigit base n (digitChar upper d) = base * n + d := by
  rw [readDigit, digitValue_digitChar h]

theorem digitChar_zero : digitChar upper 0 = ch '0' := by cases upper <;> decide

theorem digitChar_ne_zero (hpos : 0 < d) (h : d < 16) : digitChar upper d ≠ ch '0' := by
  intro heq
  have hvalue : digitValue (digitChar upper d) = some d := digitValue_digitChar h
  rw [heq] at hvalue
  exact absurd (Option.some.inj hvalue) (Nat.ne_of_lt hpos)

theorem foldl_readDigit_digits (ds : List Nat) (h : ∀ d ∈ ds, d < 16) :
    (ds.map (digitChar upper)).reverse.foldl (readDigit base) 0 = Nat.ofDigits base ds := by
  induction ds with
  | nil => rfl
  | cons d ds ih =>
    rw [List.map_cons, List.reverse_cons, List.foldl_append,
      ih fun d' h' => h d' (List.mem_cons_of_mem d h'), List.foldl_cons, List.foldl_nil,
      readDigit_digitChar _ (h d List.mem_cons_self), Nat.ofDigits_cons, Nat.add_comm]

theorem readDigit_zero : readDigit base 0 (ch '0') = 0 := by
  have hvalue : digitValue (ch '0') = some 0 := by decide
  rw [readDigit, hvalue]
  rfl

/-- A numeral is read as its number. -/
theorem readNumber_numeral (hbase : 1 < base) (hlast : base ≤ 16) :
    readNumber base (numeral base upper v) = v := by
  rw [readNumber, numeral]
  split
  · next hzero => exact readDigit_zero.trans hzero.symm
  · rw [foldl_readDigit_digits _ fun d h => (Nat.digits_lt_base hbase h).trans_le hlast]
    exact Nat.ofDigits_digits base v

/-- What stands in front of a number, without a digit of its own. -/
theorem readNumber_append_of_zero (h : ∀ c ∈ text, readDigit base 0 c = 0) :
    readNumber base (text ++ more) = readNumber base more := by
  rw [readNumber, List.foldl_append]
  congr 1
  induction text with
  | nil => rfl
  | cons c text ih =>
    rw [List.foldl_cons, h c List.mem_cons_self]
    exact ih fun c' h' => h c' (List.mem_cons_of_mem c h')

/-- What stands behind a number, without digits. -/
theorem readNumber_append_of_none (h : ∀ c ∈ more, digitValue c = none) :
    readNumber base (text ++ more) = readNumber base text := by
  rw [readNumber, List.foldl_append, readNumber]
  generalize text.foldl (readDigit base) 0 = n
  induction more with
  | nil => rfl
  | cons c more ih =>
    rw [List.foldl_cons, readDigit, h c List.mem_cons_self]
    exact ih fun c' h' => h c' (List.mem_cons_of_mem c h')

theorem digitValue_of_mem_numeral {c : UInt8} (hbase : 1 < base) (hlast : base ≤ 16)
    (h : c ∈ numeral base upper v) : ∃ d, digitValue c = some d := by
  rw [numeral] at h
  split at h
  · exact ⟨0, List.mem_singleton.mp h ▸ by decide⟩
  · obtain ⟨d, hd, rfl⟩ := List.mem_map.mp (List.mem_reverse.mp h)
    exact ⟨d, digitValue_digitChar ((Nat.digits_lt_base hbase hd).trans_le hlast)⟩

/-- The last digit of a numeral, and those in front of it. -/
theorem reverse_numeral (hbase : 1 < base) :
    (numeral base upper v).reverse =
      digitChar upper (v % base) ::
        if v / base = 0 then [] else (numeral base upper (v / base)).reverse := by
  rw [numeral]
  split
  · next hzero =>
    rw [hzero, Nat.zero_mod, Nat.zero_div, if_pos rfl, List.reverse_singleton, digitChar_zero]
  · next h =>
    rw [List.reverse_reverse, Nat.digits_def' hbase (Nat.pos_of_ne_zero h), List.map_cons]
    congr 1
    split
    · next hlast => rw [hlast, Nat.digits_zero, List.map_nil]
    · next hmore => rw [numeral, if_neg hmore, List.reverse_reverse]

theorem length_numeral_pos : 0 < (numeral base upper v).length := by
  rw [numeral]
  split
  · exact Nat.one_pos
  · next h =>
    rw [List.length_reverse, List.length_map]
    exact List.length_pos_of_ne_nil (Nat.digits_ne_nil_iff_ne_zero.mpr h)

theorem length_numeral_le {k : Nat} (hbase : 1 < base) (hk : 0 < k) (h : v < base ^ k) :
    (numeral base upper v).length ≤ k := by
  rw [numeral]
  split
  · exact hk
  · rw [List.length_reverse, List.length_map]
    exact (Nat.digits_length_le_iff hbase v).mpr h

/-- The numeral of a number other than zero does not begin with a zero. -/
theorem head?_numeral_ne_zero (hbase : 1 < base) (hlast : base ≤ 16) (h : v ≠ 0) :
    (numeral base upper v).head? ≠ some (ch '0') := by
  rw [numeral, if_neg h, List.head?_reverse, List.getLast?_map]
  have hnil : Nat.digits base v ≠ [] := Nat.digits_ne_nil_iff_ne_zero.mpr h
  rw [List.getLast?_eq_some_getLast hnil, Option.map_some, ne_eq, Option.some_inj]
  exact digitChar_ne_zero (Nat.pos_of_ne_zero (Nat.getLast_digit_ne_zero base h))
    ((Nat.digits_lt_base hbase (List.getLast_mem hnil)).trans_le hlast)

theorem isNumeral_numeral (hbase : 1 < base) (hlast : base ≤ 16) :
    IsNumeral base upper v (numeral base upper v) := by
  constructor
  case ne_nil => exact List.ne_nil_of_length_pos length_numeral_pos
  case digits =>
    intro c hc
    rw [numeral] at hc
    split at hc
    · rw [List.mem_singleton.mp hc]
      exact ⟨0, Nat.zero_lt_of_lt hbase, digitChar_zero⟩
    · obtain ⟨d, hd, rfl⟩ := List.mem_map.mp (List.mem_reverse.mp hc)
      exact ⟨d, Nat.digits_lt_base hbase hd, rfl⟩
  case value => exact readNumber_numeral hbase hlast
  case leading =>
    intro hzero
    by_cases hv : v = 0
    · rw [numeral, if_pos hv]
    · exact absurd hzero (head?_numeral_ne_zero hbase hlast hv)

/-- The digits that a text consists of. -/
theorem exists_digits_of_forall (h : ∀ c ∈ text, ∃ d < base, digitChar upper d = c) :
    ∃ ds : List Nat, (∀ d ∈ ds, d < base) ∧ ds.map (digitChar upper) = text := by
  induction text with
  | nil => exact ⟨[], List.forall_mem_nil _, rfl⟩
  | cons c text ih =>
    obtain ⟨⟨d, hd, hc⟩, htext⟩ := List.forall_mem_cons.mp h
    obtain ⟨ds, hds, hmap⟩ := ih htext
    exact ⟨d :: ds, List.forall_mem_cons.mpr ⟨hd, hds⟩, by rw [List.map_cons, hc, hmap]⟩

/-- There is only one such text. -/
theorem IsNumeral.eq_numeral (h : IsNumeral base upper v text) (hbase : 1 < base)
    (hlast : base ≤ 16) : text = numeral base upper v := by
  have hreverse : ∀ c ∈ text.reverse, ∃ d < base, digitChar upper d = c :=
    fun c hc => h.digits c (List.mem_reverse.mp hc)
  obtain ⟨ds, hds, hmap⟩ := exists_digits_of_forall hreverse
  obtain rfl : text = (ds.map (digitChar upper)).reverse := by rw [hmap, List.reverse_reverse]
  have hvalue : Nat.ofDigits base ds = v := by
    rw [← h.value, readNumber, foldl_readDigit_digits ds fun d hd => (hds d hd).trans_le hlast]
  have hnil : ds ≠ [] := by
    rintro rfl
    exact h.ne_nil rfl
  have hhead : (ds.map (digitChar upper)).reverse.head? =
      some (digitChar upper (ds.getLast hnil)) := by
    rw [List.head?_reverse, List.getLast?_map, List.getLast?_eq_some_getLast hnil, Option.map_some]
  by_cases hzero : ds.getLast hnil = 0
  · -- a zero in front is alone
    rw [hzero, digitChar_zero] at hhead
    have hsingle := h.leading hhead
    have hv : v = 0 := by
      rw [← h.value, hsingle]
      exact readDigit_zero
    rw [hsingle, numeral, if_pos hv]
  · have hdigits : Nat.digits base v = ds := by
      rw [← hvalue]
      exact Nat.digits_ofDigits base hbase ds hds fun _ => hzero
    have hv : v ≠ 0 := Nat.digits_ne_nil_iff_ne_zero.mp (hdigits ▸ hnil)
    rw [numeral, if_neg hv, hdigits]

end Digits

/-- A text in a field of a minimum width: in front of spaces, or behind spaces, or with zeros
between what stands in front and the rest. -/
def arrange (left zeros : Bool) (w : Nat) (front text : List UInt8) : List UInt8 :=
  let fill := w - (front.length + text.length)
  if left then
    front ++ text ++ List.replicate fill (ch ' ')
  else if zeros then
    front ++ List.replicate fill (ch '0') ++ text
  else
    List.replicate fill (ch ' ') ++ front ++ text

section Arrange

variable {left zeros : Bool} {w base : Nat} {front text : List UInt8} {c : UInt8}

theorem length_arrange :
    (arrange left zeros w front text).length = max w (front.length + text.length) := by
  rw [arrange]
  split
  · rw [List.length_append, List.length_append, List.length_replicate]
    omega
  split
  · rw [List.length_append, List.length_append, List.length_replicate]
    omega
  · rw [List.length_append, List.length_append, List.length_replicate]
    omega

/-- A text that fills its field. -/
theorem arrange_of_le (h : w ≤ front.length + text.length) :
    arrange left zeros w front text = front ++ text := by
  rw [arrange, Nat.sub_eq_zero_of_le h]
  cases left <;> cases zeros <;> simp

theorem mem_arrange (hspace : c ≠ ch ' ') (hzero : c ≠ ch '0') :
    c ∈ arrange left zeros w front text ↔ c ∈ front ∨ c ∈ text := by
  rw [arrange]
  cases left <;> cases zeros <;> simp [hspace, hzero]

/-- The number in a field is that of its text. -/
theorem readNumber_arrange (hfront : ∀ c ∈ front, readDigit base 0 c = 0) :
    readNumber base (arrange left zeros w front text) = readNumber base text := by
  have hspace : digitValue (ch ' ') = none := by decide
  have hspaces (n : Nat) : ∀ c ∈ List.replicate n (ch ' '), digitValue c = none :=
    fun c hc => List.eq_of_mem_replicate hc ▸ hspace
  have hblanks (n : Nat) : ∀ c ∈ List.replicate n (ch ' '), readDigit base 0 c = 0 :=
    fun c hc => by rw [readDigit, hspaces n c hc]
  have hzeros (n : Nat) : ∀ c ∈ List.replicate n (ch '0'), readDigit base 0 c = 0 :=
    fun c hc => List.eq_of_mem_replicate hc ▸ readDigit_zero
  rw [arrange]
  split
  · rw [readNumber_append_of_none (hspaces _), readNumber_append_of_zero hfront]
  split
  · rw [List.append_assoc, readNumber_append_of_zero hfront, readNumber_append_of_zero (hzeros _)]
  · rw [List.append_assoc, readNumber_append_of_zero (hblanks _), readNumber_append_of_zero hfront]

theorem arrange_left :
    arrange true zeros w [] text = text ++ List.replicate (w - text.length) (ch ' ') := by
  rw [arrange, if_pos rfl, List.nil_append, List.length_nil, Nat.zero_add]

theorem arrange_right :
    arrange false zeros w [] text =
      List.replicate (w - text.length) (if zeros then ch '0' else ch ' ') ++ text := by
  rw [arrange, if_neg Bool.false_ne_true, List.nil_append, List.append_nil, List.length_nil,
    Nat.zero_add]
  cases zeros <;> rfl

/-- Zeros and spaces in front of a text are the same only if there are none. -/
theorem arrange_zeros_iff :
    arrange left true w [] text = arrange left false w [] text ↔
      left = true ∨ w ≤ text.length := by
  cases left with
  | true => exact iff_of_true rfl (.inl rfl)
  | false =>
    rw [arrange_right, arrange_right, List.append_cancel_right_eq, List.replicate_right_inj',
      or_iff_left (by decide), Nat.sub_eq_zero_iff_le, or_iff_right Bool.false_ne_true]

/-- Characters in place of the end of a text, in front of it: they give the text only if it
consists of them. -/
theorem replicate_append_take_iff {n m : Nat}
    (hlength : n + m = text.length) (hpos : 0 < n ∨ text = []) :
    List.replicate n c ++ text.take m = text ↔ ∀ x ∈ text, x = c := by
  constructor
  · intro h
    obtain hpos | hnil := hpos
    swap
    · exact fun x hx => absurd (hnil ▸ hx) List.not_mem_nil
    have hall (i : Nat) : i < text.length → text[i]? = some c := by
      induction i using Nat.strongRecOn with
      | ind i ih =>
        intro hi
        rw [← h]
        obtain hfirst | hlater := Nat.lt_or_ge i n
        · rw [List.getElem?_append_left (by rw [List.length_replicate]; exact hfirst),
            List.getElem?_replicate_of_lt hfirst]
        · rw [List.getElem?_append_right (by rw [List.length_replicate]; exact hlater),
            List.length_replicate, List.getElem?_take_of_lt (by omega)]
          exact ih (i - n) (by omega) (by omega)
    intro x hx
    obtain ⟨i, hi⟩ := List.mem_iff_getElem?.mp hx
    have hlt : i < text.length := (List.getElem?_eq_some_iff.mp hi).1
    exact Option.some.inj (hi.symm.trans (hall i hlt))
  · intro h
    have htext : text = List.replicate text.length c := List.eq_replicate_iff.mpr ⟨rfl, h⟩
    rw [htext, List.take_replicate, List.replicate_append_replicate]
    congr 1
    omega

/-- A text whose end is left out is the same in its field only if the padding makes up for it. -/
theorem arrange_take_iff {w' m : Nat}
    (hleft : left = true → zeros = false) (hm : m < text.length ∨ m = 0) :
    arrange left zeros w' [] (text.take m) = arrange left false w [] text ↔
      w' = max w text.length ∧ (zeros = true → w ≤ text.length) ∧
        if left then ∀ c ∈ text.drop m, c = ch ' '
        else ∀ c ∈ text, c = if zeros then ch '0' else ch ' ' := by
  have hle : m ≤ text.length := by omega
  have hlength (h : arrange left zeros w' [] (text.take m) = arrange left false w [] text) :
      w' = max w text.length := by
    have hsame := congrArg List.length h
    rw [length_arrange, length_arrange, List.length_take, List.length_nil] at hsame
    omega
  rw [← and_iff_right_of_imp hlength]
  refine and_congr_right fun hw => ?_
  have hfill : w' - (text.take m).length = (text.length - m) + (w - text.length) := by
    rw [List.length_take_of_le hle]
    omega
  cases hjust : left with
  | true =>
    have hdrop : (text.drop m).length = text.length - m := List.length_drop
    have hzeros : zeros = true → w ≤ text.length := fun h =>
      absurd (hleft hjust) (ne_false_of_eq_true h)
    rw [arrange_left, arrange_left, hfill, ← List.replicate_append_replicate, ← List.append_assoc,
      List.append_cancel_right_eq, and_iff_right hzeros, if_pos rfl]
    have hsplit := @List.append_right_inj _ (text.drop m)
      (List.replicate (text.length - m) (ch ' ')) (text.take m)
    rw [List.take_append_drop] at hsplit
    rw [eq_comm, hsplit, List.eq_replicate_iff, and_iff_right hdrop]
  | false =>
    have hparts : text.length - m + m = text.length := Nat.sub_add_cancel hle
    have hpos : 0 < text.length - m ∨ text = [] :=
      (Nat.eq_zero_or_pos text.length).symm.imp (fun h => by omega) List.length_eq_zero_iff.mp
    rw [arrange_right, arrange_right, hfill, Nat.add_comm, ← List.replicate_append_replicate,
      List.append_assoc, List.append_eq_append_iff_of_size_eq_left
        (by rw [List.length_replicate, List.length_replicate]),
      replicate_append_take_iff hparts hpos, List.replicate_right_inj', Nat.sub_eq_zero_iff_le]
    refine and_congr_left fun _ => ?_
    cases zeros with
    | true =>
      have hne : ch '0' ≠ ch ' ' := by decide
      simp [hne]
    | false => simp

end Arrange

end RPiKernel.Machine
