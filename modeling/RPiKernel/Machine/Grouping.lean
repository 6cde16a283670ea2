import Mathlib.Tactic.Ring
import RPiKernel.Machine.Strings

/-!
# Numbers with separators between groups of digits

A text is grouped if a separator stands in front of every so many of its characters, counted from
the last one. Separators are no digits, so that a grouped number is read as the number.
-/

namespace RPiKernel.Machine

section Grouped

variable {sep c : UInt8} {g : Nat} {text : List UInt8}

/-- A text with a separator in front of every `g` characters that others stand in front of. -/
def grouped (sep : UInt8) (g : Nat) : List UInt8 → List UInt8
  | [] => []
  | c :: text =>
      c :: if 0 < text.length ∧ text.length % g = 0 then sep :: grouped sep g text
        else grouped sep g text

theorem head?_grouped : (grouped sep g text).head? = text.head? := by
  cases text <;> rfl

theorem mem_grouped (h : c ∈ grouped sep g text) : c = sep ∨ c ∈ text := by
  induction text with
  | nil => cases h
  | cons d text ih =>
      have hrest (h : c ∈ grouped sep g text) : c = sep ∨ c ∈ d :: text :=
        (ih h).imp_right (List.mem_cons_of_mem d)
      rw [grouped, List.mem_cons] at h
      obtain rfl | h := h
      · exact .inr List.mem_cons_self
      split at h
      · obtain hsep | h := List.mem_cons.mp h
        · exact .inl hsep
        · exact hrest h
      · exact hrest h

/-- Without its separators, a grouped text is the text. -/
theorem filter_grouped (h : sep ∉ text) : (grouped sep g text).filter (· ≠ sep) = text := by
  induction text with
  | nil => rfl
  | cons c text ih =>
      obtain ⟨hc, htext⟩ := not_or.mp fun hmem => h (List.mem_cons.mpr hmem)
      have hrest := ih htext
      rw [grouped, List.filter_cons_of_pos (by simpa using fun h => hc h.symm)]
      congr 1
      split
      · rw [List.filter_cons_of_neg (by simp), hrest]
      · exact hrest

/-- A grouped text is as many groups with their separators long as the text has groups behind the
first one. -/
theorem length_grouped :
    (grouped sep g text).length = text.length + (text.length - 1) / g := by
  induction text with
  | nil => simp [grouped]
  | cons c text ih =>
      rw [grouped, List.length_cons, List.length_cons, Nat.add_sub_cancel]
      obtain hnil | hpos := Nat.eq_zero_or_pos text.length
      · rw [if_neg (by omega), ih, hnil, Nat.zero_sub, Nat.zero_div]
      obtain ⟨n, hn⟩ := Nat.exists_eq_succ_of_ne_zero (Nat.ne_of_gt hpos)
      rw [hn, Nat.succ_eq_add_one, Nat.add_sub_cancel] at ih
      rw [hn, Nat.succ_eq_add_one, Nat.succ_div]
      have hdvd : g ∣ n + 1 ↔ (n + 1) % g = 0 := Nat.dvd_iff_mod_eq_zero
      by_cases hgroup : (n + 1) % g = 0
      · rw [if_pos ⟨Nat.succ_pos n, hgroup⟩, if_pos (hdvd.mpr hgroup), List.length_cons, ih]
        omega
      · rw [if_neg fun h => hgroup h.2, if_neg fun h => hgroup (hdvd.mp h), ih]
        omega

/-- What is behind a character is a whole number of groups with their separators exactly where it
is to begin with a separator. -/
theorem length_grouped_mod (hg : 0 < g) :
    ((grouped sep g text).length + 1) % (g + 1) = 0 ↔ 0 < text.length ∧ text.length % g = 0 := by
  rw [length_grouped]
  obtain hnil | hpos := Nat.eq_zero_or_pos text.length
  · simp [hnil, Nat.ne_of_gt hg]
  · have hdiv := Nat.div_add_mod (text.length - 1) g
    have hlt := Nat.mod_lt (text.length - 1) hg
    generalize (text.length - 1) / g = q at hdiv ⊢
    generalize (text.length - 1) % g = r at hdiv hlt
    have hlength : text.length = g * q + (r + 1) := by omega
    have hwhole : text.length + q + 1 = (g + 1) * q + (r + 2) := by
      rw [hlength, Nat.add_mul]
      omega
    rw [and_iff_right hpos, hwhole, hlength, Nat.mul_add_mod, Nat.mul_add_mod]
    obtain rfl | hmore : g = r + 1 ∨ r + 1 < g := by omega
    · exact iff_of_true (Nat.mod_self _) (Nat.mod_self _)
    · rw [Nat.mod_eq_of_lt (by omega), Nat.mod_eq_of_lt hmore]
      omega

/-- The separators stand behind every `g` characters, counted from the last one. -/
theorem getElem?_reverse_grouped (hg : 0 < g) (h : sep ∉ text) {k : Nat}
    (hk : k < (grouped sep g text).length) :
    (grouped sep g text).reverse[k]? = some sep ↔ (k + 1) % (g + 1) = 0 := by
  induction text with
  | nil => cases hk
  | cons c text ih =>
      obtain ⟨hc, htext⟩ := not_or.mp fun hmem => h (List.mem_cons.mpr hmem)
      have hmod : ((grouped sep g text).length + 1) % (g + 1) = 0 ↔ _ := length_grouped_mod hg
      have hrest := ih htext
      have hreverse : (grouped sep g text).reverse.length = (grouped sep g text).length :=
        List.length_reverse
      rw [grouped] at hk ⊢
      rw [List.reverse_cons]
      split at hk
      · -- behind the first character stands a separator
        next hgroup =>
        have hwhole := hmod.mpr hgroup
        rw [if_pos hgroup, List.reverse_cons]
        rw [List.length_cons, List.length_cons] at hk
        obtain hlt | rfl | rfl : k < (grouped sep g text).length ∨
            k = (grouped sep g text).length ∨ k = (grouped sep g text).length + 1 := by omega
        · rw [List.append_assoc, List.getElem?_append_left (hlt.trans_eq hreverse.symm)]
          exact hrest hlt
        · rw [List.append_assoc, List.getElem?_append_right hreverse.le, hreverse, Nat.sub_self]
          exact iff_of_true rfl hwhole
        · have hfirst : ((grouped sep g text).length + 1 + 1) % (g + 1) ≠ 0 := by
            rw [Nat.add_mod, hwhole, Nat.zero_add, Nat.mod_mod, Nat.mod_eq_of_lt (by omega)]
            exact Nat.one_ne_zero
          rw [List.getElem?_append_right (by simp), List.length_append, hreverse,
            List.length_singleton, Nat.sub_self]
          exact iff_of_false (fun heq => hc (Option.some.inj heq).symm) hfirst
      · next hgroup =>
        rw [if_neg hgroup]
        rw [List.length_cons] at hk
        obtain hlt | rfl : k < (grouped sep g text).length ∨
            k = (grouped sep g text).length := by omega
        · rw [List.getElem?_append_left (hlt.trans_eq hreverse.symm)]
          exact hrest hlt
        · rw [List.getElem?_append_right hreverse.le, hreverse, Nat.sub_self]
          exact iff_of_false (fun heq => hc (Option.some.inj heq).symm) (mt hmod.mp hgroup)

theorem foldl_readDigit_grouped {base : Nat} (hsep : digitValue sep = none) (n : Nat) :
    (grouped sep g text).foldl (readDigit base) n = text.foldl (readDigit base) n := by
  have hskip (n : Nat) : readDigit base n sep = n := by rw [readDigit, hsep]
  induction text generalizing n with
  | nil => rfl
  | cons c text ih =>
      rw [grouped, List.foldl_cons, List.foldl_cons]
      split
      · rw [List.foldl_cons, hskip, ih]
      · exact ih _

/-- A grouped number is read as the number. -/
theorem readNumber_grouped {base : Nat} (hsep : digitValue sep = none) :
    readNumber base (grouped sep g text) = readNumber base text :=
  foldl_readDigit_grouped hsep 0

end Grouped

section Padded

variable {base d v : Nat} {upper : Bool}

/-- The last digits of a number, `n` of them. -/
def padded (base : Nat) (upper : Bool) (v : Nat) : Nat → List UInt8
  | 0 => []
  | n + 1 => digitChar upper (v / base ^ n % base) :: padded base upper v n

@[simp] theorem length_padded (n : Nat) : (padded base upper v n).length = n := by
  induction n with
  | zero => rfl
  | succ n ih => rw [padded, List.length_cons, ih]

theorem exists_digit_of_mem_padded (hbase : 0 < base) {n : Nat} {c : UInt8}
    (h : c ∈ padded base upper v n) : ∃ d < base, digitChar upper d = c := by
  induction n with
  | zero => cases h
  | succ n ih =>
      obtain rfl | h := List.mem_cons.mp h
      · exact ⟨_, Nat.mod_lt _ hbase, rfl⟩
      · exact ih h

theorem foldl_readDigit_padded (hbase : 0 < base) (hlast : base ≤ 16) (a n : Nat) :
    (padded base upper v n).foldl (readDigit base) a = a * base ^ n + v % base ^ n := by
  induction n generalizing a with
  | zero => rw [padded, List.foldl_nil, Nat.pow_zero, Nat.mul_one, Nat.mod_one, Nat.add_zero]
  | succ n ih =>
      have hdigit : v / base ^ n % base < 16 := (Nat.mod_lt _ hbase).trans_le hlast
      calc
        (padded base upper v (n + 1)).foldl (readDigit base) a =
            (base * a + v / base ^ n % base) * base ^ n + v % base ^ n := by
          rw [padded, List.foldl_cons, readDigit_digitChar a hdigit, ih]
        _ = a * base ^ (n + 1) + (v % base ^ n + base ^ n * (v / base ^ n % base)) := by
          rw [Nat.pow_succ]
          ring
        _ = a * base ^ (n + 1) + v % base ^ (n + 1) := by rw [← Nat.mod_pow_succ]

theorem readNumber_padded (hbase : 0 < base) (hlast : base ≤ 16) (n : Nat) :
    readNumber base (padded base upper v n) = v % base ^ n := by
  rw [readNumber, foldl_readDigit_padded hbase hlast, Nat.zero_mul, Nat.zero_add]

end Padded

end RPiKernel.Machine
