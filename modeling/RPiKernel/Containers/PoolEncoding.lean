import RPiKernel.Containers.PoolAllocator
import RPiKernel.Intervals.Family

/-!
# Families of blocks encoded by the words of a pool

`Encodes` relates the words of a pool to the spans owned by any set of owners:
the taken slots are the covered ones, together with the slots beyond the pool,
and the starts are the starting points, together with the end of the pool. The
three updates below say which change of one word belongs to which change of
one owner's span.

## Implementation notes

With `leaky` the top slot of a word may be taken although no block covers it.
This is what an undone allocation that began with a whole word leaves behind.
-/

namespace RPiKernel.Containers

open Interleaving Machine Intervals

/-- The taken bit of slot `i`; slots outside the words are not taken. -/
def slotBit (words : List Word) (i : Nat) : Bool :=
  match words[i / 64]? with
  | some word => word.bitmap.getLsbD (i % 64)
  | none => false

/-- The start bit of slot `i`. -/
def startBit (words : List Word) (i : Nat) : Bool :=
  match words[i / 64]? with
  | some word => word.starts.getLsbD (i % 64)
  | none => false

section Bits

variable {words : List Word} {k : Nat} {v : Word}

theorem slotBit_of_getElem? (hv : words[k]? = some v) {j : Nat} (hj : j < 64) :
    slotBit words (64 * k + j) = v.bitmap.getLsbD j := by
  have h₁ : (64 * k + j) / 64 = k := by omega
  have h₂ : (64 * k + j) % 64 = j := by omega
  simp only [slotBit, h₁, h₂, hv]

theorem startBit_of_getElem? (hv : words[k]? = some v) {j : Nat} (hj : j < 64) :
    startBit words (64 * k + j) = v.starts.getLsbD j := by
  have h₁ : (64 * k + j) / 64 = k := by omega
  have h₂ : (64 * k + j) % 64 = j := by omega
  simp only [startBit, h₁, h₂, hv]

theorem slotBit_set (v' : Word) (hk : k < words.length) (i : Nat) :
    slotBit (words.set k v') i =
      if i / 64 = k then v'.bitmap.getLsbD (i % 64) else slotBit words i := by
  unfold slotBit
  by_cases hi : i / 64 = k
  · rw [if_pos hi, hi, List.getElem?_set_self hk]
  · rw [if_neg hi, List.getElem?_set_ne (Ne.symm hi)]

theorem startBit_set (v' : Word) (hk : k < words.length) (i : Nat) :
    startBit (words.set k v') i =
      if i / 64 = k then v'.starts.getLsbD (i % 64) else startBit words i := by
  unfold startBit
  by_cases hi : i / 64 = k
  · rw [if_pos hi, hi, List.getElem?_set_self hk]
  · rw [if_neg hi, List.getElem?_set_ne (Ne.symm hi)]

theorem lt_length_of_slotBit {i : Nat} (h : slotBit words i = true) : i < 64 * words.length := by
  by_contra hge
  have hnone : words[i / 64]? = none := List.getElem?_eq_none (by omega)
  rw [slotBit, hnone] at h
  cases h

/-- Words are determined by their slots and starts. -/
theorem words_ext {words' : List Word} (hlen : words'.length = words.length)
    (hslot : ∀ i, slotBit words' i = slotBit words i)
    (hstart : ∀ i, startBit words' i = startBit words i) : words' = words := by
  apply List.ext_getElem?
  intro k
  by_cases hk : k < words.length
  · have hv := List.getElem?_eq_getElem hk
    have hv' := List.getElem?_eq_getElem (hlen ▸ hk : k < words'.length)
    have hbitmap : words'[k].bitmap = words[k].bitmap := by
      apply BitVec.eq_of_getLsbD_eq
      intro j hj
      rw [← slotBit_of_getElem? hv hj, ← slotBit_of_getElem? hv' hj, hslot]
    have hstarts : words'[k].starts = words[k].starts := by
      apply BitVec.eq_of_getLsbD_eq
      intro j hj
      rw [← startBit_of_getElem? hv hj, ← startBit_of_getElem? hv' hj, hstart]
    rw [hv, hv']
    congr 1
    cases h : words'[k]
    cases h' : words[k]
    simp_all
  · rw [List.getElem?_eq_none (by omega), List.getElem?_eq_none (by omega)]

/-- The slots from `x` to `y` are newly taken, and with `fresh` a block starts there. -/
structure Grown (words words' : List Word) (fresh : Bool) (x y : Nat) : Prop where
  length : words'.length = words.length
  slots : ∀ i, slotBit words' i = true ↔ slotBit words i = true ∨ (x ≤ i ∧ i < y)
  starts : ∀ i, startBit words' i = true ↔ startBit words i = true ∨ (fresh = true ∧ i = x)

theorem Grown.refl (words : List Word) (x : Nat) : Grown words words false x x := by
  constructor
  · rfl
  · intro i
    have : ¬ (x ≤ i ∧ i < x) := by omega
    simp only [this, or_false]
  · intro i
    simp only [Bool.false_eq_true, false_and, or_false]

/-- A block is grown piece by piece. -/
theorem Grown.trans {words words' words'' : List Word} {fresh : Bool} {x y z : Nat} (hxy : x ≤ y)
    (hyz : y ≤ z) (h : Grown words words' fresh x y) (h' : Grown words' words'' false y z) :
    Grown words words'' fresh x z := by
  constructor
  · rw [h'.length, h.length]
  · intro i
    have : x ≤ i ∧ i < z ↔ (x ≤ i ∧ i < y) ∨ (y ≤ i ∧ i < z) := by omega
    rw [h'.slots, h.slots, this, or_assoc]
  · intro i
    rw [h'.starts, h.starts]
    simp only [Bool.false_eq_true, false_and, or_false]

/-- One word changes: the slots from `p` to `q` of it are taken. -/
theorem Grown.set {p q : Nat} {v' : Word} (fresh : Bool) (hv : words[k]? = some v) (hp : p < 64)
    (hq : q ≤ 64)
    (hbitmap : ∀ j, j < 64 → v'.bitmap.getLsbD j =
      (v.bitmap.getLsbD j || decide (p ≤ j ∧ j < q)))
    (hstarts : ∀ j, j < 64 → v'.starts.getLsbD j =
      (v.starts.getLsbD j || (fresh && decide (j = p)))) :
    Grown words (words.set k v') fresh (64 * k + p) (64 * k + q) := by
  have hk : k < words.length := (List.getElem?_eq_some_iff.mp hv).1
  constructor
  · exact List.length_set
  · intro i
    rw [slotBit_set v' hk]
    by_cases hi : i / 64 = k
    · have hi' := slotBit_of_getElem? hv (j := i % 64) (by omega)
      rw [show 64 * k + i % 64 = i by omega] at hi'
      rw [if_pos hi, hbitmap _ (by omega), hi']
      simp only [Bool.or_eq_true, decide_eq_true_eq]
      have : p ≤ i % 64 ∧ i % 64 < q ↔ 64 * k + p ≤ i ∧ i < 64 * k + q := by omega
      rw [this]
    · rw [if_neg hi]
      have : ¬ (64 * k + p ≤ i ∧ i < 64 * k + q) := by omega
      simp only [this, or_false]
  · intro i
    rw [startBit_set v' hk]
    by_cases hi : i / 64 = k
    · have hi' := startBit_of_getElem? hv (j := i % 64) (by omega)
      rw [show 64 * k + i % 64 = i by omega] at hi'
      rw [if_pos hi, hstarts _ (by omega), hi']
      simp only [Bool.or_eq_true, Bool.and_eq_true, decide_eq_true_eq]
      have : i % 64 = p ↔ i = 64 * k + p := by omega
      rw [this]
    · rw [if_neg hi]
      have : i ≠ 64 * k + p := by omega
      simp only [this, and_false, or_false]

end Bits

/-- The words of the pool encode exactly the spans of the family, up to leaked
top slots of words. -/
structure Encodes {κ : Type*} (pool : PoolParameters) (leaky : Prop) (words : List Word)
    (F : Family κ) : Prop where
  fits : pool.size ≤ 4294967232
  length : words.length = pool.wordCount
  separated : F.Separated
  inside : ∀ {k b}, F k = some b → b.stop ≤ pool.size
  covered : ∀ {i}, F.Covers i → slotBit words i = true
  beyond : ∀ {i}, pool.size ≤ i → i < 64 * pool.wordCount → slotBit words i = true
  slots : ∀ {i}, slotBit words i = true →
    F.Covers i ∨ pool.size ≤ i ∨ (leaky ∧ i % 64 = 63)
  starts : ∀ i, startBit words i = true ↔
    F.StartsAt i ∨ (i = pool.size ∧ i < 64 * pool.wordCount)

namespace PoolParameters

variable {pool : PoolParameters}

theorem wordCount_eq (h : pool.size ≤ 4294967232) : pool.wordCount = (pool.size + 63) / 64 := by
  rw [wordCount, add32_of_lt (by omega)]

theorem size_le (h : pool.size ≤ 4294967232) : pool.size ≤ 64 * pool.wordCount := by
  rw [wordCount_eq h]
  omega

theorem wordCount_le (h : pool.size ≤ 4294967232) : pool.wordCount ≤ 67108863 := by
  rw [wordCount_eq h]
  omega

end PoolParameters

namespace Encodes

variable {κ : Type*} {pool : PoolParameters} {leaky : Prop} {words : List Word} {F : Family κ}

/-- An untaken slot of a word belongs to the pool and to nobody. -/
theorem lt_size_of_free (h : Encodes pool leaky words F) {i : Nat} (hi : i < 64 * pool.wordCount)
    (hfree : slotBit words i = false) : i < pool.size := by
  by_contra hge
  rw [h.beyond (by omega) hi] at hfree
  cases hfree

theorem not_covers_of_free (h : Encodes pool leaky words F) {i : Nat}
    (hfree : slotBit words i = false) : ¬ F.Covers i := by
  intro hc
  rw [h.covered hc] at hfree
  cases hfree

/-- A start is taken, so that a free slot is no start. -/
theorem startBit_of_free (h : Encodes pool leaky words F) {i : Nat}
    (hfree : slotBit words i = false) : startBit words i = false := by
  by_contra hs
  rcases (h.starts i).mp (by simpa using hs) with hs | ⟨rfl, hlt⟩
  · exact h.not_covers_of_free hfree (h.separated.covers_of_startsAt hs)
  · rw [h.beyond le_rfl hlt] at hfree
    cases hfree

/-- Inside a block the only start is that of the block. -/
theorem startBit_iff_of_mem (h : Encodes pool leaky words F) {k : κ} {b : Span} {i : Nat}
    (hb : F k = some b) (hi : i ∈ b) : startBit words i = true ↔ i = b.start := by
  have hsize := h.inside hb
  rw [h.starts, Family.startsAt_iff F k]
  constructor
  · rintro ((⟨c, hc, rfl⟩ | helse) | ⟨rfl, -⟩)
    · rw [hb] at hc
      cases hc
      rfl
    · exact absurd (h.separated.coversElse_of_startsElse helse)
        (h.separated.not_coversElse hb hi)
    · exact absurd hi.2 (by omega)
  · rintro rfl
    exact Or.inl (Or.inl ⟨b, hb, rfl⟩)

/-- A taken slot right behind a block that is no start is a leaked one. -/
theorem leaked_behind (h : Encodes pool leaky words F) {k : κ} {b : Span}
    (hb : F k = some b) (hslot : slotBit words b.stop = true)
    (hstart : startBit words b.stop = false) :
    ¬ F.Covers b.stop ∧ b.stop < pool.size ∧ leaky ∧ b.stop % 64 = 63 := by
  have hpos := h.separated.pos hb
  have hinside := h.inside hb
  have hlt := lt_length_of_slotBit hslot
  rw [h.length] at hlt
  have hcov : ¬ F.Covers b.stop := by
    rintro ⟨k', c, hc, hi⟩
    have hmem : b.stop - 1 ∈ b := by
      simp only [Span.mem_iff, Span.stop] at *
      omega
    have hne : b.stop ≠ c.start := by
      intro heq
      have := (h.starts b.stop).mpr (Or.inl ⟨k', c, hc, heq.symm⟩)
      rw [hstart] at this
      cases this
    by_cases hk : k' = k
    · subst hk
      rw [hb] at hc
      cases hc
      exact absurd hi.2 (lt_irrefl _)
    · refine h.separated.not_coversElse hb hmem ⟨k', c, hk, hc, ?_⟩
      simp only [Span.mem_iff, Span.stop] at *
      omega
  have hsize : b.stop ≠ pool.size := by
    intro heq
    have := (h.starts b.stop).mpr (Or.inr ⟨heq, hlt⟩)
    rw [hstart] at this
    cases this
  refine ⟨hcov, by omega, ?_⟩
  rcases h.slots hslot with hc | hge | hleak
  · exact absurd hc hcov
  · omega
  · exact hleak

/-- Without leaks the taken slots are exactly the covered ones and those beyond the pool. -/
theorem slots_iff (h : Encodes pool leaky words F) (hleaky : ¬ leaky) (i : Nat) :
    slotBit words i = true ↔
      F.Covers i ∨ (pool.size ≤ i ∧ i < 64 * pool.wordCount) := by
  constructor
  · intro hi
    have hlt := lt_length_of_slotBit hi
    rw [h.length] at hlt
    rcases h.slots hi with hc | hge | hleak
    · exact Or.inl hc
    · exact Or.inr ⟨hge, hlt⟩
    · exact absurd hleak.1 hleaky
  · rintro (hc | hge)
    · exact h.covered hc
    · exact h.beyond hge.1 hge.2

/-- Without leaks a family has only one encoding. -/
theorem words_eq {words' : List Word} (h : Encodes pool leaky words F)
    (h' : Encodes pool leaky words' F) (hleaky : ¬ leaky) : words' = words := by
  apply words_ext
  · rw [h.length, h'.length]
  · intro i
    rw [Bool.eq_iff_iff, h.slots_iff hleaky, h'.slots_iff hleaky]
  · intro i
    rw [Bool.eq_iff_iff, h.starts, h'.starts]

variable [DecidableEq κ]

/-- The family stays inside the pool if the new block of an owner is. -/
theorem inside_update (h : Encodes pool leaky words F) {key k : κ} {o : Option Span} {b : Span}
    (ho : ∀ c, o = some c → c.stop ≤ pool.size) (hb : Function.update F key o k = some b) :
    b.stop ≤ pool.size := by
  by_cases hk : k = key
  · rw [hk, Function.update_self] at hb
    exact ho b hb
  · rw [Function.update_of_ne hk] at hb
    exact h.inside hb

/-- What stays of a block whose end from `x` on is given back. -/
theorem front_eq_some_iff {b c : Span} {x : Nat} (hx : b.start ≤ x) :
    (if x = b.start then none else some (⟨b.start, x - b.start⟩ : Span)) = some c ↔
      b.start < x ∧ c = ⟨b.start, x - b.start⟩ := by
  by_cases hxb : x = b.start
  · rw [if_pos hxb]
    exact iff_of_false (Option.some_ne_none c).symm fun h => absurd hxb (Nat.ne_of_gt h.1)
  · rw [if_neg hxb, Option.some_inj, and_iff_right (Nat.lt_of_le_of_ne hx (Ne.symm hxb)), eq_comm]

/-- An owner without a span takes free slots as a block, or appends them to its block. -/
theorem grow (h : Encodes pool leaky words F) {key : κ} {words' : List Word} {s x y : Nat}
    {fresh : Bool} (hxy : x < y) (hy : y ≤ 64 * pool.wordCount)
    (hold : (F key = none ∧ fresh = true ∧ s = x) ∨
      (fresh = false ∧ s < x ∧ F key = some ⟨s, x - s⟩))
    (hfree : ∀ i, x ≤ i → i < y → slotBit words i = false)
    (hgrown : Grown words words' fresh x y) :
    Encodes pool leaky words' (Function.update F key (some ⟨s, y - s⟩)) := by
  have hsx : s ≤ x := by
    rcases hold with ⟨-, -, rfl⟩ | ⟨-, hlt, -⟩
    · exact le_rfl
    · omega
  have hmem : ∀ i, i ∈ (⟨s, y - s⟩ : Span) ↔ (s ≤ i ∧ i < x) ∨ (x ≤ i ∧ i < y) := by
    intro i
    simp only [Span.mem_iff]
    omega
  have hown : ∀ i, (∃ b, F key = some b ∧ i ∈ b) ↔ (s ≤ i ∧ i < x) := by
    intro i
    rcases hold with ⟨hn, -, rfl⟩ | ⟨-, hlt, hs⟩
    · simp only [hn, reduceCtorEq, false_and, exists_false, false_iff]
      omega
    · simp only [hs, Option.some.injEq, exists_eq_left', Span.mem_iff]
      omega
  have hcov : ∀ i, Family.Covers (Function.update F key (some ⟨s, y - s⟩)) i ↔
      F.Covers i ∨ (x ≤ i ∧ i < y) := by
    intro i
    rw [Family.covers_update, Family.covers_iff F key, hown]
    simp only [Option.some.injEq, exists_eq_left', hmem]
    exact or_right_comm
  have hysize : y ≤ pool.size := by
    have := h.lt_size_of_free (i := y - 1) (by omega) (hfree _ (by omega) (by omega))
    omega
  constructor
  case fits => exact h.fits
  case length => rw [hgrown.length, h.length]
  case separated =>
    refine h.separated.update key _ fun b hb => ?_
    cases hb
    refine ⟨by simp only; omega, fun i hi helse => ?_⟩
    rcases (hmem i).mp hi with hi | hi
    · obtain ⟨b, hb, hib⟩ := (hown i).mpr hi
      exact h.separated.not_coversElse hb hib helse
    · exact h.not_covers_of_free (hfree i hi.1 hi.2)
        ((Family.covers_iff F key i).mpr (Or.inr helse))
  case inside =>
    refine h.inside_update fun c hc => ?_
    cases hc
    simp only [Span.stop]
    omega
  case covered =>
    intro i hi
    rw [hgrown.slots]
    exact ((hcov i).mp hi).imp_left h.covered
  case beyond =>
    intro i hi hlt
    exact (hgrown.slots i).mpr (Or.inl (h.beyond hi hlt))
  case slots =>
    intro i hi
    rw [hcov]
    rcases (hgrown.slots i).mp hi with hi | hi
    · rcases h.slots hi with hc | hc
      · exact Or.inl (Or.inl hc)
      · exact Or.inr hc
    · exact Or.inl (Or.inr hi)
  case starts =>
    intro i
    rw [hgrown.starts, h.starts, Family.startsAt_update, Family.startsAt_iff F key]
    rcases hold with ⟨hn, hf, rfl⟩ | ⟨hf, hlt, hs⟩
    · simp only [hn, hf, Option.some.injEq, exists_eq_left', reduceCtorEq, false_and,
        exists_false, false_or, true_and, eq_comm (a := s)]
      rw [or_right_comm, or_comm (b := i = s)]
    · simp only [hs, hf, Option.some.injEq, exists_eq_left', Bool.false_eq_true, false_and,
        or_false]

/-- An owner gives the end of its block back, or the whole block. A top slot of
a word may stay taken when leaks are allowed. -/
theorem shrink (h : Encodes pool leaky words F) {key : κ} {words' : List Word} {b : Span}
    {x : Nat} (hold : F key = some b) (hx : b.start ≤ x) (hxs : x ≤ b.stop)
    (hlen : words'.length = words.length)
    (hkept : ∀ i, slotBit words i = true → i < x ∨ b.stop ≤ i → slotBit words' i = true)
    (hgone : ∀ i, slotBit words' i = true →
      slotBit words i = true ∧ (i < x ∨ b.stop ≤ i ∨ (leaky ∧ i % 64 = 63)))
    (hstarts : ∀ i, startBit words' i = true ↔
      startBit words i = true ∧ (i < x ∨ b.stop ≤ i)) :
    Encodes pool leaky words'
      (Function.update F key (if x = b.start then none else some ⟨b.start, x - b.start⟩)) := by
  have hinside := h.inside hold
  have hown : ∀ i, (∃ c, (if x = b.start then none else some (⟨b.start, x - b.start⟩ : Span)) =
      some c ∧ i ∈ c) ↔ b.start ≤ i ∧ i < x := by
    intro i
    simp only [front_eq_some_iff hx, and_assoc, exists_and_left, exists_eq_left, Span.mem_iff]
    omega
  have hcov : ∀ i, Family.Covers (Function.update F key
      (if x = b.start then none else some ⟨b.start, x - b.start⟩)) i ↔
      (b.start ≤ i ∧ i < x) ∨ F.CoversElse key i := by
    intro i
    rw [Family.covers_update, hown]
  have hout : ∀ i, F.CoversElse key i → i < b.start ∨ b.stop ≤ i := by
    intro i hi
    by_contra hcon
    exact h.separated.not_coversElse hold (i := i) ⟨by omega, by omega⟩ hi
  constructor
  case fits => exact h.fits
  case length => rw [hlen, h.length]
  case separated =>
    refine h.separated.update key _ fun c hc => ?_
    obtain ⟨hlt, rfl⟩ := (front_eq_some_iff hx).mp hc
    refine ⟨Nat.sub_pos_of_lt hlt, fun i hi => h.separated.not_coversElse hold ?_⟩
    simp only [Span.mem_iff] at *
    exact ⟨hi.1, by simp only [Span.stop] at *; omega⟩
  case inside =>
    refine h.inside_update fun c hc => ?_
    obtain ⟨hlt, rfl⟩ := (front_eq_some_iff hx).mp hc
    simp only [Span.stop] at *
    omega
  case covered =>
    intro i hi
    rcases (hcov i).mp hi with hi | hi
    · exact hkept i (h.covered ⟨key, b, hold, hi.1, by omega⟩) (Or.inl hi.2)
    · refine hkept i (h.covered ((Family.covers_iff F key i).mpr (Or.inr hi))) ?_
      rcases hout i hi with hlt | hge
      · exact Or.inl (by omega)
      · exact Or.inr hge
  case beyond =>
    intro i hi hlt
    exact hkept i (h.beyond hi hlt) (Or.inr (by omega))
  case slots =>
    intro i hi
    obtain ⟨hs, hpos⟩ := hgone i hi
    rw [hcov]
    rcases h.slots hs with hc | hc | hc
    · rcases (Family.covers_iff F key i).mp hc with ⟨c, hc, hic⟩ | helse
      · rw [hold] at hc
        cases hc
        rcases hpos with hlt | hge | hleak
        · exact Or.inl (Or.inl ⟨hic.1, hlt⟩)
        · exact absurd hic.2 (by omega)
        · exact Or.inr (Or.inr hleak)
      · exact Or.inl (Or.inr helse)
    · exact Or.inr (Or.inl hc)
    · exact Or.inr (Or.inr hc)
  case starts =>
    intro i
    rw [hstarts, h.starts, Family.startsAt_update, Family.startsAt_iff F key]
    have hpos := h.separated.pos hold
    have hself : (∃ c, (if x = b.start then none else some (⟨b.start, x - b.start⟩ : Span)) =
        some c ∧ c.start = i) ↔ b.start = i ∧ b.start < x := by
      simp only [front_eq_some_iff hx, and_assoc, exists_and_left, exists_eq_left]
      exact and_comm
    rw [hself]
    simp only [hold, Option.some.injEq, exists_eq_left']
    have helse : F.StartsElse key i → i < b.start ∨ b.stop ≤ i := fun hi =>
      hout i (h.separated.coversElse_of_startsElse hi)
    constructor
    · rintro ⟨(rfl | hs) | hs, hpos'⟩
      · refine Or.inl (Or.inl ⟨rfl, ?_⟩)
        simp only [Span.stop] at hpos'
        omega
      · exact Or.inl (Or.inr hs)
      · exact Or.inr hs
    · rintro ((⟨rfl, hlt⟩ | hs) | hs)
      · exact ⟨Or.inl (Or.inl rfl), Or.inl hlt⟩
      · exact ⟨Or.inl (Or.inr hs), by have := helse hs; omega⟩
      · exact ⟨Or.inr hs, by omega⟩

/-- An owner may count a leaked slot right behind its block as part of the block. -/
theorem absorb (h : Encodes pool leaky words F) {key : κ} {b : Span} (hold : F key = some b)
    (hslot : slotBit words b.stop = true) (hstart : startBit words b.stop = false) :
    Encodes pool leaky words (Function.update F key (some ⟨b.start, b.count + 1⟩)) := by
  obtain ⟨hcov, hsize, -, -⟩ := h.leaked_behind hold hslot hstart
  have hmem : ∀ i, i ∈ (⟨b.start, b.count + 1⟩ : Span) ↔ i ∈ b ∨ i = b.stop := by
    intro i
    simp only [Span.mem_iff, Span.stop]
    omega
  have hiff : ∀ i, Family.Covers (Function.update F key (some ⟨b.start, b.count + 1⟩)) i ↔
      F.Covers i ∨ i = b.stop := by
    intro i
    rw [Family.covers_update, Family.covers_iff F key]
    simp only [Option.some.injEq, exists_eq_left', hmem, hold]
    exact or_right_comm
  constructor
  case fits => exact h.fits
  case length => exact h.length
  case separated =>
    refine h.separated.update key _ fun c hc => ?_
    cases hc
    refine ⟨Nat.succ_pos _, fun i hi helse => ?_⟩
    rcases (hmem i).mp hi with hi | rfl
    · exact h.separated.not_coversElse hold hi helse
    · exact hcov ((Family.covers_iff F key _).mpr (Or.inr helse))
  case inside =>
    refine h.inside_update fun c hc => ?_
    cases hc
    simp only [Span.stop] at *
    omega
  case covered =>
    intro i hi
    rcases (hiff i).mp hi with hi | rfl
    · exact h.covered hi
    · exact hslot
  case beyond => exact h.beyond
  case slots =>
    intro i hi
    rw [hiff]
    rcases h.slots hi with hc | hc
    · exact Or.inl (Or.inl hc)
    · exact Or.inr hc
  case starts =>
    intro i
    rw [h.starts, Family.startsAt_update, Family.startsAt_iff F key]
    simp only [hold, Option.some.injEq, exists_eq_left']

/-- Handing a block over to an owner without one changes no word. -/
theorem handOver (h : Encodes pool leaky words F) {k k' : κ} (hk : k ≠ k')
    (hnone : F k' = none) : Encodes pool leaky words (F.handOver k k') := by
  constructor
  case fits => exact h.fits
  case length => exact h.length
  case separated => exact h.separated.handOver hk hnone
  case inside =>
    intro j b hb
    rcases (Family.handOver_eq_some hk hnone).mp hb with ⟨-, hb⟩ | ⟨-, -, hb⟩
    · exact h.inside hb
    · exact h.inside hb
  case covered =>
    intro i hi
    exact h.covered ((Family.covers_handOver hk hnone i).mp hi)
  case beyond => exact h.beyond
  case slots =>
    intro i hi
    rw [Family.covers_handOver hk hnone]
    exact h.slots hi
  case starts =>
    intro i
    rw [Family.startsAt_handOver hk hnone]
    exact h.starts i

end Encodes

end RPiKernel.Containers
