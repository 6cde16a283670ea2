import Mathlib.Logic.Function.Basic
import Mathlib.Algebra.Order.Group.Nat
import Mathlib.Data.List.Pairwise

/-!
# Families of separated spans

A span is a half-open interval of natural numbers. A family gives every owner
at most one span; it is separated when the spans are nonempty and those of
different owners share no point. The lemmas say how coverage and starting
points change when one owner's span is replaced or handed to another owner.
-/

namespace RPiKernel.Intervals

/-- The interval of `count` numbers from `start` on. -/
structure Span where
  start : Nat
  count : Nat
  deriving DecidableEq, Repr

namespace Span

/-- The first number behind the span. -/
def stop (b : Span) : Nat := b.start + b.count

instance : Membership Nat Span where
  mem b i := b.start ≤ i ∧ i < b.stop

theorem mem_iff {i : Nat} {b : Span} : i ∈ b ↔ b.start ≤ i ∧ i < b.start + b.count := Iff.rfl

/-- Two spans without a common point. -/
def Apart (b c : Span) : Prop := b.stop ≤ c.start ∨ c.stop ≤ b.start

/-- Nonempty spans are apart exactly when they share no point. -/
theorem apart_iff {b c : Span} (hb : 0 < b.count) (hc : 0 < c.count) :
    b.Apart c ↔ ∀ i, i ∈ b → i ∉ c := by
  simp only [Apart, stop, mem_iff]
  constructor
  · intro h i hi hc
    omega
  · intro h
    rcases Nat.le_total b.start c.start with hle | hle
    · by_contra hmeet
      exact h c.start ⟨hle, by omega⟩ ⟨le_rfl, by omega⟩
    · by_contra hmeet
      exact h b.start ⟨le_rfl, by omega⟩ ⟨hle, by omega⟩

/-- The span as it is counted from `k` on. -/
def countedFrom (c : Span) (k : Nat) : Span := ⟨c.start - k, c.count⟩

theorem countedFrom_add (k r n : Nat) : countedFrom ⟨k + r, n⟩ k = ⟨r, n⟩ := by
  rw [countedFrom, Nat.add_sub_cancel_left]

@[simp] theorem countedFrom_stop (c : Span) (k : Nat) :
    (c.countedFrom k).stop = c.start - k + c.count := rfl

theorem mem_countedFrom {c : Span} {k i : Nat} (hstart : k ≤ c.start) (hi : i ∈ c) :
    i - k ∈ c.countedFrom k := by
  rw [mem_iff] at hi
  simp only [mem_iff, countedFrom]
  exact ⟨Nat.sub_le_sub_right hi.1 k, by omega⟩

end Span

/-- At most one span for every owner. -/
abbrev Family (κ : Type*) := κ → Option Span

namespace Family

variable {κ : Type*}

/-- The point lies in the span of some owner. -/
def Covers (F : Family κ) (i : Nat) : Prop := ∃ k b, F k = some b ∧ i ∈ b

/-- The span of some owner starts at the point. -/
def StartsAt (F : Family κ) (i : Nat) : Prop := ∃ k b, F k = some b ∧ b.start = i

/-- The point lies in the span of an owner other than `k`. -/
def CoversElse (F : Family κ) (k : κ) (i : Nat) : Prop :=
  ∃ k' b, k' ≠ k ∧ F k' = some b ∧ i ∈ b

/-- The span of an owner other than `k` starts at the point. -/
def StartsElse (F : Family κ) (k : κ) (i : Nat) : Prop :=
  ∃ k' b, k' ≠ k ∧ F k' = some b ∧ b.start = i

/-- Spans are nonempty, and different owners have spans without a common point. -/
structure Separated (F : Family κ) : Prop where
  pos : ∀ {k b}, F k = some b → 0 < b.count
  disjoint : ∀ {k k' b b'}, F k = some b → F k' = some b' → k ≠ k' → ∀ i, i ∈ b → i ∉ b'

/-- A span of some owner is the one of `k`, or that of another owner. -/
theorem exists_span_iff (F : Family κ) (k : κ) (P : Span → Prop) :
    (∃ k' b, F k' = some b ∧ P b) ↔
      (∃ b, F k = some b ∧ P b) ∨ ∃ k' b, k' ≠ k ∧ F k' = some b ∧ P b := by
  constructor
  · rintro ⟨k', b, hb, hP⟩
    by_cases hk : k' = k
    · subst hk
      exact Or.inl ⟨b, hb, hP⟩
    · exact Or.inr ⟨k', b, hk, hb, hP⟩
  · rintro (⟨b, hb, hP⟩ | ⟨k', b, -, hb, hP⟩)
    · exact ⟨k, b, hb, hP⟩
    · exact ⟨k', b, hb, hP⟩

theorem covers_iff (F : Family κ) (k : κ) (i : Nat) :
    F.Covers i ↔ (∃ b, F k = some b ∧ i ∈ b) ∨ F.CoversElse k i :=
  F.exists_span_iff k fun b => i ∈ b

theorem startsAt_iff (F : Family κ) (k : κ) (i : Nat) :
    F.StartsAt i ↔ (∃ b, F k = some b ∧ b.start = i) ∨ F.StartsElse k i :=
  F.exists_span_iff k fun b => b.start = i

/-- A starting point is covered, since spans are nonempty. -/
theorem Separated.covers_of_startsAt {F : Family κ} (h : F.Separated) {i : Nat}
    (hi : F.StartsAt i) : F.Covers i := by
  obtain ⟨k, b, hb, rfl⟩ := hi
  exact ⟨k, b, hb, le_rfl, Nat.lt_add_of_pos_right (h.pos hb)⟩

theorem Separated.start_mem {F : Family κ} (h : F.Separated) {k : κ} {b : Span}
    (hb : F k = some b) : b.start ∈ b :=
  ⟨le_rfl, Nat.lt_add_of_pos_right (h.pos hb)⟩

theorem Separated.coversElse_of_startsElse {F : Family κ} (h : F.Separated) {k : κ} {i : Nat}
    (hi : F.StartsElse k i) : F.CoversElse k i := by
  obtain ⟨k', b, hk, hb, rfl⟩ := hi
  exact ⟨k', b, hk, hb, le_rfl, Nat.lt_add_of_pos_right (h.pos hb)⟩

/-- What one owner covers is covered by no other. -/
theorem Separated.not_coversElse {F : Family κ} (h : F.Separated) {k : κ} {b : Span} {i : Nat}
    (hb : F k = some b) (hi : i ∈ b) : ¬ F.CoversElse k i := by
  rintro ⟨k', b', hk, hb', hi'⟩
  exact h.disjoint hb hb' (Ne.symm hk) i hi hi'

variable [DecidableEq κ]

/-- The spans of the other owners are not replaced. -/
theorem exists_other_update (F : Family κ) (k : κ) (o : Option Span) (P : Span → Prop) :
    (∃ k' b, k' ≠ k ∧ Function.update F k o k' = some b ∧ P b) ↔
      ∃ k' b, k' ≠ k ∧ F k' = some b ∧ P b := by
  constructor
  · rintro ⟨k', b, hk, hb, hP⟩
    rw [Function.update_of_ne hk] at hb
    exact ⟨k', b, hk, hb, hP⟩
  · rintro ⟨k', b, hk, hb, hP⟩
    refine ⟨k', b, hk, ?_, hP⟩
    rw [Function.update_of_ne hk]
    exact hb

@[simp] theorem coversElse_update (F : Family κ) (k : κ) (o : Option Span) (i : Nat) :
    CoversElse (Function.update F k o) k i ↔ F.CoversElse k i :=
  F.exists_other_update k o fun b => i ∈ b

@[simp] theorem startsElse_update (F : Family κ) (k : κ) (o : Option Span) (i : Nat) :
    StartsElse (Function.update F k o) k i ↔ F.StartsElse k i :=
  F.exists_other_update k o fun b => b.start = i

theorem covers_update (F : Family κ) (k : κ) (o : Option Span) (i : Nat) :
    Covers (Function.update F k o) i ↔ (∃ b, o = some b ∧ i ∈ b) ∨ F.CoversElse k i := by
  rw [covers_iff _ k, Function.update_self, coversElse_update]

theorem startsAt_update (F : Family κ) (k : κ) (o : Option Span) (i : Nat) :
    StartsAt (Function.update F k o) i ↔
      (∃ b, o = some b ∧ b.start = i) ∨ F.StartsElse k i := by
  rw [startsAt_iff _ k, Function.update_self, startsElse_update]

/-- Replacing a span keeps the family separated when the new one is nonempty
and meets no span of another owner. -/
theorem Separated.update {F : Family κ} (h : F.Separated) (k : κ) (o : Option Span)
    (ho : ∀ b, o = some b → 0 < b.count ∧ ∀ i, i ∈ b → ¬ F.CoversElse k i) :
    Separated (Function.update F k o) := by
  have hne : ∀ {k' b'}, k' ≠ k → Function.update F k o k' = some b' → F k' = some b' := by
    intro k' b' hk hb
    rwa [Function.update_of_ne hk] at hb
  constructor
  · intro k' b hb
    by_cases hk : k' = k
    · subst hk
      rw [Function.update_self] at hb
      exact (ho b hb).1
    · exact h.pos (hne hk hb)
  · intro k₁ k₂ b₁ b₂ hb₁ hb₂ hk i hi₁ hi₂
    by_cases hk₁ : k₁ = k
    · subst hk₁
      rw [Function.update_self] at hb₁
      exact (ho b₁ hb₁).2 i hi₁ ⟨k₂, b₂, Ne.symm hk, hne (Ne.symm hk) hb₂, hi₂⟩
    · by_cases hk₂ : k₂ = k
      · subst hk₂
        rw [Function.update_self] at hb₂
        exact (ho b₂ hb₂).2 i hi₂ ⟨k₁, b₁, hk, hne hk hb₁, hi₁⟩
      · exact h.disjoint (hne hk₁ hb₁) (hne hk₂ hb₂) hk i hi₁ hi₂

/-- The family after owner `k` handed its span to owner `k'`. -/
def handOver (F : Family κ) (k k' : κ) : Family κ :=
  Function.update (Function.update F k none) k' (F k)

section HandOver

variable {F : Family κ} {k k' : κ}

theorem handOver_eq_some (hk : k ≠ k') (hnone : F k' = none) {j : κ} {b : Span} :
    F.handOver k k' j = some b ↔
      (j = k' ∧ F k = some b) ∨ (j ≠ k' ∧ j ≠ k ∧ F j = some b) := by
  unfold handOver
  by_cases hj' : j = k'
  · subst hj'
    simp
  · by_cases hj : j = k
    · subst hj
      simp [hk]
    · simp [hj, hj']

/-- Handing a span over changes neither the spans nor their separation. -/
theorem exists_handOver (hk : k ≠ k') (hnone : F k' = none) (p : Span → Prop) :
    (∃ j b, F.handOver k k' j = some b ∧ p b) ↔ ∃ j b, F j = some b ∧ p b := by
  constructor
  · rintro ⟨j, b, hb, hp⟩
    rcases (handOver_eq_some hk hnone).mp hb with ⟨-, hb⟩ | ⟨-, -, hb⟩
    · exact ⟨k, b, hb, hp⟩
    · exact ⟨j, b, hb, hp⟩
  · rintro ⟨j, b, hb, hp⟩
    by_cases hj : j = k
    · subst hj
      exact ⟨k', b, (handOver_eq_some hk hnone).mpr (Or.inl ⟨rfl, hb⟩), hp⟩
    · refine ⟨j, b, (handOver_eq_some hk hnone).mpr (Or.inr ⟨?_, hj, hb⟩), hp⟩
      rintro rfl
      rw [hnone] at hb
      cases hb

theorem covers_handOver (hk : k ≠ k') (hnone : F k' = none) (i : Nat) :
    Covers (F.handOver k k') i ↔ F.Covers i := exists_handOver hk hnone fun b => i ∈ b

theorem startsAt_handOver (hk : k ≠ k') (hnone : F k' = none) (i : Nat) :
    StartsAt (F.handOver k k') i ↔ F.StartsAt i :=
  exists_handOver hk hnone fun b => b.start = i

theorem Separated.handOver (h : F.Separated) (hk : k ≠ k') (hnone : F k' = none) :
    Separated (F.handOver k k') := by
  constructor
  · intro j b hb
    rcases (handOver_eq_some hk hnone).mp hb with ⟨-, hb⟩ | ⟨-, -, hb⟩
    · exact h.pos hb
    · exact h.pos hb
  · intro j₁ j₂ b₁ b₂ hb₁ hb₂ hne
    rcases (handOver_eq_some hk hnone).mp hb₁ with ⟨rfl, h₁⟩ | ⟨-, hj₁, h₁⟩
    · rcases (handOver_eq_some hk hnone).mp hb₂ with ⟨hj₂, -⟩ | ⟨-, hj₂, h₂⟩
      · exact absurd hj₂.symm hne
      · exact h.disjoint h₁ h₂ (Ne.symm hj₂)
    · rcases (handOver_eq_some hk hnone).mp hb₂ with ⟨-, h₂⟩ | ⟨-, -, h₂⟩
      · exact h.disjoint h₁ h₂ hj₁
      · exact h.disjoint h₁ h₂ hne

end HandOver

/-- The family in which every span of a list owns itself. -/
def ofList (l : List Span) : Family Span := fun b => if b ∈ l then some b else none

@[simp] theorem ofList_eq_some {l : List Span} {b c : Span} :
    ofList l b = some c ↔ b ∈ l ∧ b = c := by
  unfold ofList
  split
  · next h => simp [h]
  · next h => simp [h]

/-- Adding a span to a list gives it to itself. -/
theorem ofList_cons (b : Span) (l : List Span) :
    ofList (b :: l) = Function.update (ofList l) b (some b) := by
  ext c d
  by_cases hc : c = b
  · subst hc
    simp
  · simp [hc]

/-- Removing a span from a list takes it from itself. -/
theorem ofList_erase {b : Span} {l : List Span} (hl : l.Nodup) :
    ofList (l.erase b) = Function.update (ofList l) b none := by
  ext c d
  by_cases hc : c = b
  · subst hc
    simp [hl.mem_erase_iff]
  · simp [hc, hl.mem_erase_iff]

/-- A duplicate-free list with a separated family is pairwise apart. -/
theorem Separated.pairwise_apart {l : List Span} (h : Separated (ofList l)) (hl : l.Nodup) :
    l.Pairwise Span.Apart := by
  refine List.Pairwise.imp_of_mem ?_ hl
  intro b c hb hc hne
  have hb' : ofList l b = some b := ofList_eq_some.mpr ⟨hb, rfl⟩
  have hc' : ofList l c = some c := ofList_eq_some.mpr ⟨hc, rfl⟩
  exact (Span.apart_iff (h.pos hb') (h.pos hc')).mpr (h.disjoint hb' hc' hne)

end Family

end RPiKernel.Intervals
