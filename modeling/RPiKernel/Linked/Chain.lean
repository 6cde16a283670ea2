import Mathlib.Data.Fintype.Card
import Mathlib.Data.List.Infix

/-!
# Linked lists in memory

A list is laid out by a place for each of its entries and by what stands there as the place of the
next one. The places from one on are determined by it, so that none of them occurs twice and a
list in a finite memory is bounded.
-/

namespace RPiKernel.Linked

variable {α : Type*}

/-- The places of the list that starts at a place, where `nil` stands behind the last one. -/
inductive Chain (next : α → α) (nil : α) : α → List α → Prop where
  | done : Chain next nil nil []
  | link {a : α} {rest : List α} (ha : a ≠ nil) (hrest : Chain next nil (next a) rest) :
      Chain next nil a (a :: rest)

namespace Chain

variable {next : α → α} {nil a b : α} {l l' rest : List α}

theorem of_nil (h : Chain next nil nil l) : l = [] := by
  cases h with
  | done => rfl
  | link ha => exact absurd rfl ha

/-- What a list looks like that is not at its end. -/
theorem cons_iff (ha : a ≠ nil) :
    Chain next nil a l ↔ ∃ rest, l = a :: rest ∧ Chain next nil (next a) rest := by
  constructor
  · intro h
    cases h with
    | done => exact absurd rfl ha
    | link _ hrest => exact ⟨_, rfl, hrest⟩
  · rintro ⟨rest, rfl, hrest⟩
    exact link ha hrest

theorem nil_iff (h : Chain next nil a l) : l = [] ↔ a = nil := by
  cases h with
  | done => exact iff_of_true rfl rfl
  | link ha => exact iff_of_false (List.cons_ne_nil _ _) ha

/-- The places are determined by the first one. -/
theorem unique (h : Chain next nil a l) (h' : Chain next nil a l') : l = l' := by
  induction h generalizing l' with
  | done => exact h'.of_nil.symm
  | link ha _ ih =>
    obtain ⟨rest', rfl, hrest'⟩ := (cons_iff ha).mp h'
    rw [ih hrest']

theorem nil_not_mem (h : Chain next nil a l) : nil ∉ l := by
  induction h with
  | done => exact List.not_mem_nil
  | link ha _ ih =>
    rw [List.mem_cons, not_or]
    exact ⟨ha.symm, ih⟩

/-- From any place of a list on there is what is left of it. -/
theorem suffix (h : Chain next nil a l) (hb : b ∈ l) : ∃ l', Chain next nil b l' ∧ l' <:+ l := by
  induction h with
  | done => exact absurd hb List.not_mem_nil
  | @link a rest ha hrest ih =>
    obtain rfl | hb := List.mem_cons.mp hb
    · exact ⟨_, link ha hrest, List.suffix_refl _⟩
    · obtain ⟨l', hl', hsuffix⟩ := ih hb
      exact ⟨l', hl', hsuffix.trans (List.suffix_cons a rest)⟩

theorem nodup (h : Chain next nil a l) : l.Nodup := by
  induction h with
  | done => exact List.nodup_nil
  | @link a rest ha hrest ih =>
    refine List.nodup_cons.mpr ⟨fun hmem => ?_, ih⟩
    -- A second occurrence would start the same list again, and the list is finite.
    obtain ⟨l', hl', hsuffix⟩ := hrest.suffix hmem
    have hlength := hsuffix.length_le
    rw [hl'.unique (link ha hrest), List.length_cons] at hlength
    exact absurd hlength (Nat.not_succ_le_self _)

/-- No entry of a list has itself behind it. -/
theorem next_ne (h : Chain next nil a l) (ha : a ≠ nil) : next a ≠ a := by
  intro hself
  obtain ⟨rest, rfl, hrest⟩ := (cons_iff ha).mp h
  rw [hself] at hrest
  exact absurd (hrest.unique h) (List.cons_ne_self a rest).symm

/-- One place is the end, so that a list has fewer entries than there are places. -/
theorem length_lt [Fintype α] (h : Chain next nil a l) : l.length < Fintype.card α :=
  (List.nodup_cons.mpr ⟨h.nil_not_mem, h.nodup⟩).length_le_card

end Chain

end RPiKernel.Linked
