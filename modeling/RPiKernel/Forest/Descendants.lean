import Mathlib.Data.Finset.Card
import Mathlib.Logic.Relation

/-!
# Forests

A forest is a relation from parents to children in which every child has one parent
and lies deeper than it. What is below a node is the reflexive transitive closure of
the relation. A closed set contains the children of its members, and cutting it off
leaves a forest in which everything else is below what it was below.
-/

namespace RPiKernel.Forest

open Relation

variable {α : Type*}

/-- Every child has one parent and lies deeper than it. -/
structure IsForest (r : α → α → Prop) : Prop where
  parent_unique : ∀ a b c, r a c → r b c → a = b
  deeper : ∃ depth : α → Nat, ∀ a b, r a b → depth a < depth b

/-- A set that contains the children of its members. -/
def Closed (r : α → α → Prop) (S : α → Prop) : Prop := ∀ a b, r a b → S a → S b

/-- The relation without the children in a set. -/
def cut (r : α → α → Prop) (S : α → Prop) (a b : α) : Prop := r a b ∧ ¬ S b

variable {r : α → α → Prop} {S : α → Prop} {a b c x : α}

theorem closed_below (a : α) : Closed r (ReflTransGen r a) := fun _ _ hr ha => ha.tail hr

theorem Closed.below (hS : Closed r S) (ha : S a) (h : ReflTransGen r a x) : S x := by
  induction h with
  | refl => exact ha
  | tail _ hr ih => exact hS _ _ hr ih

/-- What is left below a node after a cut. -/
theorem below_cut_iff (hS : Closed r S) (ha : ¬ S a) :
    ReflTransGen (cut r S) a x ↔ ReflTransGen r a x ∧ ¬ S x := by
  constructor
  · intro h
    induction h with
    | refl => exact ⟨ReflTransGen.refl, ha⟩
    | tail _ hr ih => exact ⟨ih.1.tail hr.1, hr.2⟩
  · rintro ⟨h, hx⟩
    induction h with
    | refl => exact ReflTransGen.refl
    | tail _ hr ih => exact (ih fun hb => hx (hS _ _ hr hb)).tail ⟨hr, hx⟩

namespace IsForest

theorem depth_le {depth : α → Nat} (hdepth : ∀ a b, r a b → depth a < depth b)
    (h : ReflTransGen r a x) : depth a ≤ depth x := by
  induction h with
  | refl => exact Nat.le_refl _
  | tail _ hr ih => exact Nat.le_trans ih (Nat.le_of_lt (hdepth _ _ hr))

/-- A parent is not below its child. -/
theorem not_below_of_child (h : IsForest r) (hr : r a b) : ¬ ReflTransGen r b a := by
  obtain ⟨depth, hdepth⟩ := h.deeper
  intro hbelow
  exact absurd (depth_le hdepth hbelow) (Nat.not_le.mpr (hdepth a b hr))

/-- What is below two different children of a node differs. -/
theorem disjoint_children (h : IsForest r) (hb : r a b) (hc : r a c) (hne : b ≠ c)
    (hbx : ReflTransGen r b x) : ¬ ReflTransGen r c x := by
  intro hcx
  have hright : Relator.RightUnique (Function.swap r) := fun y p q hp hq =>
    h.parent_unique p q y hp hq
  have hnot : ∀ {p q : α}, r a p → r a q → p ≠ q → ¬ ReflTransGen r p q := by
    intro p q hp hq hpq hbelow
    rcases ReflTransGen.cases_tail hbelow with heq | ⟨d, hpd, hdq⟩
    · exact hpq heq.symm
    · rw [h.parent_unique d a q hdq hq] at hpd
      exact h.not_below_of_child hp hpd
  rcases ReflTransGen.total_of_right_unique hright (reflTransGen_swap.mpr hbx)
    (reflTransGen_swap.mpr hcx) with hbelow | hbelow
  · exact hnot hc hb hne.symm (reflTransGen_swap.mp hbelow)
  · exact hnot hb hc hne (reflTransGen_swap.mp hbelow)

theorem cut (h : IsForest r) (S : α → Prop) : IsForest (cut r S) where
  parent_unique a b c ha hb := h.parent_unique a b c ha.1 hb.1
  deeper := by
    obtain ⟨depth, hdepth⟩ := h.deeper
    exact ⟨depth, fun a b hr => hdepth a b hr.1⟩

/-- A new leaf. -/
theorem addLeaf [DecidableEq α] (h : IsForest r) {p leaf : α} (hparent : ∀ a, ¬ r a leaf)
    (hchild : ∀ b, ¬ r leaf b) (hne : p ≠ leaf) :
    IsForest fun a b => r a b ∨ a = p ∧ b = leaf where
  parent_unique := by
    rintro a b c (ha | ⟨rfl, rfl⟩) (hb | ⟨rfl, hbc⟩)
    · exact h.parent_unique a b c ha hb
    · exact absurd (hbc ▸ ha) (hparent a)
    · exact absurd hb (hparent b)
    · rfl
  deeper := by
    obtain ⟨depth, hdepth⟩ := h.deeper
    refine ⟨Function.update depth leaf (depth p + 1), ?_⟩
    rintro a b (hr | ⟨rfl, rfl⟩)
    · have ha : a ≠ leaf := fun heq => hchild b (heq ▸ hr)
      have hb : b ≠ leaf := fun heq => hparent a (heq ▸ hr)
      rw [Function.update_of_ne ha, Function.update_of_ne hb]
      exact hdepth a b hr
    · rw [Function.update_of_ne hne, Function.update_self]
      exact Nat.lt_succ_self _

open Classical in
/-- The number of nodes below a node. -/
noncomputable def size (r : α → α → Prop) (nodes : Finset α) (a : α) : Nat :=
  (nodes.filter (ReflTransGen r a)).card

open Classical in
theorem size_le (r : α → α → Prop) (nodes : Finset α) (a : α) : size r nodes a ≤ nodes.card :=
  Finset.card_filter_le _ _

open Classical in
theorem size_cut_le (S : α → Prop) (nodes : Finset α) (a : α) :
    size (Forest.cut r S) nodes a ≤ size r nodes a := by
  apply Finset.card_le_card
  intro x hx
  obtain ⟨hmem, hbelow⟩ := Finset.mem_filter.mp hx
  exact Finset.mem_filter.mpr ⟨hmem, ReflTransGen.mono (fun _ _ hr => hr.1) _ _ hbelow⟩

/-- There is less below a child. -/
theorem size_lt (h : IsForest r) {nodes : Finset α} (ha : a ∈ nodes) (hr : r a b) :
    size r nodes b < size r nodes a := by
  classical
  apply Finset.card_lt_card
  rw [Finset.ssubset_iff_of_subset]
  · refine ⟨a, ?_, ?_⟩
    · exact Finset.mem_filter.mpr ⟨ha, ReflTransGen.refl⟩
    · intro hmem
      exact h.not_below_of_child hr (Finset.mem_filter.mp hmem).2
  · intro x hx
    obtain ⟨hmem, hbelow⟩ := Finset.mem_filter.mp hx
    exact Finset.mem_filter.mpr ⟨hmem, hbelow.head hr⟩

end IsForest

end RPiKernel.Forest
