import Mathlib.Data.List.Basic
import Mathlib.Data.Nat.ModEq
import RPiKernel.Machine.Arithmetic

/-!
# The ring buffer

`CircularFifo` keeps its items between `tail` and `head`. One place always
stays empty: a push that would fill it panics. `Holds` says which items the
buffer contains; `push_spec` and `pop_spec` are the operations in these terms.
-/

namespace RPiKernel.Containers

open Interleaving

/-- The buffer. A place that was never written holds `none`. -/
structure CircularFifo (τ : Type) where
  data : Nat → Option τ := fun _ => none
  head : Nat := 0
  tail : Nat := 0

namespace CircularFifo

variable {τ : Type} (capacity : Nat)

def circularFifoName : String := "CircularFifo"

def push (f : CircularFifo τ) (item : τ) : Except Fault (CircularFifo τ) :=
  let f := { f with data := Function.update f.data f.head (some item) }
  let f := { f with head := (f.head + 1) % capacity }
  if f.head = f.tail then
    .error (.panic (circularFifoName ++ " overflow"))
  else
    .ok f

def pop (f : CircularFifo τ) : Except Fault (Option τ × CircularFifo τ) :=
  if f.tail = f.head then
    .error (.panic (circularFifoName ++ " is empty"))
  else
    .ok (f.data f.tail, { f with tail := (f.tail + 1) % capacity })

def isEmpty (f : CircularFifo τ) : Bool := f.tail == f.head

/-- The items between tail and head, the oldest one first. -/
def contents (f : CircularFifo τ) : List τ :=
  (List.range ((f.head + capacity - f.tail) % capacity)).filterMap
    fun k => f.data ((f.tail + k) % capacity)

/-- The buffer contains the items, the oldest one first. -/
structure Holds (f : CircularFifo τ) (items : List τ) : Prop where
  tail_lt : f.tail < capacity
  length_lt : items.length < capacity
  head_eq : f.head = (f.tail + items.length) % capacity
  data_eq : ∀ k x, items[k]? = some x → f.data ((f.tail + k) % capacity) = some x

variable {capacity} {f : CircularFifo τ} {items : List τ} {item : τ}

theorem holds_empty (h : 0 < capacity) : Holds capacity ({} : CircularFifo τ) [] :=
  ⟨h, h, (Nat.zero_mod capacity).symm, fun k x hx => by simp at hx⟩

/-- Different places less than the capacity apart are different indices. -/
theorem add_mod_ne (tail : Nat) {i j : Nat} (hi : i < j) (hj : j < capacity) :
    (tail + i) % capacity ≠ (tail + j) % capacity := by
  intro heq
  have hmod : i ≡ j [MOD capacity] := Nat.ModEq.add_left_cancel' tail heq
  have hi' := Nat.mod_eq_of_lt (hi.trans hj)
  have hj' := Nat.mod_eq_of_lt hj
  rw [Nat.ModEq, hi', hj'] at hmod
  exact hi.ne hmod

theorem Holds.isEmpty_iff (h : Holds capacity f items) : f.isEmpty = true ↔ items = [] := by
  rw [isEmpty, beq_iff_eq]
  constructor
  · intro heq
    by_contra hne
    have hpos := List.length_pos_iff.mpr hne
    have hdiff := add_mod_ne f.tail hpos h.length_lt
    rw [Nat.add_zero, Nat.mod_eq_of_lt h.tail_lt, ← h.head_eq] at hdiff
    exact hdiff heq
  · rintro rfl
    rw [h.head_eq, List.length_nil, Nat.add_zero, Nat.mod_eq_of_lt h.tail_lt]

/-- Writing at the head changes no item. -/
theorem Holds.writeData (h : Holds capacity f items) (x : Option τ) :
    Holds capacity { f with data := Function.update f.data f.head x } items := by
  refine ⟨h.tail_lt, h.length_lt, h.head_eq, fun k y hy => ?_⟩
  have hk : k < items.length := (List.getElem?_eq_some_iff.mp hy).1
  dsimp only
  rw [h.head_eq, Function.update_of_ne (add_mod_ne f.tail hk h.length_lt)]
  exact h.data_eq k y hy

/-- The state after an item has been written and the head moved on. -/
theorem Holds.write (h : Holds capacity f items) (item : τ) (hroom : items.length + 1 < capacity) :
    Holds capacity { f with
      data := Function.update f.data f.head (some item)
      head := (f.head + 1) % capacity } (items ++ [item]) := by
  constructor
  · exact h.tail_lt
  · simpa using hroom
  · simp only [h.head_eq, List.length_append, List.length_singleton, Nat.mod_add_mod, Nat.add_assoc]
  · intro k x hx
    dsimp only
    rcases Nat.lt_trichotomy k items.length with hk | rfl | hk
    · rw [List.getElem?_append_left hk] at hx
      rw [h.head_eq, Function.update_of_ne (add_mod_ne f.tail hk h.length_lt)]
      exact h.data_eq k x hx
    · rw [List.getElem?_append_right le_rfl, Nat.sub_self] at hx
      rw [h.head_eq, Function.update_self]
      exact hx
    · rw [List.getElem?_eq_none (by simp only [List.length_append, List.length_singleton]; omega)] at hx
      cases hx

/-- A push into a buffer with room appends the item. -/
theorem push_spec (item : τ) (h : Holds capacity f items) (hroom : items.length + 1 < capacity) :
    ∃ f', push capacity f item = .ok f' ∧ Holds capacity f' (items ++ [item]) := by
  have hwrite := h.write item hroom
  refine ⟨_, ?_, hwrite⟩
  have hne : ¬ (f.head + 1) % capacity = f.tail := by
    have hnot := hwrite.isEmpty_iff.not.mpr (by simp)
    rw [isEmpty, beq_iff_eq] at hnot
    exact fun heq => hnot heq.symm
  simp only [push, if_neg hne]

/-- A push into a full buffer panics. -/
theorem push_panics (h : Holds capacity f items) (hfull : items.length + 1 = capacity) :
    push capacity f item = .error (.panic (circularFifoName ++ " overflow")) := by
  have heq : (f.head + 1) % capacity = f.tail := by
    rw [h.head_eq, Nat.mod_add_mod, Nat.add_assoc, hfull, Nat.add_mod_right,
      Nat.mod_eq_of_lt h.tail_lt]
  simp only [push, if_pos heq]

/-- A pop returns the oldest item. -/
theorem pop_spec (h : Holds capacity f (item :: items)) :
    ∃ f', pop capacity f = .ok (some item, f') ∧ Holds capacity f' items := by
  have hdata := h.data_eq 0 item rfl
  rw [Nat.add_zero, Nat.mod_eq_of_lt h.tail_lt] at hdata
  have hne : ¬ f.tail = f.head := by
    have hnot := h.isEmpty_iff.not.mpr (by simp)
    rwa [isEmpty, beq_iff_eq] at hnot
  refine ⟨_, by rw [pop, if_neg hne, hdata], ?_⟩
  have hlen := h.length_lt
  rw [List.length_cons] at hlen
  constructor
  · exact Nat.mod_lt _ (by omega)
  · omega
  · rw [h.head_eq]
    simp only [List.length_cons, Nat.mod_add_mod]
    congr 1
    omega
  · intro k x hx
    dsimp only
    rw [Nat.mod_add_mod, Nat.add_assoc, Nat.add_comm 1 k]
    exact h.data_eq (k + 1) x hx

/-- A pop leaves head and data as they are. -/
theorem pop_frame {f' : CircularFifo τ} {result : Option τ}
    (h : pop capacity f = .ok (result, f')) :
    f'.head = f.head ∧ f'.data = f.data := by
  rw [pop] at h
  split at h
  · cases h
  · cases h
    exact ⟨rfl, rfl⟩

theorem pop_panics (h : Holds capacity f []) :
    pop capacity f = .error (.panic (circularFifoName ++ " is empty")) := by
  have hempty := h.isEmpty_iff.mpr rfl
  rw [isEmpty, beq_iff_eq] at hempty
  rw [pop, if_pos hempty]

theorem filterMap_range_getElem? (items : List τ) :
    (List.range items.length).filterMap (fun k => items[k]?) = items := by
  induction items with
  | nil => rfl
  | cons item items ih =>
      rw [List.length_cons, List.range_succ_eq_map, List.filterMap_cons, List.filterMap_map]
      simpa [Function.comp_def] using ih

theorem Holds.contents_eq (h : Holds capacity f items) : f.contents capacity = items := by
  have htail := h.tail_lt
  have hitems := h.length_lt
  have hlength : (f.head + capacity - f.tail) % capacity = items.length := by
    rw [h.head_eq]
    rcases Nat.lt_or_ge (f.tail + items.length) capacity with hlt | hge
    · have hsub : f.tail + items.length + capacity - f.tail = items.length + capacity := by omega
      rw [Nat.mod_eq_of_lt hlt, hsub, Nat.add_mod_right, Nat.mod_eq_of_lt hitems]
    · have hsub : f.tail + items.length - capacity + capacity - f.tail = items.length := by omega
      have hwrap : (f.tail + items.length) % capacity = f.tail + items.length - capacity := by
        rw [Nat.mod_eq_sub_mod hge, Nat.mod_eq_of_lt (by omega)]
      rw [hwrap, hsub, Nat.mod_eq_of_lt hitems]
  rw [contents, hlength]
  calc
    (List.range items.length).filterMap (fun k => f.data ((f.tail + k) % capacity)) =
        (List.range items.length).filterMap (fun k => items[k]?) := by
      apply List.filterMap_congr
      intro k hk
      rw [List.mem_range] at hk
      rw [h.data_eq k items[k] (List.getElem?_eq_getElem hk), List.getElem?_eq_getElem hk]
    _ = items := filterMap_range_getElem? items

end CircularFifo

end RPiKernel.Containers
