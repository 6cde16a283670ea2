import Mathlib.Data.Finset.Prod
import Mathlib.Order.Interval.Finset.Nat
import RPiKernel.Snake.Tail

/-!
# The tail inside its array

The cells of the tail are different cells inside the border, so that on a screen with at most 100 of
them the tail stays inside its array.
-/

namespace RPiKernel.Snake

open Interleaving Machine Transition

/-- The computation does not leave the array, and its result has a property. -/
def Keeps {α : Type} (Q : α → Prop) : Except Fault α → Prop
  | .ok a => Q a
  | .error e => e ≠ .outOfBounds

theorem Keeps.bind {α β : Type} {x : Except Fault α} {f : α → Except Fault β} {Q : α → Prop}
    {R : β → Prop} (hx : Keeps Q x) (hf : ∀ a, Q a → Keeps R (f a)) : Keeps R (x >>= f) := by
  cases x with
  | ok a => exact hf a hx
  | error e => exact hx

theorem Keeps.mono {α : Type} {x : Except Fault α} {Q R : α → Prop} (hx : Keeps Q x)
    (h : ∀ a, Q a → R a) : Keeps R x := by
  cases x with
  | ok a => exact h a hx
  | error e => exact hx

theorem Keeps.of_ok {α : Type} {x : Except Fault α} {a : α} {Q : α → Prop} (h : Keeps Q x)
    (hx : x = .ok a) : Q a := by
  rw [hx] at h
  exact h

theorem Keeps.of_eq {α : Type} {x : Except Fault α} {a : α} {Q : α → Prop} (hx : x = .ok a)
    (ha : Q a) : Keeps Q x := by
  rw [hx]
  exact ha

/-- The number of cells inside the border. -/
def Setup.area (setup : Setup) : Nat := (setup.gridWidth - 2) * (setup.gridHeight - 2)

/-- The grid has a cell inside its border. -/
structure Setup.Playable (setup : Setup) : Prop where
  width : 3 ≤ setup.gridWidth
  height : 3 ≤ setup.gridHeight

/-- A cell inside the border. -/
structure Inside (setup : Setup) (c : Cell) : Prop where
  left : 1 ≤ c.x
  right : c.x ≤ setup.gridWidth - 2
  top : 1 ≤ c.y
  bottom : c.y ≤ setup.gridHeight - 2

section Cells

variable {setup : Setup} {c head : Cell}

theorem gridWidth_lt (setup : Setup) : setup.gridWidth < 134217728 :=
  Nat.div_lt_of_lt_mul setup.width_lt

theorem gridHeight_lt (setup : Setup) : setup.gridHeight < 134217728 :=
  Nat.div_lt_of_lt_mul setup.height_lt

theorem outOfBounds_iff (h : setup.Playable) : OutOfBounds setup c ↔ ¬ Inside setup c := by
  have hw := gridWidth_lt setup
  have hh := gridHeight_lt setup
  obtain ⟨hw3, hh3⟩ := h
  rw [OutOfBounds, sub32_of_le (by omega) (by omega), sub32_of_le (by omega) (by omega)]
  constructor
  · rintro hout ⟨hleft, hright, htop, hbottom⟩
    omega
  · intro hinside
    by_contra hnot
    exact hinside ⟨by omega, by omega, by omega, by omega⟩

/-- Different cells inside the border are no more than there are. -/
theorem length_le_area {l : List Cell} (hl : l.Nodup) (hinside : ∀ c ∈ l, Inside setup c) :
    l.length ≤ setup.area := by
  have hinjective : Function.Injective fun c : Cell => (c.x, c.y) := by
    rintro ⟨x, y⟩ ⟨x', y'⟩ h
    cases h
    rfl
  have hsub : (l.map fun c => (c.x, c.y)).toFinset ⊆
      Finset.Icc 1 (setup.gridWidth - 2) ×ˢ Finset.Icc 1 (setup.gridHeight - 2) := by
    intro p hp
    obtain ⟨c, hc, rfl⟩ := List.mem_map.mp (List.mem_toFinset.mp hp)
    obtain ⟨hleft, hright, htop, hbottom⟩ := hinside c hc
    exact Finset.mem_product.mpr ⟨Finset.mem_Icc.mpr ⟨hleft, hright⟩,
      Finset.mem_Icc.mpr ⟨htop, hbottom⟩⟩
  calc
    l.length = (l.map fun c => (c.x, c.y)).toFinset.card := by
      rw [List.toFinset_card_of_nodup (hl.map hinjective), List.length_map]
    _ ≤ _ := Finset.card_le_card hsub
    _ = setup.area := by
      rw [Finset.card_product, Nat.card_Icc, Nat.card_Icc, Nat.add_sub_cancel, Nat.add_sub_cancel,
        Setup.area]

theorem keeps_spawnFruit (h : setup.Playable) (draws : List (Nat × Nat)) :
    Keeps (fun r => Inside setup r.1 ∧ r.1 ≠ head) (spawnFruit setup head draws) := by
  have hw := gridWidth_lt setup
  have hh := gridHeight_lt setup
  obtain ⟨hw3, hh3⟩ := h
  induction draws with
  | nil => exact fun hfault => by cases hfault
  | cons draw draws ih =>
      obtain ⟨x, y⟩ := draw
      rw [spawnFruit, sub32_of_le (by omega) (by omega), sub32_of_le (by omega) (by omega)]
      have hx := Nat.mod_lt x (by omega : 0 < setup.gridWidth - 2)
      have hy := Nat.mod_lt y (by omega : 0 < setup.gridHeight - 2)
      rw [add32_of_lt (by omega), add32_of_lt (by omega)]
      split
      · exact ih
      · next hne => exact ⟨⟨by simp only; omega, by simp only; omega, by simp only; omega,
          by simp only; omega⟩, hne⟩

end Cells

/-- The cells of the tail are different cells inside the border. -/
structure Placed (setup : Setup) (g : Game) : Prop where
  nodup : g.body.Nodup
  inside : ∀ c ∈ g.body, Inside setup c

/-- The head is another such cell. -/
structure Free (setup : Setup) (g : Game) : Prop extends Placed setup g where
  head_inside : Inside setup g.head
  head_not_mem : g.head ∉ g.body

/-- The invariant between the frames: after a fruit, the head is the last cell of the tail. -/
structure Inv (setup : Setup) (g : Game) : Prop extends Placed setup g where
  head_inside : Inside setup g.head
  head_not_mem : g.head ∉ g.body.take (g.tailLength - 1)

section Invariant

variable {setup : Setup} {g : Game} {time : UInt64} {draws : List (Nat × Nat)}

theorem Placed.tailLength_le (h : Placed setup g) : g.tailLength ≤ setup.area := by
  have hle := length_le_area h.nodup h.inside
  rwa [Game.body, length_cells] at hle

theorem Free.tailLength_lt (h : Free setup g) : g.tailLength < setup.area := by
  have hnodup : (g.head :: g.body).Nodup := List.nodup_cons.mpr ⟨h.head_not_mem, h.nodup⟩
  have hle := length_le_area hnodup (List.forall_mem_cons.mpr ⟨h.head_inside, h.inside⟩)
  rwa [List.length_cons, Game.body, length_cells] at hle

theorem Free.inv (h : Free setup g) : Inv setup g :=
  { h with head_not_mem := fun hmem => h.head_not_mem (List.mem_of_mem_take hmem) }

theorem keeps_resetSnake (h : setup.Playable) (time : UInt64) (draws : List (Nat × Nat))
    (g : Game) : Keeps (fun r => Free setup r.1) (resetSnake setup time draws g) := by
  have hw3 := h.width
  have hh3 := h.height
  refine (keeps_spawnFruit h draws).bind fun r _ => ?_
  refine ⟨⟨List.nodup_nil, fun c hc => absurd hc List.not_mem_nil⟩, ?_, List.not_mem_nil⟩
  exact ⟨by simp only; omega, by simp only; omega, by simp only; omega, by simp only; omega⟩

theorem keeps_moveSnake (h : Inv setup g) (hlength : g.tailLength ≤ tailSize) :
    Keeps (Placed setup) (moveSnake g) := by
  obtain ⟨tail, hmove, hbody⟩ := moveSnake_spec hlength
  refine Keeps.of_eq hmove ?_
  have hbody' : ({ g with tail, head := moveHead g.direction g.head } : Game).body =
      (g.head :: g.body).take g.tailLength := hbody
  constructor
  case nodup =>
    rw [hbody']
    cases hcount : g.tailLength with
    | zero => exact List.nodup_nil
    | succ n =>
        have hnot := h.head_not_mem
        rw [hcount, Nat.add_sub_cancel] at hnot
        exact List.nodup_cons.mpr ⟨hnot, h.nodup.sublist (List.take_sublist n g.body)⟩
  case inside =>
    intro c hc
    rw [hbody'] at hc
    rcases List.mem_cons.mp (List.mem_of_mem_take hc) with rfl | hc
    · exact h.head_inside
    · exact h.inside c hc

theorem keeps_checkBounds (hplayable : setup.Playable) (h : Placed setup g) :
    Keeps (fun r => Placed setup r.1 ∧ Inside setup r.1.head)
      (checkBounds setup time draws g) := by
  unfold checkBounds
  split
  · exact (keeps_resetSnake hplayable time draws g).mono fun r hr => ⟨hr.toPlaced, hr.head_inside⟩
  · next hinside =>
      rw [outOfBounds_iff hplayable, not_not] at hinside
      exact ⟨h, hinside⟩

theorem keeps_checkTail (hplayable : setup.Playable) (h : Placed setup g)
    (hinside : Inside setup g.head) (hlength : g.tailLength ≤ tailSize) :
    Keeps (fun r => Free setup r.1) (checkTail setup time draws g) := by
  rw [checkTail, hitsTail_eq hlength, ok_bind]
  by_cases hhit : g.head ∈ cells g.tail g.tailLength
  · rw [decide_eq_true hhit]
    exact keeps_resetSnake hplayable time draws g
  · rw [decide_eq_false hhit]
    exact { h with head_inside := hinside, head_not_mem := hhit }

/-- The tail with the head behind it. -/
theorem cells_append {tail : Nat → Cell} {n : Nat} {c : Cell} :
    cells (Function.update tail n c) (n + 1) = cells tail n ++ [c] := by
  rw [cells_succ, Function.update_self]
  congr 1
  exact cells_congr fun i hi => Function.update_of_ne (Nat.ne_of_lt hi) c tail

theorem keeps_eatFruit (hplayable : setup.Playable) (hsmall : setup.area ≤ tailSize)
    (h : Free setup g) : Keeps (Inv setup) (eatFruit setup draws g) := by
  have hlt : g.tailLength < 100 := Nat.lt_of_lt_of_le h.tailLength_lt hsmall
  unfold eatFruit
  split
  · refine (keeps_spawnFruit hplayable draws).bind ?_
    rintro ⟨fruit, rest⟩ -
    have hset : tailSet g.tail g.tailLength g.head =
        .ok (Function.update g.tail g.tailLength g.head) := if_pos hlt
    have hadd : add32 g.tailLength 1 = g.tailLength + 1 := add32_of_lt (by omega)
    simp only [hset, ok_bind, hadd]
    have hbody : ({ g with
        fruit
        tail := Function.update g.tail g.tailLength g.head
        tailLength := g.tailLength + 1 } : Game).body = g.body ++ [g.head] := cells_append
    constructor
    case head_inside => exact h.head_inside
    case head_not_mem =>
      have hfront : (g.body ++ [g.head]).take g.tailLength = g.body := List.take_left' length_cells
      rw [hbody, Nat.add_sub_cancel, hfront]
      exact h.head_not_mem
    case toPlaced =>
      constructor
      case nodup =>
        rw [hbody]
        refine List.nodup_append.mpr ⟨h.nodup, List.nodup_singleton _, ?_⟩
        rintro a ha b hb rfl
        rw [List.mem_singleton.mp hb] at ha
        exact h.head_not_mem ha
      case inside =>
        intro c hc
        rw [hbody] at hc
        rcases List.mem_append.mp hc with hc | hc
        · exact h.inside c hc
        · rw [List.mem_singleton.mp hc]
          exact h.head_inside
  · exact h.inv

theorem keeps_simulate (hplayable : setup.Playable) (hsmall : setup.area ≤ tailSize)
    {input : Input} (h : Inv setup g) : Keeps (Inv setup) (simulate setup input g) := by
  have hle : ∀ g', Placed setup g' → g'.tailLength ≤ tailSize :=
    fun g' hg' => Nat.le_trans hg'.tailLength_le hsmall
  have hnext : Inv setup
      { g with nextSimulationTime := input.time + setup.performanceFrequency / 10 } := by
    constructor
    case toPlaced => exact ⟨h.nodup, h.inside⟩
    case head_inside => exact h.head_inside
    case head_not_mem => exact h.head_not_mem
  refine (keeps_moveSnake hnext (hle _ hnext.toPlaced)).bind fun g₁ h₁ => ?_
  refine (keeps_checkBounds hplayable h₁).bind fun r₂ h₂ => ?_
  refine (keeps_checkTail hplayable h₂.1 h₂.2 (hle _ h₂.1)).bind fun r₃ h₃ => ?_
  exact keeps_eatFruit hplayable hsmall h₃

/-- A frame keeps the invariant, on a screen with no more cells than the array has. -/
theorem keeps_frame (hplayable : setup.Playable) (hsmall : setup.area ≤ tailSize) (input : Input)
    (h : Inv setup g) : Keeps (fun r => Inv setup r.1) (frame setup input g) := by
  have hsteer : Inv setup { g with direction := steer g.direction input } := by
    constructor
    case toPlaced => exact ⟨h.nodup, h.inside⟩
    case head_inside => exact h.head_inside
    case head_not_mem => exact h.head_not_mem
  have hdraw : ∀ g', Inv setup g' → Keeps (fun r : Game × List Rectangle => Inv setup r.1) (do
      let picture ← draw setup g'
      return (g', picture)) := by
    intro g' hg'
    obtain ⟨picture, hpicture⟩ :=
      exists_draw_eq setup (Nat.le_trans hg'.toPlaced.tailLength_le hsmall)
    rw [hpicture]
    exact hg'
  simp only [frame]
  split
  · exact (keeps_simulate hplayable hsmall hsteer).bind hdraw
  · exact hdraw _ hsteer

/-- In every state the tail is no longer than its array, and no frame leaves the array. -/
def TailInside (setup : Setup) : Prop :=
  ∀ g, (snakeSystem setup).Reachable g →
    g.tailLength ≤ 100 ∧ ∀ input, frame setup input g ≠ .error .outOfBounds

theorem Inv.of_reachable (hplayable : setup.Playable) (hsmall : setup.area ≤ tailSize)
    (h : (snakeSystem setup).Reachable g) : Inv setup g := by
  refine h.invariant ?_ ?_
  · rintro g ⟨before, time, draws, rest, hreset⟩
    exact ((keeps_resetSnake hplayable time draws before).of_ok hreset).inv
  · intro g input g' hg hstep
    have hkeeps := keeps_frame hplayable hsmall input hg
    change (frame setup input g).toOption.map Prod.fst = some g' at hstep
    cases hframe : frame setup input g with
    | ok r =>
        rw [hframe] at hstep hkeeps
        cases hstep
        exact hkeeps
    | error e =>
        rw [hframe] at hstep
        cases hstep

theorem tailInside_of_area_le (hplayable : setup.Playable) (hsmall : setup.area ≤ tailSize) :
    TailInside setup := by
  intro g hg
  have hI := Inv.of_reachable hplayable hsmall hg
  refine ⟨Nat.le_trans hI.toPlaced.tailLength_le hsmall, fun input hframe => ?_⟩
  have hkeeps := keeps_frame hplayable hsmall input hI
  rw [hframe] at hkeeps
  exact hkeeps rfl

end Invariant

end RPiKernel.Snake
