import RPiKernel.Grid.Serpentine
import RPiKernel.Snake.TailBound

/-!
# The tail behind its array

On a screen with more than 100 cells inside the border, the snake can go back along a serpentine to
its first cell, and then follow it with the fruit always in front of the head. The fruit at the
101st cell makes it write behind the array.
-/

namespace RPiKernel.Snake

open Grid Interleaving Machine Transition

/-- The cell of the grid at a place inside the border. -/
def cellAt (p : Nat × Nat) : Cell := ⟨p.1 + 1, p.2 + 1⟩

theorem cellAt_injective : cellAt.Injective := by
  rintro ⟨x, y⟩ ⟨x', y'⟩ h
  cases h
  rfl

/-- The numbers from `rand` that put the fruit at a cell. -/
def drawOf (c : Cell) : Nat × Nat := (c.x - 1, c.y - 1)

/-- The keys for a direction, at the time of the next simulation. -/
def towards (direction : Direction) (time : UInt64) (draws : List (Nat × Nat)) : Input where
  right := direction = .right
  left := direction = .left
  down := direction = .down
  up := direction = .up
  time := time
  resetTime := time
  draws := draws

section Steps

variable {setup : Setup} {g : Game} {p q : Nat × Nat} {draws : List (Nat × Nat)}

theorem steer_towards {d : Direction} (hd : d ≠ .none) (before : Direction) (time : UInt64) :
    steer before (towards d time draws) = d := by
  cases d with
  | none => exact absurd rfl hd
  | up => rfl
  | down => rfl
  | left => rfl
  | right => rfl

/-- A key moves the head to a cell beside it. -/
theorem exists_direction (h : Beside p q) (hp : Inside setup (cellAt p))
    (hq : Inside setup (cellAt q)) : ∃ d, d ≠ .none ∧ moveHead d (cellAt p) = cellAt q := by
  have hw := gridWidth_lt setup
  have hh := gridHeight_lt setup
  have hpx := hp.right
  have hpy := hp.bottom
  obtain ⟨px, py⟩ := p
  obtain ⟨qx, qy⟩ := q
  simp only [cellAt] at hpx hpy ⊢
  rcases h with ⟨hx, hy | hy⟩ | ⟨hy, hx | hx⟩
  · refine ⟨.down, by decide, ?_⟩
    rw [moveHead, add32_of_lt (by simp only; omega)]
    simp only [Cell.mk.injEq] at *
    omega
  · refine ⟨.up, by decide, ?_⟩
    rw [moveHead, sub32_of_le (by simp only; omega) (by simp only; omega)]
    simp only [Cell.mk.injEq] at *
    omega
  · refine ⟨.right, by decide, ?_⟩
    rw [moveHead, add32_of_lt (by simp only; omega)]
    simp only [Cell.mk.injEq] at *
    omega
  · refine ⟨.left, by decide, ?_⟩
    rw [moveHead, sub32_of_le (by simp only; omega) (by simp only; omega)]
    simp only [Cell.mk.injEq] at *
    omega

/-- The fruit comes to a cell inside the border. -/
theorem spawnFruit_drawOf (hplayable : setup.Playable) {c head : Cell} (hc : Inside setup c)
    (hne : c ≠ head) : spawnFruit setup head [drawOf c] = .ok (c, []) := by
  have hw := gridWidth_lt setup
  have hh := gridHeight_lt setup
  obtain ⟨hw3, hh3⟩ := hplayable
  obtain ⟨hleft, hright, htop, hbottom⟩ := hc
  have hx : add32 ((c.x - 1) % sub32 setup.gridWidth 2) 1 = c.x := by
    rw [sub32_of_le (by omega) (by omega), Nat.mod_eq_of_lt (by omega), add32_of_lt (by omega)]
    omega
  have hy : add32 ((c.y - 1) % sub32 setup.gridHeight 2) 1 = c.y := by
    rw [sub32_of_le (by omega) (by omega), Nat.mod_eq_of_lt (by omega), add32_of_lt (by omega)]
    omega
  simp only [spawnFruit, drawOf, hx, hy]
  rw [if_neg hne]

/-- The head moves to a free cell, and it only remains to look for the fruit. -/
theorem exists_simulate_eq (hplayable : setup.Playable) (hlength : g.tailLength ≤ tailSize)
    (hhead : g.head = cellAt p) (hp : Inside setup (cellAt p)) (hq : Inside setup (cellAt q))
    (hbeside : Beside p q) (hfree : cellAt q ∉ (g.head :: g.body).take g.tailLength)
    (draws : List (Nat × Nat)) :
    ∃ input g₁, input.time = g.nextSimulationTime ∧
      simulate setup input { g with direction := steer g.direction input } =
        eatFruit setup draws g₁ ∧
      g₁.head = cellAt q ∧ g₁.tailLength = g.tailLength ∧ g₁.fruit = g.fruit ∧
      g₁.body = (g.head :: g.body).take g.tailLength := by
  obtain ⟨d, hd, hmove⟩ := exists_direction hbeside hp hq
  obtain ⟨tail, hsnake, hbody⟩ := moveSnake_spec (g := { g with
    direction := d
    nextSimulationTime := g.nextSimulationTime + setup.performanceFrequency / 10 }) hlength
  have hin : ¬ OutOfBounds setup (cellAt q) := by
    rw [outOfBounds_iff hplayable, not_not]
    exact hq
  have hmiss : hitsTail tail (cellAt q) g.tailLength 0 = .ok false := by
    rw [hitsTail_eq hlength, hbody]
    exact congrArg Except.ok (decide_eq_false hfree)
  refine ⟨towards d g.nextSimulationTime draws, { g with
    direction := d
    nextSimulationTime := g.nextSimulationTime + setup.performanceFrequency / 10
    tail
    head := cellAt q }, rfl, ?_, rfl, rfl, rfl, hbody⟩
  rw [steer_towards hd]
  have hgo : moveHead d g.head = cellAt q := by rw [hhead, hmove]
  simp only [simulate, towards, hsnake, ok_bind, checkBounds, hgo, if_neg hin, checkTail, hmiss,
    Bool.false_eq_true, if_false]
  rfl

/-- A frame at the time of its simulation ends with what this one leaves. -/
theorem next_of_simulate {input : Input} {g' : Game} (htime : input.time = g.nextSimulationTime)
    (hsimulate : simulate setup input { g with direction := steer g.direction input } = .ok g')
    (hlength : g'.tailLength ≤ tailSize) : (snakeSystem setup).next g input = some g' := by
  obtain ⟨picture, hpicture⟩ := exists_draw_eq setup hlength
  have hframe : frame setup input g = .ok (g', picture) := by
    rw [frame, if_pos (UInt64.le_of_eq htime.symm), hsimulate, ok_bind]
    simp only [hpicture, ok_bind]
    rfl
  change (frame setup input g).toOption.map Prod.fst = some g'
  rw [hframe]
  rfl

/-- A snake without a tail goes to a cell beside it that is not the fruit. -/
theorem exists_walk (hplayable : setup.Playable) (hreach : (snakeSystem setup).Reachable g)
    (hzero : g.tailLength = 0) (hhead : g.head = cellAt p) (hp : Inside setup (cellAt p))
    (hq : Inside setup (cellAt q)) (hbeside : Beside p q) (hfruit : cellAt q ≠ g.fruit) :
    ∃ g', (snakeSystem setup).Reachable g' ∧ g'.head = cellAt q ∧ g'.tailLength = 0 ∧
      g'.fruit = g.fruit := by
  have hlength : g.tailLength ≤ tailSize := by omega
  have hfree : cellAt q ∉ (g.head :: g.body).take g.tailLength := by
    rw [hzero]
    exact List.not_mem_nil
  obtain ⟨input, g₁, htime, hsimulate, hhead₁, hlength₁, hfruit₁, -⟩ :=
    exists_simulate_eq hplayable hlength hhead hp hq hbeside hfree []
  have hleave : eatFruit setup [] g₁ = .ok g₁ := by
    rw [eatFruit, if_neg (by rwa [hhead₁, hfruit₁])]
    rfl
  rw [hleave] at hsimulate
  refine ⟨g₁, hreach.step input (next_of_simulate htime hsimulate (by omega)), hhead₁,
    hlength₁.trans hzero, hfruit₁⟩

/-- At the fruit, it is the place of the head in the tail that decides. -/
theorem eatFruit_eq {c : Cell} (hplayable : setup.Playable) (hfruit : g.head = g.fruit)
    (hc : Inside setup c) (hne : c ≠ g.head) :
    eatFruit setup [drawOf c] g = (do
      let tail ← tailSet g.tail g.tailLength g.head
      return { g with fruit := c, tail, tailLength := add32 g.tailLength 1 }) := by
  rw [eatFruit, if_pos hfruit, spawnFruit_drawOf hplayable hc hne]
  rfl

/-- The head comes to the fruit, and the tail is still inside its array. -/
theorem exists_eat {r : Nat × Nat} (hplayable : setup.Playable)
    (hreach : (snakeSystem setup).Reachable g) (hlength : g.tailLength < tailSize)
    (hhead : g.head = cellAt p) (hfruit : g.fruit = cellAt q) (hp : Inside setup (cellAt p))
    (hq : Inside setup (cellAt q)) (hr : Inside setup (cellAt r)) (hbeside : Beside p q)
    (hfree : cellAt q ∉ (g.head :: g.body).take g.tailLength) (hne : cellAt r ≠ cellAt q) :
    ∃ g', (snakeSystem setup).Reachable g' ∧ g'.head = cellAt q ∧
      g'.tailLength = g.tailLength + 1 ∧ g'.fruit = cellAt r ∧
      ∀ c ∈ g'.body, c = cellAt q ∨ c ∈ (g.head :: g.body).take g.tailLength := by
  have hsize : g.tailLength < 100 := hlength
  obtain ⟨input, g₁, htime, hsimulate, hhead₁, hlength₁, hfruit₁, hbody₁⟩ :=
    exists_simulate_eq hplayable hlength.le hhead hp hq hbeside hfree
      [drawOf (cellAt r)]
  have hset : tailSet g₁.tail g₁.tailLength (cellAt q) =
      .ok (Function.update g₁.tail g₁.tailLength (cellAt q)) := if_pos (by rwa [hlength₁])
  have hadd : add32 g₁.tailLength 1 = g.tailLength + 1 := by
    rw [hlength₁]
    exact add32_of_lt (by omega)
  have heat : eatFruit setup [drawOf (cellAt r)] g₁ = .ok { g₁ with
      fruit := cellAt r
      tail := Function.update g₁.tail g₁.tailLength (cellAt q)
      tailLength := g.tailLength + 1 } := by
    rw [eatFruit_eq hplayable (by rw [hhead₁, hfruit₁, hfruit]) hr (by rwa [hhead₁]), hhead₁, hset,
      ok_bind, hadd]
    rfl
  rw [heat] at hsimulate
  refine ⟨_, hreach.step input (next_of_simulate htime hsimulate hlength), hhead₁, rfl, rfl, ?_⟩
  intro c hc
  have hbody : c ∈ cells (Function.update g₁.tail g.tailLength (cellAt q)) (g.tailLength + 1) := by
    rwa [Game.body, hlength₁] at hc
  rw [cells_append] at hbody
  rcases List.mem_append.mp hbody with hc | hc
  · have hmem : c ∈ g₁.body := by rwa [Game.body, hlength₁]
    rw [hbody₁] at hmem
    exact Or.inr hmem
  · exact Or.inl (List.mem_singleton.mp hc)

/-- With a full array, the head comes to the fruit and is written behind it. -/
theorem exists_overflow {r : Nat × Nat} (hplayable : setup.Playable)
    (hlength : g.tailLength = tailSize) (hhead : g.head = cellAt p) (hfruit : g.fruit = cellAt q)
    (hp : Inside setup (cellAt p)) (hq : Inside setup (cellAt q)) (hr : Inside setup (cellAt r))
    (hbeside : Beside p q) (hfree : cellAt q ∉ (g.head :: g.body).take g.tailLength)
    (hne : cellAt r ≠ cellAt q) : ∃ input, frame setup input g = .error .outOfBounds := by
  obtain ⟨input, g₁, htime, hsimulate, hhead₁, hlength₁, hfruit₁, -⟩ :=
    exists_simulate_eq hplayable hlength.le hhead hp hq hbeside hfree
      [drawOf (cellAt r)]
  have hset : tailSet g₁.tail g₁.tailLength (cellAt q) = .error .outOfBounds :=
    if_neg (by omega)
  have heat : eatFruit setup [drawOf (cellAt r)] g₁ = .error .outOfBounds := by
    rw [eatFruit_eq hplayable (by rw [hhead₁, hfruit₁, hfruit]) hr (by rwa [hhead₁]), hhead₁, hset]
    rfl
  refine ⟨input, ?_⟩
  rw [frame, if_pos (UInt64.le_of_eq htime.symm), hsimulate, heat]
  rfl

end Steps

section Path

variable {setup : Setup}

/-- The cell with a number on the path through the cells inside the border. -/
def pathCell (setup : Setup) (k : Nat) : Cell := cellAt (serpentine (setup.gridWidth - 2) k)

theorem pathCell_injective (hplayable : setup.Playable) : (pathCell setup).Injective := by
  have hw3 := hplayable.width
  have hwidth : 0 < setup.gridWidth - 2 := by omega
  exact cellAt_injective.comp (serpentine_injective hwidth)

theorem inside_pathCell (hplayable : setup.Playable) {k : Nat}
    (h : k / (setup.gridWidth - 2) < setup.gridHeight - 2) :
    Inside setup (pathCell setup k) := by
  have hw3 := hplayable.width
  have hwidth : 0 < setup.gridWidth - 2 := by omega
  have hx := serpentine_fst_lt hwidth k
  have hy : (serpentine (setup.gridWidth - 2) k).2 < setup.gridHeight - 2 := h
  constructor
  case left => exact Nat.succ_pos _
  case right => exact hx
  case top => exact Nat.succ_pos _
  case bottom => exact hy

/-- The first cells of the path are inside the border, as many as there are. -/
theorem inside_pathCell_of_lt (hplayable : setup.Playable) {k : Nat} (h : k < setup.area) :
    Inside setup (pathCell setup k) :=
  inside_pathCell hplayable (Nat.div_lt_of_lt_mul h)

theorem pathCell_zero (setup : Setup) : pathCell setup 0 = ⟨1, 1⟩ := by
  rw [pathCell, serpentine, Nat.zero_div, Nat.zero_mod]
  rfl

/-- The middle of the screen is on the path, and not its first cell. -/
theorem exists_center (hplayable : setup.Playable) (hlarge : 1 < setup.area) :
    ∃ m, pathCell setup (m + 1) = ⟨setup.gridWidth / 2, setup.gridHeight / 2⟩ ∧
      (m + 1) / (setup.gridWidth - 2) < setup.gridHeight - 2 := by
  have hw3 := hplayable.width
  have hh3 := hplayable.height
  have hcell : (setup.gridWidth / 2 - 1, setup.gridHeight / 2 - 1).1 < setup.gridWidth - 2 := by
    simp only
    omega
  obtain ⟨k, hk, hrow⟩ := exists_serpentine_eq hcell
  have hcenter : pathCell setup k = ⟨setup.gridWidth / 2, setup.gridHeight / 2⟩ := by
    rw [pathCell, hk, cellAt]
    simp only [Cell.mk.injEq]
    omega
  cases k with
  | zero =>
      -- the middle is the first cell only if it is the only one
      rw [pathCell_zero, Cell.mk.injEq] at hcenter
      have hwidth : setup.gridWidth - 2 = 1 := by omega
      have hheight : setup.gridHeight - 2 = 1 := by omega
      rw [Setup.area, hwidth, hheight] at hlarge
      exact absurd hlarge (Nat.lt_irrefl 1)
  | succ m =>
      refine ⟨m, hcenter, ?_⟩
      rw [hrow]
      simp only
      omega

/-- The snake begins on the path, with the fruit at the first cell of it. -/
theorem exists_start (hplayable : setup.Playable) (hlarge : 1 < setup.area) :
    ∃ g m, (snakeSystem setup).Reachable g ∧ g.head = pathCell setup (m + 1) ∧
      g.tailLength = 0 ∧ g.fruit = pathCell setup 0 ∧
      (m + 1) / (setup.gridWidth - 2) < setup.gridHeight - 2 := by
  obtain ⟨m, hcenter, hrow⟩ := exists_center hplayable hlarge
  have hfirst := inside_pathCell_of_lt hplayable (k := 0) (by omega)
  have hne : pathCell setup 0 ≠ pathCell setup (m + 1) :=
    (pathCell_injective hplayable).ne (Nat.succ_ne_zero m).symm
  have hspawn := spawnFruit_drawOf hplayable hfirst hne
  rw [hcenter] at hspawn
  let before : Game := ⟨⟨0, 0⟩, fun _ => ⟨0, 0⟩, 0, ⟨0, 0⟩, .none, 0⟩
  refine ⟨{ before with
    head := ⟨setup.gridWidth / 2, setup.gridHeight / 2⟩
    fruit := pathCell setup 0 }, m, System.ReachableBy.initial ⟨before, 0,
      [drawOf (pathCell setup 0)], [], ?_⟩, hcenter.symm, rfl, rfl, hrow⟩
  rw [resetSnake, hspawn]
  rfl

/-- The snake goes back to the second cell of the path. -/
theorem exists_back (hplayable : setup.Playable) (hlarge : 1 < setup.area) :
    ∃ g, (snakeSystem setup).Reachable g ∧ g.head = pathCell setup 1 ∧ g.tailLength = 0 ∧
      g.fruit = pathCell setup 0 := by
  have hw3 := hplayable.width
  obtain ⟨g, m, hreach, hhead, hzero, hfruit, hrow⟩ := exists_start hplayable hlarge
  induction m generalizing g with
  | zero => exact ⟨g, hreach, hhead, hzero, hfruit⟩
  | succ m ih =>
      have hless : (m + 1) / (setup.gridWidth - 2) < setup.gridHeight - 2 :=
        Nat.lt_of_le_of_lt (Nat.div_le_div_right (Nat.le_succ _)) hrow
      have hne : pathCell setup (m + 1) ≠ g.fruit := by
        rw [hfruit]
        exact (pathCell_injective hplayable).ne (Nat.succ_ne_zero m)
      have hbeside := (serpentine_beside (by omega : 0 < setup.gridWidth - 2) (m + 1)).symm
      obtain ⟨g', hreach', hhead', hzero', hfruit'⟩ := exists_walk hplayable hreach hzero hhead
        (inside_pathCell hplayable hrow) (inside_pathCell hplayable hless) hbeside hne
      exact ih g' hreach' hhead' hzero' (hfruit'.trans hfruit) hless

/-- A later cell of the path is free, where the snake only has earlier ones. -/
theorem pathCell_free {g : Game} {k j : Nat} (hplayable : setup.Playable)
    (hbody : ∀ c ∈ g.head :: g.body, ∃ i ≤ k, c = pathCell setup i) (hj : k < j) :
    pathCell setup j ∉ (g.head :: g.body).take g.tailLength := by
  intro hmem
  obtain ⟨i, hi, hsame⟩ := hbody _ (List.mem_of_mem_take hmem)
  have heq := pathCell_injective hplayable hsame
  omega

/-- The snake follows the path with the fruit always in front of its head. -/
theorem exists_grown (hplayable : setup.Playable) (hlarge : 100 < setup.area) {k : Nat}
    (hk : k < tailSize) :
    ∃ g, (snakeSystem setup).Reachable g ∧ g.head = pathCell setup k ∧
      g.tailLength = k + 1 ∧ g.fruit = pathCell setup (k + 1) ∧
      ∀ c ∈ g.head :: g.body, ∃ i ≤ k, c = pathCell setup i := by
  have hw3 := hplayable.width
  have hwidth : 0 < setup.gridWidth - 2 := by omega
  have hinjective := pathCell_injective hplayable
  have hinside : ∀ i ≤ 100, Inside setup (pathCell setup i) :=
    fun i hi => inside_pathCell_of_lt hplayable (by omega)
  induction k with
  | zero =>
      obtain ⟨g, hreach, hhead, hzero, hfruit⟩ := exists_back hplayable (by omega)
      have hnone : (g.head :: g.body).take g.tailLength = [] := by rw [hzero, List.take_zero]
      have hfree : pathCell setup 0 ∉ (g.head :: g.body).take g.tailLength := by
        rw [hnone]
        exact List.not_mem_nil
      obtain ⟨g', hreach', hhead', hlength', hfruit', hbody'⟩ := exists_eat hplayable hreach
        (by omega) hhead hfruit (hinside 1 (by omega)) (hinside 0 (by omega))
        (hinside 1 (by omega)) (serpentine_beside hwidth 0).symm hfree (hinjective.ne (by decide))
      refine ⟨g', hreach', hhead', by omega, hfruit',
        List.forall_mem_cons.mpr ⟨⟨0, Nat.le_refl 0, hhead'⟩, fun c hc => ?_⟩⟩
      rcases hbody' c hc with rfl | hmem
      · exact ⟨0, Nat.le_refl 0, rfl⟩
      · rw [hnone] at hmem
        exact absurd hmem List.not_mem_nil
  | succ k ih =>
      obtain ⟨g, hreach, hhead, hlength, hfruit, hbody⟩ := ih (Nat.lt_of_succ_lt hk)
      have hsize : k + 1 < 100 := hk
      have hfree := pathCell_free hplayable hbody (Nat.lt_succ_self k)
      obtain ⟨g', hreach', hhead', hlength', hfruit', hbody'⟩ := exists_eat hplayable hreach
        (by omega) hhead hfruit (hinside k (by omega)) (hinside (k + 1) (by omega))
        (hinside (k + 1 + 1) (by omega)) (serpentine_beside hwidth k) hfree
        (hinjective.ne (by omega))
      refine ⟨g', hreach', hhead', by omega, hfruit',
        List.forall_mem_cons.mpr ⟨⟨k + 1, Nat.le_refl _, hhead'⟩, fun c hc => ?_⟩⟩
      rcases hbody' c hc with rfl | hmem
      · exact ⟨k + 1, Nat.le_refl _, rfl⟩
      · obtain ⟨i, hi, hsame⟩ := hbody c (List.mem_of_mem_take hmem)
        exact ⟨i, Nat.le_succ_of_le hi, hsame⟩

/-- On a large screen the snake comes to write behind its array. -/
theorem not_tailInside_of_lt_area (hplayable : setup.Playable) (hlarge : 100 < setup.area) :
    ¬ TailInside setup := by
  intro h
  have hw3 := hplayable.width
  have hwidth : 0 < setup.gridWidth - 2 := by omega
  obtain ⟨g, hreach, hhead, hlength, hfruit, hbody⟩ :=
    exists_grown hplayable hlarge (by decide : 99 < tailSize)
  obtain ⟨input, hframe⟩ := exists_overflow hplayable hlength hhead hfruit
    (inside_pathCell_of_lt hplayable (by omega)) (inside_pathCell_of_lt hplayable hlarge)
    (inside_pathCell_of_lt hplayable (by omega : 0 < setup.area)) (serpentine_beside hwidth 99)
    (pathCell_free hplayable hbody (by decide)) ((pathCell_injective hplayable).ne (by decide))
  exact (h g hreach).2 input hframe

/-- The tail stays inside its array exactly on the screens with at most 100 cells inside the
border. -/
theorem tailInside_iff (setup : Setup) (hplayable : setup.Playable) :
    TailInside setup ↔ (setup.gridWidth - 2) * (setup.gridHeight - 2) ≤ 100 := by
  constructor
  · intro h
    by_contra hlarge
    exact not_tailInside_of_lt_area hplayable (Nat.lt_of_not_le hlarge) h
  · exact fun hsmall => tailInside_of_area_le hplayable hsmall

/-- A screen of 640 by 480 pixels. -/
def vga : Setup := ⟨640, 480, 1000000, by decide, by decide⟩

theorem vga_playable : vga.Playable := ⟨by decide, by decide⟩

theorem tailInside_iff_vga :
    vga.Playable ∧ (TailInside vga ↔ (vga.gridWidth - 2) * (vga.gridHeight - 2) ≤ 100) :=
  ⟨vga_playable, tailInside_iff vga vga_playable⟩

/-- On a screen of 640 by 480 pixels there are 234 cells for a tail of 100. -/
theorem vga_not_tailInside : ¬ TailInside vga :=
  not_tailInside_of_lt_area vga_playable (by decide)

end Path

end RPiKernel.Snake
