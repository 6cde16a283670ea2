import RPiKernel.Framebuffer.Canvas
import RPiKernel.Snake.TailBound

/-!
# The picture of the game

What a frame draws shows the game: `picture` is the color of each pixel, from the cells of the snake
and the fruit, and `topColor_rectangles` says that the rectangles of `draw` give it. Columns of
pixels behind the last whole cell are not drawn between the upper and the lower border.

The cells stay inside the border as long as the frames come to their end, whatever the size of the
screen.
-/

namespace RPiKernel.Snake

open Interleaving Machine Transition

/-- The results of a computation have a property. -/
def Yields {α : Type} (Q : α → Prop) (x : Except Fault α) : Prop := ∀ a, x = .ok a → Q a

section Yields

variable {α β : Type} {Q : α → Prop} {R : β → Prop}

theorem Yields.pure {a : α} (h : Q a) : Yields Q (.ok a) := by
  intro b hb
  cases hb
  exact h

theorem Yields.bind {x : Except Fault α} {f : α → Except Fault β} (hx : Yields Q x)
    (hf : ∀ a, Q a → Yields R (f a)) : Yields R (x >>= f) := by
  intro b hb
  cases hcase : x with
  | ok a =>
      rw [hcase] at hb
      exact hf a (hx a hcase) b hb
  | error e =>
      rw [hcase] at hb
      cases hb

theorem Keeps.yields {x : Except Fault α} (h : Keeps Q x) : Yields Q x := fun _ hx => h.of_ok hx

end Yields

/-- The tail and the fruit are inside the border, and the tail inside its array. -/
structure TailInGrid (setup : Setup) (g : Game) : Prop where
  length : g.tailLength ≤ tailSize
  body : ∀ c ∈ g.body, Inside setup c
  fruit : Inside setup g.fruit

/-- So is the head. -/
structure InGrid (setup : Setup) (g : Game) : Prop extends TailInGrid setup g where
  head : Inside setup g.head

section Grid

variable {setup : Setup} {g : Game} {time : UInt64} {draws : List (Nat × Nat)}

theorem yields_resetSnake (hplayable : setup.Playable) :
    Yields (fun r => InGrid setup r.1) (resetSnake setup time draws g) := by
  have hw := hplayable.width
  have hh := hplayable.height
  refine (keeps_spawnFruit hplayable draws).yields.bind fun r hr => Yields.pure ?_
  constructor
  case head =>
    exact ⟨by simp only; omega, by simp only; omega, by simp only; omega, by simp only; omega⟩
  case toTailInGrid =>
    exact ⟨Nat.zero_le _, fun c hc => absurd hc List.not_mem_nil, hr.1⟩

theorem yields_moveSnake (h : InGrid setup g) : Yields (TailInGrid setup) (moveSnake g) := by
  obtain ⟨tail, hmove, hcells⟩ := moveSnake_spec h.length
  rw [hmove]
  refine Yields.pure ⟨h.length, fun c hc => ?_, h.fruit⟩
  have hmem : c ∈ (g.head :: g.body).take g.tailLength := hcells ▸ hc
  rcases List.mem_cons.mp (List.mem_of_mem_take hmem) with rfl | hbody
  · exact h.head
  · exact h.body c hbody

theorem yields_checkBounds (hplayable : setup.Playable) (h : TailInGrid setup g) :
    Yields (fun r => InGrid setup r.1) (checkBounds setup time draws g) := by
  unfold checkBounds
  split
  · exact yields_resetSnake hplayable
  · next hinside =>
      rw [outOfBounds_iff hplayable, not_not] at hinside
      exact Yields.pure { h with head := hinside }

theorem yields_checkTail (hplayable : setup.Playable) (h : InGrid setup g) :
    Yields (fun r => InGrid setup r.1) (checkTail setup time draws g) := by
  rw [checkTail, hitsTail_eq h.length, ok_bind]
  split
  · exact yields_resetSnake hplayable
  · exact Yields.pure h

theorem yields_eatFruit (hplayable : setup.Playable) (h : InGrid setup g) :
    Yields (InGrid setup) (eatFruit setup draws g) := by
  unfold eatFruit
  split
  · refine (keeps_spawnFruit hplayable draws).yields.bind ?_
    rintro ⟨fruit, rest⟩ ⟨hfruit, -⟩
    intro g' hg'
    by_cases hlt : g.tailLength < tailSize
    · have hsize : g.tailLength < 100 := hlt
      have hadd : add32 g.tailLength 1 = g.tailLength + 1 := add32_of_lt (by omega)
      have hset : tailSet g.tail g.tailLength g.head =
          .ok (Function.update g.tail g.tailLength g.head) := if_pos hlt
      simp only [hset, ok_bind, hadd] at hg'
      cases hg'
      constructor
      case head => exact h.head
      case toTailInGrid =>
        refine ⟨hlt, fun c hc => ?_, hfruit⟩
        have hmem : c ∈ cells g.tail g.tailLength ++ [g.head] := cells_append ▸ hc
        rcases List.mem_append.mp hmem with hc | hc
        · exact h.body c hc
        · rw [List.mem_singleton.mp hc]
          exact h.head
    · have hset : tailSet g.tail g.tailLength g.head = .error .outOfBounds := if_neg hlt
      simp only [hset] at hg'
      cases hg'
  · exact Yields.pure h

theorem yields_simulate (hplayable : setup.Playable) {input : Input} (h : InGrid setup g) :
    Yields (InGrid setup) (simulate setup input g) := by
  have hnext : InGrid setup
      { g with nextSimulationTime := input.time + setup.performanceFrequency / 10 } :=
    ⟨⟨h.length, h.body, h.fruit⟩, h.head⟩
  refine (yields_moveSnake hnext).bind fun g₁ h₁ => ?_
  refine (yields_checkBounds hplayable h₁).bind fun r₂ h₂ => ?_
  exact (yields_checkTail hplayable h₂).bind fun r₃ h₃ => yields_eatFruit hplayable h₃

/-- A frame that comes to its end leaves everything inside the border, and draws it. -/
theorem yields_frame (hplayable : setup.Playable) {input : Input} (h : InGrid setup g) :
    Yields (fun r => InGrid setup r.1 ∧ draw setup r.1 = .ok r.2) (frame setup input g) := by
  have hsteer : InGrid setup { g with direction := steer g.direction input } :=
    ⟨⟨h.length, h.body, h.fruit⟩, h.head⟩
  have hdraw (g' : Game) (hg' : InGrid setup g') :
      Yields (fun r : Game × List Rectangle => InGrid setup r.1 ∧ draw setup r.1 = .ok r.2) (do
        let picture ← draw setup g'
        return (g', picture)) := by
    refine Yields.bind (Q := fun picture => draw setup g' = .ok picture) (fun _ hx => hx) ?_
    exact fun picture hpicture => Yields.pure ⟨hg', hpicture⟩
  simp only [frame]
  split
  · exact (yields_simulate hplayable hsteer).bind hdraw
  · exact hdraw _ hsteer

end Grid

/-- Whether a rectangle covers a pixel. -/
def Rectangle.Covers (r : Rectangle) (i j : Nat) : Prop := Framebuffer.Covers r.x r.y r.w r.h i j

instance (r : Rectangle) (i j : Nat) : Decidable (r.Covers i j) :=
  inferInstanceAs (Decidable (Framebuffer.Covers ..))

/-- The color that a rectangle gives to a pixel. -/
def Rectangle.color? (i j : Nat) (r : Rectangle) : Option Color565 :=
  if r.Covers i j then some r.color else none

/-- The color that rectangles one after another leave at a pixel. -/
def topColor (rectangles : List Rectangle) (i j : Nat) : Option Color565 :=
  (rectangles.filterMap (Rectangle.color? i j)).getLast?

/-- The color that the game has at a pixel: that of the snake, the fruit, the ground or the border.
There is none behind the last whole cell of a row. -/
def picture (setup : Setup) (g : Game) (i j : Nat) : Option Color565 :=
  let c : Cell := ⟨i / cellWidth, j / cellHeight⟩
  if c = g.head ∨ c ∈ g.body then some .green
  else if c = g.fruit then some .yellow
  else if (1 ≤ c.x ∧ c.x ≤ setup.gridWidth - 2) ∧ 1 ≤ c.y ∧ c.y ≤ setup.gridHeight - 2 then
    some .black
  else if c.x < setup.gridWidth ∨ c.y = 0 ∨ setup.gridHeight - 1 ≤ c.y then some .red
  else none

/-- The border and the ground. -/
def background (setup : Setup) : List Rectangle :=
  let right := (setup.gridWidth - 1) * cellWidth
  let bottom := (setup.gridHeight - 1) * cellHeight
  [⟨0, 0, setup.width, cellHeight, .red⟩,
    ⟨0, bottom, setup.width, setup.height - bottom, .red⟩,
    ⟨0, 0, cellWidth, setup.height, .red⟩,
    ⟨right, 0, cellWidth, setup.height, .red⟩,
    ⟨cellWidth, cellHeight, (setup.gridWidth - 2) * cellWidth,
      (setup.gridHeight - 2) * cellHeight, .black⟩]

/-- The rectangles that `draw` gives, for a game inside the border. -/
def rectangles (setup : Setup) (g : Game) : List Rectangle :=
  background setup ++ [cellRectangle g.fruit .yellow] ++ g.body.map (cellRectangle · .green) ++
    [cellRectangle g.head .green]

section Top

variable {front back : List Rectangle} {r : Rectangle} {i j : Nat}

theorem topColor_nil : topColor [] i j = none := rfl

theorem topColor_append :
    topColor (front ++ back) i j = (topColor back i j).or (topColor front i j) := by
  rw [topColor, List.filterMap_append, List.getLast?_append]
  rfl

theorem topColor_singleton : topColor [r] i j = r.color? i j := by
  rw [topColor, List.filterMap_cons, List.filterMap_nil]
  cases r.color? i j <;> rfl

theorem topColor_cons : topColor (r :: back) i j = (topColor back i j).or (r.color? i j) := by
  rw [← topColor_singleton, ← topColor_append]
  rfl

end Top

section Draw

variable {setup : Setup} {g : Game} {c : Cell} {i j : Nat}

theorem mul_cellWidth_le (setup : Setup) : setup.gridWidth * 32 ≤ setup.width :=
  Nat.div_mul_le_self setup.width cellWidth

theorem mul_cellHeight_le (setup : Setup) : setup.gridHeight * 32 ≤ setup.height :=
  Nat.div_mul_le_self setup.height cellHeight

/-- The rectangle of a cell is its cell. -/
theorem cellRectangle_eq (h : Inside setup c) (color : Color565) :
    cellRectangle c color = ⟨c.x * 32, c.y * 32, 32, 32, color⟩ := by
  have hw := gridWidth_lt setup
  have hh := gridHeight_lt setup
  obtain ⟨hleft, hright, htop, hbottom⟩ := h
  have hx : mul32 c.x cellWidth = c.x * 32 := mul32_of_lt (by rw [cellWidth]; omega)
  have hy : mul32 c.y cellHeight = c.y * 32 := mul32_of_lt (by rw [cellHeight]; omega)
  rw [cellRectangle, hx, hy]
  rfl

theorem cellRectangle_color? (h : Inside setup c) (color : Color565) :
    (cellRectangle c color).color? i j =
      if (⟨i / 32, j / 32⟩ : Cell) = c then some color else none := by
  rw [cellRectangle_eq h, Rectangle.color?]
  refine if_congr ?_ rfl rfl
  change ((c.x * 32 ≤ i ∧ i < c.x * 32 + 32) ∧ c.y * 32 ≤ j ∧ j < c.y * 32 + 32) ↔ _
  constructor
  · rintro ⟨hx, hy⟩
    have hcolumn : i / 32 = c.x := by omega
    have hrow : j / 32 = c.y := by omega
    rw [hcolumn, hrow]
  · intro hc
    rw [← hc]
    refine ⟨⟨?_, ?_⟩, ?_, ?_⟩ <;> simp only <;> omega

/-- The tail is drawn where its cells are. -/
theorem topColor_body {l : List Cell} (h : ∀ c ∈ l, Inside setup c) :
    topColor (l.map (cellRectangle · .green)) i j =
      if (⟨i / 32, j / 32⟩ : Cell) ∈ l then some .green else none := by
  induction l with
  | nil => rfl
  | cons c l ih =>
      rw [List.map_cons, topColor_cons, ih fun d hd => h d (List.mem_cons_of_mem c hd),
        cellRectangle_color? (h c List.mem_cons_self)]
      by_cases hmem : (⟨i / 32, j / 32⟩ : Cell) ∈ l
      · rw [if_pos hmem, if_pos (List.mem_cons_of_mem c hmem)]
        rfl
      · rw [if_neg hmem, Option.none_or]
        exact if_congr (by rw [List.mem_cons, or_iff_left hmem]) rfl rfl

theorem drawTail_eq (tail : Nat → Cell) (n i : Nat) (hn : i + n ≤ tailSize) :
    drawTail tail n i = .ok (((List.range' i n).map tail).map (cellRectangle · .green)) := by
  induction n generalizing i with
  | zero => rfl
  | succ n ih =>
      have hget : tailGet tail i = .ok (tail i) := if_pos (by omega)
      rw [drawTail, hget, ok_bind, ih (i + 1) (by omega), ok_bind]
      rfl

theorem draw_eq (hplayable : setup.Playable) (h : InGrid setup g) :
    draw setup g = .ok (rectangles setup g) := by
  have hw := gridWidth_lt setup
  have hh := gridHeight_lt setup
  have hw3 := hplayable.width
  have hh3 := hplayable.height
  have hheight := setup.height_lt
  have hbelow := mul_cellHeight_le setup
  have hlength := h.length
  have htail := drawTail_eq g.tail g.tailLength 0 (by omega)
  have hcells : (List.range' 0 g.tailLength).map g.tail = g.body := by
    rw [Game.body, cells, List.range_eq_range']
  have hright : mul32 (sub32 setup.gridWidth 1) cellWidth = (setup.gridWidth - 1) * cellWidth := by
    rw [sub32_of_le (by omega) (by omega), mul32_of_lt (by simp only [cellWidth]; omega)]
  have hbottom : mul32 (sub32 setup.gridHeight 1) cellHeight =
      (setup.gridHeight - 1) * cellHeight := by
    rw [sub32_of_le (by omega) (by omega), mul32_of_lt (by simp only [cellHeight]; omega)]
  have hwidth : mul32 (sub32 setup.gridWidth 2) cellWidth = (setup.gridWidth - 2) * cellWidth := by
    rw [sub32_of_le (by omega) (by omega), mul32_of_lt (by simp only [cellWidth]; omega)]
  have hinner : mul32 (sub32 setup.gridHeight 2) cellHeight =
      (setup.gridHeight - 2) * cellHeight := by
    rw [sub32_of_le (by omega) (by omega), mul32_of_lt (by simp only [cellHeight]; omega)]
  have hrest : sub32 setup.height ((setup.gridHeight - 1) * cellHeight) =
      setup.height - (setup.gridHeight - 1) * cellHeight :=
    sub32_of_le (by simp only [cellHeight]; omega) (by omega)
  simp only [draw, htail, ok_bind, hcells, hright, hbottom, hwidth, hinner, hrest]
  rfl

theorem topColor_background (hplayable : setup.Playable) (hi : i < setup.width)
    (hj : j < setup.height) :
    topColor (background setup) i j =
      if (1 ≤ i / 32 ∧ i / 32 ≤ setup.gridWidth - 2) ∧ 1 ≤ j / 32 ∧ j / 32 ≤ setup.gridHeight - 2
      then some .black
      else if i / 32 < setup.gridWidth ∨ j / 32 = 0 ∨ setup.gridHeight - 1 ≤ j / 32 then some .red
      else none := by
  have hw3 := hplayable.width
  have hh3 := hplayable.height
  have hwide := mul_cellWidth_le setup
  have hhigh := mul_cellHeight_le setup
  have htop : Framebuffer.Covers 0 0 setup.width 32 i j ↔ j / 32 = 0 := by
    unfold Framebuffer.Covers
    omega
  have hbottom : Framebuffer.Covers 0 ((setup.gridHeight - 1) * 32) setup.width
      (setup.height - (setup.gridHeight - 1) * 32) i j ↔ setup.gridHeight - 1 ≤ j / 32 := by
    unfold Framebuffer.Covers
    omega
  have hleft : Framebuffer.Covers 0 0 32 setup.height i j ↔ i / 32 = 0 := by
    unfold Framebuffer.Covers
    omega
  have hright : Framebuffer.Covers ((setup.gridWidth - 1) * 32) 0 32 setup.height i j ↔
      i / 32 = setup.gridWidth - 1 := by
    unfold Framebuffer.Covers
    omega
  have hground : Framebuffer.Covers 32 32 ((setup.gridWidth - 2) * 32)
      ((setup.gridHeight - 2) * 32) i j ↔ (1 ≤ i / 32 ∧ i / 32 ≤ setup.gridWidth - 2) ∧
        1 ≤ j / 32 ∧ j / 32 ≤ setup.gridHeight - 2 := by
    unfold Framebuffer.Covers
    omega
  simp only [background, topColor_cons, topColor_nil, Option.none_or, Rectangle.color?,
    Rectangle.Covers, cellWidth, cellHeight, htop, hbottom, hleft, hright, hground]
  by_cases hinner : (1 ≤ i / 32 ∧ i / 32 ≤ setup.gridWidth - 2) ∧
      1 ≤ j / 32 ∧ j / 32 ≤ setup.gridHeight - 2
  · rw [if_pos hinner, if_pos hinner]
    rfl
  · rw [if_neg hinner, if_neg hinner, Option.none_or]
    by_cases hborder : i / 32 < setup.gridWidth ∨ j / 32 = 0 ∨ setup.gridHeight - 1 ≤ j / 32
    · rw [if_pos hborder]
      have hone : i / 32 = setup.gridWidth - 1 ∨ i / 32 = 0 ∨ setup.gridHeight - 1 ≤ j / 32 ∨
          j / 32 = 0 := by omega
      grind
    · rw [if_neg hborder, if_neg (by omega), if_neg (by omega), if_neg (by omega),
        if_neg (by omega)]
      rfl

theorem picture_eq (setup : Setup) (g : Game) (i j : Nat) :
    picture setup g i j =
      if (⟨i / 32, j / 32⟩ : Cell) = g.head ∨ (⟨i / 32, j / 32⟩ : Cell) ∈ g.body then some .green
      else if (⟨i / 32, j / 32⟩ : Cell) = g.fruit then some .yellow
      else if (1 ≤ i / 32 ∧ i / 32 ≤ setup.gridWidth - 2) ∧
          1 ≤ j / 32 ∧ j / 32 ≤ setup.gridHeight - 2 then some .black
      else if i / 32 < setup.gridWidth ∨ j / 32 = 0 ∨ setup.gridHeight - 1 ≤ j / 32 then some .red
      else none := rfl

/-- The rectangles of a frame give the picture of the game. -/
theorem topColor_rectangles (hplayable : setup.Playable) (h : InGrid setup g)
    (hi : i < setup.width) (hj : j < setup.height) :
    topColor (rectangles setup g) i j = picture setup g i j := by
  rw [rectangles, topColor_append, topColor_append, topColor_append, topColor_singleton,
    topColor_singleton, topColor_body h.body, cellRectangle_color? h.head,
    cellRectangle_color? h.fruit, topColor_background hplayable hi hj, picture_eq]
  by_cases hhead : (⟨i / 32, j / 32⟩ : Cell) = g.head
  · rw [if_pos hhead, if_pos (Or.inl hhead), Option.some_or]
  · rw [if_neg hhead, Option.none_or]
    by_cases hbody : (⟨i / 32, j / 32⟩ : Cell) ∈ g.body
    · rw [if_pos hbody, if_pos (Or.inr hbody), Option.some_or]
    · rw [if_neg hbody, if_neg (not_or.mpr ⟨hhead, hbody⟩), Option.none_or]
      by_cases hfruit : (⟨i / 32, j / 32⟩ : Cell) = g.fruit
      · rw [if_pos hfruit, if_pos hfruit, Option.some_or]
      · rw [if_neg hfruit, if_neg hfruit, Option.none_or]

theorem cellRectangle_inside {c : Cell} (h : Inside setup c) (color : Color565) :
    (cellRectangle c color).x + (cellRectangle c color).w ≤ setup.width ∧
      (cellRectangle c color).y + (cellRectangle c color).h ≤ setup.height := by
  have hwide := mul_cellWidth_le setup
  have hhigh := mul_cellHeight_le setup
  obtain ⟨hleft, hright, htop, hbottom⟩ := h
  rw [cellRectangle_eq ⟨hleft, hright, htop, hbottom⟩]
  exact ⟨by simp only; omega, by simp only; omega⟩

/-- All rectangles of a frame are inside the screen. -/
theorem rectangles_inside (hplayable : setup.Playable) (h : InGrid setup g) {r : Rectangle}
    (hr : r ∈ rectangles setup g) : r.x + r.w ≤ setup.width ∧ r.y + r.h ≤ setup.height := by
  have hw3 := hplayable.width
  have hh3 := hplayable.height
  have hwide := mul_cellWidth_le setup
  have hhigh := mul_cellHeight_le setup
  rw [rectangles, List.mem_append, List.mem_append, List.mem_append, List.mem_singleton,
    List.mem_singleton, List.mem_map] at hr
  rcases hr with ((hr | rfl) | ⟨c, hc, rfl⟩) | rfl
  · simp only [background, cellWidth, cellHeight, List.mem_cons, List.not_mem_nil, or_false] at hr
    rcases hr with rfl | rfl | rfl | rfl | rfl <;> constructor <;> simp only <;> omega
  · exact cellRectangle_inside h.fruit _
  · exact cellRectangle_inside (h.body c hc) _
  · exact cellRectangle_inside h.head _

end Draw

theorem width_lt_smallScreen : 640 < 4294967296 := by decide

theorem height_lt_smallScreen : 480 < 4294967296 := by decide

/-- A screen of 640 by 480 pixels. -/
def smallScreen : Setup := ⟨640, 480, 1000000, width_lt_smallScreen, height_lt_smallScreen⟩

theorem smallScreen_playable : smallScreen.Playable := ⟨by decide, by decide⟩

end RPiKernel.Snake
