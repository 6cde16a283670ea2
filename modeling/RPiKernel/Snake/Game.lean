import Mathlib.Logic.Function.Basic
import RPiKernel.Machine.Arithmetic
import RPiKernel.Transition.System

/-!
# The snake

Once a tenth of a second the head moves by a cell, and the tail follows it. What the head meets
makes the game start again or, if it is the fruit, makes the tail longer by a cell. The tail is an
array of 100 cells, which no test protects.

## Implementation notes

A frame is given the keys that are pressed, the times that it reads and the pairs of numbers that
`rand` returns in it; `SpawnFruit` takes pairs until the fruit is not at the head, and does not end
where they are used up. The grid follows from the size of the screen, which stays the same. The
flashes and delays are left out.
-/

namespace RPiKernel.Snake

open Interleaving Machine Transition

def cellWidth : Nat := 32

def cellHeight : Nat := 32

/-- The number of elements of `tail`. -/
def tailSize : Nat := 100

structure Cell where
  x : Nat
  y : Nat
  deriving DecidableEq, Repr

inductive Direction where
  | none
  | up
  | down
  | left
  | right
  deriving DecidableEq, Repr

inductive Color565 where
  | red
  | black
  | yellow
  | green
  deriving DecidableEq, Repr

/-- A rectangle of one colour, as `WriteRectangle` takes it. -/
structure Rectangle where
  x : Nat
  y : Nat
  w : Nat
  h : Nat
  color : Color565
  deriving DecidableEq, Repr

/-- The size of the screen and the frequency of the performance counter. -/
structure Setup where
  width : Nat
  height : Nat
  performanceFrequency : UInt64
  width_lt : width < 4294967296
  height_lt : height < 4294967296

namespace Setup

def gridWidth (setup : Setup) : Nat := setup.width / cellWidth

def gridHeight (setup : Setup) : Nat := setup.height / cellHeight

end Setup

/-- The variables of the game. -/
structure Game where
  head : Cell
  tail : Nat → Cell
  tailLength : Nat
  fruit : Cell
  direction : Direction
  nextSimulationTime : UInt64

/-- What a frame reads: the keys and buttons, the time before its simulation and at a reset, and
the numbers from `rand`. -/
structure Input where
  right : Bool
  left : Bool
  down : Bool
  up : Bool
  time : UInt64
  resetTime : UInt64
  draws : List (Nat × Nat)

/-- `tail[i]`. -/
def tailGet (tail : Nat → Cell) (i : Nat) : Except Fault Cell :=
  if i < tailSize then .ok (tail i) else .error .outOfBounds

/-- `tail[i] = cell`. -/
def tailSet (tail : Nat → Cell) (i : Nat) (cell : Cell) : Except Fault (Nat → Cell) :=
  if i < tailSize then .ok (Function.update tail i cell) else .error .outOfBounds

/-- The loop that moves the tail, from an index down. -/
def moveTail : Nat → (Nat → Cell) → Except Fault (Nat → Cell)
  | 0, tail => .ok tail
  | i + 1, tail => do
      let cell ← tailGet tail i
      let tail ← tailSet tail (i + 1) cell
      moveTail i tail

/-- The loop that looks for the head among the next elements of the tail. -/
def hitsTail (tail : Nat → Cell) (head : Cell) : Nat → Nat → Except Fault Bool
  | 0, _ => .ok false
  | n + 1, i => do
      if (← tailGet tail i) = head then
        return true
      hitsTail tail head n (i + 1)

/-- What the keys make of the direction. The last test that succeeds counts. -/
def steer (direction : Direction) (input : Input) : Direction :=
  let direction := if input.right then .right else direction
  let direction := if input.left then .left else direction
  let direction := if input.down then .down else direction
  if input.up then .up else direction

/-- The head, a cell further. -/
def moveHead : Direction → Cell → Cell
  | .none, head => head
  | .up, head => { head with y := sub32 head.y 1 }
  | .down, head => { head with y := add32 head.y 1 }
  | .left, head => { head with x := sub32 head.x 1 }
  | .right, head => { head with x := add32 head.x 1 }

section Simulation

variable (setup : Setup)

/-- The head is in the border of the grid. -/
def OutOfBounds (head : Cell) : Prop :=
  head.x ≤ 0 ∨ head.x ≥ sub32 setup.gridWidth 1 ∨ head.y ≤ 0 ∨ head.y ≥ sub32 setup.gridHeight 1

instance (head : Cell) : Decidable (OutOfBounds setup head) :=
  inferInstanceAs (Decidable (_ ∨ _))

/-- `SpawnFruit`, with the numbers that it leaves. -/
def spawnFruit (head : Cell) : List (Nat × Nat) → Except Fault (Cell × List (Nat × Nat))
  | [] => .error .diverged
  | (x, y) :: draws =>
      let fruit : Cell :=
        ⟨add32 (x % sub32 setup.gridWidth 2) 1, add32 (y % sub32 setup.gridHeight 2) 1⟩
      if fruit = head then spawnFruit head draws else .ok (fruit, draws)

/-- `ResetSnake`. -/
def resetSnake (time : UInt64) (draws : List (Nat × Nat)) (g : Game) :
    Except Fault (Game × List (Nat × Nat)) := do
  let head : Cell := ⟨setup.gridWidth / 2, setup.gridHeight / 2⟩
  let (fruit, draws) ← spawnFruit setup head draws
  return ({ g with head, tailLength := 0, direction := .none, fruit, nextSimulationTime := time },
    draws)

/-- The tail and the head move. -/
def moveSnake (g : Game) : Except Fault Game := do
  if g.tailLength > 0 then
    let tail ← moveTail (sub32 g.tailLength 1) g.tail
    let tail ← tailSet tail 0 g.head
    return { g with tail, head := moveHead g.direction g.head }
  else
    return { g with head := moveHead g.direction g.head }

/-- A head that is in the border starts the game again. -/
def checkBounds (time : UInt64) (draws : List (Nat × Nat)) (g : Game) :
    Except Fault (Game × List (Nat × Nat)) :=
  if OutOfBounds setup g.head then resetSnake setup time draws g else .ok (g, draws)

/-- A head that is in the tail starts the game again. -/
def checkTail (time : UInt64) (draws : List (Nat × Nat)) (g : Game) :
    Except Fault (Game × List (Nat × Nat)) := do
  if ← hitsTail g.tail g.head g.tailLength 0 then
    resetSnake setup time draws g
  else
    return (g, draws)

/-- A head that is at the fruit is added to the tail. -/
def eatFruit (draws : List (Nat × Nat)) (g : Game) : Except Fault Game := do
  if g.head = g.fruit then
    let (fruit, _) ← spawnFruit setup g.head draws
    let tail ← tailSet g.tail g.tailLength g.head
    return { g with fruit, tail, tailLength := add32 g.tailLength 1 }
  else
    return g

/-- The simulation of a frame. -/
def simulate (input : Input) (g : Game) : Except Fault Game := do
  let g ← moveSnake
    { g with nextSimulationTime := input.time + setup.performanceFrequency / 10 }
  let (g, draws) ← checkBounds setup input.resetTime input.draws g
  let (g, draws) ← checkTail setup input.resetTime draws g
  eatFruit setup draws g

/-- The rectangle of a cell. -/
def cellRectangle (cell : Cell) (color : Color565) : Rectangle :=
  ⟨mul32 cell.x cellWidth, mul32 cell.y cellHeight, cellWidth, cellHeight, color⟩

/-- The loop that draws the next elements of the tail. -/
def drawTail (tail : Nat → Cell) : Nat → Nat → Except Fault (List Rectangle)
  | 0, _ => .ok []
  | n + 1, i => do
      let cell ← tailGet tail i
      let rest ← drawTail tail n (i + 1)
      return cellRectangle cell .green :: rest

/-- The rectangles that a frame draws. -/
def draw (g : Game) : Except Fault (List Rectangle) := do
  let right := mul32 (sub32 setup.gridWidth 1) cellWidth
  let bottom := mul32 (sub32 setup.gridHeight 1) cellHeight
  let tail ← drawTail g.tail g.tailLength 0
  return [⟨0, 0, setup.width, cellHeight, .red⟩,
    ⟨0, bottom, setup.width, sub32 setup.height bottom, .red⟩,
    ⟨0, 0, cellWidth, setup.height, .red⟩,
    ⟨right, 0, cellWidth, setup.height, .red⟩,
    ⟨cellWidth, cellHeight, mul32 (sub32 setup.gridWidth 2) cellWidth,
      mul32 (sub32 setup.gridHeight 2) cellHeight, .black⟩,
    cellRectangle g.fruit .yellow] ++ tail ++ [cellRectangle g.head .green]

/-- A frame of `Snake`, with the rectangles that it draws. -/
def frame (input : Input) (g : Game) : Except Fault (Game × List Rectangle) := do
  let g := { g with direction := steer g.direction input }
  let g ← if input.time ≥ g.nextSimulationTime then simulate setup input g else .ok g
  let picture ← draw setup g
  return (g, picture)

/-- The game, from its first reset on. A frame that does not come to its end has no effect. -/
def snakeSystem : System Game Input where
  Initial g := ∃ before time draws rest, resetSnake setup time draws before = .ok (g, rest)
  next g input := (frame setup input g).toOption.map Prod.fst

end Simulation

end RPiKernel.Snake
