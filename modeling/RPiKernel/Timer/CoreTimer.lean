import RPiKernel.Containers.CircularFifo

/-!
# The timer of a core

Every core has a table of 64 scheduled timers. Scheduling, cancelling and the
timer interrupt all end in `setupTimerForNext`, which hands the sparks that are
due to the scheduler and programs the virtual timer for the next one.

## Implementation notes

Times are 64-bit and compared by the sign of their difference. An operation
reads the counter once. The type of sparks is a parameter; a spark without a
function is `none`. `handedOver` is not part of the machine: it records the
sparks passed to `AddSpark` with the counter reading, the latest one first. The
effects of an operation on the interrupt hardware are lists of single writes.
-/

namespace RPiKernel.Timer

open Interleaving Machine Containers

/-- The order of two times. -/
def timeLe (a b : BitVec 64) : Bool := decide ((a - b).toInt ≤ 0)

def timeLt (a b : BitVec 64) : Bool := decide ((a - b).toInt < 0)

def int64Max : Nat := 9223372036854775807

def getFarFuturePerformanceTime (currentTime : BitVec 64) : BitVec 64 :=
  currentTime + BitVec.ofNat 64 (int64Max / 2)

def invalidHandle : Nat := uint32Max

def maxScheduledTimers : Nat := 64

/-- The capacity of the spark queue of a core. -/
def maxSparks : Nat := 64

/-- A place of the table. The time of an empty place is a leftover. -/
structure ScheduledTimer (σ : Type) where
  triggerTimeTicks : BitVec 64 := 0
  spark : Option σ := none

/-- The virtual timer, its handler and its interrupt routing. -/
structure VirtualTimer where
  enable : Bool := false
  imask : Bool := false
  compare : BitVec 64 := 0
  handler : Bool := false
  routed : Bool := false
  deriving DecidableEq

/-- A single write of an operation on the interrupt hardware. -/
inductive RegisterWrite where
  | control (enable imask : Bool)
  | tval (value : BitVec 64)
  | handler (set : Bool)
  | routing (on : Bool)
  deriving DecidableEq

/-- Writing the timer value sets the compare value to the counter plus the low half
of the value, as a signed number. -/
def VirtualTimer.write (counter : BitVec 64) (timer : VirtualTimer) : RegisterWrite → VirtualTimer
  | .control enable imask => { timer with enable, imask }
  | .tval value => { timer with compare := counter + (value.truncate 32).signExtend 64 }
  | .handler set => { timer with handler := set }
  | .routing on => { timer with routed := on }

def enableCoreVirtualTimerInterrupt : List RegisterWrite :=
  [.control true false, .handler true, .routing true]

def disableCoreVirtualTimerInterrupt : List RegisterWrite :=
  [.handler false, .control false true, .routing false]

/-- The timers of a core, its spark queue and its virtual timer. `currentStart` is a
static variable of the scheduling function. -/
structure Core (σ : Type) where
  scheduledTimers : Nat → ScheduledTimer σ := fun _ => {}
  timerIsEnabled : Bool := false
  currentStart : Nat := 0
  pendingSparksFifo : CircularFifo σ := {}
  virtualTimer : VirtualTimer := {}
  handedOver : List (σ × BitVec 64) := []

namespace Core

variable {σ : Type}

def addSpark (core : Core σ) (spark : σ) : Except Fault (Core σ) := do
  return { core with pendingSparksFifo := ← core.pendingSparksFifo.push maxSparks spark }

/-- `GetNextScheduledSpark`: the spark to run, if there is one. -/
def getNextScheduledSpark (core : Core σ) : Except Fault (Option σ × Core σ) :=
  if core.pendingSparksFifo.isEmpty then
    .ok (none, core)
  else do
    let (spark, fifo) ← core.pendingSparksFifo.pop maxSparks
    return (spark, { core with pendingSparksFifo := fifo })

/-- The core whose timer `i` has been taken out and handed to the scheduler. -/
def deliver (core : Core σ) (currentTime : BitVec 64) (i : Nat) (spark : σ) :
    Except Fault (Core σ) :=
  addSpark { core with
    scheduledTimers := Function.update core.scheduledTimers i
      { core.scheduledTimers i with spark := none }
    handedOver := (spark, currentTime) :: core.handedOver } spark

/-- The rounds of the loop of `FindNextScheduledTimerTriggerTime` from place `i` on. -/
def findNextFrom (currentTime : BitVec 64) :
    Nat → Nat → Core σ → Nat → BitVec 64 → Except Fault (Core σ × Nat)
  | 0, _, core, nextTimer, _ => .ok (core, nextTimer)
  | remaining + 1, i, core, nextTimer, earliestTime =>
      match (core.scheduledTimers i).spark with
      | none => findNextFrom currentTime remaining (i + 1) core nextTimer earliestTime
      | some spark =>
          let triggerTime := (core.scheduledTimers i).triggerTimeTicks
          if timeLe triggerTime currentTime then do
            let core ← core.deliver currentTime i spark
            findNextFrom currentTime remaining (i + 1) core nextTimer earliestTime
          else if timeLt triggerTime earliestTime then
            findNextFrom currentTime remaining (i + 1) core i triggerTime
          else
            findNextFrom currentTime remaining (i + 1) core nextTimer earliestTime

def findNextScheduledTimerTriggerTime (core : Core σ) (currentTime : BitVec 64) :
    Except Fault (Core σ × Nat) :=
  findNextFrom currentTime maxScheduledTimers 0 core invalidHandle
    (getFarFuturePerformanceTime currentTime)

/-- The writes with which `SetupTimerForNext` ends. -/
def timerWrites (core : Core σ) (currentTime : BitVec 64) (nextTime : Nat) :
    List RegisterWrite :=
  if nextTime = invalidHandle then
    disableCoreVirtualTimerInterrupt
  else
    let ticksUntilFire := (core.scheduledTimers nextTime).triggerTimeTicks - currentTime
    .tval ticksUntilFire :: if core.timerIsEnabled then [] else enableCoreVirtualTimerInterrupt

def setupTimerForNext (core : Core σ) (currentTime : BitVec 64) : Except Fault (Core σ) := do
  let (core, nextTime) ← core.findNextScheduledTimerTriggerTime currentTime
  return { core with
    timerIsEnabled := if nextTime = invalidHandle then false else core.timerIsEnabled
    virtualTimer := (core.timerWrites currentTime nextTime).foldl (VirtualTimer.write currentTime)
      core.virtualTimer }

/-- The search for an empty place from the round `i` on. -/
def findEmptyFrom (core : Core σ) : Nat → Nat → Option Nat
  | 0, _ => none
  | remaining + 1, i =>
      let handle := add32 i core.currentStart % maxScheduledTimers
      if (core.scheduledTimers handle).spark.isNone then some handle
      else findEmptyFrom core remaining (i + 1)

/-- The core with a spark stored at a place. -/
def store (core : Core σ) (handle : Nat) (time : BitVec 64) (spark : σ) : Core σ :=
  { core with scheduledTimers := Function.update core.scheduledTimers handle ⟨time, some spark⟩ }

def scheduleSparkAtTime (core : Core σ) (currentTime absoluteTimeTicks : BitVec 64)
    (spark : Option σ) : Except Fault (Nat × Core σ) :=
  match spark with
  | none => .ok (invalidHandle, core)
  | some spark =>
      match core.findEmptyFrom maxScheduledTimers 0 with
      | none => .ok (invalidHandle, core)
      | some handle => do
          let core ← (core.store handle absoluteTimeTicks spark).setupTimerForNext currentTime
          return (handle, { core with currentStart := add32 core.currentStart 1 })

/-- The core without the spark at a place. -/
def clear (core : Core σ) (handle : Nat) : Core σ :=
  { core with
    scheduledTimers := Function.update core.scheduledTimers handle
      { core.scheduledTimers handle with spark := none } }

def cancelSpark (core : Core σ) (currentTime : BitVec 64) (handle : Nat) :
    Except Fault (Bool × Core σ) :=
  if handle ≥ maxScheduledTimers then
    .ok (false, core)
  else if (core.scheduledTimers handle).spark.isSome then do
    let core ← (core.clear handle).setupTimerForNext currentTime
    return (true, core)
  else
    .ok (false, core)

/-- The timer interrupt, up to the spark that it makes. -/
def handleArmVirtualTimerInterrupt (core : Core σ) (currentTime : BitVec 64) :
    Except Fault (Core σ) :=
  core.setupTimerForNext currentTime

end Core

end RPiKernel.Timer
