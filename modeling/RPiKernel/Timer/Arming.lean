import RPiKernel.Timer.TimerSystem

/-!
# Arming the virtual timer

The timer value is a signed 32-bit number of ticks, and the search for the next
time begins a quarter of the counter range ahead. The timer is armed for the
earliest pending time exactly when that time is less than 2^31 ticks away.
-/

namespace RPiKernel.Timer

open Interleaving Machine Containers Transition

/-- The timer interrupts its core once the counter reaches the compare value. -/
def VirtualTimer.interruptEnabled (timer : VirtualTimer) : Bool :=
  timer.enable && !timer.imask && timer.routed

section Pending

variable {σ : Type} (table : Nat → ScheduledTimer σ) (now : BitVec 64)

/-- The place holds a spark. -/
def Pending (j : Nat) : Prop := j < maxScheduledTimers ∧ (table j).spark ≠ none

/-- The time is that of a pending spark, and no pending spark comes before it. -/
def EarliestPending (time : BitVec 64) : Prop :=
  ∃ j, Pending table j ∧ (table j).triggerTimeTicks = time ∧
    ∀ k, Pending table k → timeLe time (table k).triggerTimeTicks = true

/-- The interrupt is disabled if nothing is pending, and otherwise enabled for the
earliest pending time. -/
def Armed (timer : VirtualTimer) : Prop :=
  (timer.interruptEnabled = false ↔ ∀ j, ¬ Pending table j) ∧
    (timer.interruptEnabled = true → EarliestPending table timer.compare)

/-- A time ahead within the reach of the timer value. -/
def WithinTimerValue (j : Nat) : Prop :=
  ticksUntil now (table j).triggerTimeTicks < 2147483648

/-- If anything in the table lies ahead, then something within the reach of the timer
value does. -/
def ReachableByTimerValue : Prop :=
  (∀ j < maxScheduledTimers, ¬ Later table now j) ∨
    ∃ j < maxScheduledTimers, Later table now j ∧ WithinTimerValue table now j

instance : Decidable (ReachableByTimerValue table now) :=
  inferInstanceAs (Decidable ((∀ j < maxScheduledTimers, ¬ Later table now j) ∨
    ∃ j < maxScheduledTimers, Later table now j ∧
      ticksUntil now (table j).triggerTimeTicks < 2147483648))

variable {table now}

/-- After the set-up, what lies ahead is pending. -/
theorem pending_sweep (j : Nat) :
    Pending (sweep table now 0 maxScheduledTimers) j ↔
      j < maxScheduledTimers ∧ Later table now j := by
  refine and_congr_right fun hj => ?_
  rw [Later, sweep]
  cases hle : timeLe (table j).triggerTimeTicks now with
  | true => simp [hj]
  | false => simp

theorem ticksUntil_inj {a b : BitVec 64} (h : ticksUntil now a = ticksUntil now b) : a = b := by
  have heq : a - now = b - now := BitVec.eq_of_toNat_eq h
  calc
    a = a - now + now := (BitVec.sub_add_cancel a now).symm
    _ = b := by rw [heq, BitVec.sub_add_cancel]

/-- The compare value after the timer value has been written. -/
theorem compare_eq_iff {time : BitVec 64} (hlater : ticksUntil now time < 9223372036854775808) :
    now + ((time - now).truncate 32).signExtend 64 = time ↔ ticksUntil now time < 2147483648 := by
  have hcancel : now + ((time - now).truncate 32).signExtend 64 = time ↔
      ((time - now).truncate 32).signExtend 64 = time - now := by
    rw [BitVec.eq_sub_iff_add_eq, BitVec.add_comm]
  rw [hcancel, ← BitVec.toInt_inj, BitVec.toInt_signExtend_of_le (by decide),
    BitVec.toInt_eq_toNat_cond, BitVec.toInt_eq_toNat_cond, BitVec.truncate_eq_setWidth,
    BitVec.toNat_setWidth]
  simp only [ticksUntil] at hlater ⊢
  split <;> split <;> omega

/-- The earliest pending time of a table that has just been set up. -/
theorem earliestPending_iff {k : Nat} (hk : k < maxScheduledTimers) (hlater : Later table now k)
    (hmin : ∀ j < maxScheduledTimers, Later table now j →
      ticksUntil now (table k).triggerTimeTicks ≤ ticksUntil now (table j).triggerTimeTicks)
    (time : BitVec 64) :
    EarliestPending (sweep table now 0 maxScheduledTimers) time ↔
      time = (table k).triggerTimeTicks := by
  constructor
  · rintro ⟨j, hj, rfl, hfirst⟩
    rw [pending_sweep] at hj
    have hle := hfirst k ((pending_sweep k).mpr ⟨hk, hlater⟩)
    rw [sweep_triggerTimeTicks, sweep_triggerTimeTicks,
      timeLe_iff_of_ahead hj.2.ticksUntil_lt hlater.ticksUntil_lt] at hle
    rw [sweep_triggerTimeTicks]
    exact ticksUntil_inj (Nat.le_antisymm hle (hmin j hj.1 hj.2))
  · rintro rfl
    refine ⟨k, (pending_sweep k).mpr ⟨hk, hlater⟩, sweep_triggerTimeTicks 0 _ k, fun j hj => ?_⟩
    rw [pending_sweep] at hj
    rw [sweep_triggerTimeTicks, timeLe_iff_of_ahead hlater.ticksUntil_lt hj.2.ticksUntil_lt]
    exact hmin j hj.1 hj.2

end Pending

namespace Core

variable {σ : Type} {core core' : Core σ} {now : BitVec 64} {q : List σ}

/-- With the flag clear, every set-up with something ahead enables the interrupt. -/
theorem settled_virtualTimer (hflag : core.timerIsEnabled = false) (fifo : CircularFifo σ) :
    (core.settled now fifo).virtualTimer =
      if nextPlace core.scheduledTimers now = invalidHandle then
        { core.virtualTimer with enable := false, imask := true, handler := false, routed := false }
      else
        let time := (core.scheduledTimers (nextPlace core.scheduledTimers now)).triggerTimeTicks
        { enable := true, imask := false, handler := true, routed := true
          compare := now + ((time - now).truncate 32).signExtend 64 } := by
  simp only [settled, timerWrites, hflag]
  split <;> rfl

theorem setupTimerForNext_armed_iff (h : core.pendingSparksFifo.Holds maxSparks q)
    (hflag : core.timerIsEnabled = false) (hok : core.setupTimerForNext now = .ok core') :
    Armed core'.scheduledTimers core'.virtualTimer ↔
      ReachableByTimerValue core.scheduledTimers now := by
  obtain ⟨fifo, rfl, -⟩ := setupTimerForNext_ok h hok
  have htable : (core.settled now fifo).scheduledTimers =
      sweep core.scheduledTimers now 0 maxScheduledTimers := rfl
  rw [settled_virtualTimer hflag, htable]
  rcases nextPlace_spec core.scheduledTimers now with
    ⟨hnext, hfar⟩ | ⟨hlt, hlater, hnear, hmin⟩
  · -- the interrupt is off, and everything ahead is out of reach
    have hnone : (∀ j, ¬ Pending (sweep core.scheduledTimers now 0 maxScheduledTimers) j) ↔
        ∀ j < maxScheduledTimers, ¬ Later core.scheduledTimers now j := by
      simp only [pending_sweep, not_and]
    have hout : ¬ ∃ j < maxScheduledTimers, Later core.scheduledTimers now j ∧
        WithinTimerValue core.scheduledTimers now j := by
      rintro ⟨j, hj, hlater, hwithin⟩
      have hle := hfar j hj hlater
      rw [WithinTimerValue] at hwithin
      omega
    rw [if_pos hnext, ReachableByTimerValue, or_iff_left hout, ← hnone, Armed]
    simp [VirtualTimer.interruptEnabled]
  · -- the interrupt is on, for the compare value of the earliest time
    have hne : nextPlace core.scheduledTimers now ≠ invalidHandle := by
      intro heq
      rw [heq] at hlt
      exact absurd hlt (by decide)
    have hsome : ¬ ∀ j, ¬ Pending (sweep core.scheduledTimers now 0 maxScheduledTimers) j :=
      fun hall => hall _ ((pending_sweep _).mpr ⟨hlt, hlater⟩)
    have hreach : ReachableByTimerValue core.scheduledTimers now ↔
        WithinTimerValue core.scheduledTimers now (nextPlace core.scheduledTimers now) := by
      constructor
      · rintro (hall | ⟨j, hj, hl, hwithin⟩)
        · exact absurd hlater (hall _ hlt)
        · exact (hmin j hj hl).trans_lt hwithin
      · exact fun hwithin => Or.inr ⟨_, hlt, hlater, hwithin⟩
    rw [if_neg hne, hreach, Armed]
    simp only [VirtualTimer.interruptEnabled, hsome, earliestPending_iff hlt hlater hmin,
      compare_eq_iff hlater.ticksUntil_lt, WithinTimerValue]
    simp

/-- An empty core on which a spark has been stored at the place 0. -/
def withOneSpark (time : BitVec 64) : Core (Nat × Unit) :=
  ({} : Core (Nat × Unit)).store 0 time (0, ())

theorem withOneSpark_callsSetup (time : BitVec 64) :
    ({} : TimerState Unit).CallsSetup (.schedule 0 time (some ())) (withOneSpark time) 0 :=
  TimerState.CallsSetup.schedule rfl

/-- The set-up with nothing due and an empty queue. -/
theorem withOneSpark_setup (time : BitVec 64)
    (h : dueSparks (withOneSpark time).scheduledTimers 0 = []) :
    ∃ core', (withOneSpark time).setupTimerForNext 0 = .ok core' := by
  have hempty : (withOneSpark time).pendingSparksFifo.Holds maxSparks [] :=
    CircularFifo.holds_empty (by decide)
  obtain ⟨fifo, hsetup, -⟩ := setupTimerForNext_spec 0 hempty (by rw [h]; decide)
  exact ⟨_, hsetup⟩

end Core

end RPiKernel.Timer
