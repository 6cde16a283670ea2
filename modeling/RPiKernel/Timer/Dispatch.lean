import RPiKernel.Timer.Arming

/-!
# Dispatching the virtual timer interrupt

`SetupTimerForNext` ends with single writes to the interrupt hardware and to the
handler, and in thread mode the timer interrupt may strike between them. The
dispatcher finds a handler except in two places: after the disabling has stored
the null handler and before it has written the control register, and, with the
interrupt still routed, after an enabling that found no handler has written the
control register and before it has stored its own.

## Implementation notes

The table part of a call is one step, each write of its end another. An interrupt
runs the handler and further complete operations of the sparks that it starts.
-/

namespace RPiKernel.Timer

open Interleaving Machine Containers Transition

variable {σ : Type}

namespace Core

/-- The set-up of the timer up to its writes. -/
def beginSetup (core : Core σ) (now : BitVec 64) : Except Fault (Core σ × List RegisterWrite) := do
  let (core, nextTime) ← core.findNextScheduledTimerTriggerTime now
  return ({ core with
    timerIsEnabled := if nextTime = invalidHandle then false else core.timerIsEnabled },
    core.timerWrites now nextTime)

/-- The set-up is its beginning and its writes. -/
theorem setupTimerForNext_eq (core : Core σ) (now : BitVec 64) :
    core.setupTimerForNext now = (core.beginSetup now).map fun result =>
      { result.1 with
        virtualTimer := result.2.foldl (VirtualTimer.write now) result.1.virtualTimer } := by
  rw [setupTimerForNext, beginSetup]
  cases core.findNextScheduledTimerTriggerTime now with
  | error fault => rfl
  | ok result => rfl

variable {core core' : Core σ} {now : BitVec 64} {q : List σ} {writes : List RegisterWrite}

/-- With the flag clear, the set-up ends with a disabling or with a timer value and an
enabling. -/
theorem timerWrites_cases (hflag : core.timerIsEnabled = false) (next : Nat) :
    core.timerWrites now next = disableCoreVirtualTimerInterrupt ∨
      ∃ value, core.timerWrites now next = .tval value :: enableCoreVirtualTimerInterrupt := by
  rw [timerWrites, hflag]
  split
  · exact Or.inl rfl
  · exact Or.inr ⟨_, rfl⟩

/-- The set-up up to its writes does not touch the virtual timer. -/
theorem beginSetup_ok (h : core.pendingSparksFifo.Holds maxSparks q)
    (hflag : core.timerIsEnabled = false) (hok : core.beginSetup now = .ok (core', writes)) :
    (∃ q', core'.pendingSparksFifo.Holds maxSparks q') ∧ core'.timerIsEnabled = false ∧
      core'.virtualTimer = core.virtualTimer ∧
      (writes = disableCoreVirtualTimerInterrupt ∨
        ∃ value, writes = .tval value :: enableCoreVirtualTimerInterrupt) := by
  rw [beginSetup, findNextScheduledTimerTriggerTime] at hok
  by_cases hroom : q.length + (dueSparks core.scheduledTimers now).length < maxSparks
  · obtain ⟨fifo, hwalk, hfifo⟩ := findNextFrom_spec maxScheduledTimers 0 invalidHandle
      (getFarFuturePerformanceTime now) h hroom
    rw [hwalk] at hok
    cases hok
    refine ⟨⟨_, hfifo⟩, ?_, rfl, timerWrites_cases (by exact hflag) _⟩
    dsimp only
    rw [hflag, ite_self]
  · obtain ⟨message, hpanic⟩ := findNextFrom_panics maxScheduledTimers 0 invalidHandle
      (getFarFuturePerformanceTime now) h (Nat.le_of_not_lt hroom)
    rw [hpanic] at hok
    cases hok

end Core

/-- Without a handler the interrupt is off. -/
def Masked (timer : VirtualTimer) : Prop :=
  timer.handler = false → timer.enable = false ∨ timer.imask = true

/-- A complete set-up leaves the interrupt off or with a handler. -/
theorem masked_settled {core : Core σ} (hflag : core.timerIsEnabled = false) (now : BitVec 64)
    (fifo : CircularFifo σ) : Masked (core.settled now fifo).virtualTimer := by
  rw [Core.settled_virtualTimer hflag]
  split
  · exact fun _ => Or.inl rfl
  · exact fun hnull => Bool.noConfusion hnull

/-- The timers, the writes that the call in progress has still to do, and the counter. -/
structure Dispatching (σ : Type) where
  timers : TimerState σ := {}
  writes : List RegisterWrite := []
  counter : BitVec 64 := 0

inductive DispatchAction (σ : Type) where
  | tick (counter : BitVec 64)
  | schedule (time : BitVec 64) (spark : σ)
  | cancel (handle : Nat)
  | write
  | interrupt (operations : List (TimerAction σ))

namespace Dispatching

/-- The timer has reached its compare value, and its interrupt is not masked and routed. -/
def irqPending (s : Dispatching σ) : Bool :=
  let timer := s.timers.core.virtualTimer
  timer.enable && !timer.imask && timeLe timer.compare s.counter && timer.routed

/-- The call goes on with the writes of its set-up. -/
def beginSetup (s : Dispatching σ) (core : Core (Nat × σ)) : Option (Dispatching σ) :=
  match core.beginSetup s.counter with
  | .ok (core, writes) => some { s with timers := { s.timers with core }, writes }
  | .error _ => none

def next (s : Dispatching σ) : DispatchAction σ → Option (Dispatching σ)
  | .tick counter => some { s with counter }
  | .schedule time spark =>
      if s.writes.isEmpty then
        match s.timers.core.findEmptyFrom maxScheduledTimers 0 with
        | none => some s
        | some handle => beginSetup
            { s with timers := { s.timers with calls := s.timers.calls + 1 } }
            { s.timers.core.store handle time (s.timers.calls, spark) with
              currentStart := add32 s.timers.core.currentStart 1 }
      else
        none
  | .cancel handle =>
      if s.writes.isEmpty then
        if handle < maxScheduledTimers ∧ (s.timers.core.scheduledTimers handle).spark.isSome then
          beginSetup s (s.timers.core.clear handle)
        else
          some s
      else
        none
  | .write =>
      match s.writes with
      | [] => none
      | w :: writes => some { s with
          timers := { s.timers with
            core := { s.timers.core with
              virtualTimer := s.timers.core.virtualTimer.write s.counter w } }
          writes }
  | .interrupt operations =>
      if s.irqPending ∧ s.timers.core.virtualTimer.handler then
        match s.timers.operations (.interrupt s.counter :: operations) with
        | some timers => some { s with timers }
        | none => none
      else
        none

end Dispatching

/-- The runs of a core whose calls are interrupted by the virtual timer. -/
def dispatchSystem (σ : Type) : System (Dispatching σ) (DispatchAction σ) where
  Initial s := s = {}
  next := Dispatching.next

namespace Dispatching

/-- The dispatcher finds a handler for the virtual timer. -/
def FindsHandler (s : Dispatching σ) : DispatchAction σ → Prop
  | .interrupt _ => s.irqPending = true → s.timers.core.virtualTimer.handler = true
  | _ => True

instance (s : Dispatching σ) (a : DispatchAction σ) : Decidable (FindsHandler s a) :=
  match a with
  | .interrupt _ => inferInstanceAs
      (Decidable (s.irqPending = true → s.timers.core.virtualTimer.handler = true))
  | .tick _ => isTrue trivial
  | .schedule _ _ => isTrue trivial
  | .cancel _ => isTrue trivial
  | .write => isTrue trivial

/-- The disabling has stored the null handler and not yet written the control register. -/
def beforeControl (s : Dispatching σ) : Prop := s.writes = [.control false true, .routing false]

/-- The enabling has written the control register and not yet stored its handler. -/
def beforeHandler (s : Dispatching σ) : Prop := s.writes = [.handler true, .routing true]

/-- The virtual timer does not strike while a disabling is about to write the control
register, nor while an enabling that found no handler is about to store its own. -/
def StrikesElsewhere (s : Dispatching σ) : DispatchAction σ → Prop
  | .interrupt _ => s.irqPending = true → ¬ s.beforeControl ∧
      (s.beforeHandler → s.timers.core.virtualTimer.handler = true)
  | _ => True

variable {s s' : Dispatching σ}

/-- What is left of the writes of a set-up. -/
def IsRest (writes : List RegisterWrite) : Prop :=
  writes = [] ∨ writes = disableCoreVirtualTimerInterrupt ∨
    writes = [.control false true, .routing false] ∨ writes = [.routing false] ∨
    (∃ value, writes = .tval value :: enableCoreVirtualTimerInterrupt) ∨
    writes = enableCoreVirtualTimerInterrupt ∨ writes = [.handler true, .routing true] ∨
    writes = [.routing true]

/-- The interrupt is off or has a handler, except before the two writes. -/
structure DispatchSound (s : Dispatching σ) : Prop where
  wellformed : s.timers.Wellformed
  rest : IsRest s.writes
  masked : ¬ s.beforeControl → ¬ s.beforeHandler → Masked s.timers.core.virtualTimer
  null : s.beforeControl → s.timers.core.virtualTimer.handler = false

/-- A state whose interrupt is off or has a handler. -/
theorem dispatchSound_of_masked (hwf : s.timers.Wellformed) (hrest : IsRest s.writes)
    (hne : s.writes ≠ [.control false true, .routing false])
    (hmasked : Masked s.timers.core.virtualTimer) : DispatchSound s :=
  ⟨hwf, hrest, fun _ _ => hmasked, fun hbefore => absurd hbefore hne⟩

/-- A write of the call in progress. -/
theorem DispatchSound.write (h : DispatchSound s) (hs : s.next .write = some s') :
    DispatchSound s' := by
  have hmasked := h.masked
  have hwf := h.wellformed
  rw [beforeControl, beforeHandler] at hmasked
  rw [Dispatching.next] at hs
  rcases h.rest with hw | hw | hw | hw | ⟨value, hw⟩ | hw | hw | hw
  all_goals
    rw [hw] at hs hmasked
    cases hs
  · -- the null handler is stored
    exact ⟨⟨hwf.holds, hwf.timerIsEnabled_eq⟩, by simp [IsRest], fun hnot => absurd rfl hnot,
      fun _ => rfl⟩
  · -- the control register is written
    exact dispatchSound_of_masked ⟨hwf.holds, hwf.timerIsEnabled_eq⟩ (by simp [IsRest]) (by simp)
      fun _ => Or.inl rfl
  · exact dispatchSound_of_masked ⟨hwf.holds, hwf.timerIsEnabled_eq⟩ (by simp [IsRest]) (by simp)
      (hmasked (by simp) (by simp))
  · exact dispatchSound_of_masked ⟨hwf.holds, hwf.timerIsEnabled_eq⟩ (by simp [IsRest])
      (by simp [enableCoreVirtualTimerInterrupt])
      (hmasked (by simp [enableCoreVirtualTimerInterrupt]) (by simp [enableCoreVirtualTimerInterrupt]))
  · -- the interrupt is enabled, with the handler that is there
    exact ⟨⟨hwf.holds, hwf.timerIsEnabled_eq⟩, by simp [IsRest], fun _ hnot => absurd rfl hnot,
      fun hbefore => by simp [beforeControl] at hbefore⟩
  · -- the handler is stored
    exact dispatchSound_of_masked ⟨hwf.holds, hwf.timerIsEnabled_eq⟩ (by simp [IsRest]) (by simp)
      fun hnull => Bool.noConfusion hnull
  · exact dispatchSound_of_masked ⟨hwf.holds, hwf.timerIsEnabled_eq⟩ (by simp [IsRest]) (by simp)
      (hmasked (by simp) (by simp))

/-- The table part of a call. -/
theorem beginSetup_sound {core : Core (Nat × σ)} (hs : s.beginSetup core = some s')
    (hwf : s.timers.Wellformed)
    (hfifo : core.pendingSparksFifo = s.timers.core.pendingSparksFifo)
    (hflag : core.timerIsEnabled = s.timers.core.timerIsEnabled)
    (htimer : core.virtualTimer = s.timers.core.virtualTimer)
    (hmasked : Masked s.timers.core.virtualTimer) : DispatchSound s' := by
  obtain ⟨q, hq⟩ := hwf.holds
  rw [Dispatching.beginSetup] at hs
  split at hs
  · next core' writes hok =>
    cases hs
    obtain ⟨hqueue, hflag', htimer', hwrites⟩ :=
      Core.beginSetup_ok (hfifo ▸ hq) (hflag.trans hwf.timerIsEnabled_eq) hok
    apply dispatchSound_of_masked ⟨hqueue, hflag'⟩
    · rcases hwrites with rfl | ⟨value, rfl⟩
      · exact Or.inr (Or.inl rfl)
      · exact Or.inr (Or.inr (Or.inr (Or.inr (Or.inl ⟨value, rfl⟩))))
    · rcases hwrites with rfl | ⟨value, rfl⟩
      · simp [disableCoreVirtualTimerInterrupt]
      · simp
    · dsimp only
      rw [htimer', htimer]
      exact hmasked
  · cases hs

/-- Complete operations leave the interrupt off or with a handler. -/
theorem masked_operations {t t' : TimerState σ} (hwf : t.Wellformed)
    (hmasked : Masked t.core.virtualTimer) (as : List (TimerAction σ))
    (h : t.operations as = some t') : t'.Wellformed ∧ Masked t'.core.virtualTimer := by
  induction as generalizing t with
  | nil =>
      cases h
      exact ⟨hwf, hmasked⟩
  | cons a as ih =>
      obtain ⟨t₁, hnext, hrest⟩ := TimerState.operations_cons h
      refine ih (hwf.next a hnext) ?_ hrest
      obtain ⟨q, hq⟩ := hwf.holds
      rcases TimerState.next_cases hq a hnext with hquiet |
        ⟨now, time, spark, handle, core₁, -, -, hsetup, rfl⟩ |
        ⟨now, handle, spark, core₁, -, -, -, hsetup, rfl⟩ | ⟨now, core₁, -, hsetup, rfl⟩
      · rw [hquiet.core_eq]
        exact hmasked
      all_goals
        obtain ⟨fifo, rfl, -⟩ := Core.setupTimerForNext_ok (by exact hq) hsetup
        exact masked_settled (by exact hwf.timerIsEnabled_eq) now fifo

theorem irqPending_imp (h : s.irqPending = true) :
    s.timers.core.virtualTimer.enable = true ∧ s.timers.core.virtualTimer.imask = false := by
  simp only [irqPending, Bool.and_eq_true, Bool.not_eq_true'] at h
  exact ⟨h.1.1.1, h.1.1.2⟩

/-- Where the interrupt strikes elsewhere, it is off or has a handler. -/
theorem DispatchSound.masked_of_strikes (h : DispatchSound s) (operations : List (TimerAction σ))
    (hpending : s.irqPending = true) (ha : StrikesElsewhere s (.interrupt operations)) :
    ¬ s.beforeControl ∧ Masked s.timers.core.virtualTimer := by
  obtain ⟨hcontrol, hhandler⟩ := ha hpending
  refine ⟨hcontrol, ?_⟩
  by_cases hbefore : s.beforeHandler
  · exact fun hnull => absurd (hnull.symm.trans (hhandler hbefore)) Bool.false_ne_true
  · exact h.masked hcontrol hbefore

theorem DispatchSound.next (h : DispatchSound s) (a : DispatchAction σ) (ha : StrikesElsewhere s a)
    (hs : s.next a = some s') : DispatchSound s' := by
  have hidle : s.writes = [] → Masked s.timers.core.virtualTimer := by
    intro hw
    have hmasked := h.masked
    rw [beforeControl, beforeHandler, hw] at hmasked
    exact hmasked (by simp) (by simp)
  cases a with
  | tick counter =>
      cases hs
      exact ⟨h.wellformed, h.rest, h.masked, h.null⟩
  | schedule time spark =>
      rw [Dispatching.next] at hs
      split at hs
      · next hw =>
        split at hs
        · cases hs
          exact h
        · exact beginSetup_sound hs (by exact ⟨h.wellformed.holds, h.wellformed.timerIsEnabled_eq⟩)
            rfl rfl rfl (hidle (List.isEmpty_iff.mp hw))
      · cases hs
  | cancel handle =>
      rw [Dispatching.next] at hs
      split at hs
      · next hw =>
        split at hs
        · exact beginSetup_sound hs h.wellformed rfl rfl rfl (hidle (List.isEmpty_iff.mp hw))
        · cases hs
          exact h
      · cases hs
  | write => exact h.write hs
  | interrupt operations =>
      rw [Dispatching.next] at hs
      split at hs
      · next hpending =>
        obtain ⟨hcontrol, hmasked⟩ := h.masked_of_strikes operations hpending.1 ha
        split at hs
        · next timers hoperations =>
          cases hs
          obtain ⟨hwf, hmasked'⟩ := masked_operations h.wellformed hmasked _ hoperations
          exact dispatchSound_of_masked hwf h.rest hcontrol hmasked'
        · cases hs
      · cases hs

/-- The dispatcher finds a handler exactly where the interrupt strikes elsewhere. -/
theorem findsHandler_iff (h : DispatchSound s) (a : DispatchAction σ) :
    FindsHandler s a ↔ StrikesElsewhere s a := by
  cases a with
  | interrupt operations =>
      constructor
      · intro hfinds hpending
        have hhandler := hfinds hpending
        refine ⟨fun hbefore => ?_, fun _ => hhandler⟩
        exact absurd ((h.null hbefore).symm.trans hhandler) Bool.false_ne_true
      · intro hstrikes hpending
        have hmasked := (h.masked_of_strikes operations hpending hstrikes).2
        obtain ⟨henable, himask⟩ := irqPending_imp hpending
        by_contra hnull
        rcases hmasked (Bool.eq_false_iff.mpr hnull) with hoff | hoff
        · exact absurd (hoff.symm.trans henable) Bool.false_ne_true
        · exact absurd (himask.symm.trans hoff) Bool.false_ne_true
  | tick counter => exact Iff.rfl
  | schedule time spark => exact Iff.rfl
  | cancel handle => exact Iff.rfl
  | write => exact Iff.rfl

theorem dispatchSound_initial : DispatchSound ({} : Dispatching σ) :=
  dispatchSound_of_masked TimerState.wellformed_initial (Or.inl rfl) (by simp) fun _ => Or.inl rfl

end Dispatching

/-- In every sequence of calls, writes and interrupts, the dispatcher always finds a handler if
and only if the virtual timer never strikes while a disabling is about to write the
control register, or an enabling that found no handler is about to store its own. -/
theorem dispatcher_finds_handler_iff (actions : List (DispatchAction σ)) :
    (dispatchSystem σ).StepsMeet Dispatching.FindsHandler {} actions ↔
      (dispatchSystem σ).StepsMeet Dispatching.StrikesElsewhere {} actions :=
  System.stepsMeet_congr_of_keeps (I := Dispatching.DispatchSound)
    (fun s a _ h ha hs => Dispatching.DispatchSound.next (s := s) h a ha hs)
    (fun _ a h => Dispatching.findsHandler_iff h a) Dispatching.dispatchSound_initial actions

/-- The only timer is cancelled, and becomes due once the null handler has been stored. -/
theorem not_dispatcher_finds_handler : ¬ ∀ actions,
    (dispatchSystem Unit).StepsMeet Dispatching.FindsHandler {} actions := by
  intro hall
  have hfails : ¬ (dispatchSystem Unit).StepsMeet Dispatching.FindsHandler {} [.schedule 5 (),
      .write, .write, .write, .write, .cancel 0, .write, .tick 5, .interrupt []] := by
    decide +kernel
  exact hfails (hall _)

end RPiKernel.Timer
