import RPiKernel.Timer.Ledger

/-!
# Claiming a slot under interrupts

A coroutine runs `ScheduleSparkAtTime` with interrupts enabled: it tests a slot,
writes its time and stores its spark in separate steps, and then scans the table.
A timer interrupt may strike between any two steps and run complete timer
operations, among them `ScheduleSparkAtTime`. No accepted spark is lost as long as
the slot that was tested is still free when its time and its spark are written.

## Implementation notes

The interrupted call is a state machine over the points of `ScheduleSparkAtTime`
and `SetupTimerForNext`; `AddSpark`, whose own steps are the subject of the spark
queue, is one step of it, and so are the writes to the interrupt hardware. The
scan takes whatever spark it finds when it exchanges a slot, so it may hand over
a spark `null` without a function. A call counts as accepted from the moment its
spark is stored.
-/

namespace RPiKernel.Timer

open Interleaving Machine Containers Transition

variable {σ : Type}

/-- The next step of a `ScheduleSparkAtTime` in progress. `now`, `nextTimer` and
`earliestTime` are the variables of the scan. -/
inductive SchedulePoint (σ : Type) where
  | test (spark : Nat × σ) (time : BitVec 64) (i : Nat)
  | writeTime (spark : Nat × σ) (time : BitVec 64) (handle : Nat)
  | storeSpark (spark : Nat × σ) (time : BitVec 64) (handle : Nat)
  | readCounter
  | scan (now : BitVec 64) (i nextTimer : Nat) (earliestTime : BitVec 64)
  | compareTime (now : BitVec 64) (i nextTimer : Nat) (earliestTime : BitVec 64)
  | exchange (now : BitVec 64) (i nextTimer : Nat) (earliestTime : BitVec 64)
  | addSpark (spark : Option (Nat × σ)) (now : BitVec 64) (i nextTimer : Nat)
      (earliestTime : BitVec 64)
  | program (now : BitVec 64) (nextTimer : Nat)
  | increment

/-- The timers of a core and the call in progress. -/
structure Claiming (σ : Type) where
  timers : TimerState σ := {}
  call : Option (SchedulePoint σ) := none

inductive ClaimAction (σ : Type) where
  | schedule (time : BitVec 64) (spark : σ)
  | step (reading : BitVec 64)
  | interrupt (operations : List (TimerAction σ))

namespace Claiming

/-- The state with another core and another point of the call. -/
def moveTo (s : Claiming σ) (core : Core (Nat × σ)) (point : Option (SchedulePoint σ)) :
    Claiming σ :=
  { timers := { s.timers with core }, call := point }

/-- A step of the call in progress. `reading` is the counter, in case that the step reads it. -/
def step (null : σ) (reading : BitVec 64) (s : Claiming σ) : Option (Claiming σ) :=
  let core := s.timers.core
  match s.call with
  | none => none
  | some (.test spark time i) =>
      if i < maxScheduledTimers then
        let handle := add32 i core.currentStart % maxScheduledTimers
        if (core.scheduledTimers handle).spark.isNone then
          some { s with call := some (.writeTime spark time handle) }
        else
          some { s with call := some (.test spark time (i + 1)) }
      else
        some { s with call := none }
  | some (.writeTime spark time handle) =>
      some (s.moveTo
        { core with
          scheduledTimers := Function.update core.scheduledTimers handle
            { core.scheduledTimers handle with triggerTimeTicks := time } }
        (some (.storeSpark spark time handle)))
  | some (.storeSpark spark time handle) =>
      let core := { core with
        scheduledTimers := Function.update core.scheduledTimers handle
          { core.scheduledTimers handle with spark := some spark } }
      some {
        timers := { s.timers with
          core
          accepted := ⟨spark.1, time, spark.2, handle⟩ :: s.timers.accepted }
        call := some .readCounter }
  | some .readCounter =>
      some { s with call := some (.scan reading 0 invalidHandle (getFarFuturePerformanceTime reading)) }
  | some (.scan now i nextTimer earliestTime) =>
      if i < maxScheduledTimers then
        if (core.scheduledTimers i).spark.isNone then
          some { s with call := some (.scan now (i + 1) nextTimer earliestTime) }
        else
          some { s with call := some (.compareTime now i nextTimer earliestTime) }
      else
        some { s with call := some (.program now nextTimer) }
  | some (.compareTime now i nextTimer earliestTime) =>
      let time := (core.scheduledTimers i).triggerTimeTicks
      if timeLe time now then
        some { s with call := some (.exchange now i nextTimer earliestTime) }
      else if timeLt time earliestTime then
        some { s with call := some (.scan now (i + 1) i time) }
      else
        some { s with call := some (.scan now (i + 1) nextTimer earliestTime) }
  | some (.exchange now i nextTimer earliestTime) =>
      some (s.moveTo (core.clear i)
        (some (.addSpark (core.scheduledTimers i).spark now i nextTimer earliestTime)))
  | some (.addSpark (some spark) now i nextTimer earliestTime) =>
      match core.addSpark spark with
      | .ok core => some (s.moveTo { core with handedOver := (spark, now) :: core.handedOver }
          (some (.scan now (i + 1) nextTimer earliestTime)))
      | .error _ => none
  | some (.addSpark none now i nextTimer earliestTime) =>
      match core.addSpark (s.timers.calls, null) with
      | .ok core => some {
          timers := { s.timers with core, calls := s.timers.calls + 1 }
          call := some (.scan now (i + 1) nextTimer earliestTime) }
      | .error _ => none
  | some (.program now nextTimer) =>
      some (s.moveTo
        { core with
          timerIsEnabled := if nextTimer = invalidHandle then false else core.timerIsEnabled
          virtualTimer := (core.timerWrites now nextTimer).foldl (VirtualTimer.write now)
            core.virtualTimer }
        (some .increment))
  | some .increment => some (s.moveTo { core with currentStart := add32 core.currentStart 1 } none)

def next (null : σ) (s : Claiming σ) : ClaimAction σ → Option (Claiming σ)
  | .schedule time spark =>
      match s.call with
      | none => some {
          timers := { s.timers with calls := s.timers.calls + 1 }
          call := some (.test (s.timers.calls, spark) time 0) }
      | some _ => none
  | .step reading => s.step null reading
  | .interrupt as =>
      match s.timers.operations as with
      | some timers => some { s with timers }
      | none => none

end Claiming

/-- The runs of a core whose scheduling calls are interrupted. -/
def claimSystem (null : σ) : System (Claiming σ) (ClaimAction σ) where
  Initial s := s = {}
  next := Claiming.next null

namespace Claiming

variable {null : σ} {s s' : Claiming σ}

/-- The spark that the call has not stored yet. -/
def newSpark (s : Claiming σ) : Option (Nat × σ) :=
  match s.call with
  | some (.test spark _ _) => some spark
  | some (.writeTime spark _ _) => some spark
  | some (.storeSpark spark _ _) => some spark
  | _ => none

/-- The slot that the call has tested and is about to use. -/
def claimedSlot (s : Claiming σ) : Option Nat :=
  match s.call with
  | some (.writeTime _ _ handle) => some handle
  | some (.storeSpark _ _ handle) => some handle
  | _ => none

/-- The spark that the scan has taken out of its slot and not passed to `AddSpark`. -/
def inHand (s : Claiming σ) : List ((Nat × σ) × BitVec 64) :=
  match s.call with
  | some (.addSpark (some spark) now _ _ _) => [(spark, now)]
  | _ => []

/-- Every accepted spark is in its slot with its time, or handed over, or cancelled, or in
the hands of the scan; and pending sparks of two calls have different handles. -/
structure SlotsIntact (s : Claiming σ) : Prop where
  kept : ∀ a ∈ s.timers.accepted, s.timers.ledger.IsPending a ∨
    a.number ∈ s.timers.ledger.delivered ∨ a.number ∈ s.timers.cancelled ∨
    ∃ entry ∈ s.inHand, entry.1 = (a.number, a.spark)
  distinct : ∀ a ∈ s.timers.accepted, ∀ b ∈ s.timers.accepted, s.timers.ledger.IsPending a →
    s.timers.ledger.IsPending b → a.number ≠ b.number → a.handle ≠ b.handle

/-- The slot that the call has tested is free when it writes its time, and free with its
time when it stores its spark. -/
def PointStillFree (core : Core (Nat × σ)) : SchedulePoint σ → Prop
  | .writeTime _ _ handle => (core.scheduledTimers handle).spark = none
  | .storeSpark _ time handle => (core.scheduledTimers handle).spark = none ∧
      (core.scheduledTimers handle).triggerTimeTicks = time
  | _ => True

instance (core : Core (Nat × σ)) (point : SchedulePoint σ) :
    Decidable (PointStillFree core point) :=
  match point with
  | .writeTime _ _ handle =>
      inferInstanceAs (Decidable ((core.scheduledTimers handle).spark = none))
  | .storeSpark _ time handle =>
      inferInstanceAs (Decidable ((core.scheduledTimers handle).spark = none ∧
        (core.scheduledTimers handle).triggerTimeTicks = time))
  | .test _ _ _ => isTrue trivial
  | .readCounter => isTrue trivial
  | .scan _ _ _ _ => isTrue trivial
  | .compareTime _ _ _ _ => isTrue trivial
  | .exchange _ _ _ _ => isTrue trivial
  | .addSpark _ _ _ _ _ => isTrue trivial
  | .program _ _ => isTrue trivial
  | .increment => isTrue trivial

def SlotStillFree (s : Claiming σ) : ClaimAction σ → Prop
  | .step _ => ∀ point ∈ s.call, PointStillFree s.timers.core point
  | _ => True

instance (s : Claiming σ) (a : ClaimAction σ) : Decidable (SlotStillFree s a) :=
  match a with
  | .step _ => inferInstanceAs (Decidable (∀ point ∈ s.call, PointStillFree s.timers.core point))
  | .schedule _ _ => isTrue trivial
  | .interrupt _ => isTrue trivial

/-- The ledger is sound, counting the spark in the hands of the scan as handed over. -/
structure ClaimSound (s : Claiming σ) : Prop where
  wellformed : s.timers.Wellformed
  sound : (s.timers.ledger.withHand s.inHand).Sound
  fresh : ∀ spark ∈ s.newSpark, spark.1 < s.timers.calls ∧
    ∀ a ∈ s.timers.accepted, a.number ≠ spark.1
  slot_lt : ∀ handle ∈ s.claimedSlot, handle < maxScheduledTimers

theorem ClaimSound.intact (h : ClaimSound s) : SlotsIntact s := by
  constructor
  · intro a ha
    rcases h.sound.complete a ha with hpending | hgone | hgone
    · exact Or.inl hpending
    · rw [Ledger.delivered, Ledger.withHand, List.map_append, List.mem_append] at hgone
      rcases hgone with hhand | hgone
      · obtain ⟨entry, hentry, heq⟩ := List.mem_map.mp hhand
        refine Or.inr (Or.inr (Or.inr ⟨entry, hentry, ?_⟩))
        obtain ⟨-, b, hb, hspark⟩ := h.sound.handed entry (List.mem_append_left _ hentry)
        have hab : a = b := h.sound.unique a ha b hb (by rw [← heq, hspark])
        rw [hab]
        exact hspark
      · exact Or.inr (Or.inl hgone)
    · exact Or.inr (Or.inr (Or.inl hgone))
  · intro a _ b _ hpa hpb hne heq
    rw [Ledger.IsPending] at hpa hpb
    rw [heq, hpb] at hpa
    have hspark := congrArg ScheduledTimer.spark hpa
    simp only [Option.some.injEq, Prod.mk.injEq] at hspark
    exact hne hspark.1.symm

theorem claimSound_initial : ClaimSound ({} : Claiming σ) :=
  ⟨TimerState.wellformed_initial, Ledger.sound_empty, (fun _ hspark => nomatch hspark),
    (fun _ hhandle => nomatch hhandle)⟩

/-- The operations of an interrupt. -/
theorem ClaimSound.operations {t t' : TimerState σ} {hand : List ((Nat × σ) × BitVec 64)}
    (hwf : t.Wellformed) (hsound : (t.ledger.withHand hand).Sound) (as : List (TimerAction σ))
    (h : t.operations as = some t') :
    t'.Wellformed ∧ (t'.ledger.withHand hand).Sound ∧ t.calls ≤ t'.calls ∧
      ∀ a ∈ t'.accepted, a ∈ t.accepted ∨ t.calls ≤ a.number := by
  induction as generalizing t with
  | nil =>
      cases h
      exact ⟨hwf, hsound, le_rfl, fun a ha => Or.inl ha⟩
  | cons a as ih =>
      obtain ⟨t₁, hnext, hrest⟩ := TimerState.operations_cons h
      have hstep := TimerState.next_ledger hwf a hnext
      obtain ⟨hwf', hsound', hcalls', hacc'⟩ := ih (hwf.next a hnext)
        (hstep.sound_withHand hand hsound) hrest
      obtain ⟨hcalls, hacc⟩ := hstep.calls_le
      refine ⟨hwf', hsound', hcalls.trans hcalls', fun b hb => ?_⟩
      rcases hacc' b hb with hb | hb
      · exact hacc b hb
      · exact Or.inr (hcalls.trans hb)

/-- A call that holds no new spark and no tested slot. -/
theorem ClaimSound.of_passed {s : Claiming σ} (hwf : s.timers.Wellformed)
    (hsound : (s.timers.ledger.withHand s.inHand).Sound) (hspark : s.newSpark = none)
    (hslot : s.claimedSlot = none) : ClaimSound s := by
  refine ⟨hwf, hsound, fun spark hmem => ?_, fun handle hmem => ?_⟩
  · rw [hspark] at hmem
    cases hmem
  · rw [hslot] at hmem
    cases hmem

theorem ClaimSound.step (h : ClaimSound s) (reading : BitVec 64)
    (hfree : SlotStillFree s (.step reading)) (hs : s.step null reading = some s') :
    ClaimSound s' := by
  have hsound := h.sound
  have hfresh := h.fresh
  have hslot := h.slot_lt
  rw [Claiming.step] at hs
  cases hcall : s.call with
  | none =>
      rw [hcall] at hs
      cases hs
  | some point =>
      rw [hcall] at hs
      simp only [inHand, newSpark, claimedSlot, hcall] at hsound hfresh hslot
      have hfree := hfree point hcall
      cases point with
      | test spark time i =>
          dsimp only at hs
          split at hs
          · split at hs
            · cases hs
              refine ⟨h.wellformed, hsound, hfresh, fun handle hhandle => ?_⟩
              cases hhandle
              exact Nat.mod_lt _ (by decide)
            · cases hs
              exact ⟨h.wellformed, hsound, hfresh, fun _ hhandle => nomatch hhandle⟩
          · cases hs
            exact ClaimSound.of_passed h.wellformed hsound rfl rfl
      | writeTime spark time handle =>
          cases hs
          refine ⟨⟨h.wellformed.holds, h.wellformed.timerIsEnabled_eq⟩, ?_, hfresh, hslot⟩
          exact hsound.retime hfree time
      | storeSpark spark time handle =>
          cases hs
          obtain ⟨hempty, rfl⟩ := hfree
          obtain ⟨hlt, hnew⟩ := hfresh spark rfl
          refine ClaimSound.of_passed ⟨h.wellformed.holds, h.wellformed.timerIsEnabled_eq⟩ ?_
            rfl rfl
          exact hsound.enter (hslot handle rfl) hempty hlt hnew _ spark.2
      | readCounter =>
          cases hs
          exact ClaimSound.of_passed h.wellformed hsound rfl rfl
      | scan now i nextTimer earliestTime =>
          dsimp only at hs
          split at hs
          · split at hs
            · cases hs
              exact ClaimSound.of_passed h.wellformed hsound rfl rfl
            · cases hs
              exact ClaimSound.of_passed h.wellformed hsound rfl rfl
          · cases hs
            exact ClaimSound.of_passed h.wellformed hsound rfl rfl
      | compareTime now i nextTimer earliestTime =>
          dsimp only at hs
          split at hs
          · cases hs
            exact ClaimSound.of_passed h.wellformed hsound rfl rfl
          · split at hs
            · cases hs
              exact ClaimSound.of_passed h.wellformed hsound rfl rfl
            · cases hs
              exact ClaimSound.of_passed h.wellformed hsound rfl rfl
      | exchange now i nextTimer earliestTime =>
          cases hs
          refine ClaimSound.of_passed ⟨h.wellformed.holds, h.wellformed.timerIsEnabled_eq⟩ ?_
            rfl rfl
          cases hspark : (s.timers.core.scheduledTimers i).spark with
          | none =>
              -- an interrupt has been here before
              have hsame : (s.timers.core.clear i).scheduledTimers =
                  s.timers.core.scheduledTimers := by
                rw [Core.clear, ← hspark]
                exact Function.update_eq_self i _
              dsimp only [moveTo, TimerState.ledger, inHand]
              rw [hsame]
              exact hsound
          | some spark => exact hsound.take hspark now
      | addSpark spark now i nextTimer earliestTime =>
          obtain ⟨q, hq⟩ := h.wellformed.holds
          cases spark with
          | none =>
              dsimp only at hs
              split at hs
              · next core hadd =>
                cases hs
                obtain ⟨fifo, rfl, hfifo⟩ := Core.addSpark_ok hq hadd
                exact ClaimSound.of_passed ⟨⟨_, hfifo⟩, h.wellformed.timerIsEnabled_eq⟩
                  (hsound.withCalls (Nat.le_succ _)) rfl rfl
              · cases hs
          | some spark =>
              dsimp only at hs
              split at hs
              · next core hadd =>
                cases hs
                obtain ⟨fifo, rfl, hfifo⟩ := Core.addSpark_ok hq hadd
                exact ClaimSound.of_passed ⟨⟨_, hfifo⟩, h.wellformed.timerIsEnabled_eq⟩ hsound
                  rfl rfl
              · cases hs
      | program now nextTimer =>
          cases hs
          refine ClaimSound.of_passed ⟨h.wellformed.holds, ?_⟩ hsound rfl rfl
          dsimp only [moveTo]
          rw [h.wellformed.timerIsEnabled_eq, ite_self]
      | increment =>
          cases hs
          exact ClaimSound.of_passed ⟨h.wellformed.holds, h.wellformed.timerIsEnabled_eq⟩ hsound
            rfl rfl

theorem ClaimSound.next (h : ClaimSound s) (a : ClaimAction σ) (hfree : SlotStillFree s a)
    (hs : s.next null a = some s') : ClaimSound s' := by
  cases a with
  | schedule time spark =>
      rw [Claiming.next] at hs
      split at hs
      · next hcall =>
        cases hs
        have hsound := h.sound
        rw [inHand, hcall] at hsound
        refine ⟨⟨h.wellformed.holds, h.wellformed.timerIsEnabled_eq⟩,
          hsound.withCalls (Nat.le_succ _), fun x hx => ?_, (fun _ hhandle => nomatch hhandle)⟩
        cases hx
        exact ⟨Nat.lt_succ_self _, fun a ha => (hsound.number_lt a ha).ne⟩
      · cases hs
  | step reading => exact h.step reading hfree hs
  | interrupt as =>
      rw [Claiming.next] at hs
      split at hs
      · next timers hoperations =>
        cases hs
        obtain ⟨hwf, hsound, hcalls, hacc⟩ := operations h.wellformed h.sound as hoperations
        refine ⟨hwf, hsound, fun spark hspark => ?_, h.slot_lt⟩
        obtain ⟨hlt, hnew⟩ := h.fresh spark hspark
        refine ⟨hlt.trans_le hcalls, fun a ha => ?_⟩
        rcases hacc a ha with hold | hge
        · exact hnew a hold
        · exact (hlt.trans_le hge).ne'
      · cases hs

end Claiming

/-- In every run in which every tested slot is still free when its time and its spark are
written, no accepted spark is lost and pending sparks have different handles. -/
theorem slots_intact {null : σ} (actions : List (ClaimAction σ)) {s : Claiming σ}
    (hrun : (claimSystem null).run {} actions = some s)
    (hfree : (claimSystem null).StepsMeet Claiming.SlotStillFree {} actions) :
    s.SlotsIntact := by
  have hinitial : (claimSystem null).ReachableBy Claiming.SlotStillFree {} :=
    System.ReachableBy.initial rfl
  have hsound : s.ClaimSound := by
    apply System.ReachableBy.invariant _ _ (hinitial.of_stepsMeet actions hrun hfree)
    · rintro s rfl
      exact Claiming.claimSound_initial
    · exact fun s a s' hs ha hnext => hs.next a ha hnext
  exact hsound.intact

/-- An interrupt schedules a spark after the coroutine has stored its own. -/
theorem slots_intact_interrupted : ∃ s, (claimSystem ()).run {}
    [.schedule 5 (), .step 0, .step 0, .step 0, .interrupt [.interrupt 1, .schedule 1 9 (some ())],
      .step 1, .step 1] = some s ∧ s.SlotsIntact := by
  obtain ⟨s, hs⟩ := Option.isSome_iff_exists.mp (show ((claimSystem ()).run {}
    [.schedule 5 (), .step 0, .step 0, .step 0, .interrupt [.interrupt 1, .schedule 1 9 (some ())],
      .step 1, .step 1]).isSome = true by decide +kernel)
  exact ⟨s, hs, slots_intact _ hs (by decide +kernel)⟩

/-- An interrupt schedules a spark after the coroutine has tested the same slot. -/
theorem not_slots_intact : ¬ ∀ (null : Unit) actions s,
    (claimSystem null).run {} actions = some s → s.SlotsIntact := by
  intro hall
  have hlost : ((claimSystem ()).run {} [.schedule 5 (), .step 0,
      .interrupt [.schedule 0 7 (some ())], .step 0, .step 0]).any (fun s =>
        (s.timers.accepted.map Scheduling.number).contains 1 &&
        (s.timers.core.scheduledTimers 0).spark == some (0, ()) &&
        s.timers.ledger.delivered.isEmpty && s.timers.cancelled.isEmpty && s.inHand.isEmpty &&
        s.timers.accepted.all (fun a => a.handle == 0)) = true := by decide +kernel
  obtain ⟨s, hs, hcheck⟩ := (Option.any_eq_true _ _).mp hlost
  simp only [Bool.and_eq_true, List.contains_iff_mem, List.mem_map, List.isEmpty_iff, beq_iff_eq,
    List.all_eq_true] at hcheck
  obtain ⟨⟨⟨⟨⟨⟨a, ha, hnumber⟩, hspark⟩, hdelivered⟩, hcancelled⟩, hhand⟩, hhandle⟩ := hcheck
  rcases (hall () _ s hs).kept a ha with hpending | hgone | hgone | ⟨entry, hentry, -⟩
  · have heq := congrArg ScheduledTimer.spark hpending
    rw [hhandle a ha] at heq
    have hsome := hspark.symm.trans heq
    rw [hnumber] at hsome
    cases hsome
  · rw [hdelivered] at hgone
    cases hgone
  · rw [hcancelled] at hgone
    cases hgone
  · rw [hhand] at hentry
    cases hentry

end RPiKernel.Timer
