import RPiKernel.Ring.Laps
import RPiKernel.Transition.System
import RPiKernel.Xhci.Trb

/-!
# The event ring of the xHCI controller

The controller writes events into the ring and `process_events` takes them out. In every
reachable state the events handled are the first of those written, in their order, and a call
comes to its end only when none is left.

## Implementation notes

A call of `process_events` is taken apart at its reads of the ring and at its write of ERDP,
so that the controller may write at any point of it. Handling an event prints two of its
fields; the model keeps the event instead. The controller may fill the ring up to the slot
before the one that ERDP holds, and knows how often ERDP has gone round.
-/

namespace RPiKernel.Xhci

open RPiKernel.Ring Transition

def eventRingSize : Nat := 256

/-- Where a call of `process_events` stands. -/
inductive Place
  /-- No call is in progress. -/
  | idle
  /-- At the head of the loop. -/
  | check
  /-- Behind the check, with an event to process. -/
  | process
  /-- Behind the loop, before the write of ERDP. -/
  | finish
  deriving DecidableEq, Repr

/-- The ring and its registers. `handled`, `written` and `acknowledged` are the events taken
out, the number of events put in, and the number of events taken out at the last write of
ERDP. -/
structure EventRing where
  ring : Nat → Trb
  dequeue : Nat
  cycleState : Bool
  erdp : Nat
  place : Place
  handled : List Trb
  written : Nat
  acknowledged : Nat

/-- `setup_rings`, for a ring that is allocated at an address. -/
def setupRings (base : Nat) : EventRing where
  ring := fun _ => Trb.zero
  dequeue := 0
  cycleState := true
  erdp := addressOf base 0
  place := .idle
  handled := []
  written := 0
  acknowledged := 0

/-- The next step of `process_events`. -/
def processEvents (base : Nat) (s : EventRing) : EventRing :=
  match s.place with
  | .idle => { s with place := .check }
  | .check =>
      if (s.ring s.dequeue).cycleBit != s.cycleState then
        { s with place := .finish }
      else
        { s with place := .process }
  | .process =>
      let newDequeue := advanceRingPointer s.dequeue eventRingSize
      { s with
        handled := s.handled ++ [s.ring s.dequeue]
        dequeue := newDequeue
        cycleState := if newDequeue = 0 then !s.cycleState else s.cycleState
        place := .check }
  | .finish =>
      { s with
        erdp := addressOf base s.dequeue
        acknowledged := s.handled.length
        place := .idle }

/-- An event with the cycle bit of its lap. -/
def eventAt (event : Nat → Trb) (k : Nat) : Trb :=
  (event k).withCycleBit (lap eventRingSize k)

/-- The controller writes its next event, unless the slot lies beyond the dequeue pointer. -/
def writeEvent (event : Nat → Trb) (s : EventRing) : Option EventRing :=
  if s.written < s.acknowledged + eventRingSize then
    some { s with
      ring := Function.update s.ring (s.written % eventRingSize) (eventAt event s.written)
      written := s.written + 1 }
  else
    none

inductive EventAction
  | write
  | driver
  deriving DecidableEq, Repr

/-- The controller and `process_events`, over a sequence of events. -/
def eventSystem (base : Nat) (event : Nat → Trb) : System EventRing EventAction where
  Initial := fun s => s = setupRings base
  next := fun s action =>
    match action with
    | .write => writeEvent event s
    | .driver => some (processEvents base s)

/-- What the steps keep. -/
structure Consistent (base : Nat) (event : Nat → Trb) (s : EventRing) : Prop where
  holds : Holds eventRingSize Trb.cycleBit (eventAt event) s.ring s.written
  dequeue_eq : s.dequeue = s.handled.length % eventRingSize
  cycleState_eq : s.cycleState = lap eventRingSize s.handled.length
  handled_eq : s.handled = (List.range s.handled.length).map (eventAt event)
  acknowledged_le : s.acknowledged ≤ s.handled.length
  handled_le : s.handled.length ≤ s.written
  written_le : s.written ≤ s.acknowledged + eventRingSize
  erdp_eq : s.erdp = addressOf base (s.acknowledged % eventRingSize)
  idle : s.place = .idle → s.acknowledged = s.handled.length
  process : s.place = .process → s.handled.length < s.written

section Steps

variable {base : Nat} {event : Nat → Trb} {s s' : EventRing}

theorem cycleBit_eventAt (event : Nat → Trb) (k : Nat) :
    (eventAt event k).cycleBit = lap eventRingSize k :=
  Trb.cycleBit_withCycleBit _ _

theorem consistent_setupRings : Consistent base event (setupRings base) where
  holds := Holds.initial fun _ _ => Trb.cycleBit_zero
  dequeue_eq := rfl
  cycleState_eq := (lap_of_lt (k := 0) (by decide)).symm
  handled_eq := rfl
  acknowledged_le := le_rfl
  handled_le := le_rfl
  written_le := Nat.zero_le _
  erdp_eq := rfl
  idle := fun _ => rfl
  process := fun h => by cases h

theorem Consistent.written_le_lap (h : Consistent base event s) :
    s.written ≤ s.handled.length + eventRingSize :=
  h.written_le.trans (Nat.add_le_add_right h.acknowledged_le _)

/-- The check finds an event exactly when one has been written and not handled. -/
theorem Consistent.check_iff (h : Consistent base event s) :
    (s.ring s.dequeue).cycleBit = s.cycleState ↔ s.handled.length < s.written := by
  rw [h.dequeue_eq, h.cycleState_eq]
  exact h.holds.mark_iff_lt (by decide) (cycleBit_eventAt event) h.handled_le h.written_le_lap

/-- The slot at the dequeue pointer holds the next event. -/
theorem Consistent.next_event (h : Consistent base event s) (hlt : s.handled.length < s.written) :
    s.ring s.dequeue = eventAt event s.handled.length := by
  rw [h.dequeue_eq]
  exact h.holds.recent _ hlt h.written_le_lap

theorem Consistent.write (h : Consistent base event s) (hs : writeEvent event s = some s') :
    Consistent base event s' := by
  rw [writeEvent] at hs
  split at hs
  · next hroom =>
    cases hs
    have hle : s.handled.length ≤ s.written := h.handled_le
    exact { h with
      holds := h.holds.push
      handled_le := Nat.le_succ_of_le hle
      written_le := hroom
      process := fun _ => Nat.lt_succ_of_le hle }
  · cases hs

theorem Consistent.call (h : Consistent base event s) :
    Consistent base event { s with place := .check } :=
  { h with
    idle := fun hplace => by cases hplace
    process := fun hplace => by cases hplace }

theorem Consistent.handle (h : Consistent base event s) (hlt : s.handled.length < s.written) :
    Consistent base event
      { s with
        handled := s.handled ++ [s.ring s.dequeue]
        dequeue := advanceRingPointer s.dequeue eventRingSize
        cycleState :=
          if advanceRingPointer s.dequeue eventRingSize = 0 then !s.cycleState else s.cycleState
        place := .check } := by
  have hlength : (s.handled ++ [s.ring s.dequeue]).length = s.handled.length + 1 := by simp
  have hdequeue : advanceRingPointer s.dequeue eventRingSize =
      (s.handled.length + 1) % eventRingSize := by
    rw [h.dequeue_eq]
    exact advanceRingPointer_mod (by decide) _
  exact
    { holds := h.holds
      dequeue_eq := by
        rw [hlength]
        exact hdequeue
      cycleState_eq := by
        rw [hlength, lap_succ, ← h.cycleState_eq]
        dsimp only
        rw [hdequeue]
      handled_eq := by
        dsimp only
        rw [hlength, List.range_succ, List.map_append, ← h.handled_eq, h.next_event hlt]
        rfl
      acknowledged_le := by
        rw [hlength]
        exact Nat.le_succ_of_le h.acknowledged_le
      handled_le := by
        rw [hlength]
        exact hlt
      written_le := h.written_le
      erdp_eq := h.erdp_eq
      idle := fun hplace => by cases hplace
      process := fun hplace => by cases hplace }

theorem Consistent.acknowledge (h : Consistent base event s) :
    Consistent base event
      { s with
        erdp := addressOf base s.dequeue
        acknowledged := s.handled.length
        place := .idle } :=
  { h with
    acknowledged_le := le_rfl
    written_le := h.written_le_lap
    erdp_eq := by rw [h.dequeue_eq]
    idle := fun _ => rfl
    process := fun hplace => by cases hplace }

/-- One step of `process_events`, for each place that the call is at. -/
theorem Consistent.driver (h : Consistent base event s) :
    Consistent base event (processEvents base s) := by
  rw [processEvents]
  cases hplace : s.place with
  | idle => exact h.call
  | check =>
    dsimp only
    split
    · exact { h with
        idle := fun hplace => by cases hplace
        process := fun hplace => by cases hplace }
    · next hcycle =>
      rw [bne_iff_ne, not_not, h.check_iff] at hcycle
      exact { h with
        idle := fun hplace => by cases hplace
        process := fun _ => hcycle }
  | process => exact h.handle (h.process hplace)
  | finish => exact h.acknowledge

theorem consistent_of_reachable (h : (eventSystem base event).Reachable s) :
    Consistent base event s := by
  refine System.Reachable.invariant ?_ ?_ h
  · rintro s rfl
    exact consistent_setupRings
  · intro s action s' hs hnext
    cases action with
    | write => exact hs.write hnext
    | driver =>
      cases hnext
      exact hs.driver

end Steps

section Calls

variable {base : Nat} {event : Nat → Trb} {s s' s'' : EventRing}

/-- Steps of `process_events` alone lead from one state to another. -/
def Drives (base : Nat) (event : Nat → Trb) (s s' : EventRing) : Prop :=
  (eventSystem base event).LeadsTo (fun action => action = .driver) s s'

theorem Drives.head (h : Drives base event (processEvents base s) s') :
    Drives base event s s' :=
  System.LeadsTo.head (a := .driver) rfl rfl h

/-- A call at the head of its loop handles what has been written and returns. -/
theorem Consistent.drives_idle_of_check (h : Consistent base event s) (hplace : s.place = .check) :
    ∃ s', Drives base event s s' ∧ s'.place = .idle ∧ s'.handled.length = s.written := by
  -- the induction is on the events left, over which a turn of the loop loses one
  obtain ⟨left, hleft⟩ := Nat.exists_eq_add_of_le h.handled_le
  induction left generalizing s with
  | zero =>
    have hnone : (s.ring s.dequeue).cycleBit ≠ s.cycleState := by
      rw [Ne, h.check_iff]
      omega
    have hfinish : processEvents base s = { s with place := .finish } := by
      rw [processEvents, hplace]
      dsimp only
      rw [if_pos (bne_iff_ne.mpr hnone)]
    refine ⟨_, Drives.head (Drives.head System.LeadsTo.refl), ?_, ?_⟩
    · rw [hfinish]
      rfl
    · rw [hfinish]
      exact hleft.symm
  | succ left ih =>
    have hlt : s.handled.length < s.written := by omega
    have hprocess : processEvents base s = { s with place := .process } := by
      rw [processEvents, hplace]
      dsimp only
      rw [if_neg (by rw [bne_iff_ne, not_not, h.check_iff]; exact hlt)]
    have hturn := h.driver.driver
    rw [hprocess] at hturn
    obtain ⟨s', hdrives, hidle, hall⟩ := ih hturn rfl (by
      simp only [processEvents, List.length_append, List.length_singleton]
      omega)
    refine ⟨s', Drives.head (Drives.head ?_), hidle, hall⟩
    rw [hprocess]
    exact hdrives

/-- From every state, steps of `process_events` handle all that has been written. -/
theorem Consistent.drives_idle (h : Consistent base event s) :
    ∃ s', Drives base event s s' ∧ s'.place = .idle ∧ s'.handled.length = s.written := by
  -- two steps at most lead to the head of the loop
  have hidle : ∀ {s : EventRing}, Consistent base event s → s.place = .idle →
      ∃ s', Drives base event s s' ∧ s'.place = .idle ∧ s'.handled.length = s.written := by
    intro s h hplace
    have hcall : processEvents base s = { s with place := .check } := by
      rw [processEvents, hplace]
    have hcheck := h.driver
    rw [hcall] at hcheck
    obtain ⟨s', hdrives, hreturned, hall⟩ := hcheck.drives_idle_of_check rfl
    refine ⟨s', Drives.head ?_, hreturned, hall⟩
    rw [hcall]
    exact hdrives
  cases hplace : s.place with
  | idle => exact hidle h hplace
  | check => exact h.drives_idle_of_check hplace
  | process =>
    have hcheck : (processEvents base s).place = .check := by rw [processEvents, hplace]
    have hwritten : (processEvents base s).written = s.written := by rw [processEvents, hplace]
    obtain ⟨s', hdrives, hreturned, hall⟩ := h.driver.drives_idle_of_check hcheck
    exact ⟨s', hdrives.head, hreturned, hall.trans hwritten⟩
  | finish =>
    have hreturn : (processEvents base s).place = .idle := by rw [processEvents, hplace]
    have hwritten : (processEvents base s).written = s.written := by rw [processEvents, hplace]
    obtain ⟨s', hdrives, hreturned, hall⟩ := hidle h.driver hreturn
    exact ⟨s', hdrives.head, hreturned, hall.trans hwritten⟩

end Calls

/-- What `process_events` promises in a state. -/
structure EventsHandled (base : Nat) (event : Nat → Trb) (s : EventRing) : Prop where
  /-- The events handled are the first ones, each once and in their order. -/
  inOrder : s.handled = (List.range s.handled.length).map (eventAt event)
  handled_le : s.handled.length ≤ s.written
  /-- The slot to process has been written in the current lap. -/
  written_of_process : s.place = .process →
    s.handled.length < s.written ∧ s.ring s.dequeue = eventAt event s.handled.length
  /-- A call finds an event exactly when there is one to be handled. -/
  check_iff : (s.ring s.dequeue).cycleBit = s.cycleState ↔ s.handled.length < s.written
  /-- Between calls ERDP holds the slot behind the last event handled. -/
  erdp_eq : s.place = .idle → s.erdp = addressOf base (s.handled.length % eventRingSize)
  /-- Calls return, with all that has been written. -/
  returns : ∃ s', Drives base event s s' ∧ s'.place = .idle ∧ s'.handled.length = s.written

end RPiKernel.Xhci
