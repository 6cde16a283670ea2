import Mathlib.Data.List.Count
import RPiKernel.Ring.Laps
import RPiKernel.Transition.System
import RPiKernel.Xhci.Trb

/-!
# The command ring of the xHCI controller

`send_command` writes commands into the ring and the controller consumes them. The commands
come with the cycle bit set, and `send_command` never clears it: they are seen on the first
lap only, and a run keeps its commands exactly when it ends within that lap.

## Implementation notes

`send_command` holds a lock, so a call is one step. Ringing the doorbell asks the controller
to look at the ring, which it may do at any time here.
-/

namespace RPiKernel.Xhci

open RPiKernel.Ring Transition

def commandRingSize : Nat := 256

/-- The ring, with the pointers and cycle states of both sides. `sent` and `consumed` are the
number of calls and the commands that the controller has seen as new. -/
structure CommandRing where
  ring : Nat → Trb
  enqueue : Nat
  cycleState : Bool
  controllerDequeue : Nat
  controllerCycleState : Bool
  sent : Nat
  consumed : List Trb

/-- The command ring of `setup_rings`, whose address is written to CRCR with the ring cycle
state set. -/
def setupCommandRing : CommandRing where
  ring := fun _ => Trb.zero
  enqueue := 0
  cycleState := true
  controllerDequeue := 0
  controllerCycleState := true
  sent := 0
  consumed := []

def trbTypeEnableSlot : BitVec 32 := 9#32

/-- The command of `enumerate_devices`. -/
def enableSlotCommand : Trb where
  parameter := 0#64
  status := 0#32
  control := trbTypeEnableSlot <<< 10 ||| 1#32

/-- The block that `send_command` writes. -/
def commandTrb (command : Trb) (cycleState : Bool) : Trb :=
  { command with control := command.control ||| if cycleState then 1#32 else 0#32 }

def sendCommand (command : Trb) (s : CommandRing) : CommandRing :=
  let newEnqueue := advanceRingPointer s.enqueue commandRingSize
  { s with
    ring := Function.update s.ring s.enqueue (commandTrb command s.cycleState)
    enqueue := newEnqueue
    cycleState := if newEnqueue = 0 then !s.cycleState else s.cycleState
    sent := s.sent + 1 }

@[simp] theorem sendCommand_sent (command : Trb) (s : CommandRing) :
    (sendCommand command s).sent = s.sent + 1 :=
  rfl

/-- The controller sees a command as new. -/
def CommandRing.Visible (s : CommandRing) : Prop :=
  (s.ring s.controllerDequeue).cycleBit = s.controllerCycleState

instance (s : CommandRing) : Decidable s.Visible :=
  inferInstanceAs (Decidable (_ = _))

/-- The controller consumes the next command that it sees. -/
def consumeCommand (s : CommandRing) : Option CommandRing :=
  if s.Visible then
    let newDequeue := (s.controllerDequeue + 1) % commandRingSize
    some { s with
      controllerDequeue := newDequeue
      controllerCycleState :=
        if newDequeue = 0 then !s.controllerCycleState else s.controllerCycleState
      consumed := s.consumed ++ [s.ring s.controllerDequeue] }
  else
    none

inductive CommandAction
  | send
  | consume
  deriving DecidableEq, Repr

/-- Calls of `send_command` by `enumerate_devices`, and the controller. -/
def commandSystem : System CommandRing CommandAction where
  Initial := fun s => s = setupCommandRing
  next := fun s action =>
    match action with
    | .send => some (sendCommand enableSlotCommand s)
    | .consume => consumeCommand s

/-- A slot holds a command that has been sent and not consumed. -/
def CommandRing.Pending (s : CommandRing) (slot : Nat) : Prop :=
  ∃ k, s.consumed.length ≤ k ∧ k < s.sent ∧ k % commandRingSize = slot

/-- A call writes a block with the cycle bit of the lap, and over no command that is pending. -/
def WritesWell (s : CommandRing) : CommandAction → Prop
  | .send =>
      (commandTrb enableSlotCommand s.cycleState).cycleBit = s.cycleState ∧ ¬ s.Pending s.enqueue
  | .consume => True

/-- The controller has seen some of the commands, each once, and is yet to see the others. -/
structure SeenOnce (s : CommandRing) : Prop where
  consumed_le : s.consumed.length ≤ s.sent
  consumed_eq : s.consumed = List.replicate s.consumed.length enableSlotCommand
  visible_iff : s.Visible ↔ s.consumed.length < s.sent

/-- What a run of calls promises, at its steps and at its end. -/
def CommandsKept (actions : List CommandAction) (s : CommandRing) : Prop :=
  commandSystem.StepsMeet WritesWell setupCommandRing actions ∧ SeenOnce s

section Producer

variable {s s' : CommandRing}

/-- The pointer and the cycle state of the producer follow the number of calls. -/
structure Produces (s : CommandRing) : Prop where
  enqueue_eq : s.enqueue = s.sent % commandRingSize
  cycleState_eq : s.cycleState = lap commandRingSize s.sent

theorem produces_setup : Produces setupCommandRing where
  enqueue_eq := rfl
  cycleState_eq := (lap_of_lt (k := 0) (by decide)).symm

theorem Produces.send (h : Produces s) (command : Trb) : Produces (sendCommand command s) := by
  have henqueue : advanceRingPointer s.enqueue commandRingSize =
      (s.sent + 1) % commandRingSize := by
    rw [h.enqueue_eq]
    exact advanceRingPointer_mod (by decide) _
  refine ⟨henqueue, ?_⟩
  simp only [sendCommand]
  rw [lap_succ, ← h.cycleState_eq, henqueue]

/-- The cycle bit that the command comes with is never cleared. -/
theorem cycleBit_commandTrb (cycleState : Bool) :
    (commandTrb enableSlotCommand cycleState).cycleBit = true := by
  rw [commandTrb, Trb.cycleBit_or]
  rfl

theorem commandTrb_enableSlotCommand (cycleState : Bool) :
    commandTrb enableSlotCommand cycleState = enableSlotCommand := by
  cases cycleState with
  | false => rfl
  | true => rfl

/-- After a whole lap no call writes well. -/
theorem Produces.not_writesWell (h : Produces s) (hsent : s.sent = commandRingSize) :
    ¬ WritesWell s .send := by
  rintro ⟨hcycle, -⟩
  have hlap : lap commandRingSize commandRingSize = false := by decide
  rw [cycleBit_commandTrb, h.cycleState_eq, hsent, hlap] at hcycle
  exact absurd hcycle (by decide)

/-- Within the first lap every call writes well. -/
theorem Produces.writesWell (h : Produces s) (hlt : s.sent < commandRingSize) :
    WritesWell s .send := by
  constructor
  · rw [cycleBit_commandTrb, h.cycleState_eq, lap_of_lt hlt]
  · rintro ⟨k, -, hk, hslot⟩
    rw [h.enqueue_eq, Nat.mod_eq_of_lt (by omega), Nat.mod_eq_of_lt hlt] at hslot
    exact absurd hslot hk.ne

end Producer

section Controller

variable {s s' : CommandRing}

/-- Within the first lap: the ring and both sides of it. -/
structure FirstLap (s : CommandRing) : Prop where
  produces : Produces s
  sent_le : s.sent ≤ commandRingSize
  holds : Holds commandRingSize Trb.cycleBit
    (fun k => enableSlotCommand.withCycleBit (lap commandRingSize k)) s.ring s.sent
  controllerDequeue_eq : s.controllerDequeue = s.consumed.length % commandRingSize
  controllerCycleState_eq : s.controllerCycleState = lap commandRingSize s.consumed.length
  consumed_le : s.consumed.length ≤ s.sent
  consumed_eq : s.consumed = List.replicate s.consumed.length enableSlotCommand

theorem firstLap_setup : FirstLap setupCommandRing where
  produces := produces_setup
  sent_le := Nat.zero_le _
  holds := Holds.initial fun _ _ => Trb.cycleBit_zero
  controllerDequeue_eq := rfl
  controllerCycleState_eq := (lap_of_lt (k := 0) (by decide)).symm
  consumed_le := le_rfl
  consumed_eq := rfl

theorem withCycleBit_enableSlotCommand : enableSlotCommand.withCycleBit true = enableSlotCommand :=
  rfl

theorem FirstLap.visible_iff (h : FirstLap s) : s.Visible ↔ s.consumed.length < s.sent := by
  rw [CommandRing.Visible, h.controllerDequeue_eq, h.controllerCycleState_eq]
  exact h.holds.mark_iff_lt (by decide) (fun _ => Trb.cycleBit_withCycleBit _ _) h.consumed_le
    (Nat.le_add_left_of_le h.sent_le)

theorem FirstLap.seenOnce (h : FirstLap s) : SeenOnce s where
  consumed_le := h.consumed_le
  consumed_eq := h.consumed_eq
  visible_iff := h.visible_iff

theorem FirstLap.send (h : FirstLap s) (hlt : s.sent < commandRingSize) :
    FirstLap (sendCommand enableSlotCommand s) := by
  have hring : (sendCommand enableSlotCommand s).ring =
      Function.update s.ring (s.sent % commandRingSize)
        (enableSlotCommand.withCycleBit (lap commandRingSize s.sent)) := by
    rw [lap_of_lt hlt, withCycleBit_enableSlotCommand, ← h.produces.enqueue_eq, sendCommand]
    dsimp only
    rw [commandTrb_enableSlotCommand]
  exact
    { produces := h.produces.send _
      sent_le := hlt
      holds := by
        rw [hring]
        exact h.holds.push
      controllerDequeue_eq := h.controllerDequeue_eq
      controllerCycleState_eq := h.controllerCycleState_eq
      consumed_le := Nat.le_succ_of_le h.consumed_le
      consumed_eq := h.consumed_eq }

theorem FirstLap.consume (h : FirstLap s) (hs : consumeCommand s = some s') : FirstLap s' := by
  rw [consumeCommand] at hs
  split at hs
  · next hvisible =>
    cases hs
    rw [h.visible_iff] at hvisible
    have hslot : s.ring s.controllerDequeue = enableSlotCommand := by
      rw [h.controllerDequeue_eq, h.holds.recent _ hvisible (Nat.le_add_left_of_le h.sent_le),
        lap_of_lt (hvisible.trans_le h.sent_le), withCycleBit_enableSlotCommand]
    have hlength : (s.consumed ++ [s.ring s.controllerDequeue]).length = s.consumed.length + 1 := by
      simp
    have hdequeue : (s.controllerDequeue + 1) % commandRingSize =
        (s.consumed.length + 1) % commandRingSize := by
      rw [h.controllerDequeue_eq, Nat.mod_add_mod]
    exact
      { produces := ⟨h.produces.enqueue_eq, h.produces.cycleState_eq⟩
        sent_le := h.sent_le
        holds := h.holds
        controllerDequeue_eq := by
          rw [hlength]
          exact hdequeue
        controllerCycleState_eq := by
          rw [hlength, lap_succ, ← h.controllerCycleState_eq]
          dsimp only
          rw [hdequeue]
        consumed_le := by
          rw [hlength]
          exact hvisible
        consumed_eq := by
          dsimp only
          rw [hlength, hslot, List.replicate_succ', ← h.consumed_eq] }
  · cases hs

end Controller

section Runs

variable {s s' : CommandRing} {actions : List CommandAction}

theorem sent_of_consumeCommand (hs : consumeCommand s = some s') : s'.sent = s.sent := by
  rw [consumeCommand] at hs
  split at hs
  · cases hs
    rfl
  · cases hs

/-- The number of calls of a run. -/
theorem sent_of_run (hrun : commandSystem.run s actions = some s') :
    s'.sent = s.sent + actions.count .send := by
  induction actions generalizing s with
  | nil =>
    cases hrun
    rfl
  | cons action actions ih =>
    obtain ⟨s₁, hs₁, hrest⟩ := System.run_cons hrun
    rw [ih hrest]
    cases action with
    | send =>
      cases hs₁
      rw [List.count_cons_self, sendCommand_sent]
      omega
    | consume =>
      have hsent : s₁.sent = s.sent := sent_of_consumeCommand hs₁
      rw [hsent, List.count_cons_of_ne (by decide)]

/-- Calls that write well all lie within the first lap. -/
theorem sent_le_of_stepsMeet (hrun : commandSystem.run setupCommandRing actions = some s)
    (hmeet : commandSystem.StepsMeet WritesWell setupCommandRing actions) :
    s.sent ≤ commandRingSize := by
  have hreachable : commandSystem.ReachableBy WritesWell s :=
    System.ReachableBy.of_stepsMeet (System.ReachableBy.initial rfl) actions hrun hmeet
  have hfirst : Produces s ∧ s.sent ≤ commandRingSize := by
    refine System.ReachableBy.invariant
      (I := fun s => Produces s ∧ s.sent ≤ commandRingSize) ?_ ?_ hreachable
    · rintro s rfl
      exact ⟨produces_setup, Nat.zero_le _⟩
    · rintro s action s' ⟨hproduces, hle⟩ hwell hnext
      cases action with
      | send =>
        cases hnext
        have hne : s.sent ≠ commandRingSize := fun hsent => hproduces.not_writesWell hsent hwell
        exact ⟨hproduces.send _, lt_of_le_of_ne hle hne⟩
      | consume =>
        have hsent : s'.sent = s.sent := sent_of_consumeCommand hnext
        rw [hsent]
        refine ⟨?_, hle⟩
        simp only [commandSystem, consumeCommand] at hnext
        split at hnext
        · cases hnext
          exact ⟨hproduces.enqueue_eq, hproduces.cycleState_eq⟩
        · cases hnext
  exact hfirst.2

/-- A run within the first lap writes well and stays in the first lap. -/
theorem FirstLap.run (h : FirstLap s) (hrun : commandSystem.run s actions = some s')
    (hle : s.sent + actions.count .send ≤ commandRingSize) :
    commandSystem.StepsMeet WritesWell s actions ∧ FirstLap s' := by
  induction actions generalizing s with
  | nil =>
    cases hrun
    exact ⟨trivial, h⟩
  | cons action actions ih =>
    obtain ⟨s₁, hs₁, hrest⟩ := System.run_cons hrun
    rw [System.StepsMeet, hs₁]
    cases action with
    | send =>
      cases hs₁
      rw [List.count_cons_self] at hle
      have hlt : s.sent < commandRingSize := by omega
      have hafter : (sendCommand enableSlotCommand s).sent + actions.count .send ≤
          commandRingSize := by
        rw [sendCommand_sent]
        omega
      obtain ⟨hmeet, hlast⟩ := ih (h.send hlt) hrest hafter
      exact ⟨⟨h.produces.writesWell hlt, hmeet⟩, hlast⟩
    | consume =>
      rw [List.count_cons_of_ne (by decide), ← sent_of_consumeCommand hs₁] at hle
      obtain ⟨hmeet, hlast⟩ := ih (h.consume hs₁) hrest hle
      exact ⟨⟨trivial, hmeet⟩, hlast⟩

/-- Calls without a controller are always possible. -/
theorem exists_run_sends (s : CommandRing) (n : Nat) :
    ∃ s', commandSystem.run s (List.replicate n .send) = some s' := by
  induction n generalizing s with
  | zero => exact ⟨s, rfl⟩
  | succ n ih =>
    obtain ⟨s', hrun⟩ := ih (sendCommand enableSlotCommand s)
    exact ⟨s', hrun⟩

end Runs

/-- A run keeps its commands if and only if it has no more calls than the ring has slots. -/
theorem commandsKept_iff {actions : List CommandAction} {s : CommandRing}
    (hrun : commandSystem.run setupCommandRing actions = some s) :
    CommandsKept actions s ↔ actions.count .send ≤ commandRingSize := by
  constructor
  · rintro ⟨hmeet, -⟩
    have hsent : s.sent = 0 + actions.count .send := sent_of_run hrun
    rw [Nat.zero_add] at hsent
    rw [← hsent]
    exact sent_le_of_stepsMeet hrun hmeet
  · intro hle
    obtain ⟨hmeet, hlast⟩ := firstLap_setup.run hrun (by
      rw [show setupCommandRing.sent = 0 from rfl, Nat.zero_add]
      exact hle)
    exact ⟨hmeet, hlast.seenOnce⟩

/-- A command is sent and consumed. -/
theorem commandsKept_iff_one :
    ∃ s, commandSystem.run setupCommandRing [.send, .consume] = some s ∧
      CommandsKept [.send, .consume] s := by
  obtain ⟨s, hs⟩ : ∃ s, commandSystem.run setupCommandRing [.send, .consume] = some s := ⟨_, rfl⟩
  exact ⟨s, hs, (commandsKept_iff hs).mpr (by decide)⟩

/-- One call more than the ring has slots. -/
theorem not_commandsKept_second_lap :
    ∃ s, commandSystem.run setupCommandRing (List.replicate 257 .send) = some s ∧
      ¬ CommandsKept (List.replicate 257 .send) s := by
  obtain ⟨s, hs⟩ := exists_run_sends setupCommandRing 257
  refine ⟨s, hs, ?_⟩
  rintro ⟨hmeet, -⟩
  have hle : s.sent ≤ commandRingSize := sent_le_of_stepsMeet hs hmeet
  rw [sent_of_run hs, List.count_replicate_self] at hle
  exact absurd hle (by decide)

end RPiKernel.Xhci
