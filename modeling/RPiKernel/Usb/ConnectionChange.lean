import RPiKernel.Transition.System
import RPiKernel.Usb.Configuration
import RPiKernel.Usb.DeviceTree

/-!
# Connection changes

`HubPortConnectionChanged` removes the device at a port that is gone, allocates an
entry for a new one, attaches it to the port and enumerates it; a device that cannot
be enumerated is removed again. Before each removal the function may have waited for
the host, so a change is up to three steps. The ports that `EnumerateHub` checks are
changes of their own.

## Implementation notes

What the host and the device answer is an argument of the step: the results of the
transfers, the configuration and the port count. A step whose parsing leaves its
arrays or does not end has no state after it. The driver runs as one task, so no
other change comes between the steps of one.
-/

namespace RPiKernel.Usb

open Relation Forest Transition

/-- What the host and the device answer to `EnumerateDevice`, step by step. -/
structure Answers where
  firstBytes : Result := .ok
  portReset : Result := .ok
  setAddress : Result := .ok
  deviceDescriptor : Result := .ok
  hubClass : Bool := false
  configDescriptor : Result := .ok
  wTotalLength : Nat := 0
  received : List UInt8 := []
  stack : Nat → UInt8 := fun _ => 0
  setConfiguration : Result := .ok
  hubDescriptor : Option Nat := none
  hubStatus : Result := .ok

/-- The enumeration comes to `EnumerateHub`, as far as the answers are concerned. -/
structure Answers.ReachHub (answers : Answers) : Prop where
  firstBytes : answers.firstBytes = .ok
  portReset : answers.portReset = .ok
  setAddress : answers.setAddress = .ok
  deviceDescriptor : answers.deviceDescriptor = .ok
  configDescriptor : answers.configDescriptor = .ok
  setConfiguration : answers.setConfiguration = .ok
  hubClass : answers.hubClass = true

/-- `EnumerateHub` up to the checks of its ports. -/
def enumerateHub (t : Tables) (d : Nat) (answers : Answers) : Result × Tables :=
  match addHubPayload t d with
  | .error result => (result, t)
  | .ok (n, t) =>
      let t := t.setHub n { t.hubTable n with children := fun _ => none }
      match answers.hubDescriptor with
      | none => (.errorDevice, t)
      | some portCount =>
          if maxChildrenPerDevice < portCount then
            (answers.hubStatus, t)
          else
            (answers.hubStatus, t.setHub n { t.hubTable n with maxChildren := portCount })

/-- `Pipe0.Number` of a device. -/
def Tables.setNumber (t : Tables) (d number : Nat) : Tables :=
  t.setDevice d { t.deviceTable d with number }

/-- `EnumerateDevice`, with as many iterations of the parsing loop as the fuel allows. -/
def enumerateDevice (fuel : Nat) (t : Tables) (d : Nat) (answers : Answers) :
    Option (Result × Tables) :=
  let address := (t.deviceTable d).number
  let t := t.setNumber d 0
  if answers.firstBytes ≠ .ok then
    some (answers.firstBytes, t)
  else
    let t := t.setNumber d address
    if answers.portReset ≠ .ok then
      some (answers.portReset, t)
    else if answers.setAddress ≠ .ok then
      some (answers.setAddress, t)
    else if answers.deviceDescriptor ≠ .ok then
      some (answers.deviceDescriptor, t)
    else if answers.configDescriptor ≠ .ok then
      some (answers.configDescriptor, t)
    else
      match readConfiguration fuel answers.wTotalLength answers.received answers.stack
          (t.deviceTable d) t.hidTable with
      | none => none
      | some (.error _) => none
      | some (.ok (result, s)) =>
          let t := { t.setDevice d s.device with hidTable := s.hidTable }
          match result with
          | some result => some (result, t)
          | none =>
              if answers.setConfiguration ≠ .ok then
                some (answers.setConfiguration, t)
              else if answers.hubClass then
                some (enumerateHub t d answers)
              else
                some (.ok, t)

/-- The tables, and the hub payload and the port whose new device is to be removed. -/
structure UsbState where
  tables : Tables
  failed : Option (Nat × Nat) := none

inductive UsbAction where
  | disconnect (d port : Nat) (connected enabled : Bool)
  | connect (d port fuel : Nat) (reset status : Result) (answers : Answers)
  | disable

/-- The payload of a hub that has a port, as the callers check it. -/
def hubPort (t : Tables) (d port : Nat) : Option Nat :=
  match (t.deviceTable d).payload with
  | none => none
  | some n =>
      if (t.deviceTable d).payLoadId = .hubPayload ∧ port < (t.hubTable n).maxChildren then
        some n
      else
        none

/-- The device at a port is removed, and the port given free. -/
def removeChild (t : Tables) (n port : Nat) : Except TableFault Tables :=
  match (t.hubTable n).children port with
  | none => .error .nullDevice
  | some c => (usbDeallocateDevice maximumDevices t c).map fun t => t.setChild n port none

/-- The parent and the port are stored in the new device. -/
def setParent (t : Tables) (d port c : Nat) : Tables :=
  t.setDevice c { t.deviceTable c with parentHub := ⟨(t.deviceTable d).number, port⟩ }

/-- The rest of `HubPortConnectionChanged`, at a port without a device. -/
def connectPort (s : UsbState) (d n port fuel : Nat) (reset status : Result) (answers : Answers) :
    Option UsbState :=
  if reset ≠ .ok then
    some s
  else
    match usbAllocateDevice s.tables.deviceTable with
    | none => some s
    | some (c, deviceTable) =>
        let t := { s.tables with deviceTable }.setChild n port (some c)
        if status ≠ .ok then
          some { s with tables := t }
        else
          match enumerateDevice fuel (setParent t d port c) c answers with
          | none => none
          | some (result, tables) => some
              { tables, failed := if result = .ok then none else some (n, port) }

namespace UsbState

/-- A step of `HubPortConnectionChanged`, where it is possible. -/
def effect (s : UsbState) : UsbAction → Option (Except TableFault UsbState)
  | .disconnect d port connected enabled =>
      match s.failed, hubPort s.tables d port with
      | none, some n =>
          if (!connected && !enabled) || ((s.tables.hubTable n).children port).isSome then
            some ((removeChild s.tables n port).map fun tables => { s with tables })
          else
            some (.ok s)
      | _, _ => none
  | .connect d port fuel reset status answers =>
      match s.failed, hubPort s.tables d port with
      | none, some n =>
          if ((s.tables.hubTable n).children port).isSome then
            none
          else
            (connectPort s d n port fuel reset status answers).map .ok
      | _, _ => none
  | .disable =>
      match s.failed with
      | none => none
      | some (n, port) =>
          some ((removeChild s.tables n port).map fun tables => { tables })

def next (s : UsbState) (a : UsbAction) : Option UsbState :=
  match s.effect a with
  | some (.ok s') => some s'
  | _ => none

end UsbState

/-- The tables with only the root hub, whose payload is the first one. -/
def rootTables (root : UsbDevice) (maxChildren : Nat) : Tables where
  deviceTable := Function.update (fun _ => {}) 0 root
  hubTable := Function.update (fun _ => {}) 0 { maxChildren }

/-- The runs of connection changes after the root hub has been enumerated. -/
def usbSystem : System UsbState UsbAction where
  Initial s := ∃ root maxChildren, root.number = 1 ∧ root.payLoadId = .hubPayload ∧
    root.payload = some 0 ∧ 1 ≤ maxChildren ∧ maxChildren ≤ maxChildrenPerDevice ∧
    s = { tables := rootTables root maxChildren }
  next := UsbState.next

theorem usbSystem_next (s : UsbState) (a : UsbAction) : usbSystem.next s a = s.next a := rfl

/-- The parents of a device and of all below it can be found by their numbers. -/
def Findable (t : Tables) (c : Nat) : Prop :=
  ∀ x, Below t c x → (t.deviceTable x).parentHub.number < maximumDevices

/-- The device that a step removes. -/
def UsbState.removed (s : UsbState) : UsbAction → Option Nat
  | .disconnect d port _ _ =>
      match s.failed, hubPort s.tables d port with
      | none, some n => (s.tables.hubTable n).children port
      | _, _ => none
  | .connect _ _ _ _ _ _ => none
  | .disable => s.failed.bind fun (n, port) => (s.tables.hubTable n).children port

/-- Every device removed can be found by its parent, as can all below it; a port without a
device is not taken for disconnected; no hub that is enumerated reports zero ports. -/
def Orderly (s : UsbState) (a : UsbAction) : Prop :=
  (∀ c, s.removed a = some c → Findable s.tables c) ∧
    match a with
    | .disconnect _ _ connected enabled => s.removed a = none → connected = true ∨ enabled = true
    | .connect _ _ _ reset status answers => reset = .ok → status = .ok → answers.ReachHub →
        answers.hubDescriptor ≠ some 0
    | .disable => True

/-- What is left when a device and all below it have been freed. -/
structure FreesSubtree (t : Tables) (c : Nat) (t' : Tables) : Prop where
  freed : ∀ x, Below t c x → t'.deviceTable x = {}
  payloads : ∀ x n, Below t c x → HubOn t x n → t'.hubTable n = {}
  slot : ∀ n p, (t.hubTable n).children p = some c → (t'.hubTable n).children p = none
  devices : ∀ x, ¬ Below t c x → t'.deviceTable x = t.deviceTable x
  hubs : ∀ n, (∀ x, Below t c x → ¬ HubOn t x n) →
    (t'.hubTable n).maxChildren = (t.hubTable n).maxChildren ∧
      ∀ p, (t.hubTable n).children p ≠ some c →
        (t'.hubTable n).children p = (t.hubTable n).children p
  hids : t'.hidTable = t.hidTable

/-- Every pointer to a device leads to an entry in use, and every hub payload belongs to one
device at most, and is free exactly when it belongs to none. -/
structure Owned (t : Tables) : Prop where
  inTable : ∀ x, (t.deviceTable x).payLoadId ≠ .errorPayload → x < maximumDevices
  child : ∀ n p c, (t.hubTable n).children p = some c →
    (t.deviceTable c).payLoadId ≠ .errorPayload
  owner_unique : ∀ x y n, HubOn t x n → HubOn t y n → x = y
  free_iff : ∀ n, (t.hubTable n).maxChildren = 0 ↔ ∀ x, ¬ HubOn t x n

theorem Tree.isOwned {t : Tables} (h : Tree t) : Owned t where
  inTable := h.bounded
  child n p c hc := (h.child n p c hc).2.1
  owner_unique := h.owner_unique
  free_iff n := by
    constructor
    · exact fun hzero x hon => h.owned x n hon hzero
    · intro hnone
      by_contra hne
      obtain ⟨x, hon⟩ := h.used n hne
      exact hnone x hon

/-- What is pruned below a device is freed. -/
theorem Tree.freesSubtree {t : Tables} (h : Tree t) (c : Nat) :
    FreesSubtree t c (Usb.prune t (Below t c)) where
  freed x hx := prune_device_of hx
  payloads x n hx hon := by
    rw [prune_hub_of ⟨x, hx, hon⟩]
  slot n p hc := by
    rw [Option.eq_none_iff_forall_ne_some]
    intro b hb
    obtain ⟨-, hb, hnot⟩ := children_prune_iff.mp hb
    rw [hc] at hb
    cases hb
    exact hnot ReflTransGen.refl
  devices x hx := prune_device_of_not hx
  hubs n hn := by
    have hkept : ¬ ∃ x, Below t c x ∧ HubOn t x n := fun ⟨x, hx, hon⟩ => hn x hx hon
    refine ⟨by rw [prune_hub_of_not hkept], fun p hp => ?_⟩
    cases hb : (t.hubTable n).children p with
    | none =>
        rw [Option.eq_none_iff_forall_ne_some]
        intro b hb'
        rw [(children_prune_iff.mp hb').2.1] at hb
        cases hb
    | some b =>
        refine children_prune_iff.mpr ⟨hkept, hb, fun hbelow => ?_⟩
        -- a device below the removed one hangs from one below it
        rcases ReflTransGen.cases_tail hbelow with heq | ⟨x, hx, m, q, hon, hchild⟩
        · exact hp (heq ▸ hb)
        · obtain ⟨rfl, -⟩ := h.slot_unique n p m q b hb hchild
          exact hn x hx hon
  hids := rfl

end RPiKernel.Usb
