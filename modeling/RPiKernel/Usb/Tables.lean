import Mathlib.Logic.Function.Basic

/-!
# The tables of the USB driver

Devices, hub payloads and HID payloads live in three fixed tables. An entry has no
flag of its own that says whether it is free: a device entry is free while its
`PayLoadId` is zero, a hub payload while `MaxChildren` is zero, a HID payload while
`MaxHID` is zero.

## Implementation notes

A pointer to an entry is its index, and the union of payload pointers is one optional
index into the table that `payLoadId` names. The device keeps the fields that the
allocation, the parsing of the configuration and the removal read and write.
-/

namespace RPiKernel.Usb

def maximumDevices : Nat := 32

def maximumHubs : Nat := 16

def maximumHids : Nat := 16

def maxChildrenPerDevice : Nat := 10

def maxInterfacesPerDevice : Nat := 8

def maxEndpointsPerDevice : Nat := 16

def maxHIDPerDevice : Nat := 4

/-- The values of `RESULT` that the modelled functions return. -/
inductive Result where
  | ok
  | errorGeneral
  | errorArgument
  | errorDevice
  | errorMemory
  | errorTransmission
  | errorIncompatible
  | errorTimeout
  | errorDeviceNumber
  | errorIndex
  | errorNotHID
  | errorStall
  deriving DecidableEq

/-- An access that C++ leaves undefined. -/
inductive Fault where
  | readOutside
  | writeOutside
  | nullPointer
  deriving DecidableEq

inductive PayLoadType where
  | errorPayload
  | noPayload
  | hubPayload
  | hidPayload
  | massStoragePayload
  deriving DecidableEq

/-- `ParentHub`: the number of the parent, and the port of the parent. -/
structure UsbParent where
  number : Nat := 0
  portNumber : Nat := 0
  deriving DecidableEq

/-- A device entry; `number` is `Pipe0.Number`, and `payload` the union of pointers. -/
structure UsbDevice where
  parentHub : UsbParent := {}
  number : Nat := 0
  maxInterface : Nat := 0
  interfaces : Nat → List UInt8 := fun _ => List.replicate 9 0
  endpoints : Nat → Nat → List UInt8 := fun _ _ => List.replicate 7 0
  payLoadId : PayLoadType := .errorPayload
  payload : Option Nat := none

@[ext]
structure HubDevice where
  maxChildren : Nat := 0
  children : Nat → Option Nat := fun _ => none

structure HidDevice where
  descriptor : Nat → List UInt8 := fun _ => List.replicate 9 0
  hidInterface : Nat → Nat := fun _ => 0
  maxHID : Nat := 0

@[ext]
structure Tables where
  deviceTable : Nat → UsbDevice := fun _ => {}
  hubTable : Nat → HubDevice := fun _ => {}
  hidTable : Nat → HidDevice := fun _ => {}

/-- The first index below a limit that passes a test: the search of every table. -/
def firstFree (limit : Nat) (free : Nat → Bool) : Option Nat := (List.range limit).find? free

theorem firstFree_eq_some {limit : Nat} {free : Nat → Bool} {k : Nat} :
    firstFree limit free = some k ↔ k < limit ∧ free k = true ∧ ∀ j < k, free j = false := by
  rw [firstFree, List.find?_range_eq_some]
  constructor
  · rintro ⟨hfree, hmem, hall⟩
    exact ⟨List.mem_range.mp hmem, hfree, fun j hj => by simpa using hall j hj⟩
  · rintro ⟨hlt, hfree, hall⟩
    exact ⟨hfree, List.mem_range.mpr hlt, fun j hj => by simpa using hall j hj⟩

theorem firstFree_eq_none {limit : Nat} {free : Nat → Bool} :
    firstFree limit free = none ↔ ∀ k < limit, free k = false := by
  simp [firstFree]

/-- `IsHub`. -/
def isHub (device : UsbDevice) : Bool :=
  device.payLoadId = .hubPayload ∧ device.payload.isSome

/-- `AllocateHidPayload`: the entry taken, and the table with its `MaxHID` set. -/
def allocateHidPayload (hidTable : Nat → HidDevice) : Option Nat × (Nat → HidDevice) :=
  match firstFree maximumHids fun number => (hidTable number).maxHID == 0 with
  | some number => (some number, Function.update hidTable number
      { hidTable number with maxHID := maxHIDPerDevice })
  | none => (none, hidTable)

/-- `AddHidPayload`: the result, and the device and the table after it. -/
def addHidPayload (device : UsbDevice) (hidTable : Nat → HidDevice) :
    Result × UsbDevice × (Nat → HidDevice) :=
  if device.payLoadId ≠ .noPayload then
    (.errorArgument, device, hidTable)
  else
    match allocateHidPayload hidTable with
    | (some number, hidTable) =>
        (.ok, { device with payload := some number, payLoadId := .hidPayload }, hidTable)
    | (none, hidTable) => (.errorMemory, { device with payload := none }, hidTable)

/-- `AddHubPayload`: the entry taken and the tables after it, or the failure. -/
def addHubPayload (t : Tables) (device : Nat) : Except Result (Nat × Tables) :=
  if (t.deviceTable device).payLoadId = .noPayload then
    match firstFree maximumHubs fun number => (t.hubTable number).maxChildren == 0 with
    | some number => .ok (number, { t with
        deviceTable := Function.update t.deviceTable device
          { t.deviceTable device with payload := some number, payLoadId := .hubPayload }
        hubTable := Function.update t.hubTable number
          { t.hubTable number with maxChildren := maxChildrenPerDevice } })
    | none => .error .errorMemory
  else
    .error .errorArgument

/-- An entry as `UsbAllocateDevice` sets it up. -/
def allocatedDevice (device : UsbDevice) (number : Nat) : UsbDevice :=
  { device with
    number := number + 1
    parentHub := ⟨0xFF, 0⟩
    payLoadId := .noPayload
    payload := none }

/-- `UsbAllocateDevice`: the entry taken, and the table after it. -/
def usbAllocateDevice (deviceTable : Nat → UsbDevice) : Option (Nat × (Nat → UsbDevice)) :=
  match firstFree maximumDevices fun number =>
      (deviceTable number).payLoadId == .errorPayload with
  | some number => some (number, Function.update deviceTable number
      (allocatedDevice (deviceTable number) number))
  | none => none

theorem usbAllocateDevice_some {deviceTable deviceTable' : Nat → UsbDevice} {number : Nat}
    (h : usbAllocateDevice deviceTable = some (number, deviceTable')) :
    number < maximumDevices ∧ (deviceTable number).payLoadId = .errorPayload ∧
      deviceTable' = Function.update deviceTable number
        (allocatedDevice (deviceTable number) number) := by
  rw [usbAllocateDevice] at h
  split at h
  · next hfree =>
    obtain ⟨hlt, hzero, -⟩ := firstFree_eq_some.mp hfree
    cases h
    exact ⟨hlt, by simpa using hzero, rfl⟩
  · cases h

section HidPayload

variable {device device' : UsbDevice} {hidTable hidTable' : Nat → HidDevice}

/-- A device without a payload gets the first free entry. -/
theorem addHidPayload_ok {number : Nat} (hid : device.payLoadId = .noPayload)
    (hfree : firstFree maximumHids (fun k => (hidTable k).maxHID == 0) = some number) :
    addHidPayload device hidTable =
      (.ok, { device with payload := some number, payLoadId := .hidPayload },
        Function.update hidTable number
          { hidTable number with maxHID := maxHIDPerDevice }) := by
  rw [addHidPayload, if_neg (not_not.mpr hid), allocateHidPayload, hfree]

/-- What the adding of a payload can do. -/
theorem addHidPayload_cases (device : UsbDevice) (hidTable : Nat → HidDevice) :
    (device.payLoadId ≠ .noPayload ∧
      addHidPayload device hidTable = (.errorArgument, device, hidTable)) ∨
    (device.payLoadId = .noPayload ∧ (∀ k < maximumHids, (hidTable k).maxHID ≠ 0) ∧
      addHidPayload device hidTable = (.errorMemory, { device with payload := none }, hidTable)) ∨
    ∃ number, device.payLoadId = .noPayload ∧ number < maximumHids ∧
      (hidTable number).maxHID = 0 ∧
      addHidPayload device hidTable =
        (.ok, { device with payload := some number, payLoadId := .hidPayload },
          Function.update hidTable number
            { hidTable number with maxHID := maxHIDPerDevice }) := by
  by_cases hid : device.payLoadId = .noPayload
  · cases hfree : firstFree maximumHids (fun k => (hidTable k).maxHID == 0) with
    | some number =>
        obtain ⟨hlt, hzero, -⟩ := firstFree_eq_some.mp hfree
        exact Or.inr (Or.inr ⟨number, hid, hlt, by simpa using hzero, addHidPayload_ok hid hfree⟩)
    | none =>
        refine Or.inr (Or.inl ⟨hid, fun k hk => ?_, ?_⟩)
        · simpa using firstFree_eq_none.mp hfree k hk
        · rw [addHidPayload, if_neg (not_not.mpr hid), allocateHidPayload, hfree]
  · exact Or.inl ⟨hid, by rw [addHidPayload, if_pos hid]⟩

end HidPayload

end RPiKernel.Usb
