import RPiKernel.Usb.DeviceTree
import RPiKernel.Usb.EndpointToggle
import RPiKernel.Usb.HidDescriptor

/-!
# The polling interval of a HID device

`HIDGetInterruptInterval` reads the interval from the entry that `FindEndpoint` returns.
`HCDEndpointTransfer` keeps the data toggle in the same byte, so the interval is the one that
the device has supplied as long as no transfer flips the toggle of that entry.

## Implementation notes

`Interval` is modelled by the byte that it points to, which is none for a null pointer. The
speed of `Pipe0` is part of a call.
-/

namespace RPiKernel.Usb

open Machine Transition

section FindEndpoint

/-- A copy of an endpoint descriptor. -/
def copyEndpoint (ep : List UInt8) : List UInt8 := (List.range 7).map fun k => ep.getD k 0

/-- The entry that the search of `FindEndpoint` stops at. -/
def foundEntry (device : UsbDevice) (interfaceIndex : Nat) (type : UsbTransferType)
    (direction : UsbDirection) : Option Nat :=
  ((List.range maxEndpointsPerDevice).takeWhile fun i =>
      descriptorLength (device.endpoints interfaceIndex i) ≠ 0).find? fun i =>
    endpointType (device.endpoints interfaceIndex i) = type ∧
      endpointDirection (device.endpoints interfaceIndex i) = direction

/-- `FindEndpoint`. -/
def findEndpoint (device : UsbDevice) (interfaceIndex : Nat) (type : UsbTransferType)
    (direction : UsbDirection) : List UInt8 :=
  if device.maxInterface ≤ interfaceIndex then
    List.replicate 7 0
  else
    match foundEntry device interfaceIndex type direction with
    | some i => copyEndpoint (device.endpoints interfaceIndex i)
    | none => List.replicate 7 0

variable {device : UsbDevice} {endpoint : List UInt8} {i j : Nat} {type : UsbTransferType}
  {direction : UsbDirection}

@[simp] theorem interval_copyEndpoint (ep : List UInt8) : interval (copyEndpoint ep) = interval ep :=
  rfl

@[simp] theorem descriptorLength_copyEndpoint (ep : List UInt8) :
    descriptorLength (copyEndpoint ep) = descriptorLength ep :=
  rfl

@[simp] theorem endpointType_setInterval (ep : List UInt8) (value : UInt8) :
    endpointType (setInterval ep value) = endpointType ep :=
  rfl

@[simp] theorem endpointDirection_setInterval (ep : List UInt8) (value : UInt8) :
    endpointDirection (setInterval ep value) = endpointDirection ep :=
  rfl

/-- A flip changes the interval. -/
theorem xor_toggle_ne (value : UInt8) : value ^^^ 0x80 ≠ value := by
  intro h
  have hbit := and_ne_zero_of_xor value
  rw [h] at hbit
  exact Bool.not_ne_self _ hbit.symm

theorem foundEntry_toggled (device : UsbDevice) (endpoint : List UInt8) (i : Nat)
    (type : UsbTransferType) (direction : UsbDirection) :
    foundEntry (toggled device endpoint) i type direction = foundEntry device i type direction := by
  simp only [foundEntry, field_toggled descriptorLength_setInterval,
    field_toggled endpointType_setInterval, field_toggled endpointDirection_setInterval]

/-- The search for an entry stays below the interfaces of the device. -/
theorem lt_maxInterface_of_searchEndpoint (h : searchEndpoint device endpoint = some (i, j)) :
    i < device.maxInterface := by
  obtain ⟨i', hi', hrow⟩ := List.exists_of_findSome?_eq_some h
  obtain ⟨j', -, hslot⟩ := Option.map_eq_some_iff.mp hrow
  cases hslot
  exact List.mem_range.mp hi'

/-- The interval of an entry after a flip. -/
theorem interval_toggled_ne_iff :
    interval ((toggled device endpoint).endpoints i j) ≠ interval (device.endpoints i j) ↔
      searchEndpoint device endpoint = some (i, j) := by
  rw [toggled]
  cases hslot : searchEndpoint device endpoint with
  | none => exact iff_of_false (fun h => h rfl) fun h => by cases h
  | some slot =>
    obtain ⟨i', j'⟩ := slot
    dsimp only
    rw [Option.some_inj, Prod.mk.injEq, eq_comm (a := i'), eq_comm (a := j')]
    by_cases heq : i = i' ∧ j = j'
    · obtain ⟨rfl, rfl⟩ := heq
      rw [if_pos ⟨rfl, rfl⟩, interval_setInterval]
      exact iff_of_true (xor_toggle_ne _) ⟨rfl, rfl⟩
    · rw [if_neg heq]
      exact iff_of_false (fun h => h rfl) heq

/-- The entries other than the flipped one. -/
theorem endpoints_toggled_of_ne (h : searchEndpoint device endpoint ≠ some (i, j)) :
    (toggled device endpoint).endpoints i j = device.endpoints i j := by
  rw [toggled]
  cases hslot : searchEndpoint device endpoint with
  | none => rfl
  | some slot =>
    obtain ⟨i', j'⟩ := slot
    refine if_neg fun heq => h ?_
    rw [hslot, heq.1, heq.2]

/-- A flip of the entry that is returned. -/
def FlipsFound (device : UsbDevice) (endpoint : List UInt8) (i : Nat) (type : UsbTransferType)
    (direction : UsbDirection) : Prop :=
  ∃ j, foundEntry device i type direction = some j ∧ searchEndpoint device endpoint = some (i, j)

theorem interval_findEndpoint_toggled_of_flipsFound
    (h : FlipsFound device endpoint i type direction) :
    interval (findEndpoint (toggled device endpoint) i type direction) ≠
      interval (findEndpoint device i type direction) := by
  obtain ⟨j, hfound, hsearch⟩ := h
  have hinside : ¬ device.maxInterface ≤ i :=
    not_le.mpr (lt_maxInterface_of_searchEndpoint hsearch)
  rw [findEndpoint, findEndpoint, maxInterface_toggled, foundEntry_toggled, if_neg hinside,
    if_neg hinside, hfound]
  exact interval_toggled_ne_iff.mpr hsearch

theorem findEndpoint_toggled_of_not (h : ¬ FlipsFound device endpoint i type direction) :
    findEndpoint (toggled device endpoint) i type direction =
      findEndpoint device i type direction := by
  rw [findEndpoint, findEndpoint, maxInterface_toggled, foundEntry_toggled]
  cases hfound : foundEntry device i type direction with
  | none => rfl
  | some j =>
    dsimp only
    rw [endpoints_toggled_of_ne fun hsearch => h ⟨j, hfound, hsearch⟩]

/-- A flip leaves the entry that is returned exactly if it is of another one. -/
theorem findEndpoint_toggled_iff :
    findEndpoint (toggled device endpoint) i type direction =
        findEndpoint device i type direction ↔
      ¬ FlipsFound device endpoint i type direction :=
  ⟨fun hsame hflips => interval_findEndpoint_toggled_of_flipsFound hflips (congrArg interval hsame),
    findEndpoint_toggled_of_not⟩

theorem descriptorLength_findEndpoint_toggled :
    descriptorLength (findEndpoint (toggled device endpoint) i type direction) =
      descriptorLength (findEndpoint device i type direction) := by
  rw [findEndpoint, findEndpoint, maxInterface_toggled, foundEntry_toggled]
  cases foundEntry device i type direction with
  | none => rfl
  | some j =>
    dsimp only
    split
    · rfl
    · exact field_toggled descriptorLength_setInterval device endpoint i j

/-- The entry that a flip of it returns has a length. -/
theorem FlipsFound.descriptorLength_ne (h : FlipsFound device endpoint i type direction) :
    descriptorLength (findEndpoint device i type direction) ≠ 0 := by
  obtain ⟨j, hfound, hsearch⟩ := h
  have hinside : ¬ device.maxInterface ≤ i :=
    not_le.mpr (lt_maxInterface_of_searchEndpoint hsearch)
  rw [findEndpoint, if_neg hinside, hfound]
  exact of_decide_eq_true (List.all_eq_true.mp List.all_takeWhile j (List.mem_of_find?_eq_some hfound))

end FindEndpoint

section Interval

/-- `HIDGetInterruptInterval`: the result, and the byte that `Interval` points to. -/
def hidGetInterruptInterval (t : Tables) (devNumber hidIndex : UInt8) (stored : Option UInt8) :
    Result × Option UInt8 :=
  if stored = none then
    (.errorArgument, stored)
  else
    match usbDeviceAtAddress t devNumber.toNat with
    | none => (.errorDeviceNumber, stored)
    | some device =>
      match getHidDevice t device with
      | none => (.errorNotHID, stored)
      | some hidDevice =>
        if hidDevice.maxHID ≤ hidIndex.toNat then
          (.errorIndex, stored)
        else
          let endpoint := findEndpoint device (hidDevice.hidInterface hidIndex.toNat) .interrupt
            .directionIn
          if descriptorLength endpoint = 0 then
            (.errorDevice, stored)
          else
            (.ok, some (interval endpoint))

/-- A call of `HCDEndpointTransfer` for an endpoint of an entry of `DeviceTable`. -/
structure DeviceTransfer where
  device : Nat
  speed : UsbSpeed
  call : EndpointCall

/-- The calls for the endpoints of all devices, one after the other. -/
def deviceTransfers : System Tables DeviceTransfer where
  Initial _ := True
  next t a :=
    (hcdEndpointTransfer (t.deviceTable a.device) a.speed a.call).map fun report =>
      t.setDevice a.device report.device

/-- The call runs to the end of a transfer that is not empty, on an interrupt endpoint. -/
def Flips (t : Tables) (a : DeviceTransfer) : Prop :=
  endpointType a.call.endpoint = .interrupt ∧ a.call.bufferLength ≠ 0 ∧
    ∃ report, hcdEndpointTransfer (t.deviceTable a.device) a.speed a.call = some report ∧
      report.transfer.point = .completed

/-- The call flips the entry of device `d` that `FindEndpoint` returns. -/
def FlipsReturned (d i : Nat) (type : UsbTransferType) (direction : UsbDirection) (t : Tables)
    (a : DeviceTransfer) : Prop :=
  Flips t a ∧ a.device = d ∧ FlipsFound (t.deviceTable d) a.call.endpoint i type direction

/-- The call flips the entry that `HIDGetInterruptInterval` reads. -/
def FlipsPolled (devNumber hidIndex : UInt8) (t : Tables) (a : DeviceTransfer) : Prop :=
  ∃ hidDevice, hidDeviceAt t devNumber.toNat = some hidDevice ∧
    hidIndex.toNat < hidDevice.maxHID ∧
    FlipsReturned (devNumber.toNat - 1) (hidDevice.hidInterface hidIndex.toNat) .interrupt
      .directionIn t a

variable {t t' : Tables} {a : DeviceTransfer} {d i : Nat} {type : UsbTransferType}
  {direction : UsbDirection} {devNumber hidIndex : UInt8}

/-- What a call leaves of the tables. -/
theorem deviceTransfers_next_cases (h : deviceTransfers.next t a = some t') :
    (Flips t a ∧ t' = t.setDevice a.device (toggled (t.deviceTable a.device) a.call.endpoint)) ∨
      (¬ Flips t a ∧ t' = t) := by
  obtain ⟨report, hreport, rfl⟩ := Option.map_eq_some_iff.mp h
  have hdevice := (hcdEndpointTransfer_eq_some hreport).2
  by_cases hflips : (report.transfer.point = .completed ∧ a.call.bufferLength ≠ 0) ∧
      endpointType a.call.endpoint = .interrupt
  · rw [if_pos hflips] at hdevice
    exact .inl ⟨⟨hflips.2, hflips.1.2, report, hreport, hflips.1.1⟩, by rw [hdevice]⟩
  · rw [if_neg hflips] at hdevice
    refine .inr ⟨?_, ?_⟩
    · rintro ⟨htype, hlength, report', hreport', hpoint⟩
      cases hreport.symm.trans hreport'
      exact hflips ⟨⟨hpoint, hlength⟩, htype⟩
    · rw [hdevice, Tables.setDevice, Function.update_eq_self]

/-- A call leaves what `FindEndpoint` returns exactly if it does not flip that entry. -/
theorem findEndpoint_next_iff (h : deviceTransfers.next t a = some t') :
    findEndpoint (t'.deviceTable d) i type direction =
        findEndpoint (t.deviceTable d) i type direction ↔
      ¬ FlipsReturned d i type direction t a := by
  obtain ⟨hflips, rfl⟩ | ⟨hkeeps, rfl⟩ := deviceTransfers_next_cases h
  · rw [FlipsReturned, and_iff_right hflips, Tables.setDevice]
    dsimp only
    by_cases hd : d = a.device
    · subst hd
      rw [Function.update_self, findEndpoint_toggled_iff, and_iff_right rfl]
    · rw [Function.update_of_ne hd]
      exact iff_of_true rfl fun hand => hd hand.1.symm
  · exact iff_of_true rfl fun hand => hkeeps hand.1

theorem payLoadId_toggled (device : UsbDevice) (endpoint : List UInt8) :
    (toggled device endpoint).payLoadId = device.payLoadId := by
  rw [toggled]
  cases searchEndpoint device endpoint with
  | none => rfl
  | some slot => rfl

theorem payload_toggled (device : UsbDevice) (endpoint : List UInt8) :
    (toggled device endpoint).payload = device.payload := by
  rw [toggled]
  cases searchEndpoint device endpoint with
  | none => rfl
  | some slot => rfl

/-- The device at an address after a flip. -/
theorem usbDeviceAtAddress_toggled (t : Tables) (n : Nat) (endpoint : List UInt8) :
    usbDeviceAtAddress (t.setDevice (n - 1) (toggled (t.deviceTable (n - 1)) endpoint)) n =
      (usbDeviceAtAddress t n).map fun device => toggled device endpoint := by
  simp only [usbDeviceAtAddress, Tables.setDevice, Function.update_self, payLoadId_toggled]
  split
  · rfl
  · split
    · rfl
    · rfl

theorem usbDeviceAtAddress_setDevice_of_ne {device : UsbDevice} {n : Nat} (h : n - 1 ≠ d) :
    usbDeviceAtAddress (t.setDevice d device) n = usbDeviceAtAddress t n := by
  simp only [usbDeviceAtAddress, Tables.setDevice, Function.update_of_ne h]

theorem getHidDevice_setDevice (t : Tables) (d : Nat) (device changed : UsbDevice) :
    getHidDevice (t.setDevice d changed) device = getHidDevice t device :=
  rfl

theorem getHidDevice_toggled (t : Tables) (device : UsbDevice) (endpoint : List UInt8) :
    getHidDevice t (toggled device endpoint) = getHidDevice t device := by
  rw [getHidDevice, getHidDevice, payLoadId_toggled, payload_toggled]

/-- A flip in the device at an address leaves the answer of `HIDGetInterruptInterval` exactly if
it is not of the entry that is read. -/
theorem hidGetInterruptInterval_toggled_iff (endpoint : List UInt8) :
    (∀ stored, hidGetInterruptInterval (t.setDevice (devNumber.toNat - 1)
          (toggled (t.deviceTable (devNumber.toNat - 1)) endpoint)) devNumber hidIndex stored =
        hidGetInterruptInterval t devNumber hidIndex stored) ↔
      ∀ hidDevice, hidDeviceAt t devNumber.toNat = some hidDevice →
        hidIndex.toNat < hidDevice.maxHID →
        ¬ FlipsFound (t.deviceTable (devNumber.toNat - 1)) endpoint
          (hidDevice.hidInterface hidIndex.toNat) .interrupt .directionIn := by
  simp only [hidGetInterruptInterval, usbDeviceAtAddress_toggled, hidDeviceAt]
  cases haddress : usbDeviceAtAddress t devNumber.toNat with
  | none => exact iff_of_true (fun _ => rfl) fun _ h => by cases h
  | some device =>
    obtain ⟨-, -, rfl, -⟩ := usbDeviceAtAddress_eq_some haddress
    simp only [Option.map_some, getHidDevice_setDevice, getHidDevice_toggled, Option.bind_some]
    cases getHidDevice t (t.deviceTable (devNumber.toNat - 1)) with
    | none => exact iff_of_true (fun _ => rfl) fun _ h => by cases h
    | some hidDevice =>
      simp only [Option.some_inj, forall_eq']
      by_cases hindex : hidDevice.maxHID ≤ hidIndex.toNat
      · simp only [if_pos hindex]
        exact iff_of_true (fun _ => trivial) fun h => absurd hindex (not_le.mpr h)
      simp only [if_neg hindex, descriptorLength_findEndpoint_toggled]
      rw [forall_prop_of_true (not_le.mp hindex)]
      constructor
      · intro hsame hflips
        have hanswer := hsame (some 0)
        simp only [if_neg (Option.some_ne_none (0 : UInt8)), if_neg hflips.descriptorLength_ne,
          Prod.mk.injEq, Option.some_inj, true_and] at hanswer
        exact interval_findEndpoint_toggled_of_flipsFound hflips hanswer
      · intro hkeeps stored
        rw [findEndpoint_toggled_of_not hkeeps]

/-- A call leaves the answer of `HIDGetInterruptInterval` exactly if it does not flip the entry
that is read. -/
theorem hidGetInterruptInterval_next_iff (h : deviceTransfers.next t a = some t') :
    (∀ stored, hidGetInterruptInterval t' devNumber hidIndex stored =
        hidGetInterruptInterval t devNumber hidIndex stored) ↔
      ¬ FlipsPolled devNumber hidIndex t a := by
  obtain ⟨hflips, rfl⟩ | ⟨hkeeps, rfl⟩ := deviceTransfers_next_cases h
  · by_cases hd : a.device = devNumber.toNat - 1
    · rw [hd, hidGetInterruptInterval_toggled_iff]
      simp only [FlipsPolled, FlipsReturned, hflips, hd, true_and, not_exists, not_and]
    · simp only [hidGetInterruptInterval, usbDeviceAtAddress_setDevice_of_ne (Ne.symm hd),
        getHidDevice_setDevice]
      exact iff_of_true (fun _ => trivial) fun ⟨_, _, _, hpolled⟩ => hd hpolled.2.1
  · exact iff_of_true (fun _ => rfl) fun ⟨_, _, _, hpolled⟩ => hkeeps hpolled.1

/-- In every state of a run of transfers, `HIDGetInterruptInterval` answers as at the start exactly
if no call flips the entry that it reads, and `FindEndpoint` returns the entry of the start
exactly if no call flips that entry. -/
theorem queries_kept_iff {calls : List DeviceTransfer}
    (hrun : deviceTransfers.run t calls = some t') :
    (∀ devNumber hidIndex,
      (∀ before after t₁, calls = before ++ after → deviceTransfers.run t before = some t₁ →
        ∀ stored, hidGetInterruptInterval t₁ devNumber hidIndex stored =
          hidGetInterruptInterval t devNumber hidIndex stored) ↔
      deviceTransfers.StepsMeet (fun t a => ¬ FlipsPolled devNumber hidIndex t a) t calls) ∧
    ∀ d i type direction,
      (∀ before after t₁, calls = before ++ after → deviceTransfers.run t before = some t₁ →
        findEndpoint (t₁.deviceTable d) i type direction =
          findEndpoint (t.deviceTable d) i type direction) ↔
      deviceTransfers.StepsMeet (fun t a => ¬ FlipsReturned d i type direction t a) t calls := by
  constructor
  · intro devNumber hidIndex
    refine (System.always_iff_stepsMeet (fun t₁ a t₂ hsame hnext => ?_) hrun).trans
      (and_iff_right fun _ => rfl)
    rw [← hidGetInterruptInterval_next_iff hnext]
    exact forall_congr' fun stored => by rw [hsame stored]
  · intro d i type direction
    refine (System.always_iff_stepsMeet (fun t₁ a t₂ hsame hnext => ?_) hrun).trans
      (and_iff_right rfl)
    rw [← findEndpoint_next_iff hnext, hsame]

/-- A mouse that is polled every 10 frames, at address 1. -/
def polledTables : Tables where
  deviceTable := fun n =>
    if n = 0 then { mouse 10 with number := 1, payLoadId := .hidPayload, payload := some 0 } else {}
  hidTable := fun _ => mouseHid

/-- A transfer of one packet from the mouse, or of none. -/
def mouseTransfer (bufferLength : UInt32) : DeviceTransfer where
  device := 0
  speed := .low
  call := ⟨[7, 5, 0x81, 3, 8, 0, 10], bufferLength, ⟨fun _ => 0, fun _ => 0, fun _ => 1⟩,
    [⟨{ halt := true, acknowledgement := true, transferComplete := true }, 0⟩]⟩

theorem queries_kept_iff_empty :
    ∃ t', deviceTransfers.run polledTables [mouseTransfer 0] = some t' ∧
      hidGetInterruptInterval t' 1 0 (some 0) =
        hidGetInterruptInterval polledTables 1 0 (some 0) := by
  refine ⟨_, rfl, ((@queries_kept_iff polledTables _ [mouseTransfer 0] rfl).1 1 0).mpr
    ⟨?_, trivial⟩ [mouseTransfer 0] [] _ rfl rfl (some 0)⟩
  exact fun ⟨_, _, _, hpolled⟩ => hpolled.1.2.1 rfl

/-- After one packet, the interval of 10 frames reads as 138. -/
theorem not_queries_kept :
    ¬ ∀ t calls t', deviceTransfers.run t calls = some t' → ∀ devNumber hidIndex stored,
      hidGetInterruptInterval t' devNumber hidIndex stored =
        hidGetInterruptInterval t devNumber hidIndex stored := by
  intro hholds
  have hsame := hholds polledTables [mouseTransfer 8] _ rfl 1 0 (some 0)
  have hbefore : hidGetInterruptInterval polledTables 1 0 (some 0) = (.ok, some 10) := by decide
  rw [hbefore] at hsame
  revert hsame
  decide

end Interval

end RPiKernel.Usb
