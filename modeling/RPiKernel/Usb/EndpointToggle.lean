import RPiKernel.Usb.TransferTally

/-!
# The data toggle of an interrupt endpoint

`HCDEndpointTransfer` keeps the toggle of an interrupt endpoint in bit 7 of the interval of its
entry, which it looks up by number, direction and type, once before the transfer and once
after it. The bit is flipped once for a transfer that returns a length.

## Implementation notes

The endpoint is the descriptor that the caller passes; only its number, direction, type and
maximal packet size are read. The speed of `Pipe0` is a parameter. A history is a device with
the number of packets that one of its endpoints has exchanged since the start.
-/

namespace RPiKernel.Usb

open Machine Transition

inductive UsbTransferType
  | control
  | isochronous
  | bulk
  | interrupt
  deriving DecidableEq, Repr

section Descriptor

/-- `Header.DescriptorLength`. -/
def descriptorLength (ep : List UInt8) : UInt8 := ep.getD 0 0

/-- `EndpointAddress.Number`. -/
def endpointNumber (ep : List UInt8) : UInt8 := ep.getD 2 0 &&& 0x0F

/-- `EndpointAddress.Direction`. -/
def endpointDirection (ep : List UInt8) : UsbDirection :=
  if ep.getD 2 0 &&& 0x80 = 0 then .directionOut else .directionIn

/-- `Attributes.Type`. -/
def endpointType (ep : List UInt8) : UsbTransferType :=
  match (ep.getD 3 0).toNat % 4 with
  | 0 => .control
  | 1 => .isochronous
  | 2 => .bulk
  | _ => .interrupt

/-- `Packet.MaxSize`. -/
def packetMaxSize (ep : List UInt8) : UInt16 :=
  ((ep.getD 4 0).toUInt16 ||| ((ep.getD 5 0).toUInt16 <<< 8)) &&& 0x07FF

/-- `Interval`. -/
def interval (ep : List UInt8) : UInt8 := ep.getD 6 0

/-- An assignment to `Interval`. -/
def setInterval (ep : List UInt8) (value : UInt8) : List UInt8 :=
  (List.range 7).map fun k => if k = 6 then value else ep.getD k 0

/-- Bit 7 of the interval. -/
def dataToggle (ep : List UInt8) : Bool := interval ep &&& 0x80 ≠ 0

/-- What the searches compare. -/
def endpointKey (ep : List UInt8) : UInt8 × UsbDirection × UsbTransferType :=
  (endpointNumber ep, endpointDirection ep, endpointType ep)

end Descriptor

/-- The first entry with the number, direction and type of an endpoint. The entries of an
interface end at one without a length. -/
def searchEndpoint (device : UsbDevice) (endpoint : List UInt8) : Option (Nat × Nat) :=
  (List.range device.maxInterface).findSome? fun i =>
    (((List.range maxEndpointsPerDevice).takeWhile fun j =>
        descriptorLength (device.endpoints i j) ≠ 0).find? fun j =>
      endpointKey (device.endpoints i j) = endpointKey endpoint).map fun j => (i, j)

/-- The toggle that is stored for an endpoint. -/
def toggleOf (device : UsbDevice) (endpoint : List UInt8) : Bool :=
  match searchEndpoint device endpoint with
  | some (i, j) => dataToggle (device.endpoints i j)
  | none => false

/-- The PID that a transfer starts with. -/
def packetIdOf (device : UsbDevice) (endpoint : List UInt8) : PacketId :=
  if endpointType endpoint = .interrupt then
    if toggleOf device endpoint then .data1 else .data0
  else
    .data0

/-- The stored toggle of an endpoint is flipped. -/
def toggled (device : UsbDevice) (endpoint : List UInt8) : UsbDevice :=
  match searchEndpoint device endpoint with
  | some (i, j) =>
      { device with
        endpoints := fun i' j' =>
          if i' = i ∧ j' = j then
            setInterval (device.endpoints i j) (interval (device.endpoints i j) ^^^ 0x80)
          else
            device.endpoints i' j' }
  | none => device

/-- The arguments of a call, with the memory of the channel and the answers that it gets. -/
structure EndpointCall where
  endpoint : List UInt8
  bufferLength : UInt32
  memory : ChannelMemory
  responses : List Response

/-- The device after a call, the PID it has started with, its transfer and its result. -/
structure EndpointReport where
  device : UsbDevice
  packetId : PacketId
  transfer : Transfer
  result : Result

/-- `HCDEndpointTransfer`. -/
def hcdEndpointTransfer (device : UsbDevice) (speed : UsbSpeed) (call : EndpointCall) :
    Option EndpointReport := do
  let pipe : UsbPipe := { maxPacketSizeInBytes := packetMaxSize call.endpoint, speed }
  let packetId := packetIdOf device call.endpoint
  let start :=
    match endpointDirection call.endpoint with
    | .directionIn => transferIn pipe call.bufferLength.toNat packetId call.memory
    | .directionOut => transferOut pipe call.bufferLength.toNat packetId call.memory
  let (transfer, _) ← start.finish call.responses
  let transferred := transfer.returned.getD 0
  return {
    device :=
      if transferred > 0 ∧ endpointType call.endpoint = .interrupt then
        toggled device call.endpoint
      else
        device
    packetId
    transfer
    result := if transferred > 0 then .ok else .errorTransmission }

section Search

variable {device : UsbDevice} {endpoint endpoint' : List UInt8} {i j : Nat}

/-- The entry found has the number, direction and type. -/
theorem key_of_searchEndpoint (h : searchEndpoint device endpoint = some (i, j)) :
    endpointKey (device.endpoints i j) = endpointKey endpoint := by
  obtain ⟨i', -, hrow⟩ := List.exists_of_findSome?_eq_some h
  obtain ⟨j', hfound, hslot⟩ := Option.map_eq_some_iff.mp hrow
  cases hslot
  simpa using List.find?_some hfound

/-- The search reads no more of the endpoint. -/
theorem searchEndpoint_congr (device : UsbDevice)
    (h : endpointKey endpoint = endpointKey endpoint') :
    searchEndpoint device endpoint = searchEndpoint device endpoint' := by
  rw [searchEndpoint, searchEndpoint, h]

@[simp] theorem interval_setInterval (ep : List UInt8) (value : UInt8) :
    interval (setInterval ep value) = value :=
  rfl

@[simp] theorem descriptorLength_setInterval (ep : List UInt8) (value : UInt8) :
    descriptorLength (setInterval ep value) = descriptorLength ep :=
  rfl

@[simp] theorem endpointKey_setInterval (ep : List UInt8) (value : UInt8) :
    endpointKey (setInterval ep value) = endpointKey ep :=
  rfl

theorem and_ne_zero_of_xor (value : UInt8) :
    decide ((value ^^^ 0x80) &&& 0x80 ≠ 0) = !decide (value &&& 0x80 ≠ 0) := by
  have hall : ∀ n : Fin 256, decide ((UInt8.ofFin n ^^^ 0x80) &&& 0x80 ≠ 0) =
      !decide (UInt8.ofFin n &&& 0x80 ≠ 0) := by decide +kernel
  exact hall value.toFin

/-- The flip of a toggle. -/
@[simp] theorem dataToggle_setInterval (ep : List UInt8) :
    dataToggle (setInterval ep (interval ep ^^^ 0x80)) = !dataToggle ep :=
  and_ne_zero_of_xor _

/-- A flip leaves what does not depend on the interval. -/
theorem field_toggled {α : Type} {field : List UInt8 → α}
    (hfield : ∀ ep value, field (setInterval ep value) = field ep) (device : UsbDevice)
    (endpoint : List UInt8) (i j : Nat) :
    field ((toggled device endpoint).endpoints i j) = field (device.endpoints i j) := by
  rw [toggled]
  cases hslot : searchEndpoint device endpoint with
  | none => rfl
  | some slot =>
    dsimp only
    split
    · next heq => rw [hfield, heq.1, heq.2]
    · rfl

theorem maxInterface_toggled (device : UsbDevice) (endpoint : List UInt8) :
    (toggled device endpoint).maxInterface = device.maxInterface := by
  rw [toggled]
  cases searchEndpoint device endpoint with
  | none => rfl
  | some slot => rfl

/-- A flip moves no entry for the searches. -/
theorem searchEndpoint_toggled (device : UsbDevice) (endpoint endpoint' : List UInt8) :
    searchEndpoint (toggled device endpoint') endpoint = searchEndpoint device endpoint := by
  simp only [searchEndpoint, maxInterface_toggled, field_toggled descriptorLength_setInterval,
    field_toggled endpointKey_setInterval]

/-- A flip changes the toggle of the endpoints that it is found for. -/
theorem toggleOf_toggled (device : UsbDevice) (endpoint endpoint' : List UInt8) :
    toggleOf (toggled device endpoint') endpoint =
      if endpointKey endpoint' = endpointKey endpoint ∧ (searchEndpoint device endpoint).isSome then
        !toggleOf device endpoint
      else
        toggleOf device endpoint := by
  rw [toggleOf, toggleOf, searchEndpoint_toggled]
  cases hfound : searchEndpoint device endpoint with
  | none =>
    rw [if_neg fun h => (by cases h.2)]
  | some slot =>
    obtain ⟨i, j⟩ := slot
    dsimp only
    rw [toggled]
    rcases eq_or_ne (endpointKey endpoint') (endpointKey endpoint) with hkey | hkey
    · rw [if_pos ⟨hkey, rfl⟩, searchEndpoint_congr device hkey, hfound]
      dsimp only
      rw [if_pos ⟨rfl, rfl⟩, dataToggle_setInterval]
    · rw [if_neg fun h => hkey h.1]
      cases hother : searchEndpoint device endpoint' with
      | none => rfl
      | some slot =>
        obtain ⟨i', j'⟩ := slot
        dsimp only
        have hapart : ¬ (i = i' ∧ j = j') := by
          rintro ⟨rfl, rfl⟩
          exact hkey ((key_of_searchEndpoint hother).symm.trans (key_of_searchEndpoint hfound))
        rw [if_neg hapart]

/-- The PID depends on the number, direction and type of the endpoint. -/
theorem packetIdOf_congr (device : UsbDevice) (h : endpointKey endpoint = endpointKey endpoint') :
    packetIdOf device endpoint = packetIdOf device endpoint' := by
  have htype : endpointType endpoint = endpointType endpoint' :=
    congrArg (fun key => key.2.2) h
  rw [packetIdOf, packetIdOf, htype, toggleOf, toggleOf, searchEndpoint_congr device h]

end Search

section History

/-- A device, with the number of packets that an endpoint has exchanged. -/
structure EndpointHistory where
  device : UsbDevice
  exchanged : Nat

/-- The calls for the endpoints of a device, one after the other, with the packets that one of
the endpoints exchanges. -/
def endpointCalls (speed : UsbSpeed) (endpoint : List UInt8) :
    System EndpointHistory EndpointCall where
  Initial h := h.exchanged = 0
  next h call :=
    match hcdEndpointTransfer h.device speed call with
    | some report =>
        some {
          device := report.device
          exchanged := h.exchanged +
            if endpointKey call.endpoint = endpointKey endpoint then report.transfer.exchanged
            else 0 }
    | none => none

/-- The next transfer starts with the PID that the device expects: DATA1 after an odd number of
packets. -/
def InStep (endpoint : List UInt8) (h : EndpointHistory) : Prop :=
  packetIdOf h.device endpoint = if h.exchanged % 2 = 1 then .data1 else .data0

/-- A call for the endpoint flips the toggle, where it does, for an odd number of packets: its
entry is found, and a transfer that is not empty runs to its end, exactly when an odd number of
packets is exchanged. -/
def Alternates (speed : UsbSpeed) (endpoint : List UInt8) (h : EndpointHistory)
    (call : EndpointCall) : Prop :=
  endpointKey call.endpoint = endpointKey endpoint →
    ∀ report, hcdEndpointTransfer h.device speed call = some report →
      ((searchEndpoint h.device endpoint).isSome = true ∧ report.transfer.point = .completed ∧
          call.bufferLength ≠ 0 ↔
        report.transfer.exchanged % 2 = 1)

variable {speed : UsbSpeed} {endpoint : List UInt8} {h h' : EndpointHistory} {call : EndpointCall}
  {calls : List EndpointCall}

/-- What a call leaves: the toggle is flipped where a transfer that is not empty has run to its
end. -/
theorem hcdEndpointTransfer_eq_some {device : UsbDevice} {report : EndpointReport}
    (hreport : hcdEndpointTransfer device speed call = some report) :
    report.packetId = packetIdOf device call.endpoint ∧
      report.device =
        if (report.transfer.point = .completed ∧ call.bufferLength ≠ 0) ∧
            endpointType call.endpoint = .interrupt then
          toggled device call.endpoint
        else
          device := by
  have hlength : call.bufferLength.toNat < 2 ^ 32 := call.bufferLength.toNat_lt
  have hzero : call.bufferLength.toNat ≠ 0 ↔ call.bufferLength ≠ 0 :=
    not_congr (UInt32.toNat_inj (b := 0))
  rw [hcdEndpointTransfer] at hreport
  obtain ⟨⟨transfer, rest⟩, hfinish, hreport⟩ := Option.bind_eq_some_iff.mp hreport
  have hended : Ended call.bufferLength.toNat transfer := by
    cases hdirection : endpointDirection call.endpoint with
    | directionIn =>
      rw [hdirection] at hfinish
      exact ended_transferIn hlength hfinish
    | directionOut =>
      rw [hdirection] at hfinish
      exact ended_transferOut hlength hfinish
  have hpos := hended.returned_pos_iff
  rw [hzero] at hpos
  cases hreport
  refine ⟨rfl, ?_⟩
  simp only [gt_iff_lt, hpos]

theorem inStep_iff (hinterrupt : endpointType endpoint = .interrupt) :
    InStep endpoint h ↔ (toggleOf h.device endpoint = true ↔ h.exchanged % 2 = 1) := by
  rw [InStep, packetIdOf, if_pos hinterrupt]
  cases toggleOf h.device endpoint with
  | true =>
    rcases Nat.mod_two_eq_zero_or_one h.exchanged with heven | hodd
    · rw [heven]
      decide
    · rw [hodd]
      decide
  | false =>
    rcases Nat.mod_two_eq_zero_or_one h.exchanged with heven | hodd
    · rw [heven]
      decide
    · rw [hodd]
      decide

/-- A call for another endpoint leaves the toggle. -/
theorem toggleOf_of_ne {report : EndpointReport}
    (hreport : hcdEndpointTransfer h.device speed call = some report)
    (hkey : endpointKey call.endpoint ≠ endpointKey endpoint) :
    toggleOf report.device endpoint = toggleOf h.device endpoint := by
  rw [(hcdEndpointTransfer_eq_some hreport).2]
  split
  · rw [toggleOf_toggled, if_neg fun hand => hkey hand.1]
  · rfl

/-- A call for the endpoint flips the toggle where its entry is found, and a transfer that is
not empty has run to its end. -/
theorem toggleOf_of_eq {report : EndpointReport}
    (hinterrupt : endpointType endpoint = .interrupt)
    (hreport : hcdEndpointTransfer h.device speed call = some report)
    (hkey : endpointKey call.endpoint = endpointKey endpoint) :
    (toggleOf report.device endpoint ≠ toggleOf h.device endpoint ↔
      (searchEndpoint h.device endpoint).isSome = true ∧ report.transfer.point = .completed ∧
        call.bufferLength ≠ 0) := by
  have htype : endpointType call.endpoint = .interrupt :=
    (congrArg (fun key => key.2.2) hkey).trans hinterrupt
  rw [(hcdEndpointTransfer_eq_some hreport).2]
  split
  · next hmoved =>
    rw [toggleOf_toggled]
    split
    · next hfound =>
      exact iff_of_true (Bool.not_ne_self _) ⟨hfound.2, hmoved.1⟩
    · next hlost => exact iff_of_false (fun hne => hne rfl) fun hand => hlost ⟨hkey, hand.1⟩
  · next hkept => exact iff_of_false (fun hne => hne rfl) fun hand => hkept ⟨hand.2, htype⟩

/-- A call of a history that is in step leaves it in step exactly when it alternates. -/
theorem inStep_iff_of_next (hinterrupt : endpointType endpoint = .interrupt)
    (hstep : InStep endpoint h) (hnext : (endpointCalls speed endpoint).next h call = some h') :
    InStep endpoint h' ↔ Alternates speed endpoint h call := by
  rw [inStep_iff hinterrupt] at hstep ⊢
  change (match hcdEndpointTransfer h.device speed call with
    | some report => _
    | none => _) = _ at hnext
  cases hreport : hcdEndpointTransfer h.device speed call with
  | none =>
    rw [hreport] at hnext
    cases hnext
  | some report =>
    rw [hreport] at hnext
    cases hnext
    dsimp only
    rcases eq_or_ne (endpointKey call.endpoint) (endpointKey endpoint) with hkey | hkey
    · have hflip := toggleOf_of_eq hinterrupt hreport hkey
      have halternates : Alternates speed endpoint h call ↔
          ((searchEndpoint h.device endpoint).isSome = true ∧
              report.transfer.point = .completed ∧ call.bufferLength ≠ 0 ↔
            report.transfer.exchanged % 2 = 1) := by
        constructor
        · exact fun hall => hall hkey report hreport
        · intro hthis _ report' hreport'
          cases hreport.symm.trans hreport'
          exact hthis
      rw [if_pos hkey, halternates]
      have hparity : (h.exchanged + report.transfer.exchanged) % 2 = 1 ↔
          (h.exchanged % 2 = 1 ↔ ¬ report.transfer.exchanged % 2 = 1) := by omega
      rw [hparity, ← hstep, ← hflip]
      cases toggleOf h.device endpoint with
      | true =>
        cases toggleOf report.device endpoint with
        | true => simp
        | false => simp
      | false =>
        cases toggleOf report.device endpoint with
        | true => simp
        | false => simp
    · rw [if_neg hkey, toggleOf_of_ne hreport hkey]
      exact iff_of_true hstep fun hsame => absurd hsame hkey

/-- In every state of a history the next transfer of the endpoint starts with the PID that the
device expects, exactly when bit 7 of its interval was clear and each of its calls flips the
toggle for an odd number of packets only. -/
theorem inStep_iff_alternates (hinterrupt : endpointType endpoint = .interrupt)
    (hstart : (endpointCalls speed endpoint).Initial h)
    (hrun : (endpointCalls speed endpoint).run h calls = some h') :
    (∀ before after h₁, calls = before ++ after →
      (endpointCalls speed endpoint).run h before = some h₁ → InStep endpoint h₁) ↔
    toggleOf h.device endpoint = false ∧
      (endpointCalls speed endpoint).StepsMeet (Alternates speed endpoint) h calls := by
  have hfirst : InStep endpoint h ↔ toggleOf h.device endpoint = false := by
    have hzero : h.exchanged = 0 := hstart
    rw [inStep_iff hinterrupt, hzero, ← Bool.not_eq_true]
    constructor
    · exact fun hiff htrue => absurd (hiff.mp htrue) (by decide)
    · exact fun hnot => iff_of_false hnot (by decide)
  rw [System.always_iff_stepsMeet (fun _ _ _ => inStep_iff_of_next hinterrupt) hrun, hfirst]

/-- A device with one endpoint: an interrupt endpoint for eight bytes from the device. -/
def mouse (interval : UInt8) : UsbDevice where
  maxInterface := 1
  endpoints := fun i j =>
    if i = 0 ∧ j = 0 then [7, 5, 0x81, 3, 8, 0, interval] else List.replicate 7 0

/-- A call that moves one packet. -/
theorem inStep_iff_alternates_one_packet :
    ∃ h', (endpointCalls .high [7, 5, 0x81, 3, 8, 0, 10]).run ⟨mouse 10, 0⟩
        [⟨[7, 5, 0x81, 3, 8, 0, 10], 8, ⟨fun _ => 0, fun _ => 0, fun _ => 1⟩,
          [⟨{ halt := true, acknowledgement := true, transferComplete := true }, 0⟩]⟩] = some h' ∧
      InStep [7, 5, 0x81, 3, 8, 0, 10] h' := by
  refine ⟨_, rfl, (@inStep_iff_alternates .high [7, 5, 0x81, 3, 8, 0, 10] ⟨mouse 10, 0⟩ _
    [⟨[7, 5, 0x81, 3, 8, 0, 10], 8, ⟨fun _ => 0, fun _ => 0, fun _ => 1⟩,
      [⟨{ halt := true, acknowledgement := true, transferComplete := true }, 0⟩]⟩] rfl
    rfl rfl).mpr ⟨rfl, ?_, trivial⟩ _ [] _ (List.append_nil _).symm rfl⟩
  intro _ report hreport
  cases hreport
  exact ⟨fun _ => rfl, fun _ => ⟨rfl, rfl, by decide⟩⟩

/-- An interval of 255 frames reads as a toggle that is set: the first transfer starts with
DATA1. -/
theorem not_inStep_interval :
    ¬ ∀ speed endpoint h calls h', endpointType endpoint = .interrupt →
      (endpointCalls speed endpoint).Initial h →
      (endpointCalls speed endpoint).run h calls = some h' →
      ∀ before after h₁, calls = before ++ after →
        (endpointCalls speed endpoint).run h before = some h₁ → InStep endpoint h₁ := by
  intro hholds
  have hstep : packetIdOf (mouse 255) [7, 5, 0x81, 3, 8, 0, 255] = .data0 :=
    hholds .high [7, 5, 0x81, 3, 8, 0, 255] ⟨mouse 255, 0⟩ [] _ rfl rfl rfl [] [] _ rfl rfl
  exact absurd hstep (by decide)

end History

end RPiKernel.Usb
