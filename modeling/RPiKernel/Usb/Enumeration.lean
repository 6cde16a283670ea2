import RPiKernel.Usb.ConnectionChange
import RPiKernel.Usb.HidDescriptor
import RPiKernel.Usb.PacketSizes
import RPiKernel.Usb.StringDescriptor

/-!
# The messages of an enumeration

`EnumerateDevice` asks a device for the first eight bytes of its descriptor over a pipe with
packets of eight bytes. Every message after that goes over a pipe whose packet size is the byte
`bMaxPacketSize0` that the device has sent.

## Implementation notes

The replies are those of the device that is enumerated. What goes over other pipes is not part of
the computation: the reset of the port by the parent is an argument, and so is what the checks of
the ports of a hub ask of the hub. Arrays hold anything before they are written.
-/

namespace RPiKernel.Usb

open Machine

/-- A message without data. -/
def commandMessage (pipe0 : UsbPipe) (request : UsbDeviceRequest) : ControlMessage where
  pipe0
  direction := .directionOut
  buffer := none
  bufferLength := 0
  request := request.bytes
  bytesTransferred := none

/-- The message that asks for the first eight bytes of the device descriptor. -/
def firstMessage (speed : UsbSpeed) : ControlMessage :=
  getDescriptorMessage { maxPacketSizeInBytes := 8, speed } 1 0 0 0x80 (fun _ => 0) 8 (some 0)

/-- The message that sets the address of a device. -/
def setAddressMessage (pipe0 : UsbPipe) (address : UInt8) : ControlMessage :=
  commandMessage pipe0 { type := 0, request := 5, value := address.toUInt16 }

/-- `HCDSetAddress`. -/
def hcdSetAddress (pipe0 : UsbPipe) (address : UInt8) : UsbM Result := do
  if address = 0 then
    return .errorArgument
  let reply ← submit (setAddressMessage pipe0 address)
  return reply.result

/-- `HCDSetConfiguration`. -/
def hcdSetConfiguration (pipe0 : UsbPipe) (configuration : UInt8) : UsbM Result := do
  let reply ← submit
    (commandMessage pipe0 { type := 0, request := 9, value := configuration.toUInt16 })
  return reply.result

/-- `HCDReadHubPortStatus`: the result, and the status as it has arrived. -/
def hcdReadHubPortStatus (pipe0 : UsbPipe) (port : UInt8) (status : Nat → UInt8) :
    UsbM (Result × (Nat → UInt8)) := do
  let reply ← submit {
    pipe0
    direction := .directionIn
    buffer := some status
    bufferLength := 4
    request := UsbDeviceRequest.bytes {
      type := if port = 0 then 0xA0 else 0xA3
      request := 0
      index := port.toUInt16
      length := 4 }
    bytesTransferred := some 0 }
  let status ← arrive 4 status 4 reply.received
  if reply.result ≠ .ok then
    return (reply.result, status)
  if reply.transferred < 4 then
    return (.errorDevice, status)
  return (.ok, status)

/-- `HCDChangeHubPortFeature`. -/
def hcdChangeHubPortFeature (pipe0 : UsbPipe) (feature : UInt16) (port : UInt8) (set : Bool) :
    UsbM Result := do
  let reply ← submit (commandMessage pipe0 {
    type := if port = 0 then 0x20 else 0x23
    request := if set then 3 else 1
    value := feature
    index := port.toUInt16 })
  return reply.result

/-- What the check of a port asks of the hub. -/
inductive HubRequest where
  | readStatus (port : UInt8) (status : Nat → UInt8)
  | changeFeature (feature : UInt16) (port : UInt8) (set : Bool)

/-- The requests to a hub, one after the other. -/
def hubRequests (pipe0 : UsbPipe) : List HubRequest → UsbM Unit
  | [] => pure ()
  | .readStatus port status :: requests => do
      let _ ← hcdReadHubPortStatus pipe0 port status
      hubRequests pipe0 requests
  | .changeFeature feature port set :: requests => do
      let _ ← hcdChangeHubPortFeature pipe0 feature port set
      hubRequests pipe0 requests

/-- The loop that powers the ports from `i` on, with `left` ports left. -/
def powerPorts (pipe0 : UsbPipe) : Nat → Nat → UsbM Unit
  | 0, _ => pure ()
  | left + 1, i => do
      let _ ← hcdChangeHubPortFeature pipe0 8 (UInt8.ofNat (i + 1)) true
      powerPorts pipe0 left (i + 1)

/-- What arrays and variables hold before an enumeration writes them. -/
structure EnumerationMemory where
  descriptor : Nat → UInt8
  configDesc : Nat → UInt8
  configBuffer : Nat → UInt8
  header : Nat → UInt8
  descBuffer : Nat → UInt8
  buffer : Nat → UInt8
  hubDescriptor : Nat → UInt8
  status : Nat → UInt8
  buf : Nat → UInt8

/-- What is not decided by the device: the speed of its port, the result of the reset of the port
by the parent, what the checks of the ports ask of a hub, and what memory holds. -/
structure EnumerationSetting where
  speed : UsbSpeed
  portReset : Result
  checks : List HubRequest
  memory : EnumerationMemory

/-- The descriptor of a hub has nine bytes. -/
def sizeOfHubDescriptor : Nat := 9

namespace UsbM

/-- `EnumerateHub`; the tables are those before the ports are checked. -/
def enumerateHub (setting : EnumerationSetting) (pipe0 : UsbPipe) (t : Tables) (d : Nat) :
    UsbM (Result × Tables) :=
  match addHubPayload t d with
  | .error result => pure (result, t)
  | .ok (n, t) => do
      let t := t.setHub n { t.hubTable n with children := fun _ => none }
      let report ← hcdGetDescriptor pipe0 41 0 0 setting.memory.hubDescriptor sizeOfHubDescriptor
        sizeOfHubDescriptor 0xA0 true
      if report.result ≠ .ok ∨ report.bytesTransferred ≠ some sizeOfHubDescriptor then
        return (.errorDevice, t)
      let portCount := (report.buffer 2).toNat
      let t :=
        if maxChildrenPerDevice < portCount then t
        else t.setHub n { t.hubTable n with maxChildren := portCount }
      let (result, _) ← hcdReadHubPortStatus pipe0 0 setting.memory.status
      if result ≠ .ok then
        return (result, t)
      powerPorts pipe0 (t.hubTable n).maxChildren 0
      hubRequests pipe0 setting.checks
      return (.ok, t)

end UsbM

/-- What the steps 4 and 5 read: the device descriptor, the configuration descriptor and the whole
configuration. -/
structure EnumerationDescriptors where
  descriptor : Nat → UInt8
  configDesc : Nat → UInt8
  configBuffer : Nat → UInt8

/-- The reading of the configuration descriptor, and of the whole configuration. -/
def readConfigurations (setting : EnumerationSetting) (pipe0 : UsbPipe) (descriptor : Nat → UInt8) :
    UsbM (Except Result EnumerationDescriptors) := do
  let report ← hcdGetDescriptor pipe0 2 0 0 setting.memory.configDesc 9 9 0x80 true
  if report.result = .ok ∧ report.bytesTransferred ≠ some 9 then
    return .error .errorTransmission
  if report.result ≠ .ok then
    return .error .errorDevice
  let wTotalLength := wordAt report.buffer 2
  let reply ← submit
    (getDescriptorMessage pipe0 2 0 0 0x80 setting.memory.configBuffer wTotalLength (some 0))
  let configBuffer ←
    arrive configBufferSize setting.memory.configBuffer wTotalLength reply.received
  if reply.result ≠ .ok ∨ reply.transferred ≠ wTotalLength then
    return .error (if reply.result ≠ .ok then reply.result else .errorDevice)
  return .ok { descriptor, configDesc := report.buffer, configBuffer }

/-- The steps 4 and 5 of the enumeration, up to the parsing. -/
def readDescriptors (setting : EnumerationSetting) (pipe0 : UsbPipe) :
    UsbM (Except Result EnumerationDescriptors) := do
  let report ← hcdGetDescriptor pipe0 1 0 0 setting.memory.descriptor 18 18 0x80 true
  if report.result = .ok ∧ report.bytesTransferred ≠ some 18 then
    return .error .errorTransmission
  if report.result ≠ .ok then
    return .error report.result
  readConfigurations setting pipe0 report.buffer

/-- The strings that are read for the log, one after the other into the text buffer. -/
def readStrings (setting : EnumerationSetting) (pipe0 : UsbPipe) :
    List UInt8 → (Nat → UInt8) → UsbM Unit
  | [], _ => pure ()
  | stringIndex :: rest, buffer =>
      if stringIndex ≠ 0 then do
        let report ← hcdReadStringDescriptor pipe0 stringIndex setting.memory.header
          setting.memory.descBuffer buffer 256
        readStrings setting pipe0 rest report.buffer
      else
        readStrings setting pipe0 rest buffer

/-- `iProduct`, `iManufacturer`, `iSerialNumber` and `ConfigStringIndex`. -/
def stringIndices (descriptors : EnumerationDescriptors) : List UInt8 :=
  [descriptors.descriptor 15, descriptors.descriptor 14, descriptors.descriptor 16,
    descriptors.configDesc 6]

namespace UsbM

/-- The steps 6 and 7 of the enumeration. -/
def configure (setting : EnumerationSetting) (pipe0 : UsbPipe)
    (descriptors : EnumerationDescriptors) (hidCount : Nat) (t : Tables) (d : Nat) :
    UsbM (Result × Tables) := do
  let result ← hcdSetConfiguration pipe0 (descriptors.configDesc 5)
  if result ≠ .ok then
    return (result, t)
  readStrings setting pipe0 (stringIndices descriptors) setting.memory.buffer
  if descriptors.descriptor 4 = 9 then
    enumerateHub setting pipe0 t d
  else if hidCount > 0 then
    let _ ← enumerateHid pipe0 t (t.deviceTable d) setting.memory.buf
    return (.ok, t)
  else
    return (.ok, t)

/-- The enumeration from step 4 on; nothing is left of it where the parsing does not end. -/
def enumerateAddressed (setting : EnumerationSetting) (fuel : Nat) (pipe0 : UsbPipe) (t : Tables)
    (d : Nat) : UsbM (Option (Result × Tables)) := do
  match ← readDescriptors setting pipe0 with
  | .error result => return some (result, t)
  | .ok descriptors =>
    match parseLoop descriptors.configBuffer (parseBound (wordAt descriptors.configDesc 2)) fuel
        { device := t.deviceTable d, hidTable := t.hidTable } with
    | none => return none
    | some (.error fault) => throw fault
    | some (.ok (result, s)) =>
      let t := { t.setDevice d s.device with hidTable := s.hidTable }
      match result with
      | some result => return some (result, t)
      | none => return some (← configure setting pipe0 descriptors s.hidCount t d)

/-- The enumeration from step 2 on. -/
def enumerateOver (setting : EnumerationSetting) (fuel : Nat) (pipe0 : UsbPipe) (address : Nat)
    (t : Tables) (d : Nat) : UsbM (Option (Result × Tables)) := do
  if setting.portReset ≠ .ok then
    return some (setting.portReset, t.setNumber d address)
  let result ← hcdSetAddress pipe0 (UInt8.ofNat address)
  if result ≠ .ok then
    return some (result, t.setNumber d address)
  enumerateAddressed setting fuel pipe0 (t.setNumber d address) d

/-- `EnumerateDevice`, with as many iterations of the parsing loop as the fuel allows. -/
def enumerateDevice (setting : EnumerationSetting) (fuel : Nat) (t : Tables) (d : Nat) :
    UsbM (Option (Result × Tables)) := do
  let address := (t.deviceTable d).number
  let t := t.setNumber d 0
  let reply ← submit (firstMessage setting.speed)
  let desc ← arrive 18 (fun _ => 0) 8 reply.received
  if reply.result ≠ .ok ∨ reply.transferred ≠ 8 then
    return some (if reply.result ≠ .ok then reply.result else .errorTransmission, t)
  enumerateOver setting fuel
    { maxPacketSizeInBytes := (desc 7).toUInt16, speed := setting.speed } address t d

end UsbM

/-- The computation sends messages with a property. -/
def Sends {α : Type} (P : ControlMessage → Prop) (x : UsbM α) : Prop :=
  Appends ControlState.sent P x

/-- A message over a pipe with at most as much data as a length in a descriptor can name. -/
structure OnPipe (pipe : UsbPipe) (message : ControlMessage) : Prop where
  pipe0_eq : message.pipe0 = pipe
  length_lt : message.bufferLength.toNat < 2 ^ 16

theorem OnPipe.honest_iff {pipe : UsbPipe} {message : ControlMessage} (h : OnPipe pipe message) :
    message.Honest ↔ pipe.maxPacketSizeInBytes ≠ 0 := by
  have hmax : pipe.maxPacketSizeInBytes.toNat < 2 ^ 16 := UInt16.toNat_lt _
  have hlength := h.length_lt
  rw [ControlMessage.honest_iff, ControlMessage.Countable, h.pipe0_eq]
  exact and_iff_left (.inr (.inr (.inr (by omega))))

section Sends

variable {pipe : UsbPipe} {type index recipient : UInt8} {langId : UInt16} {buffer : Nat → UInt8}
  {capacity length : Nat}

theorem sends_submit {P : ControlMessage → Prop} {message : ControlMessage} (h : P message) :
    Sends P (submit message) := by
  intro s
  refine ⟨[message], rfl, fun entry hentry => ?_⟩
  cases List.mem_singleton.mp hentry
  exact h

theorem sends_arrive {P : ControlMessage → Prop} (received : List UInt8) :
    Sends P (arrive capacity buffer length received) :=
  (appends_pure _).ite (appends_throw _)

theorem onPipe_getDescriptorMessage (hlength : length < 2 ^ 16) (transferred : Option UInt32) :
    OnPipe pipe
      (getDescriptorMessage pipe type index langId recipient buffer length transferred) :=
  ⟨rfl, (Nat.mod_le length (2 ^ 32)).trans_lt hlength⟩

theorem onPipe_commandMessage (request : UsbDeviceRequest) :
    OnPipe pipe (commandMessage pipe request) :=
  ⟨rfl, Nat.two_pow_pos 16⟩

theorem sends_checkHeader :
    Sends (OnPipe pipe) (checkHeader pipe type index langId length recipient) :=
  (sends_submit (onPipe_getDescriptorMessage (by decide) none)).bind fun _ =>
    (appends_pure _).ite (appends_pure _)

/-- The header check lets no more be read than asked for. -/
theorem le_of_checkHeader {n : Nat} {s s' : ControlState}
    (hrun : (checkHeader pipe type index langId length recipient).run s = .ok (.ok n) s') :
    n ≤ length := by
  by_cases hheader : s.replies.head.headerResult type = .ok
  · have hn := (yields_checkHeader hheader).eq ⟨s'.sent, hrun⟩
    cases hn
    exact Nat.min_le_left _ _
  · cases (yields_checkHeader_refused hheader).eq ⟨s'.sent, hrun⟩

theorem sends_readDescriptor (hlength : length < 2 ^ 16) :
    Sends (OnPipe pipe) (readDescriptor pipe type index langId buffer capacity length recipient) :=
  (sends_submit (onPipe_getDescriptorMessage hlength _)).bind fun _ =>
    (sends_arrive _).bind fun _ => appends_pure _

theorem sends_hcdGetDescriptor (hlength : length < 2 ^ 16) (runHeaderCheck : Bool) :
    Sends (OnPipe pipe) (hcdGetDescriptor pipe type index langId buffer capacity length recipient
      runHeaderCheck) := by
  refine Appends.ite ?_ (sends_readDescriptor hlength)
  refine sends_checkHeader.bind_of_run fun a s s' hrun => ?_
  cases a with
  | error result => exact appends_pure _
  | ok n => exact sends_readDescriptor ((le_of_checkHeader hrun).trans_lt hlength)

theorem sends_store {P : ControlMessage → Prop} (i : Nat) (c : UInt8) :
    Sends P (store length buffer i c) :=
  (appends_pure _).ite (appends_throw _)

end Sends

section Strings

variable {pipe : UsbPipe} {descBuffer : Nat → UInt8}

theorem sends_readLanguages (pipe : UsbPipe) : Sends (OnPipe pipe) (readLanguages pipe) := by
  have hlength (langIds : Nat → UInt8) : listLength langIds < 2 ^ 16 := by
    have : langId langIds 0 % 256 < 256 := Nat.mod_lt _ (by decide)
    rw [listLength]
    omega
  refine (sends_hcdGetDescriptor (by decide) true).bind fun first => ?_
  refine (appends_pure _).ite ((appends_pure _).ite ?_)
  refine (sends_hcdGetDescriptor (hlength _) true).bind fun second => ?_
  exact (appends_pure _).ite (appends_pure _)

theorem sends_searchEnglish {P : ControlMessage → Prop} (langIds : Nat → UInt8) (left i : Nat) :
    Sends P (searchEnglish langIds left i) := by
  induction left generalizing i with
  | zero => exact appends_pure _
  | succ left ih =>
    exact Appends.ite (((appends_pure _).ite (ih (i + 1))).ite (appends_throw _)) (appends_pure _)

theorem sends_readString (stringIndex : UInt8) (language : UInt16) (header : Nat → UInt8) :
    Sends (OnPipe pipe) (readString pipe stringIndex language header descBuffer) := by
  have hlength (c : UInt8) : c.toNat < 2 ^ 16 := c.toNat_lt.trans (by decide)
  refine (sends_hcdGetDescriptor (by decide) true).bind fun third => ?_
  refine (appends_pure _).ite ?_
  refine (sends_hcdGetDescriptor (hlength _) true).bind fun fourth => ?_
  exact (appends_pure _).ite (appends_pure _)

theorem sends_narrow {P : ControlMessage → Prop} (count length left i : Nat)
    (buffer : Nat → UInt8) : Sends P (narrow descBuffer count length left i buffer) := by
  induction left generalizing i buffer with
  | zero => exact appends_pure _
  | succ left ih =>
    refine Appends.ite (Appends.ite ?_ (appends_throw _)) (appends_pure _)
    exact (sends_store i _).bind fun buffer => ih (i + 1) buffer

theorem sends_storeString {P : ControlMessage → Prop} (noEnglishSupport : Bool)
    (descriptorLength : Nat) (buffer : Nat → UInt8) (length : Nat) :
    Sends P (storeString noEnglishSupport descriptorLength descBuffer buffer length) := by
  refine Appends.ite ?_ ?_
  · exact (sends_store 0 0).bind fun _ => appends_pure _
  · refine (sends_narrow _ length _ 0 buffer).bind fun stop => ?_
    exact (sends_store _ 0).bind fun _ => appends_pure _

theorem sends_hcdReadStringDescriptor (stringIndex : UInt8) (header buffer : Nat → UInt8)
    (length : Nat) :
    Sends (OnPipe pipe)
      (hcdReadStringDescriptor pipe stringIndex header descBuffer buffer length) := by
  refine (appends_pure _).ite ((sends_readLanguages pipe).bind fun languages => ?_)
  cases languages with
  | none => exact appends_pure _
  | some langIds =>
    refine (sends_searchEnglish langIds _ 1).bind fun i => ?_
    refine (sends_readString stringIndex _ header).bind fun string => ?_
    cases string with
    | error result => exact appends_pure _
    | ok string => exact sends_storeString _ _ buffer length

theorem sends_readStrings (setting : EnumerationSetting) (indices : List UInt8)
    (buffer : Nat → UInt8) : Sends (OnPipe pipe) (readStrings setting pipe indices buffer) := by
  induction indices generalizing buffer with
  | nil => exact appends_pure _
  | cons stringIndex rest ih =>
    refine Appends.ite ?_ (ih buffer)
    exact (sends_hcdReadStringDescriptor stringIndex _ _ _).bind fun report => ih report.buffer

end Strings

section Hid

variable {pipe : UsbPipe} {t : Tables}

theorem reportLength_of_readLength {hidDevice : HidDevice} {i n : Nat} {s s' : ControlState}
    (hrun : (readLength hidDevice i).run s = .ok n s') : n = reportLength hidDevice i := by
  by_cases hi : i < maxHIDPerDevice
  · rw [readLength, if_pos hi] at hrun
    cases hrun
    rfl
  · rw [readLength, if_neg hi] at hrun
    cases hrun

theorem sends_readEntry (hidDevice : HidDevice) (i : Nat) (buffer : Nat → UInt8)
    (length : UInt16) : Sends (OnPipe pipe) (readEntry pipe hidDevice i buffer length) := by
  have hread : Sends (OnPipe pipe) (readLength hidDevice i) :=
    (appends_pure _).ite (appends_throw _)
  refine hread.bind_of_run fun sizeToRead s s' hrun => ?_
  obtain rfl := reportLength_of_readLength hrun
  refine (sends_hcdGetDescriptor (reportLength_lt hidDevice i) false).bind fun report => ?_
  exact (appends_pure _).ite (appends_pure _)

theorem sends_hidReadDescriptor (devNumber hidIndex : UInt8) (buffer : Nat → UInt8)
    (length : UInt16) :
    Sends (OnPipe pipe) (hidReadDescriptor pipe t devNumber hidIndex buffer length) := by
  refine (appends_pure _).ite ((appends_pure _).ite ?_)
  cases usbDeviceAtAddress t devNumber.toNat with
  | none => exact appends_pure _
  | some device =>
    dsimp only
    cases getHidDevice t device with
    | none => exact appends_pure _
    | some hidDevice => exact (appends_pure _).ite (sends_readEntry hidDevice _ buffer length)

theorem sends_enumerateHidFrom (device : UsbDevice) (hidDevice : HidDevice) (left i : Nat)
    (buf : Nat → UInt8) :
    Sends (OnPipe pipe) (enumerateHidFrom pipe t device hidDevice left i buf) := by
  induction left generalizing i buf with
  | zero => exact appends_pure _
  | succ left ih =>
    refine (sends_hidReadDescriptor _ _ buf bufSize).bind fun report => ?_
    exact (ih (i + 1) report.buffer).bind fun _ => appends_pure _

theorem sends_enumerateHid (device : UsbDevice) (buf : Nat → UInt8) :
    Sends (OnPipe pipe) (enumerateHid pipe t device buf) := by
  rw [enumerateHid]
  cases getHidDevice t device with
  | none => exact appends_throw _
  | some hidDevice => exact sends_enumerateHidFrom device hidDevice _ 0 buf

end Hid

section Hub

variable {pipe : UsbPipe}

theorem sends_hcdReadHubPortStatus (port : UInt8) (status : Nat → UInt8) :
    Sends (OnPipe pipe) (hcdReadHubPortStatus pipe port status) := by
  have hlength : (4 : UInt32).toNat < 2 ^ 16 := by decide
  refine (sends_submit ⟨rfl, hlength⟩).bind fun reply => ?_
  refine (sends_arrive _).bind fun status => ?_
  exact (appends_pure _).ite ((appends_pure _).ite (appends_pure _))

theorem sends_hcdChangeHubPortFeature (feature : UInt16) (port : UInt8) (set : Bool) :
    Sends (OnPipe pipe) (hcdChangeHubPortFeature pipe feature port set) :=
  (sends_submit (onPipe_commandMessage _)).bind fun _ => appends_pure _

theorem sends_hubRequests (requests : List HubRequest) :
    Sends (OnPipe pipe) (hubRequests pipe requests) := by
  induction requests with
  | nil => exact appends_pure _
  | cons request requests ih =>
    cases request with
    | readStatus port status => exact (sends_hcdReadHubPortStatus port status).bind fun _ => ih
    | changeFeature feature port set =>
      exact (sends_hcdChangeHubPortFeature feature port set).bind fun _ => ih

theorem sends_powerPorts (left i : Nat) : Sends (OnPipe pipe) (powerPorts pipe left i) := by
  induction left generalizing i with
  | zero => exact appends_pure _
  | succ left ih => exact (sends_hcdChangeHubPortFeature _ _ true).bind fun _ => ih (i + 1)

theorem sends_enumerateHub (setting : EnumerationSetting) (t : Tables) (d : Nat) :
    Sends (OnPipe pipe) (UsbM.enumerateHub setting pipe t d) := by
  rw [UsbM.enumerateHub]
  cases addHubPayload t d with
  | error result => exact appends_pure _
  | ok added =>
    refine (sends_hcdGetDescriptor (by decide) true).bind fun report => (appends_pure _).ite ?_
    refine (sends_hcdReadHubPortStatus 0 _).bind fun status => (appends_pure _).ite ?_
    refine (sends_powerPorts _ 0).bind fun _ => ?_
    exact (sends_hubRequests setting.checks).bind fun _ => appends_pure _

end Hub

section Enumeration

variable {pipe : UsbPipe} {setting : EnumerationSetting}

theorem sends_readDescriptors : Sends (OnPipe pipe) (readDescriptors setting pipe) := by
  have hlength (bytes : Nat → UInt8) : wordAt bytes 2 < 2 ^ 16 := by
    have hlow : (bytes 2).toNat < 256 := UInt8.toNat_lt _
    have hhigh : (bytes (2 + 1)).toNat < 256 := UInt8.toNat_lt _
    rw [wordAt]
    omega
  refine (sends_hcdGetDescriptor (by decide) true).bind fun device => ?_
  refine (appends_pure _).ite ((appends_pure _).ite ?_)
  refine (sends_hcdGetDescriptor (by decide) true).bind fun config => ?_
  refine (appends_pure _).ite ((appends_pure _).ite ?_)
  refine (sends_submit (onPipe_getDescriptorMessage (hlength _) _)).bind fun reply => ?_
  refine (sends_arrive _).bind fun _ => ?_
  exact (appends_pure _).ite (appends_pure _)

theorem sends_configure (descriptors : EnumerationDescriptors) (hidCount : Nat) (t : Tables)
    (d : Nat) : Sends (OnPipe pipe) (UsbM.configure setting pipe descriptors hidCount t d) := by
  refine Appends.bind ?_ fun result => (appends_pure _).ite ?_
  · exact (sends_submit (onPipe_commandMessage _)).bind fun _ => appends_pure _
  · refine (sends_readStrings setting _ _).bind fun _ => ?_
    refine (sends_enumerateHub setting t d).ite (Appends.ite ?_ (appends_pure _))
    exact (sends_enumerateHid _ _).bind fun _ => appends_pure _

theorem sends_enumerateAddressed (fuel : Nat) (t : Tables) (d : Nat) :
    Sends (OnPipe pipe) (UsbM.enumerateAddressed setting fuel pipe t d) := by
  refine sends_readDescriptors.bind fun descriptors => ?_
  cases descriptors with
  | error result => exact appends_pure _
  | ok descriptors =>
    dsimp only
    split
    · exact appends_pure _
    · exact appends_throw _
    · split
      · exact appends_pure _
      · exact (sends_configure descriptors _ _ d).bind fun _ => appends_pure _

/-- Nothing goes over the new pipe where the port is not reset or the address is refused. -/
theorem sent_enumerateOver_refused (fuel : Nat) {address : Nat} (t : Tables) (d : Nat)
    (s : ControlState) (hrefused : setting.portReset ≠ .ok ∨ UInt8.ofNat address = 0) :
    (stateAfter (UsbM.enumerateOver setting fuel pipe address t d) s).sent = s.sent := by
  rw [UsbM.enumerateOver]
  by_cases hreset : setting.portReset ≠ .ok
  · rw [if_pos hreset]
    rfl
  · have hzero := hrefused.resolve_left hreset
    have hrun : (hcdSetAddress pipe (UInt8.ofNat address)).run s = .ok .errorArgument s := by
      rw [hcdSetAddress, if_pos hzero]
      rfl
    rw [if_neg hreset, stateAfter_bind_ok hrun, if_pos (by decide)]
    rfl

/-- The first message over the new pipe sets the address. -/
theorem sent_enumerateOver (fuel : Nat) {address : Nat} (t : Tables) (d : Nat) (s : ControlState)
    (hreset : setting.portReset = .ok) (haddress : UInt8.ofNat address ≠ 0) :
    ∃ messages, (stateAfter (UsbM.enumerateOver setting fuel pipe address t d) s).sent =
        s.sent ++ setAddressMessage pipe (UInt8.ofNat address) :: messages ∧
      ∀ message ∈ messages, OnPipe pipe message := by
  have hrun : (hcdSetAddress pipe (UInt8.ofNat address)).run s =
      .ok s.replies.head.result
        { replies := s.replies.tail,
          sent := s.sent ++ [setAddressMessage pipe (UInt8.ofNat address)] } := by
    rw [hcdSetAddress, if_neg haddress]
    rfl
  have hrest : Sends (OnPipe pipe) (if s.replies.head.result ≠ .ok then
      pure (some (s.replies.head.result, t.setNumber d address)) else
        UsbM.enumerateAddressed setting fuel pipe (t.setNumber d address) d) :=
    (appends_pure _).ite (sends_enumerateAddressed fuel _ d)
  obtain ⟨messages, hsent, hall⟩ := hrest
    { replies := s.replies.tail, sent := s.sent ++ [setAddressMessage pipe (UInt8.ofNat address)] }
  refine ⟨messages, ?_, hall⟩
  rw [UsbM.enumerateOver, if_neg (not_not.mpr hreset), stateAfter_bind_ok hrun, hsent,
    List.append_assoc, List.singleton_append]

end Enumeration

/-- The messages that an enumeration sends. -/
def enumerationMessages (setting : EnumerationSetting) (fuel : Nat) (t : Tables) (d : Nat)
    (replies : Stream' ControlReply) : List ControlMessage :=
  (stateAfter (UsbM.enumerateDevice setting fuel t d) ⟨replies, []⟩).sent

/-- What a reply sends as `bMaxPacketSize0`. -/
def ControlReply.bMaxPacketSize0 (reply : ControlReply) : UInt8 :=
  (reply.received.take 8).getD 7 0

/-- The device is given its address: its first bytes have been read, its port has been reset, and
the address is not zero. -/
structure GetsAddress (setting : EnumerationSetting) (address : Nat) (reply : ControlReply) :
    Prop where
  ok : reply.result = .ok
  transferred : reply.transferred = 8
  portReset : setting.portReset = .ok
  address : UInt8.ofNat address ≠ 0

section Messages

variable {setting : EnumerationSetting} {fuel : Nat} {t : Tables} {d : Nat}
  {replies : Stream' ControlReply}

/-- The pipe of the device after the first reply. -/
def enumeratedPipe (setting : EnumerationSetting) (reply : ControlReply) : UsbPipe where
  maxPacketSizeInBytes := reply.bMaxPacketSize0.toUInt16
  speed := setting.speed

theorem honest_firstMessage (speed : UsbSpeed) : (firstMessage speed).Honest := by
  have hmax : (8 : UInt16) ≠ 0 := by decide
  exact (onPipe_getDescriptorMessage (by decide) _).honest_iff.mpr hmax

/-- An enumeration begins with the first reply. -/
theorem enumerateDevice_run_eq :
    stateAfter (UsbM.enumerateDevice setting fuel t d) ⟨replies, []⟩ =
      stateAfter (if replies.head.result ≠ .ok ∨ replies.head.transferred ≠ 8 then
          pure (some (if replies.head.result ≠ .ok then replies.head.result
            else .errorTransmission, t.setNumber d 0))
        else UsbM.enumerateOver setting fuel (enumeratedPipe setting replies.head)
          (t.deviceTable d).number (t.setNumber d 0) d)
        ⟨replies.tail, [firstMessage setting.speed]⟩ := by
  have hfits : (replies.head.received.take 8).length ≤ 18 := by
    rw [List.length_take]
    omega
  have hsubmit : (submit (firstMessage setting.speed)).run ⟨replies, []⟩ =
      .ok replies.head ⟨replies.tail, [firstMessage setting.speed]⟩ := rfl
  have harrive : (arrive 18 (fun _ => 0) 8 replies.head.received).run
      ⟨replies.tail, [firstMessage setting.speed]⟩ =
        .ok (overwrite (fun _ => 0) (replies.head.received.take 8))
          ⟨replies.tail, [firstMessage setting.speed]⟩ := by
    rw [arrive, if_pos hfits]
    rfl
  rw [UsbM.enumerateDevice, stateAfter_bind_ok hsubmit, stateAfter_bind_ok harrive]
  rfl

theorem maxPacketSize_enumeratedPipe (reply : ControlReply) :
    (enumeratedPipe setting reply).maxPacketSizeInBytes ≠ 0 ↔ reply.bMaxPacketSize0 ≠ 0 := by
  refine not_congr ⟨fun h => UInt8.toNat_inj.mp ?_, fun h => ?_⟩
  · exact (UInt8.toNat_toUInt16 _).symm.trans (congrArg UInt16.toNat h)
  · exact congrArg UInt8.toUInt16 h

/-- The messages of an enumeration are honest exactly if the device does not get its address, or
has sent a packet size that is not zero. -/
theorem enumerationMessages_honest_iff (setting : EnumerationSetting) (fuel : Nat) (t : Tables)
    (d : Nat) (replies : Stream' ControlReply) :
    (∀ message ∈ enumerationMessages setting fuel t d replies, message.Honest) ↔
      (GetsAddress setting (t.deviceTable d).number replies.head →
        replies.head.bMaxPacketSize0 ≠ 0) := by
  have honly : ∀ message ∈ [firstMessage setting.speed], message.Honest := by
    intro message hmessage
    cases List.mem_singleton.mp hmessage
    exact honest_firstMessage setting.speed
  rw [enumerationMessages, enumerateDevice_run_eq]
  by_cases hfailed : replies.head.result ≠ .ok ∨ replies.head.transferred ≠ 8
  · rw [if_pos hfailed]
    refine iff_of_true honly fun h => ?_
    exact absurd hfailed (not_or.mpr ⟨not_not.mpr h.ok, not_not.mpr h.transferred⟩)
  rw [if_neg hfailed]
  by_cases hrefused : setting.portReset ≠ .ok ∨ UInt8.ofNat (t.deviceTable d).number = 0
  · rw [sent_enumerateOver_refused fuel _ d _ hrefused]
    refine iff_of_true honly fun h => ?_
    exact absurd hrefused (not_or.mpr ⟨not_not.mpr h.portReset, h.address⟩)
  obtain ⟨hok, htransferred⟩ := not_or.mp hfailed
  obtain ⟨hreset, haddress⟩ := not_or.mp hrefused
  obtain ⟨messages, hsent, hall⟩ := @sent_enumerateOver (enumeratedPipe setting replies.head)
    setting fuel _ (t.setNumber d 0) d ⟨replies.tail, [firstMessage setting.speed]⟩
    (not_not.mp hreset) haddress
  have hgets : GetsAddress setting (t.deviceTable d).number replies.head :=
    ⟨not_not.mp hok, not_not.mp htransferred, not_not.mp hreset, haddress⟩
  rw [hsent, ← maxPacketSize_enumeratedPipe]
  constructor
  · intro hhonest _
    have hset := hhonest _ (List.mem_append_right _ List.mem_cons_self)
    exact (onPipe_commandMessage _).honest_iff.mp hset
  · intro hmax message hmessage
    obtain hfirst | hrest := List.mem_append.mp hmessage
    · exact honly message hfirst
    · obtain rfl | hlater := List.mem_cons.mp hrest
      · exact (onPipe_commandMessage _).honest_iff.mpr (hmax hgets)
      · exact (hall message hlater).honest_iff.mpr (hmax hgets)

end Messages

/-- When the packet sizes of a device are honest: for a control message, for a transfer with an
endpoint, and for an enumeration. -/
theorem packetSizes_honest_iff (message : ControlMessage) (device : UsbDevice) (speed : UsbSpeed)
    (endpoint : List UInt8) (bufferLength : UInt32) (setting : EnumerationSetting) (fuel : Nat)
    (t : Tables) (d : Nat) (replies : Stream' ControlReply) :
    (message.Honest ↔ message.Countable) ∧
      (HonestEndpoint device speed endpoint bufferLength ↔
        bufferLength = 0 ∨
          (endpointDirection endpoint = .directionOut ∧ dmaBufferSize < bufferLength.toNat) ∨
          (packetMaxSize endpoint ≠ 0 ∧
            bufferLength.toNat + (packetMaxSize endpoint).toNat ≤ 2 ^ 32)) ∧
      ((∀ message ∈ enumerationMessages setting fuel t d replies, message.Honest) ↔
        (GetsAddress setting (t.deviceTable d).number replies.head →
          replies.head.bMaxPacketSize0 ≠ 0)) :=
  ⟨ControlMessage.honest_iff, honestEndpoint_iff device speed endpoint bufferLength,
    enumerationMessages_honest_iff setting fuel t d replies⟩

/-- A port of a hub without other devices, whose reset succeeds. -/
def quietSetting : EnumerationSetting where
  speed := .full
  portReset := .ok
  checks := []
  memory := ⟨fun _ => 0, fun _ => 0, fun _ => 0, fun _ => 0, fun _ => 0, fun _ => 0, fun _ => 0,
    fun _ => 0, fun _ => 0⟩

/-- The reply of a device that sends `bMaxPacketSize0` zero. -/
def zeroReply : ControlReply where
  result := .ok
  received := [18, 1, 0, 2, 0, 0, 0, 0]
  transferred := 8

/-- A device that sends `bMaxPacketSize0` zero is given its address over a pipe whose packet size
is zero; an endpoint with a packet size of zero is read without a transmission. -/
theorem not_packetSizes_honest :
    (¬ ∀ setting fuel t d replies,
      ∀ message ∈ enumerationMessages setting fuel t d replies, message.Honest) ∧
      ¬ ∀ device speed endpoint bufferLength,
        HonestEndpoint device speed endpoint bufferLength := by
  constructor
  · intro hholds
    have hhonest := hholds quietSetting 1 { deviceTable := fun _ => { number := 1 } } 0
      (Stream'.const zeroReply)
    exact (enumerationMessages_honest_iff _ _ _ _ _).mp hhonest ⟨rfl, rfl, rfl, by decide⟩ rfl
  · intro hholds
    have hhonest := hholds {} .full [7, 5, 0x81, 3, 0, 0, 10] 8
    have hcases := (honestEndpoint_iff _ _ _ _).mp hhonest
    exact absurd hcases (by decide)

end RPiKernel.Usb
