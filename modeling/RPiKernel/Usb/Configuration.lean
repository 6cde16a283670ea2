import Mathlib.Algebra.Group.Nat.Defs
import RPiKernel.Usb.Tables

/-!
# Reading and parsing a configuration

`EnumerateDevice` reads the whole configuration of a device into a buffer on its
stack and walks over the descriptors in it. An interface descriptor is copied to the
next entry of `Interfaces`, an endpoint descriptor to the next entry of the row of
`Endpoints` that belongs to the last interface, and a HID descriptor to the payload
that the first one adds to the device.

## Implementation notes

Every access names its array: outside of it, the model stops with a fault. A store
to a subscript beyond its dimension is outside even where other data of the device
lies there. The eight-bit counters need no wrap-around, since a store beyond the
array stops the loop first. The loop takes as many iterations as its fuel allows.
-/

namespace RPiKernel.Usb

/-- The size of `configBuffer`. -/
def configBufferSize : Nat := 1024

/-- The cases of the switch over `usb_descriptor_type`. -/
inductive DescriptorKind where
  | interface
  | endpoint
  | hid
  | other
  deriving DecidableEq

def descriptorKind (type : UInt8) : DescriptorKind :=
  if type = 4 then .interface
  else if type = 5 then .endpoint
  else if type = 33 then .hid
  else .other

/-- The bytes that a `memcpy` from the buffer copies. -/
def copyFrom (buffer : Nat → UInt8) (i size : Nat) : Except Fault (List UInt8) :=
  if i + size ≤ configBufferSize then
    .ok ((List.range size).map fun k => buffer (i + k))
  else
    .error .readOutside

/-- `SetHidDescriptor`: whether the descriptor is stored, and the payload after it. -/
def setHidDescriptor (hidDevice : HidDevice) (hidIndex interface : Nat) (buffer : Nat → UInt8)
    (i size : Nat) : Except Fault (Bool × HidDevice) :=
  if size ≠ 9 then
    .ok (false, hidDevice)
  else if hidDevice.maxHID < maxHIDPerDevice ∧ hidDevice.maxHID ≠ hidIndex then
    .ok (false, hidDevice)
  else if maxHIDPerDevice ≤ hidIndex then
    .ok (false, hidDevice)
  else
    (copyFrom buffer i 9).map fun descriptor => (true,
      { descriptor := Function.update hidDevice.descriptor hidIndex descriptor
        hidInterface := Function.update hidDevice.hidInterface hidIndex interface
        maxHID := hidIndex + 1 })

/-- The variables of the loop, the device and the HID payloads. -/
structure ParseState where
  i : Nat := 0
  endPtCnt : Nat := 0
  hidCount : Nat := 0
  device : UsbDevice
  hidTable : Nat → HidDevice

namespace ParseState

/-- The case of an interface descriptor. -/
def addInterface (buffer : Nat → UInt8) (s : ParseState) : Except Fault ParseState :=
  if s.device.maxInterface < maxInterfacesPerDevice then
    (copyFrom buffer s.i 9).map fun descriptor =>
      { s with
        device := { s.device with
          interfaces := Function.update s.device.interfaces s.device.maxInterface descriptor
          maxInterface := s.device.maxInterface + 1 }
        endPtCnt := 0 }
  else
    .error .writeOutside

/-- The case of an endpoint descriptor; the row is `MaxInterface - 1`. -/
def addEndpoint (buffer : Nat → UInt8) (s : ParseState) : Except Fault ParseState :=
  if 1 ≤ s.device.maxInterface ∧ s.device.maxInterface ≤ maxInterfacesPerDevice ∧
      s.endPtCnt < maxEndpointsPerDevice then
    (copyFrom buffer s.i 7).map fun descriptor =>
      { s with
        device := { s.device with
          endpoints := Function.update s.device.endpoints (s.device.maxInterface - 1)
            (Function.update (s.device.endpoints (s.device.maxInterface - 1)) s.endPtCnt
              descriptor) }
        endPtCnt := s.endPtCnt + 1 }
  else
    .error .writeOutside

/-- The first HID descriptor adds the payload. -/
def withHidPayload (s : ParseState) : Result × UsbDevice × (Nat → HidDevice) :=
  if s.hidCount = 0 then addHidPayload s.device s.hidTable else (.ok, s.device, s.hidTable)

/-- The descriptor is set in the payload of the device. -/
def setHid (buffer : Nat → UInt8) (s : ParseState) : Except Fault ParseState :=
  match s.device.payload with
  | none => .error .nullPointer
  | some number =>
      (setHidDescriptor (s.hidTable number) s.hidCount ((s.device.maxInterface + 255) % 256) buffer
        s.i (buffer s.i).toNat).map fun result =>
          { s with
            hidTable := Function.update s.hidTable number result.2
            hidCount := if result.1 then s.hidCount + 1 else s.hidCount }

/-- The case of a HID descriptor, which may end the enumeration with a result. -/
def addHid (buffer : Nat → UInt8) (s : ParseState) : Except Fault (Option Result × ParseState) :=
  match s.withHidPayload with
  | (.ok, device, hidTable) =>
      (setHid buffer { s with device, hidTable }).map fun s => (none, s)
  | (result, device, hidTable) => .ok (some result, { s with device, hidTable })

/-- The switch of the loop. -/
def addDescriptor (buffer : Nat → UInt8) (s : ParseState) :
    Except Fault (Option Result × ParseState) :=
  match descriptorKind (buffer (s.i + 1)) with
  | .interface => (s.addInterface buffer).map fun s => (none, s)
  | .endpoint => (s.addEndpoint buffer).map fun s => (none, s)
  | .hid => s.addHid buffer
  | .other => .ok (none, s)

/-- The body of the loop: the switch, and the step to the next descriptor. -/
def parseDescriptor (buffer : Nat → UInt8) (s : ParseState) :
    Except Fault (Option Result × ParseState) :=
  if s.i + 1 < configBufferSize then
    (s.addDescriptor buffer).map fun (result, s) =>
      match result with
      | some result => (some result, s)
      | none => (none, { s with i := s.i + (buffer s.i).toNat })
  else
    .error .readOutside

end ParseState

/-- The loop; it ends at its bound, with a result of its own, or with a fault. -/
def parseLoop (buffer : Nat → UInt8) (bound : Nat) :
    Nat → ParseState → Option (Except Fault (Option Result × ParseState))
  | 0, _ => none
  | fuel + 1, s =>
      if s.i < bound then
        match s.parseDescriptor buffer with
        | .error fault => some (.error fault)
        | .ok (some result, s) => some (.ok (some result, s))
        | .ok (none, s) => parseLoop buffer bound fuel s
      else
        some (.ok (none, s))

/-- `wTotalLength - 1` as the loop compares it: zero gives the largest unsigned value. -/
def parseBound (wTotalLength : Nat) : Nat := (wTotalLength + (2 ^ 32 - 1)) % 2 ^ 32

/-- `configBuffer` after the transfer: the bytes received, then what was there before. -/
def configBuffer (received : List UInt8) (stack : Nat → UInt8) (k : Nat) : UInt8 :=
  received.getD k (stack k)

/-- The reading and the parsing of the configuration in `EnumerateDevice`. The host
copies what it receives, and reports success when it has received it all. -/
def readConfiguration (fuel wTotalLength : Nat) (received : List UInt8) (stack : Nat → UInt8)
    (device : UsbDevice) (hidTable : Nat → HidDevice) :
    Option (Except Fault (Option Result × ParseState)) :=
  if configBufferSize < received.length then
    some (.error .writeOutside)
  else if received.length ≠ wTotalLength then
    some (.ok (some .errorGeneral, { device, hidTable }))
  else
    parseLoop (configBuffer received stack) (parseBound wTotalLength) fuel { device, hidTable }

theorem copyFrom_ok {buffer : Nat → UInt8} {i size : Nat} (h : i + size ≤ configBufferSize) :
    copyFrom buffer i size = .ok ((List.range size).map fun k => buffer (i + k)) := if_pos h

theorem copyFrom_isOk {buffer : Nat → UInt8} {i size : Nat} {bytes : List UInt8}
    (h : copyFrom buffer i size = .ok bytes) : i + size ≤ configBufferSize := by
  by_contra hout
  rw [copyFrom, if_neg hout] at h
  cases h

theorem parseBound_pos {wTotalLength : Nat} (hpos : 0 < wTotalLength)
    (hlt : wTotalLength < 2 ^ 16) : parseBound wTotalLength = wTotalLength - 1 := by
  rw [parseBound]
  omega

theorem parseBound_zero : parseBound 0 = 2 ^ 32 - 1 := rfl

/-- A HID descriptor of a device that has its payload. -/
theorem ParseState.addHid_ok {buffer : Nat → UInt8} {s : ParseState} {device : UsbDevice}
    {hidTable : Nat → HidDevice} (hadd : s.withHidPayload = (.ok, device, hidTable)) :
    s.addHid buffer = (setHid buffer { s with device, hidTable }).map fun s => (none, s) := by
  rw [ParseState.addHid, hadd]

/-- A HID descriptor of a device that gets no payload. -/
theorem ParseState.addHid_refused {buffer : Nat → UInt8} {s : ParseState} {device : UsbDevice}
    {hidTable : Nat → HidDevice} {result : Result} (hne : result ≠ .ok)
    (hadd : s.withHidPayload = (result, device, hidTable)) :
    s.addHid buffer = .ok (some result, { s with device, hidTable }) := by
  rw [ParseState.addHid, hadd]
  cases result with
  | ok => exact absurd rfl hne
  | _ => rfl

theorem ParseState.setHid_eq {buffer : Nat → UInt8} {s : ParseState} {number : Nat}
    (hpayload : s.device.payload = some number) :
    s.setHid buffer =
      (setHidDescriptor (s.hidTable number) s.hidCount ((s.device.maxInterface + 255) % 256) buffer
        s.i (buffer s.i).toNat).map fun result =>
          { s with
            hidTable := Function.update s.hidTable number result.2
            hidCount := if result.1 then s.hidCount + 1 else s.hidCount } := by
  rw [ParseState.setHid, hpayload]

/-- A successful `Except.map`. -/
theorem map_eq_ok {ε α β : Type} {x : Except ε α} {f : α → β} {b : β} (h : x.map f = .ok b) :
    ∃ a, x = .ok a ∧ f a = b := by
  cases x with
  | error fault => cases h
  | ok a => exact ⟨a, rfl, Except.ok.inj h⟩

/-- The switch does not move the loop on. -/
theorem ParseState.addDescriptor_i {buffer : Nat → UInt8} {s s' : ParseState}
    {result : Option Result} (h : s.addDescriptor buffer = .ok (result, s')) : s'.i = s.i := by
  rw [ParseState.addDescriptor] at h
  split at h
  · obtain ⟨s₁, hs₁, heq⟩ := map_eq_ok h
    cases heq
    rw [ParseState.addInterface] at hs₁
    split at hs₁
    · obtain ⟨bytes, -, rfl⟩ := map_eq_ok hs₁
      rfl
    · cases hs₁
  · obtain ⟨s₁, hs₁, heq⟩ := map_eq_ok h
    cases heq
    rw [ParseState.addEndpoint] at hs₁
    split at hs₁
    · obtain ⟨bytes, -, rfl⟩ := map_eq_ok hs₁
      rfl
    · cases hs₁
  · obtain ⟨result', device, hidTable, hadd⟩ : ∃ result' device hidTable,
        s.withHidPayload = (result', device, hidTable) := ⟨_, _, _, rfl⟩
    by_cases hok : result' = .ok
    · rw [hok] at hadd
      rw [ParseState.addHid_ok hadd] at h
      obtain ⟨s₁, hs₁, heq⟩ := map_eq_ok h
      cases heq
      rw [ParseState.setHid] at hs₁
      split at hs₁
      · cases hs₁
      · obtain ⟨stored, -, rfl⟩ := map_eq_ok hs₁
        rfl
    · rw [ParseState.addHid_refused hok hadd] at h
      cases h
      rfl
  · cases h
    rfl

/-- An iteration that goes on moves by the length of the descriptor. -/
theorem ParseState.parseDescriptor_i {buffer : Nat → UInt8} {s s' : ParseState}
    (h : s.parseDescriptor buffer = .ok (none, s')) :
    s.i + 1 < configBufferSize ∧ s'.i = s.i + (buffer s.i).toNat := by
  rw [ParseState.parseDescriptor] at h
  split at h
  · next hi =>
    obtain ⟨⟨result, s₁⟩, hs₁, heq⟩ := map_eq_ok h
    have hmove := ParseState.addDescriptor_i hs₁
    dsimp only at heq
    split at heq
    · cases heq
    · cases heq
      exact ⟨hi, by rw [hmove]⟩
  · cases h

/-- An iteration whose switch goes on. -/
theorem ParseState.parseDescriptor_ok {buffer : Nat → UInt8} {s s' : ParseState}
    (hi : s.i + 1 < configBufferSize) (h : s.addDescriptor buffer = .ok (none, s')) :
    s.parseDescriptor buffer = .ok (none, { s' with i := s.i + (buffer s.i).toNat }) := by
  rw [ParseState.parseDescriptor, if_pos hi, h, ← ParseState.addDescriptor_i h]
  rfl

/-- An iteration that stays within its arrays. -/
theorem ParseState.parseDescriptor_isOk {buffer : Nat → UInt8} {s : ParseState}
    {outcome : Option Result × ParseState} (h : s.parseDescriptor buffer = .ok outcome) :
    s.i + 1 < configBufferSize ∧ ∃ result, s.addDescriptor buffer = .ok result := by
  rw [ParseState.parseDescriptor] at h
  split at h
  · next hi =>
    obtain ⟨result, hadd, -⟩ := map_eq_ok h
    exact ⟨hi, result, hadd⟩
  · cases h

/-- Setting a HID descriptor, where the payload is full or expects this one. -/
theorem setHidDescriptor_eq {hidDevice : HidDevice} {hidIndex interface i size : Nat}
    {buffer : Nat → UInt8}
    (hmax : hidDevice.maxHID < maxHIDPerDevice → hidDevice.maxHID = hidIndex) :
    setHidDescriptor hidDevice hidIndex interface buffer i size =
      if size = 9 ∧ hidIndex < maxHIDPerDevice then
        (copyFrom buffer i 9).map fun descriptor => (true,
          { descriptor := Function.update hidDevice.descriptor hidIndex descriptor
            hidInterface := Function.update hidDevice.hidInterface hidIndex interface
            maxHID := hidIndex + 1 })
      else
        .ok (false, hidDevice) := by
  have hexpected : ¬ (hidDevice.maxHID < maxHIDPerDevice ∧ hidDevice.maxHID ≠ hidIndex) :=
    fun hand => hand.2 (hmax hand.1)
  rw [setHidDescriptor, if_neg hexpected]
  by_cases hsize : size = 9
  · by_cases hindex : hidIndex < maxHIDPerDevice
    · rw [if_neg (not_not.mpr hsize), if_neg (Nat.not_le.mpr hindex), if_pos ⟨hsize, hindex⟩]
    · rw [if_neg (not_not.mpr hsize), if_pos (Nat.not_lt.mp hindex),
        if_neg fun hand => hindex hand.2]
  · rw [if_pos hsize, if_neg fun hand => hsize hand.1]

/-- A loop whose bound lies far behind the buffer does not reach it. -/
theorem parseLoop_far {buffer : Nat → UInt8} {bound : Nat} (hbound : 2 ^ 11 ≤ bound) (fuel : Nat)
    {s s' : ParseState} (h : parseLoop buffer bound fuel s = some (.ok (none, s'))) :
    bound ≤ s.i := by
  induction fuel generalizing s with
  | zero => cases h
  | succ fuel ih =>
      rw [parseLoop] at h
      split at h
      · cases hstep : s.parseDescriptor buffer with
        | error fault =>
            rw [hstep] at h
            cases h
        | ok step =>
            obtain ⟨result, s₁⟩ := step
            rw [hstep] at h
            cases result with
            | some result => cases h
            | none =>
                have hfar := ih h
                obtain ⟨hi, hmove⟩ := ParseState.parseDescriptor_i hstep
                have hbyte := (buffer s.i).toNat_lt
                rw [configBufferSize] at hi
                omega
      · omega

/-- One iteration that goes on. -/
theorem parseLoop_next {buffer : Nat → UInt8} {bound fuel : Nat} {s s' : ParseState}
    (hi : s.i < bound) (hs : s.parseDescriptor buffer = .ok (none, s')) :
    parseLoop buffer bound (fuel + 1) s = parseLoop buffer bound fuel s' := by
  rw [parseLoop, if_pos hi, hs]

theorem parseLoop_end {buffer : Nat → UInt8} {bound fuel : Nat} {s : ParseState}
    (hi : bound ≤ s.i) : parseLoop buffer bound (fuel + 1) s = some (.ok (none, s)) := by
  rw [parseLoop, if_neg (Nat.not_lt.mpr hi)]

/-- What the parsing keeps: the place of the device, and a payload that is either not there
or was free, with the other payloads unchanged. -/
structure KeepsPayloads (device : UsbDevice) (hidTable : Nat → HidDevice) (s : ParseState) :
    Prop where
  parentHub_eq : s.device.parentHub = device.parentHub
  number_eq : s.device.number = device.number
  payload : (s.device.payLoadId = .noPayload ∧ s.hidCount = 0 ∧ s.hidTable = hidTable) ∨
    ∃ number < maximumHids, (hidTable number).maxHID = 0 ∧ s.device.payLoadId = .hidPayload ∧
      s.device.payload = some number ∧ (s.hidTable number).maxHID ≠ 0 ∧
      ∀ m, m ≠ number → s.hidTable m = hidTable m

section KeepsPayloads

variable {buffer : Nat → UInt8} {device : UsbDevice} {hidTable : Nat → HidDevice}
  {s s' : ParseState}

/-- Setting a descriptor does not free a payload. -/
theorem setHidDescriptor_maxHID {hidDevice hidDevice' : HidDevice} {hidIndex interface i size : Nat}
    {stored : Bool} (hmax : hidDevice.maxHID ≠ 0)
    (h : setHidDescriptor hidDevice hidIndex interface buffer i size = .ok (stored, hidDevice')) :
    hidDevice'.maxHID ≠ 0 := by
  rw [setHidDescriptor] at h
  split at h
  · cases h
    exact hmax
  · split at h
    · cases h
      exact hmax
    · split at h
      · cases h
        exact hmax
      · obtain ⟨bytes, -, heq⟩ := map_eq_ok h
        cases heq
        exact Nat.succ_ne_zero _

/-- A descriptor set in the payload of the device. -/
theorem KeepsPayloads.setHid (h : KeepsPayloads device hidTable s)
    (hid : s.device.payLoadId = .hidPayload) (hs : s.setHid buffer = .ok s') :
    KeepsPayloads device hidTable s' := by
  rcases h.payload with ⟨hno, -, -⟩ | ⟨number, hlt, hfree, -, hpayload, hmax, hsame⟩
  · rw [hno] at hid
    cases hid
  · rw [ParseState.setHid_eq hpayload] at hs
    obtain ⟨⟨stored, hidDevice⟩, hset, rfl⟩ := map_eq_ok hs
    refine ⟨h.parentHub_eq, h.number_eq, Or.inr ⟨number, hlt, hfree, hid, hpayload, ?_, ?_⟩⟩
    · dsimp only
      rw [Function.update_self]
      exact setHidDescriptor_maxHID hmax hset
    · intro m hm
      dsimp only
      rw [Function.update_of_ne hm]
      exact hsame m hm

theorem KeepsPayloads.addHid (h : KeepsPayloads device hidTable s) {result : Option Result}
    (hs : s.addHid buffer = .ok (result, s')) : KeepsPayloads device hidTable s' := by
  obtain ⟨outcome, device', hidTable', hadd⟩ : ∃ outcome device' hidTable',
      s.withHidPayload = (outcome, device', hidTable') := ⟨_, _, _, rfl⟩
  have hkeeps : KeepsPayloads device hidTable { s with device := device', hidTable := hidTable' } ∧
      (outcome = .ok → device'.payLoadId = .hidPayload) := by
    rw [ParseState.withHidPayload] at hadd
    split at hadd
    · rename_i hzero
      rcases addHidPayload_cases s.device s.hidTable with ⟨hne, heq⟩ | ⟨hno, -, heq⟩ |
        ⟨number, hno, hlt, hfree, heq⟩
      · rw [heq] at hadd
        cases hadd
        exact ⟨⟨h.parentHub_eq, h.number_eq, h.payload⟩, fun hok => by cases hok⟩
      · rw [heq] at hadd
        cases hadd
        rcases h.payload with ⟨-, -, htable⟩ | ⟨number, -, -, hid, -⟩
        · exact ⟨⟨h.parentHub_eq, h.number_eq, Or.inl ⟨hno, hzero, htable⟩⟩,
            fun hok => by cases hok⟩
        · rw [hno] at hid
          cases hid
      · rw [heq] at hadd
        cases hadd
        rcases h.payload with ⟨-, -, htable⟩ | ⟨number', -, -, hid, -⟩
        · refine ⟨⟨h.parentHub_eq, h.number_eq,
            Or.inr ⟨number, hlt, htable ▸ hfree, rfl, rfl, ?_, ?_⟩⟩, fun _ => rfl⟩
          · dsimp only
            rw [Function.update_self]
            exact Nat.succ_ne_zero 3
          · intro m hm
            dsimp only
            rw [Function.update_of_ne hm, htable]
        · rw [hno] at hid
          cases hid
    · rename_i hne
      cases hadd
      rcases h.payload with ⟨-, hzero, -⟩ | ⟨number, hlt, hfree, hid, hrest⟩
      · exact absurd hzero hne
      · exact ⟨⟨h.parentHub_eq, h.number_eq, Or.inr ⟨number, hlt, hfree, hid, hrest⟩⟩, fun _ => hid⟩
  by_cases hok : outcome = .ok
  · rw [hok] at hadd
    rw [ParseState.addHid_ok hadd] at hs
    obtain ⟨s₁, hs₁, heq⟩ := map_eq_ok hs
    cases heq
    exact hkeeps.1.setHid (hkeeps.2 hok) hs₁
  · rw [ParseState.addHid_refused hok hadd] at hs
    cases hs
    exact hkeeps.1

theorem KeepsPayloads.addDescriptor (h : KeepsPayloads device hidTable s) {result : Option Result}
    (hs : s.addDescriptor buffer = .ok (result, s')) : KeepsPayloads device hidTable s' := by
  rw [ParseState.addDescriptor] at hs
  split at hs
  · obtain ⟨s₁, hs₁, heq⟩ := map_eq_ok hs
    cases heq
    rw [ParseState.addInterface] at hs₁
    split at hs₁
    · obtain ⟨bytes, -, rfl⟩ := map_eq_ok hs₁
      exact ⟨h.parentHub_eq, h.number_eq, h.payload⟩
    · cases hs₁
  · obtain ⟨s₁, hs₁, heq⟩ := map_eq_ok hs
    cases heq
    rw [ParseState.addEndpoint] at hs₁
    split at hs₁
    · obtain ⟨bytes, -, rfl⟩ := map_eq_ok hs₁
      exact ⟨h.parentHub_eq, h.number_eq, h.payload⟩
    · cases hs₁
  · exact h.addHid hs
  · cases hs
    exact h

theorem KeepsPayloads.parseDescriptor (h : KeepsPayloads device hidTable s) {result : Option Result}
    (hs : s.parseDescriptor buffer = .ok (result, s')) : KeepsPayloads device hidTable s' := by
  rw [ParseState.parseDescriptor] at hs
  split at hs
  · obtain ⟨⟨result₁, s₁⟩, hs₁, heq⟩ := map_eq_ok hs
    have hkeeps := h.addDescriptor hs₁
    dsimp only at heq
    split at heq
    · cases heq
      exact hkeeps
    · cases heq
      exact ⟨hkeeps.parentHub_eq, hkeeps.number_eq, hkeeps.payload⟩
  · cases hs

theorem KeepsPayloads.parseLoop {bound : Nat} (fuel : Nat) (h : KeepsPayloads device hidTable s)
    {result : Option Result}
    (hs : Usb.parseLoop buffer bound fuel s = some (.ok (result, s'))) :
    KeepsPayloads device hidTable s' := by
  induction fuel generalizing s with
  | zero => cases hs
  | succ fuel ih =>
      rw [Usb.parseLoop] at hs
      split at hs
      · cases hstep : s.parseDescriptor buffer with
        | error fault =>
            rw [hstep] at hs
            cases hs
        | ok step =>
            obtain ⟨result₁, s₁⟩ := step
            rw [hstep] at hs
            have hkeeps := h.parseDescriptor hstep
            cases result₁ with
            | some result₁ =>
                cases hs
                exact hkeeps
            | none => exact ih hkeeps hs
      · cases hs
        exact h

/-- Reading the configuration of a device without a payload. -/
theorem readConfiguration_keeps {fuel wTotalLength : Nat} {received : List UInt8}
    {stack : Nat → UInt8} (hno : device.payLoadId = .noPayload) {result : Option Result}
    (h : readConfiguration fuel wTotalLength received stack device hidTable =
      some (.ok (result, s'))) : KeepsPayloads device hidTable s' := by
  have hinitial : KeepsPayloads device hidTable { device, hidTable } :=
    ⟨rfl, rfl, Or.inl ⟨hno, rfl, rfl⟩⟩
  rw [readConfiguration] at h
  split at h
  · cases h
  · split at h
    · cases h
      exact hinitial
    · exact hinitial.parseLoop fuel h

end KeepsPayloads

end RPiKernel.Usb
