import RPiKernel.Usb.TransferTally

/-!
# Control messages

A control message is a SETUP stage, a data stage if there is a buffer, and a status stage the
other way. `HCDSubmitControlMessage` returns `Ok` from where the status stage has returned,
whatever it has returned; before, it compares what a stage returns with the length of the stage.

## Implementation notes

The three stages are transfers of one channel, which take their answers one after the other.
The variable of the result is never written: its first value is a parameter, as is what the
DMA buffer holds. The timeout is not used by the source.
-/

namespace RPiKernel.Usb

open Machine Transition

/-- `ResultFromDwcResult`, of the byte that a `DWCRESULT` is stored in. -/
def resultFromDwcResult (dwcResult : UInt8) : Result :=
  match dwcResult with
  | 0 => .ok
  | 1 => .errorGeneral
  | 2 => .errorArgument
  | 3 => .errorDevice
  | 4 => .errorIncompatible
  | 5 => .errorTimeout
  | 6 => .errorTransmission
  | 7 => .errorStall
  | _ => .errorGeneral

/-- The arguments of a control message; null pointers are `none`. -/
structure ControlMessage where
  pipe0 : UsbPipe
  direction : UsbDirection
  buffer : Option (Nat → UInt8)
  bufferLength : UInt32
  request : Nat → UInt8
  bytesTransferred : Option UInt32

/-- What has come of a control message: the transfers of its stages as they returned, the
result, and what `bytesTransferred` points to. -/
structure ControlOutcome where
  setup : Transfer
  data : Option Transfer := none
  status : Option Transfer := none
  result : Result
  bytesTransferred : Option UInt32

/-- The size of a `UsbDeviceRequest`. -/
def sizeOfRequest : Nat := 8

/-- `HCDSubmitControlMessage`, with the answers that its transmissions get in turn. -/
def hcdSubmitControlMessage (message : ControlMessage) (result : UInt8)
    (dmaBuffer payload : Nat → UInt8) (responses : List Response) : Option ControlOutcome := do
  let (setup, responses) ←
    (transferOut message.pipe0 sizeOfRequest .setup
      ⟨message.request, dmaBuffer, payload⟩).finish responses
  if setup.returned ≠ some sizeOfRequest then
    return {
      setup
      result := resultFromDwcResult result
      bytesTransferred := message.bytesTransferred }
  match message.buffer, message.direction with
  | none, .directionIn =>
    return {
      setup
      result := .errorArgument
      bytesTransferred := message.bytesTransferred }
  | none, .directionOut =>
    let (status, _) ←
      (transferIn message.pipe0 0 .data1
        ⟨fun _ => 0, setup.memory.dmaBuffer, payload⟩).finish responses
    return {
      setup
      status
      result := .ok
      bytesTransferred := message.bytesTransferred.map fun _ => 0 }
  | some buffer, .directionOut =>
    let (data, responses) ←
      (transferOut message.pipe0 message.bufferLength.toNat .data1
        ⟨buffer, setup.memory.dmaBuffer, payload⟩).finish responses
    if data.returned ≠ some message.bufferLength.toNat then
      return {
        setup
        data
        result := .errorGeneral
        bytesTransferred := message.bytesTransferred }
    let (status, _) ←
      (transferIn message.pipe0 0 .data1
        ⟨fun _ => 0, data.memory.dmaBuffer, payload⟩).finish responses
    return {
      setup
      data
      status
      result := .ok
      bytesTransferred := message.bytesTransferred.map fun _ => message.bufferLength }
  | some buffer, .directionIn =>
    let (data, responses) ←
      (transferIn message.pipe0 message.bufferLength.toNat .data1
        ⟨buffer, setup.memory.dmaBuffer, payload⟩).finish responses
    if data.returned ≠ some message.bufferLength.toNat then
      return {
        setup
        data
        result := .errorGeneral
        bytesTransferred := message.bytesTransferred }
    let (status, _) ←
      (transferOut message.pipe0 0 .data1
        ⟨fun _ => 0, data.memory.dmaBuffer, payload⟩).finish responses
    return {
      setup
      data
      status
      result := .ok
      bytesTransferred := message.bytesTransferred.map fun _ => message.bufferLength }

/-- The device has acknowledged a transfer: it has run to its end, all of its packets have been
counted off, and an acknowledgement of a complete transfer has been reported. -/
structure Transfer.Acknowledged (t : Transfer) : Prop where
  completed : t.point = .completed
  counted : t.packetCount ≤ t.exchanged
  reported : t.sendCtrl.success = true

/-- The device has acknowledged every stage of a message. -/
structure ControlOutcome.Acknowledged (message : ControlMessage) (outcome : ControlOutcome) :
    Prop where
  setup : outcome.setup.Acknowledged
  data : message.buffer ≠ none → ∃ data, outcome.data = some data ∧ data.Acknowledged
  status : ∃ status, outcome.status = some status ∧ status.Acknowledged

/-- The result tells whether the device has acknowledged every stage, and a message that has
failed leaves `bytesTransferred` alone. -/
structure ControlOutcome.Faithful (message : ControlMessage) (outcome : ControlOutcome) :
    Prop where
  ok_iff : outcome.result = .ok ↔ outcome.Acknowledged message
  bytesTransferred_eq : outcome.result ≠ .ok → outcome.bytesTransferred = message.bytesTransferred

section Exits

variable {t : Transfer} {responses : List Response}

theorem Transfer.not_acknowledged_of_failed (h : t.point = .failed) : ¬ t.Acknowledged := by
  intro hacknowledged
  cases h.symm.trans hacknowledged.completed

/-- The exits of `HCDSubmitControlMessage`. -/
inductive Submitted (message : ControlMessage) (result : UInt8) : ControlOutcome → Prop
  | setupFailed {setup : Transfer} (hsetup : Ended sizeOfRequest setup)
      (hfailed : setup.returned ≠ some sizeOfRequest) :
      Submitted message result {
        setup
        result := resultFromDwcResult result
        bytesTransferred := message.bytesTransferred }
  | noBuffer {setup : Transfer} (hsetup : Ended sizeOfRequest setup)
      (hsent : setup.returned = some sizeOfRequest) (hbuffer : message.buffer = none)
      (hdirection : message.direction = .directionIn) :
      Submitted message result {
        setup
        result := .errorArgument
        bytesTransferred := message.bytesTransferred }
  | noData {setup status : Transfer} (hsetup : Ended sizeOfRequest setup)
      (hsent : setup.returned = some sizeOfRequest) (hbuffer : message.buffer = none)
      (hdirection : message.direction = .directionOut) (hstatus : Ended 0 status) :
      Submitted message result {
        setup
        status
        result := .ok
        bytesTransferred := message.bytesTransferred.map fun _ => 0 }
  | dataFailed {setup data : Transfer} (hsetup : Ended sizeOfRequest setup)
      (hsent : setup.returned = some sizeOfRequest) (hbuffer : message.buffer ≠ none)
      (hdata : Ended message.bufferLength.toNat data)
      (hfailed : data.returned ≠ some message.bufferLength.toNat) :
      Submitted message result {
        setup
        data
        result := .errorGeneral
        bytesTransferred := message.bytesTransferred }
  | finished {setup data status : Transfer} (hsetup : Ended sizeOfRequest setup)
      (hsent : setup.returned = some sizeOfRequest) (hbuffer : message.buffer ≠ none)
      (hdata : Ended message.bufferLength.toNat data)
      (hmoved : data.returned = some message.bufferLength.toNat) (hstatus : Ended 0 status) :
      Submitted message result {
        setup
        data
        status
        result := .ok
        bytesTransferred := message.bytesTransferred.map fun _ => message.bufferLength }

variable {message : ControlMessage} {result : UInt8} {dmaBuffer payload : Nat → UInt8}
  {outcome : ControlOutcome}

theorem submitted_of_eq_some
    (h : hcdSubmitControlMessage message result dmaBuffer payload responses = some outcome) :
    Submitted message result outcome := by
  have hlength : message.bufferLength.toNat < 2 ^ 32 := message.bufferLength.toNat_lt
  rw [hcdSubmitControlMessage] at h
  obtain ⟨⟨setup, afterSetup⟩, hsetup, h⟩ := Option.bind_eq_some_iff.mp h
  have hsetup' : Ended sizeOfRequest setup := ended_transferOut (by decide) hsetup
  dsimp only at h
  split at h
  · next hfailed =>
    cases h
    exact Submitted.setupFailed hsetup' hfailed
  · next hsent =>
    have hsent' : setup.returned = some sizeOfRequest := not_not.mp hsent
    cases hbuffer : message.buffer with
    | none =>
      cases hdirection : message.direction with
      | directionIn =>
        rw [hbuffer, hdirection] at h
        cases h
        exact Submitted.noBuffer hsetup' hsent' hbuffer hdirection
      | directionOut =>
        rw [hbuffer, hdirection] at h
        obtain ⟨⟨status, afterStatus⟩, hstatus, h⟩ := Option.bind_eq_some_iff.mp h
        cases h
        exact Submitted.noData hsetup' hsent' hbuffer hdirection
          (ended_transferIn (by decide) hstatus)
    | some buffer =>
      have hbuffer' : message.buffer ≠ none := by
        rw [hbuffer]
        exact Option.some_ne_none buffer
      cases hdirection : message.direction with
      | directionIn =>
        rw [hbuffer, hdirection] at h
        obtain ⟨⟨data, afterData⟩, hdata, h⟩ := Option.bind_eq_some_iff.mp h
        have hdata' := ended_transferIn hlength hdata
        dsimp only at h
        split at h
        · next hfailed =>
          cases h
          exact Submitted.dataFailed hsetup' hsent' hbuffer' hdata' hfailed
        · next hmoved =>
          obtain ⟨⟨status, afterStatus⟩, hstatus, h⟩ := Option.bind_eq_some_iff.mp h
          cases h
          exact Submitted.finished hsetup' hsent' hbuffer' hdata' (not_not.mp hmoved)
            (ended_transferOut (by decide) hstatus)
      | directionOut =>
        rw [hbuffer, hdirection] at h
        obtain ⟨⟨data, afterData⟩, hdata, h⟩ := Option.bind_eq_some_iff.mp h
        have hdata' := ended_transferOut hlength hdata
        dsimp only at h
        split at h
        · next hfailed =>
          cases h
          exact Submitted.dataFailed hsetup' hsent' hbuffer' hdata' hfailed
        · next hmoved =>
          obtain ⟨⟨status, afterStatus⟩, hstatus, h⟩ := Option.bind_eq_some_iff.mp h
          cases h
          exact Submitted.finished hsetup' hsent' hbuffer' hdata' (not_not.mp hmoved)
            (ended_transferIn (by decide) hstatus)

end Exits

section Verdict

variable {message : ControlMessage} {result : UInt8} {dmaBuffer payload : Nat → UInt8}
  {responses : List Response} {outcome : ControlOutcome}

theorem resultFromDwcResult_eq_ok_iff (dwcResult : UInt8) :
    resultFromDwcResult dwcResult = .ok ↔ dwcResult = 0 := by
  constructor
  · intro h
    unfold resultFromDwcResult at h
    split at h
    · rfl
    all_goals cases h
  · rintro rfl
    rfl

/-- The ways in which a message ends with the right verdict: SETUP has failed and the variable of
the result does not read `Ok`, there is no buffer to receive into, a data stage that is not empty
has failed, or the device has acknowledged every stage. -/
inductive Trusted (message : ControlMessage) (result : UInt8) (outcome : ControlOutcome) : Prop
  | setup (hfailed : outcome.setup.point = .failed) (hresult : result ≠ 0)
  | buffer (hsent : outcome.setup.point ≠ .failed) (hbuffer : message.buffer = none)
      (hdirection : message.direction = .directionIn)
  | data {data : Transfer} (hdata : outcome.data = some data) (hfailed : data.point = .failed)
      (hlength : message.bufferLength ≠ 0)
  | acknowledged (h : outcome.Acknowledged message)

/-- A message that ends with `Ok` is right about it exactly if it has been acknowledged. -/
theorem ControlOutcome.faithful_iff_of_ok (hok : outcome.result = .ok) :
    outcome.Faithful message ↔ outcome.Acknowledged message :=
  ⟨fun hfaithful => hfaithful.ok_iff.mp hok,
    fun hacknowledged => ⟨iff_of_true hok hacknowledged, fun hne => absurd hok hne⟩⟩

/-- A message that fails before the status stage is right about it. -/
theorem ControlOutcome.faithful_of_no_status (hresult : outcome.result ≠ .ok)
    (hstatus : outcome.status = none)
    (hbytes : outcome.bytesTransferred = message.bytesTransferred) : outcome.Faithful message := by
  refine ⟨iff_of_false hresult fun hacknowledged => ?_, fun _ => hbytes⟩
  obtain ⟨status, hsome, -⟩ := hacknowledged.status
  cases hstatus.symm.trans hsome

end Verdict

section Acknowledged

variable {t t' : Transfer} {responses : List Response}

/-- A stage that has run to its end is acknowledged exactly when the register could hold its
packet count and some answer has reported the acknowledgement of a complete transfer. -/
theorem acknowledged_iff (hinitial : channel.Initial t)
    (hobeys : channel.StepsMeet Obeys t responses) (hrun : channel.run t responses = some t')
    (hcompleted : t'.point = .completed) :
    t'.Acknowledged ↔
      t.packetCount < maxPacketCount ∧ responses.any Response.reports = true := by
  obtain ⟨hstart, hfresh⟩ := tallies_initial hinitial
  have hnoted := (hstart.run hobeys hrun hcompleted).2
  have hexchanged := exchanged_of_completed hinitial hobeys hrun hcompleted
  have hcount := (dimensions_of_run hrun).2
  rw [hfresh, Bool.false_or] at hnoted
  constructor
  · intro hacknowledged
    have hcounted := hacknowledged.counted
    have hlt : t.packetCount % maxPacketCount < maxPacketCount := Nat.mod_lt _ (by decide)
    exact ⟨by omega, hnoted ▸ hacknowledged.reported⟩
  · rintro ⟨hlt, hreported⟩
    rw [Nat.mod_eq_of_lt hlt] at hexchanged
    exact ⟨hcompleted, by omega, hnoted.trans hreported⟩

end Acknowledged

end RPiKernel.Usb
