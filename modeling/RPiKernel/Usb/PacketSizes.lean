import Mathlib.Data.List.Forall2
import RPiKernel.Usb.ControlMessage
import RPiKernel.Usb.DmaSlice
import RPiKernel.Usb.EndpointToggle

/-!
# Packet sizes

`TransferIn` and `TransferOut` divide by the packet size of their pipe, which comes from a
descriptor of the device. The processor gives zero for a division by zero: no packet is
transferred, and the length of the buffer is returned as if all had been.

## Implementation notes

A transfer is honest if it divides by no zero and returns no length without a transmission,
whatever the answers are. What a control message transfers is what its outcomes show.
-/

namespace RPiKernel.Usb

open Machine Transition

/-- A call of `TransferIn` or `TransferOut`. -/
structure TransferCall where
  direction : UsbDirection
  pipe : UsbPipe
  size : Nat

namespace TransferCall

/-- The transfer that a call starts. -/
def start (call : TransferCall) (packetId : PacketId) (memory : ChannelMemory) : Transfer :=
  match call.direction with
  | .directionIn => transferIn call.pipe call.size packetId memory
  | .directionOut => transferOut call.pipe call.size packetId memory

/-- `TransferOut` refuses the buffer. -/
def Refused (call : TransferCall) : Prop :=
  call.direction = .directionOut ∧ dmaBufferSize < call.size

/-- The call comes to a division by the packet size. -/
def Divides (call : TransferCall) : Prop := ¬ call.Refused ∧ call.size % 2 ^ 32 ≠ 0

/-- A call divides by no zero, and returns no length unless it has launched a transmission, which
an answer has ended. -/
structure Honest (call : TransferCall) : Prop where
  divides : call.Divides → call.pipe.maxPacketSizeInBytes ≠ 0
  launches : ∀ packetId memory responses t length,
    channel.run (call.start packetId memory) responses = some t → t.returned = some length →
      length ≠ 0 → responses ≠ []

/-- The packet size is not zero, and the packet count does not wrap. -/
def Countable (call : TransferCall) : Prop :=
  call.pipe.maxPacketSizeInBytes ≠ 0 ∧
    call.size % 2 ^ 32 + call.pipe.maxPacketSizeInBytes.toNat ≤ 2 ^ 32

end TransferCall

section Calls

variable {pipe : UsbPipe} {call : TransferCall}

/-- When a buffer that is not empty has no packet. -/
theorem packetCountOf_eq_zero_iff {size : Nat} (hpos : size ≠ 0) (hsize : size < 2 ^ 32) :
    packetCountOf pipe size = 0 ↔
      pipe.maxPacketSizeInBytes = 0 ∨ 2 ^ 32 < size + pipe.maxPacketSizeInBytes.toNat := by
  have hmax : pipe.maxPacketSizeInBytes.toNat < 2 ^ 16 := pipe.maxPacketSizeInBytes.toNat_lt
  have hzero : pipe.maxPacketSizeInBytes = 0 ↔ pipe.maxPacketSizeInBytes.toNat = 0 :=
    UInt16.toNat_inj.symm
  rw [packetCountOf, if_neg hpos, hzero, Nat.div_eq_zero_iff]
  refine or_congr_right ?_
  rw [add32, sub32]
  omega

theorem point_start_of_refused (hrefused : call.Refused) (packetId : PacketId)
    (memory : ChannelMemory) : (call.start packetId memory).point = .failed := by
  rw [TransferCall.start, hrefused.1]
  dsimp only
  rw [transferOut, if_pos hrefused.2]

/-- A call that is not refused comes to the loop over its packets. -/
theorem start_of_not_refused (hrefused : ¬ call.Refused) (packetId : PacketId)
    (memory : ChannelMemory) :
    call.start packetId memory =
      (Transfer.program call.direction call.pipe call.size packetId memory).launch := by
  obtain ⟨direction, pipe, size⟩ := call
  cases direction with
  | directionIn => rfl
  | directionOut => exact if_neg fun hlarge => hrefused ⟨rfl, hlarge⟩

theorem point_launch_program {direction : UsbDirection} {size : Nat} (packetId : PacketId)
    (memory : ChannelMemory) :
    (Transfer.program direction pipe size packetId memory).launch.point =
      if packetCountOf pipe (size % 2 ^ 32) > 0 then .launched else .completed := by
  rw [Transfer.launch]
  change (if packetCountOf pipe (size % 2 ^ 32) > 0 then _ else _ : Transfer).point = _
  split
  · rfl
  · rfl

/-- A call that has no packet for its bytes returns their number at once. -/
theorem returned_start_of_no_packet (hrefused : ¬ call.Refused)
    (hcount : packetCountOf call.pipe (call.size % 2 ^ 32) = 0) (packetId : PacketId)
    (memory : ChannelMemory) :
    (call.start packetId memory).returned = some (call.size % 2 ^ 32) := by
  have hpoint := @point_launch_program call.pipe call.direction call.size packetId memory
  rw [if_neg (by omega)] at hpoint
  rw [start_of_not_refused hrefused, Transfer.returned, hpoint]
  exact congrArg some (dimensions_launch _).1

/-- A call returns a length at once where it is not refused and has no packet for its bytes. -/
theorem launches_iff :
    (∀ packetId memory responses t length,
      channel.run (call.start packetId memory) responses = some t → t.returned = some length →
        length ≠ 0 → responses ≠ []) ↔
      (¬ call.Refused → call.size % 2 ^ 32 ≠ 0 →
        packetCountOf call.pipe (call.size % 2 ^ 32) ≠ 0) := by
  constructor
  · intro hlaunches hrefused hsize hcount
    have hreturned := returned_start_of_no_packet hrefused hcount .data0
      ⟨fun _ => 0, fun _ => 0, fun _ => 0⟩
    exact hlaunches .data0 _ [] _ _ rfl hreturned hsize rfl
  · rintro hcount packetId memory responses t length hrun hreturned hlength rfl
    cases hrun
    by_cases hrefused : call.Refused
    · rw [Transfer.returned, point_start_of_refused hrefused] at hreturned
      exact hlength (Option.some.inj hreturned).symm
    · rw [start_of_not_refused hrefused, Transfer.returned, point_launch_program] at hreturned
      split at hreturned
      · cases hreturned
      · cases hreturned
      · cases hreturned
        exact hlength rfl
      · next hpoint =>
        split at hpoint
        · cases hpoint
        · next hnone =>
          rw [(dimensions_launch _).1] at hreturned
          cases hreturned
          exact hnone (Nat.pos_of_ne_zero (hcount hrefused hlength))

/-- A call is honest exactly if it moves no byte, or is refused, or can count its packets. -/
theorem honest_iff :
    call.Honest ↔ call.size % 2 ^ 32 = 0 ∨ call.Refused ∨ call.Countable := by
  have hlt : call.size % 2 ^ 32 < 2 ^ 32 := Nat.mod_lt _ (by decide)
  by_cases hsize : call.size % 2 ^ 32 = 0
  · refine iff_of_true ⟨fun hdivides => absurd hsize hdivides.2, ?_⟩ (.inl hsize)
    exact launches_iff.mpr fun _ hne => absurd hsize hne
  by_cases hrefused : call.Refused
  · refine iff_of_true ⟨fun hdivides => absurd hrefused hdivides.1, ?_⟩ (.inr (.inl hrefused))
    exact launches_iff.mpr fun hnot => absurd hrefused hnot
  rw [or_iff_right hsize, or_iff_right hrefused, TransferCall.Countable]
  have hcount := (@packetCountOf_eq_zero_iff call.pipe _ hsize hlt).not
  rw [not_or, not_lt] at hcount
  constructor
  · exact fun h => hcount.mp (launches_iff.mp h.launches hrefused hsize)
  · exact fun h => ⟨fun _ => h.1, launches_iff.mpr fun _ _ => hcount.mpr h⟩

end Calls

/-- The direction of the status stage. -/
def UsbDirection.opposite : UsbDirection → UsbDirection
  | .directionOut => .directionIn
  | .directionIn => .directionOut

namespace ControlMessage

/-- The SETUP stage of a message. -/
def setupCall (message : ControlMessage) : TransferCall :=
  ⟨.directionOut, message.pipe0, sizeOfRequest⟩

/-- The data stage of a message with a buffer. -/
def dataCall (message : ControlMessage) : TransferCall :=
  ⟨message.direction, message.pipe0, message.bufferLength.toNat⟩

/-- The status stage of a message. -/
def statusCall (message : ControlMessage) : TransferCall :=
  ⟨message.direction.opposite, message.pipe0, 0⟩

end ControlMessage

/-- The calls of a message that has come to an outcome. -/
def ControlOutcome.calls (message : ControlMessage) (outcome : ControlOutcome) :
    List TransferCall :=
  message.setupCall :: ((if outcome.data.isSome then [message.dataCall] else []) ++
    if outcome.status.isSome then [message.statusCall] else [])

/-- The transfers of a message that has come to an outcome. -/
def ControlOutcome.transfers (outcome : ControlOutcome) : List Transfer :=
  outcome.setup :: (outcome.data.toList ++ outcome.status.toList)

/-- A transfer is what a call has come to. -/
def TransferCall.Makes (call : TransferCall) (t : Transfer) : Prop :=
  ∃ packetId memory responses rest,
    (call.start packetId memory).finish responses = some (t, rest)

/-- Every call of a message is honest, whatever comes of it. -/
def ControlMessage.Honest (message : ControlMessage) : Prop :=
  ∀ result dmaBuffer payload responses outcome,
    hcdSubmitControlMessage message result dmaBuffer payload responses = some outcome →
      ∀ call ∈ outcome.calls message, call.Honest

/-- The packet size is not zero, and the data stage is honest as well. -/
def ControlMessage.Countable (message : ControlMessage) : Prop :=
  message.pipe0.maxPacketSizeInBytes ≠ 0 ∧ (message.buffer = none ∨ message.bufferLength = 0 ∨
    message.dataCall.Refused ∨
    message.bufferLength.toNat + message.pipe0.maxPacketSizeInBytes.toNat ≤ 2 ^ 32)

/-- The answer to a transmission that has timed out. -/
def timedOut : Response := ⟨{}, 0⟩

section Messages

variable {t : Transfer} {message : ControlMessage} {call : TransferCall}

theorem finish_nil {length : Nat} (hreturned : t.returned = some length) :
    t.finish [] = some (t, []) := by
  rw [Transfer.finish, hreturned]

theorem finish_of_ended (hended : t.point = .failed ∨ t.point = .completed)
    (responses : List Response) : t.finish responses = some (t, responses) := by
  have hreturned : ∃ length, t.returned = some length := by
    rw [Transfer.returned]
    obtain hpoint | hpoint := hended
    · rw [hpoint]
      exact ⟨0, rfl⟩
    · rw [hpoint]
      exact ⟨_, rfl⟩
  have hnext : ∀ r, t.next r = none := by
    intro r
    rw [Transfer.next]
    obtain hpoint | hpoint := hended
    · rw [hpoint]
    · rw [hpoint]
  cases responses with
  | nil =>
    obtain ⟨length, hlength⟩ := hreturned
    exact finish_nil hlength
  | cons r responses => rw [Transfer.finish, hnext]

theorem point_start_ne (packetId : PacketId) (memory : ChannelMemory) :
    (call.start packetId memory).point ≠ .resent := by
  by_cases hrefused : call.Refused
  · rw [point_start_of_refused hrefused]
    decide
  · rw [start_of_not_refused hrefused, point_launch_program]
    split
    · decide
    · decide

/-- A call ends, at the latest where a transmission times out. -/
theorem exists_finish_timedOut (call : TransferCall) (packetId : PacketId) (memory : ChannelMemory)
    (n : ℕ) :
    ∃ t m, n ≤ m ∧ (call.start packetId memory).finish (List.replicate (n + 1) timedOut) =
      some (t, List.replicate m timedOut) := by
  cases hpoint : (call.start packetId memory).point with
  | launched =>
    have hnext : (call.start packetId memory).next timedOut =
        some { (call.start packetId memory).transmit 0 with
          sendCtrl := (call.start packetId memory).sendCtrl, point := .failed } := by
      rw [Transfer.next, hpoint]
      rfl
    refine ⟨{ (call.start packetId memory).transmit 0 with
      sendCtrl := (call.start packetId memory).sendCtrl, point := .failed }, n, le_rfl, ?_⟩
    rw [List.replicate_succ, Transfer.finish, hnext]
    exact finish_of_ended (.inl rfl) _
  | resent => exact absurd hpoint (point_start_ne packetId memory)
  | failed => exact ⟨_, n + 1, Nat.le_succ n, finish_of_ended (.inl hpoint) _⟩
  | completed => exact ⟨_, n + 1, Nat.le_succ n, finish_of_ended (.inr hpoint) _⟩

/-- The answers to the SETUP stage and then timeouts bring a message to an outcome; one with a
buffer has come to its data stage. -/
theorem exists_outcome {setup : Transfer} {answers : List Response}
    (hsetup : ∀ rest, (transferOut message.pipe0 sizeOfRequest .setup
      ⟨message.request, fun _ => 0, fun _ => 0⟩).finish (answers ++ rest) = some (setup, rest))
    (hsent : setup.returned = some sizeOfRequest) :
    ∃ outcome, hcdSubmitControlMessage message 0 (fun _ => 0) (fun _ => 0)
        (answers ++ List.replicate 2 timedOut) = some outcome ∧
      (message.buffer ≠ none → outcome.data.isSome = true) := by
  have hnot : ¬ setup.returned ≠ some sizeOfRequest := not_not.mpr hsent
  rw [hcdSubmitControlMessage]
  simp only [hsetup, Option.bind_eq_bind, Option.bind_some, if_neg hnot]
  cases message.buffer with
  | none =>
    cases message.direction with
    | directionIn => exact ⟨_, rfl, fun h => absurd rfl h⟩
    | directionOut =>
      obtain ⟨status, m, -, hstatus⟩ := exists_finish_timedOut ⟨.directionIn, message.pipe0, 0⟩
        .data1 ⟨fun _ => 0, setup.memory.dmaBuffer, fun _ => 0⟩ 1
      simp only [TransferCall.start] at hstatus
      simp only [hstatus, Option.bind_some]
      exact ⟨_, rfl, fun h => absurd rfl h⟩
  | some buffer =>
    cases message.direction with
    | directionIn =>
      obtain ⟨data, m, hm, hdata⟩ := exists_finish_timedOut
        ⟨.directionIn, message.pipe0, message.bufferLength.toNat⟩
        .data1 ⟨buffer, setup.memory.dmaBuffer, fun _ => 0⟩ 1
      obtain ⟨n, rfl⟩ := Nat.exists_eq_add_of_le' hm
      obtain ⟨status, m, -, hstatus⟩ := exists_finish_timedOut ⟨.directionOut, message.pipe0, 0⟩
        .data1 ⟨fun _ => 0, data.memory.dmaBuffer, fun _ => 0⟩ n
      simp only [TransferCall.start] at hdata hstatus
      simp only [hdata, Option.bind_some]
      split
      · exact ⟨_, rfl, fun _ => rfl⟩
      · simp only [hstatus, Option.bind_some]
        exact ⟨_, rfl, fun _ => rfl⟩
    | directionOut =>
      obtain ⟨data, m, hm, hdata⟩ := exists_finish_timedOut
        ⟨.directionOut, message.pipe0, message.bufferLength.toNat⟩
        .data1 ⟨buffer, setup.memory.dmaBuffer, fun _ => 0⟩ 1
      obtain ⟨n, rfl⟩ := Nat.exists_eq_add_of_le' hm
      obtain ⟨status, m, -, hstatus⟩ := exists_finish_timedOut ⟨.directionIn, message.pipe0, 0⟩
        .data1 ⟨fun _ => 0, data.memory.dmaBuffer, fun _ => 0⟩ n
      simp only [TransferCall.start] at hdata hstatus
      simp only [hdata, Option.bind_some]
      split
      · exact ⟨_, rfl, fun _ => rfl⟩
      · simp only [hstatus, Option.bind_some]
        exact ⟨_, rfl, fun _ => rfl⟩

/-- A launch after which no packet is left is the last. -/
theorem completed_account (hleft : t.packetsLeft = 0) : t.account.point = .completed := by
  have hlaunch : ∀ t : Transfer, t.currentPacketCount = 0 → t.launch.point = .completed := by
    intro t hzero
    rw [launch_of_zero hzero]
  rw [Transfer.account]
  dsimp only
  split
  · exact hlaunch _ hleft
  · exact hlaunch _ hleft

/-- A transfer whose launch is acknowledged with no packet left is complete. -/
theorem exists_finish_done {success : Bool} (hpoint : t.point = .launched)
    (hcontrol : t.sendCtrl = { success }) :
    ∃ t', (∀ rest, t.finish (done 0 :: rest) = some (t', rest)) ∧ t'.point = .completed ∧
      t'.transferSizeInBytes = t.transferSizeInBytes := by
  have hcompleted :=
    @completed_account { t.transmit 0 with sendCtrl := { success := true } } rfl
  refine ⟨_, fun rest => ?_, hcompleted, (dimensions_account _).1⟩
  rw [Transfer.finish, next_done hpoint hcontrol]
  exact finish_of_ended (.inr hcompleted) rest

/-- A SETUP stage that is acknowledged, or has no packet to send, returns its length. -/
theorem exists_setup (message : ControlMessage) :
    ∃ answers setup, (∀ rest, (transferOut message.pipe0 sizeOfRequest .setup
      ⟨message.request, fun _ => 0, fun _ => 0⟩).finish (answers ++ rest) = some (setup, rest)) ∧
      setup.returned = some sizeOfRequest := by
  have hrefused : ¬ message.setupCall.Refused :=
    fun h => absurd h.2 (Nat.not_lt.mpr (show sizeOfRequest ≤ dmaBufferSize by decide))
  have hstart : transferOut message.pipe0 sizeOfRequest .setup
      ⟨message.request, fun _ => 0, fun _ => 0⟩ =
        (Transfer.program .directionOut message.pipe0 sizeOfRequest .setup
          ⟨message.request, fun _ => 0, fun _ => 0⟩).launch := start_of_not_refused hrefused _ _
  have hsize : (transferOut message.pipe0 sizeOfRequest .setup
      ⟨message.request, fun _ => 0, fun _ => 0⟩).transferSizeInBytes = sizeOfRequest :=
    (dimensions_transferOut _ _ _ _).1
  have hreturned : ∀ {t : Transfer}, t.point = .completed →
      t.transferSizeInBytes = sizeOfRequest → t.returned = some sizeOfRequest := by
    intro t hpoint hsize
    rw [Transfer.returned, hpoint]
    exact congrArg some hsize
  have hpoint := @point_launch_program message.pipe0 .directionOut sizeOfRequest .setup
    ⟨message.request, fun _ => 0, fun _ => 0⟩
  have hcontrol := (registers_launch (Transfer.program .directionOut message.pipe0 sizeOfRequest
    .setup ⟨message.request, fun _ => 0, fun _ => 0⟩)).1
  rw [← hstart] at hpoint hcontrol
  split at hpoint
  · obtain ⟨setup, hfinish, hcompleted, hsame⟩ := exists_finish_done hpoint hcontrol
    exact ⟨[done 0], setup, hfinish, hreturned hcompleted (hsame.trans hsize)⟩
  · exact ⟨[], _, finish_of_ended (.inr hpoint), hreturned hpoint hsize⟩

/-- The calls of a message make its transfers. -/
theorem makes_transfers {result : UInt8} {dmaBuffer payload : Nat → UInt8}
    {responses : List Response} {outcome : ControlOutcome}
    (h : hcdSubmitControlMessage message result dmaBuffer payload responses = some outcome) :
    List.Forall₂ TransferCall.Makes (outcome.calls message) outcome.transfers := by
  rw [hcdSubmitControlMessage] at h
  obtain ⟨⟨setup, afterSetup⟩, hsetup, h⟩ := Option.bind_eq_some_iff.mp h
  have hsetup' : message.setupCall.Makes setup := ⟨_, _, _, _, hsetup⟩
  dsimp only at h
  split at h
  · cases h
    exact .cons hsetup' .nil
  · cases hbuffer : message.buffer with
    | none =>
      cases hdirection : message.direction with
      | directionIn =>
        rw [hbuffer, hdirection] at h
        cases h
        exact .cons hsetup' .nil
      | directionOut =>
        rw [hbuffer, hdirection] at h
        obtain ⟨⟨status, afterStatus⟩, hstatus, h⟩ := Option.bind_eq_some_iff.mp h
        cases h
        have hstatus' : message.statusCall.Makes status := by
          rw [ControlMessage.statusCall, hdirection]
          exact ⟨_, _, _, _, hstatus⟩
        exact .cons hsetup' (.cons hstatus' .nil)
    | some buffer =>
      cases hdirection : message.direction with
      | directionIn =>
        rw [hbuffer, hdirection] at h
        obtain ⟨⟨data, afterData⟩, hdata, h⟩ := Option.bind_eq_some_iff.mp h
        have hdata' : message.dataCall.Makes data := by
          rw [ControlMessage.dataCall, hdirection]
          exact ⟨_, _, _, _, hdata⟩
        dsimp only at h
        split at h
        · cases h
          exact .cons hsetup' (.cons hdata' .nil)
        · obtain ⟨⟨status, afterStatus⟩, hstatus, h⟩ := Option.bind_eq_some_iff.mp h
          cases h
          have hstatus' : message.statusCall.Makes status := by
            rw [ControlMessage.statusCall, hdirection]
            exact ⟨_, _, _, _, hstatus⟩
          exact .cons hsetup' (.cons hdata' (.cons hstatus' .nil))
      | directionOut =>
        rw [hbuffer, hdirection] at h
        obtain ⟨⟨data, afterData⟩, hdata, h⟩ := Option.bind_eq_some_iff.mp h
        have hdata' : message.dataCall.Makes data := by
          rw [ControlMessage.dataCall, hdirection]
          exact ⟨_, _, _, _, hdata⟩
        dsimp only at h
        split at h
        · cases h
          exact .cons hsetup' (.cons hdata' .nil)
        · obtain ⟨⟨status, afterStatus⟩, hstatus, h⟩ := Option.bind_eq_some_iff.mp h
          cases h
          have hstatus' : message.statusCall.Makes status := by
            rw [ControlMessage.statusCall, hdirection]
            exact ⟨_, _, _, _, hstatus⟩
          exact .cons hsetup' (.cons hdata' (.cons hstatus' .nil))

theorem honest_setupCall_iff :
    message.setupCall.Honest ↔ message.pipe0.maxPacketSizeInBytes ≠ 0 := by
  have hmax : message.pipe0.maxPacketSizeInBytes.toNat < 2 ^ 16 := UInt16.toNat_lt _
  have hrefused : ¬ message.setupCall.Refused :=
    fun h => absurd h.2 (Nat.not_lt.mpr (show sizeOfRequest ≤ dmaBufferSize by decide))
  have hsize : message.setupCall.size % 2 ^ 32 = 8 := rfl
  rw [honest_iff, or_iff_right (by omega), or_iff_right hrefused, TransferCall.Countable, hsize]
  exact and_iff_left (show 8 + message.pipe0.maxPacketSizeInBytes.toNat ≤ 2 ^ 32 by omega)

theorem honest_dataCall_iff :
    message.dataCall.Honest ↔ message.bufferLength = 0 ∨ message.dataCall.Refused ∨
      message.pipe0.maxPacketSizeInBytes ≠ 0 ∧
        message.bufferLength.toNat + message.pipe0.maxPacketSizeInBytes.toNat ≤ 2 ^ 32 := by
  have hsize : message.dataCall.size % 2 ^ 32 = message.bufferLength.toNat :=
    Nat.mod_eq_of_lt message.bufferLength.toNat_lt
  rw [honest_iff, TransferCall.Countable, hsize]
  exact or_congr_left ⟨fun h => UInt32.toNat_inj.mp h, fun h => h ▸ rfl⟩

theorem mem_calls {outcome : ControlOutcome} (hcall : call ∈ outcome.calls message) :
    call = message.setupCall ∨ (outcome.data.isSome = true ∧ call = message.dataCall) ∨
      call = message.statusCall := by
  obtain hsetup | hrest := List.mem_cons.mp hcall
  · exact .inl hsetup
  · refine .inr ?_
    obtain hdata | hstatus := List.mem_append.mp hrest
    · split at hdata
      · next hsome => exact .inl ⟨hsome, List.mem_singleton.mp hdata⟩
      · cases hdata
    · split at hstatus
      · exact .inr (List.mem_singleton.mp hstatus)
      · cases hstatus

/-- A message without a buffer has no data stage. -/
theorem Submitted.buffer_ne_none {result : UInt8} {outcome : ControlOutcome}
    (h : Submitted message result outcome) (hdata : outcome.data.isSome = true) :
    message.buffer ≠ none := by
  cases h with
  | setupFailed => cases hdata
  | noBuffer => cases hdata
  | noData => cases hdata
  | dataFailed _ _ hbuffer => exact hbuffer
  | finished _ _ hbuffer => exact hbuffer

/-- A message is honest exactly if its packet size is not zero and its data stage has no packet
count that wraps. -/
theorem ControlMessage.honest_iff : message.Honest ↔ message.Countable := by
  constructor
  · intro hhonest
    obtain ⟨answers, setup, hfinish, hsent⟩ := exists_setup message
    obtain ⟨outcome, houtcome, hdata⟩ := exists_outcome hfinish hsent
    have hcalls := hhonest _ _ _ _ outcome houtcome
    have hmax : message.pipe0.maxPacketSizeInBytes ≠ 0 :=
      honest_setupCall_iff.mp (hcalls _ List.mem_cons_self)
    refine ⟨hmax, ?_⟩
    by_cases hbuffer : message.buffer = none
    · exact .inl hbuffer
    · have hmem : message.dataCall ∈ outcome.calls message := by
        rw [ControlOutcome.calls, hdata hbuffer]
        exact List.mem_cons_of_mem _ List.mem_cons_self
      refine .inr ?_
      obtain hlength | hrefused | hcount := honest_dataCall_iff.mp (hcalls _ hmem)
      · exact .inl hlength
      · exact .inr (.inl hrefused)
      · exact .inr (.inr hcount.2)
  · rintro ⟨hmax, hstage⟩ result dmaBuffer payload responses outcome houtcome call hcall
    have hsetup : message.setupCall.Honest := honest_setupCall_iff.mpr hmax
    have hstatus : message.statusCall.Honest := Usb.honest_iff.mpr (.inl rfl)
    have hdata : message.buffer ≠ none → message.dataCall.Honest := by
      intro hbuffer
      refine honest_dataCall_iff.mpr ?_
      obtain hnone | hlength | hrefused | hcount := hstage
      · exact absurd hnone hbuffer
      · exact .inl hlength
      · exact .inr (.inl hrefused)
      · exact .inr (.inr ⟨hmax, hcount⟩)
    obtain rfl | ⟨hsome, rfl⟩ | rfl := mem_calls hcall
    · exact hsetup
    · exact hdata ((submitted_of_eq_some houtcome).buffer_ne_none hsome)
    · exact hstatus

end Messages

/-- The call of a transfer with an endpoint, which makes a pipe of its own. -/
def endpointTransfer (speed : UsbSpeed) (endpoint : List UInt8) (bufferLength : UInt32) :
    TransferCall :=
  ⟨endpointDirection endpoint, ⟨packetMaxSize endpoint, speed⟩, bufferLength.toNat⟩

theorem finish_endpointTransfer {device : UsbDevice} {speed : UsbSpeed} {call : EndpointCall}
    {report : EndpointReport} (h : hcdEndpointTransfer device speed call = some report) :
    ∃ rest, ((endpointTransfer speed call.endpoint call.bufferLength).start
      (packetIdOf device call.endpoint) call.memory).finish call.responses =
        some (report.transfer, rest) := by
  obtain ⟨⟨transfer, rest⟩, hfinish, h⟩ := Option.bind_eq_some_iff.mp h
  cases h
  exact ⟨rest, hfinish⟩

/-- The transfers with an endpoint and a length are honest, whatever the answers are. -/
structure HonestEndpoint (device : UsbDevice) (speed : UsbSpeed) (endpoint : List UInt8)
    (bufferLength : UInt32) : Prop where
  divides : bufferLength ≠ 0 →
    ¬ (endpointDirection endpoint = .directionOut ∧ dmaBufferSize < bufferLength.toNat) →
      packetMaxSize endpoint ≠ 0
  launches : ∀ memory responses report length,
    hcdEndpointTransfer device speed ⟨endpoint, bufferLength, memory, responses⟩ = some report →
      report.transfer.returned = some length → length ≠ 0 → responses ≠ []

/-- An endpoint is honest about a length exactly if the length is zero or refused, or has a packet
count that is not zero and does not wrap. -/
theorem honestEndpoint_iff (device : UsbDevice) (speed : UsbSpeed) (endpoint : List UInt8)
    (bufferLength : UInt32) :
    HonestEndpoint device speed endpoint bufferLength ↔
      bufferLength = 0 ∨
        (endpointDirection endpoint = .directionOut ∧ dmaBufferSize < bufferLength.toNat) ∨
        (packetMaxSize endpoint ≠ 0 ∧
          bufferLength.toNat + (packetMaxSize endpoint).toNat ≤ 2 ^ 32) := by
  have hmod : (endpointTransfer speed endpoint bufferLength).size % 2 ^ 32 =
      bufferLength.toNat := Nat.mod_eq_of_lt bufferLength.toNat_lt
  have hsize : bufferLength.toNat = 0 ↔ bufferLength = 0 :=
    ⟨fun h => UInt32.toNat_inj.mp h, fun h => h ▸ rfl⟩
  have hhonest : HonestEndpoint device speed endpoint bufferLength ↔
      (endpointTransfer speed endpoint bufferLength).Honest := by
    constructor
    · intro h
      refine ⟨fun hdivides => h.divides ?_ hdivides.1, ?_⟩
      · exact hsize.not.mp (hmod ▸ hdivides.2)
      · refine launches_iff.mpr fun hrefused hne hcount => ?_
        have hreturned := returned_start_of_no_packet hrefused hcount (packetIdOf device endpoint)
          ⟨fun _ => 0, fun _ => 0, fun _ => 0⟩
        exact h.launches _ [] _ _ (Option.bind_eq_some_iff.mpr ⟨_, finish_nil hreturned, rfl⟩)
          hreturned hne rfl
    · intro h
      refine ⟨fun hne hrefused => h.divides ⟨hrefused, ?_⟩, ?_⟩
      · rw [hmod]
        exact hsize.not.mpr hne
      · rintro memory responses report length hreport hreturned hlength rfl
        obtain ⟨rest, hfinish⟩ := finish_endpointTransfer hreport
        obtain ⟨used, hused, hrun, -⟩ := Transfer.finish_spec hfinish
        exact h.launches _ _ used _ length hrun hreturned hlength
          (List.append_eq_nil_iff.mp hused.symm).1
  rw [hhonest, honest_iff, TransferCall.Countable, hmod]
  exact or_congr_left hsize

end RPiKernel.Usb
