import RPiKernel.Machine.Arithmetic
import RPiKernel.Transition.System
import RPiKernel.Usb.Tables

/-!
# Transfers of a USB channel

`TransferIn` and `TransferOut` launch transmissions until the hardware has counted off all
packets. Each transmission suspends the coroutine; the channel answers it with its interrupt
bits and with the number of packets that are left.

## Implementation notes

A transfer is a machine that takes one step for every answer. The registers that only the
hardware reads are left out, and so are the delays. A bound `transferred` of the copy loop is
taken as it is: the indices are reduced to 32 bits. The memory from the start of the DMA buffer
on is a function, and so is the buffer of the caller. On an IN transfer the device sends the
bytes of `payload`, `MaxPacketSizeInBytes` of them a packet, up to the length of the buffer.
-/

namespace RPiKernel.Usb

open Machine Transition

/-- The interrupt bits of a channel. -/
structure ChannelInterrupts where
  transferComplete : Bool := false
  halt : Bool := false
  ahbError : Bool := false
  stall : Bool := false
  negativeAcknowledgement : Bool := false
  acknowledgement : Bool := false
  notYet : Bool := false
  transactionError : Bool := false
  babbleError : Bool := false
  frameOverrun : Bool := false
  dataToggleError : Bool := false
  deriving DecidableEq, Repr

/-- The attempts so far, with what to do next. -/
structure UsbSendControl where
  splitTries : Nat := 0
  packetTries : Nat := 0
  globalTries : Nat := 0
  longerDelay : Bool := false
  actionResendSplit : Bool := false
  actionRetry : Bool := false
  actionFatalError : Bool := false
  success : Bool := false
  deriving DecidableEq, Repr

inductive DwcResult
  | ok
  | errorGeneral
  | errorArgument
  | errorDevice
  | errorIncompatible
  | errorTimeout
  | errorTransmission
  | errorStall
  deriving DecidableEq, Repr

/-- `HCDCheckErrorAndAction`. The counts of attempts have eight bits. -/
def hcdCheckErrorAndAction (interrupts : ChannelInterrupts) (packetSplit : Bool)
    (sendCtrl : UsbSendControl) : DwcResult × UsbSendControl :=
  let sendCtrl := { sendCtrl with
    actionResendSplit := false
    actionRetry := false
    longerDelay := false }
  if interrupts.ahbError then
    (.errorDevice, { sendCtrl with actionFatalError := true })
  else if interrupts.dataToggleError then
    (.errorTransmission, { sendCtrl with actionFatalError := true })
  else if interrupts.acknowledgement then
    (.ok, { sendCtrl with
      success := sendCtrl.success || interrupts.transferComplete
      actionResendSplit := !interrupts.transferComplete
      globalTries := 0 })
  else
    let sendCtrl :=
      if packetSplit then
        { sendCtrl with splitTries := (sendCtrl.splitTries + 1) % 256 }
      else
        { sendCtrl with packetTries := (sendCtrl.packetTries + 1) % 256 }
    if (packetSplit && sendCtrl.splitTries == 5) || (!packetSplit && sendCtrl.packetTries == 3) then
      (.errorTransmission, { sendCtrl with actionFatalError := true })
    else
      let sendCtrl := { sendCtrl with
        actionResendSplit := packetSplit
        actionRetry := !packetSplit }
      if !interrupts.stall && !interrupts.babbleError && !interrupts.frameOverrun then
        if interrupts.negativeAcknowledgement then (.errorTransmission, sendCtrl)
        else if interrupts.notYet then (.errorTransmission, sendCtrl)
        else (.errorTimeout, sendCtrl)
      else
        let sendCtrl := { sendCtrl with globalTries := (sendCtrl.globalTries + 1) % 256 }
        if sendCtrl.globalTries == 3 then
          (.errorTransmission, { sendCtrl with
            actionRetry := false
            actionResendSplit := false
            actionFatalError := true })
        else if interrupts.stall then (.errorStall, sendCtrl)
        else if interrupts.babbleError || interrupts.frameOverrun ||
            interrupts.transactionError then
          (.errorTransmission, sendCtrl)
        else (.errorGeneral, sendCtrl)

/-- What comes of a transmission: the transfer fails, a split is resent, or the packets are
accounted for. -/
inductive Verdict
  | fail (sendCtrl : UsbSendControl)
  | resend (sendCtrl : UsbSendControl)
  | account (sendCtrl : UsbSendControl)
  deriving DecidableEq, Repr

def Verdict.sendCtrl : Verdict → UsbSendControl
  | .fail sendCtrl => sendCtrl
  | .resend sendCtrl => sendCtrl
  | .account sendCtrl => sendCtrl

@[simp] theorem Verdict.sendCtrl_fail (sendCtrl : UsbSendControl) :
    (Verdict.fail sendCtrl).sendCtrl = sendCtrl :=
  rfl

@[simp] theorem Verdict.sendCtrl_resend (sendCtrl : UsbSendControl) :
    (Verdict.resend sendCtrl).sendCtrl = sendCtrl :=
  rfl

@[simp] theorem Verdict.sendCtrl_account (sendCtrl : UsbSendControl) :
    (Verdict.account sendCtrl).sendCtrl = sendCtrl :=
  rfl

/-- The decision on the interrupt bits. The attempts at a split are counted from the launch on. -/
def judge (packetSplit : Bool) (sendCtrl : UsbSendControl) (interrupts : ChannelInterrupts)
    (isLaunch : Bool) : Verdict :=
  if !interrupts.halt then
    .fail sendCtrl
  else
    let sendCtrl := (hcdCheckErrorAndAction interrupts packetSplit sendCtrl).2
    if sendCtrl.actionFatalError then
      .fail sendCtrl
    else
      let sendCtrl := if isLaunch then { sendCtrl with splitTries := 0 } else sendCtrl
      if sendCtrl.actionResendSplit then .resend sendCtrl else .account sendCtrl

inductive UsbSpeed
  | high
  | full
  | low
  deriving DecidableEq, Repr

/-- What the transfers read of a pipe. -/
structure UsbPipe where
  maxPacketSizeInBytes : UInt16
  speed : UsbSpeed
  deriving DecidableEq, Repr

inductive UsbDirection
  | directionOut
  | directionIn
  deriving DecidableEq, Repr

inductive PacketId
  | data0
  | data1
  | data2
  | setup
  deriving DecidableEq, Repr

/-- Where a transfer stands: it waits for a launch or for the completion of a split, or it has
returned 0 or the length of its buffer. -/
inductive TransferPoint
  | launched
  | resent
  | failed
  | completed
  deriving DecidableEq, Repr

/-- The buffer of the caller, the DMA buffer of the channel, and the bytes that the device
sends. -/
structure ChannelMemory where
  buffer : Nat → UInt8
  dmaBuffer : Nat → UInt8
  payload : Nat → UInt8

/-- A transfer in progress. `packetsLeft` is the packet count of the transfer size register and
`dmaAddr` the DMA address; `received` and `exchanged` count the bytes that the device has sent
and the packets that have been counted off. -/
structure Transfer where
  direction : UsbDirection
  isLowSpeed : Bool
  maxPacketSizeInBytes : Nat
  packetSizeInBytes : Nat
  transferSizeInBytes : Nat
  packetCount : Nat
  packetId : PacketId
  point : TransferPoint
  currentPacketCount : Nat
  offset : Nat
  sendCtrl : UsbSendControl
  packetsLeft : Nat
  dmaAddr : Nat
  received : Nat
  exchanged : Nat
  memory : ChannelMemory

/-- The answer to a transmission. -/
structure Response where
  interrupts : ChannelInterrupts
  packetCount : Nat
  deriving DecidableEq, Repr

def dmaBufferSize : Nat := 1024

/-- The packet count register has ten bits. -/
def maxPacketCount : Nat := 1024

section Memory

/-- The loop that copies the DMA buffer into the buffer of the caller. -/
def copyOut (dmaBuffer : Nat → UInt8) (offset : Nat) : Nat → (Nat → UInt8) → Nat → UInt8
  | 0, buffer => buffer
  | i + 1, buffer =>
      Function.update (copyOut dmaBuffer offset i buffer) (add32 offset i) (dmaBuffer i)

/-- The loop that copies what is left of the buffer into the DMA buffer. -/
def ChannelMemory.fill (memory : ChannelMemory) (offset size : Nat) : ChannelMemory :=
  { memory with
    dmaBuffer := fun i =>
      if i < (size + 2 ^ 64 - offset) % 2 ^ 64 then memory.buffer (offset + i)
      else memory.dmaBuffer i }

/-- Bytes of the device arrive at a DMA address. -/
def ChannelMemory.receive (memory : ChannelMemory) (dmaAddr received size : Nat) :
    ChannelMemory :=
  { memory with
    dmaBuffer := fun i =>
      if dmaAddr ≤ i ∧ i < dmaAddr + size then memory.payload (received + (i - dmaAddr))
      else memory.dmaBuffer i }

end Memory

/-- The number of packets of a transfer. Division by zero gives zero. -/
def packetCountOf (pipe : UsbPipe) (transferSizeInBytes : Nat) : Nat :=
  let maxPacketSizeInBytes := pipe.maxPacketSizeInBytes.toNat
  if transferSizeInBytes = 0 then 1
  else sub32 (add32 transferSizeInBytes maxPacketSizeInBytes) 1 / maxPacketSizeInBytes

namespace Transfer

/-- The channel is programmed. -/
def program (direction : UsbDirection) (pipe : UsbPipe) (size : Nat) (packetId : PacketId)
    (memory : ChannelMemory) : Transfer :=
  let transferSizeInBytes := size % 2 ^ 32
  let packetCount := packetCountOf pipe transferSizeInBytes
  { direction
    isLowSpeed := pipe.speed ≠ .high
    maxPacketSizeInBytes := pipe.maxPacketSizeInBytes.toNat
    packetSizeInBytes := if pipe.speed = .low then 8 else pipe.maxPacketSizeInBytes.toNat
    transferSizeInBytes
    packetCount
    packetId
    point := .launched
    currentPacketCount := packetCount
    offset := 0
    sendCtrl := {}
    packetsLeft := packetCount % maxPacketCount
    dmaAddr := 0
    received := 0
    exchanged := 0
    memory }

/-- The head of the loop: a transmission is launched while packets are left. -/
def launch (t : Transfer) : Transfer :=
  if t.currentPacketCount > 0 then
    { t with
      point := .launched
      dmaAddr := 0
      memory := match t.direction with
        | .directionIn => t.memory
        | .directionOut => t.memory.fill t.offset t.transferSizeInBytes }
  else
    { t with point := .completed }

/-- The hardware counts off packets, whose bytes it receives at the DMA address. -/
def transmit (t : Transfer) (packetCount : Nat) : Transfer :=
  let packetsLeft := packetCount % maxPacketCount
  let counted := t.packetsLeft - packetsLeft
  let size := match t.direction with
    | .directionIn =>
        min (t.received + counted * t.maxPacketSizeInBytes) t.transferSizeInBytes - t.received
    | .directionOut => 0
  { t with
    packetsLeft
    exchanged := t.exchanged + counted
    dmaAddr := t.dmaAddr + size
    received := t.received + size
    memory := t.memory.receive t.dmaAddr t.received size }

/-- The number of bytes that the packets of a launch are taken for. -/
def transferred (t : Transfer) : Nat :=
  if t.packetsLeft > 0 then
    mul32 (sub32 t.currentPacketCount t.packetsLeft) t.packetSizeInBytes
  else
    sub32 t.transferSizeInBytes
      (mul32 (sub32 t.packetCount t.currentPacketCount) t.packetSizeInBytes)

/-- The end of the loop. -/
def account (t : Transfer) : Transfer :=
  let t := if t.sendCtrl.success then
      { t with
        offset := add32 t.offset t.transferred
        memory := match t.direction with
          | .directionIn => { t.memory with
              buffer := copyOut t.memory.dmaBuffer t.offset t.transferred t.memory.buffer }
          | .directionOut => t.memory }
    else
      t
  launch { t with currentPacketCount := t.packetsLeft }

/-- What the answer to a transmission leads to. -/
def resume (t : Transfer) (interrupts : ChannelInterrupts) (isLaunch : Bool) : Transfer :=
  match judge t.isLowSpeed t.sendCtrl interrupts isLaunch with
  | .fail sendCtrl => { t with sendCtrl, point := .failed }
  | .resend sendCtrl => { t with sendCtrl, point := .resent }
  | .account sendCtrl => account { t with sendCtrl }

/-- The next step of a transfer that waits. -/
def next (t : Transfer) (r : Response) : Option Transfer :=
  match t.point with
  | .launched => some ((t.transmit r.packetCount).resume r.interrupts true)
  | .resent => some ((t.transmit r.packetCount).resume r.interrupts false)
  | .failed => none
  | .completed => none

/-- The value that a transfer has returned. -/
def returned (t : Transfer) : Option Nat :=
  match t.point with
  | .launched => none
  | .resent => none
  | .failed => some 0
  | .completed => some t.transferSizeInBytes

end Transfer

/-- `TransferIn`. -/
def transferIn (pipe : UsbPipe) (size : Nat) (packetId : PacketId) (memory : ChannelMemory) :
    Transfer :=
  (Transfer.program .directionIn pipe size packetId memory).launch

/-- `TransferOut`, which refuses what does not fit the DMA buffer. -/
def transferOut (pipe : UsbPipe) (size : Nat) (packetId : PacketId) (memory : ChannelMemory) :
    Transfer :=
  let t := Transfer.program .directionOut pipe size packetId memory
  if size > dmaBufferSize then { t with point := .failed } else t.launch

/-- The answers that a transfer takes until it returns, and those that are left. -/
def Transfer.finish (t : Transfer) : List Response → Option (Transfer × List Response)
  | [] =>
      match t.returned with
      | some _ => some (t, [])
      | none => none
  | r :: responses =>
      match t.next r with
      | some t' => t'.finish responses
      | none => some (t, r :: responses)

/-- The transfers of a channel, with the answers to their transmissions. -/
def channel : System Transfer Response where
  Initial := fun t =>
    ∃ pipe size packetId memory,
      t = transferIn pipe size packetId memory ∨ t = transferOut pipe size packetId memory
  next := Transfer.next

section Judge

variable {interrupts : ChannelInterrupts} {packetSplit isLaunch : Bool}
  {sendCtrl : UsbSendControl}

/-- Success that has been reported stays. -/
theorem success_hcdCheckErrorAndAction (h : sendCtrl.success = true) :
    (hcdCheckErrorAndAction interrupts packetSplit sendCtrl).2.success = true := by
  simp only [hcdCheckErrorAndAction, apply_ite Prod.snd, apply_ite UsbSendControl.success, h,
    Bool.true_or, ite_self]

theorem success_judge (h : sendCtrl.success = true) :
    (judge packetSplit sendCtrl interrupts isLaunch).sendCtrl.success = true := by
  have hchecked : (hcdCheckErrorAndAction interrupts packetSplit sendCtrl).2.success = true :=
    success_hcdCheckErrorAndAction h
  simp only [judge, apply_ite Verdict.sendCtrl, Verdict.sendCtrl_fail, Verdict.sendCtrl_resend,
    Verdict.sendCtrl_account, apply_ite UsbSendControl.success, h, hchecked, ite_self]

/-- A verdict keeps the success that has been reported. -/
theorem success_of_judge_eq {verdict : Verdict}
    (hjudge : judge packetSplit sendCtrl interrupts isLaunch = verdict)
    (h : sendCtrl.success = true) : verdict.sendCtrl.success = true := by
  rw [← hjudge]
  exact success_judge h

end Judge

/-- The transfer waits for the answer to a transmission. -/
def Transfer.Waits (t : Transfer) : Prop := t.point = .launched ∨ t.point = .resent

theorem Transfer.not_waits_of_failed {t : Transfer} (h : t.point = .failed) : ¬ t.Waits := by
  rw [Transfer.Waits, h]
  rintro (hpoint | hpoint)
  · cases hpoint
  · cases hpoint

theorem Transfer.not_waits_of_completed {t : Transfer} (h : t.point = .completed) :
    ¬ t.Waits := by
  rw [Transfer.Waits, h]
  rintro (hpoint | hpoint)
  · cases hpoint
  · cases hpoint

/-- What a step can do: the packets are counted off, and the verdict is carried out. -/
theorem Transfer.next_cases {t t' : Transfer} {r : Response} (hnext : t.next r = some t') :
    t.Waits ∧
      ((∃ sendCtrl,
          judge t.isLowSpeed t.sendCtrl r.interrupts (t.point = .launched) = .fail sendCtrl ∧
          t' = { t.transmit r.packetCount with sendCtrl, point := .failed }) ∨
        (∃ sendCtrl,
          judge t.isLowSpeed t.sendCtrl r.interrupts (t.point = .launched) = .resend sendCtrl ∧
          t' = { t.transmit r.packetCount with sendCtrl, point := .resent }) ∨
        ∃ sendCtrl,
          judge t.isLowSpeed t.sendCtrl r.interrupts (t.point = .launched) = .account sendCtrl ∧
          t' = Transfer.account { t.transmit r.packetCount with sendCtrl }) := by
  have hresume : ∀ isLaunch, (t.transmit r.packetCount).resume r.interrupts isLaunch =
      match judge t.isLowSpeed t.sendCtrl r.interrupts isLaunch with
      | .fail sendCtrl => { t.transmit r.packetCount with sendCtrl, point := .failed }
      | .resend sendCtrl => { t.transmit r.packetCount with sendCtrl, point := .resent }
      | .account sendCtrl => Transfer.account { t.transmit r.packetCount with sendCtrl } :=
    fun _ => rfl
  have hstep : t.Waits ∧
      t' = (t.transmit r.packetCount).resume r.interrupts (t.point = .launched) := by
    cases hpoint : t.point with
    | launched =>
      rw [Transfer.next, hpoint] at hnext
      exact ⟨Or.inl hpoint, (Option.some.inj hnext).symm⟩
    | resent =>
      rw [Transfer.next, hpoint] at hnext
      exact ⟨Or.inr hpoint, (Option.some.inj hnext).symm⟩
    | failed =>
      rw [Transfer.next, hpoint] at hnext
      cases hnext
    | completed =>
      rw [Transfer.next, hpoint] at hnext
      cases hnext
  refine ⟨hstep.1, ?_⟩
  rw [hstep.2, hresume]
  cases judge t.isLowSpeed t.sendCtrl r.interrupts (t.point = .launched) with
  | fail sendCtrl => exact Or.inl ⟨sendCtrl, rfl, rfl⟩
  | resend sendCtrl => exact Or.inr (Or.inl ⟨sendCtrl, rfl, rfl⟩)
  | account sendCtrl => exact Or.inr (Or.inr ⟨sendCtrl, rfl, rfl⟩)

section Return

variable {t t' : Transfer} {responses rest : List Response}

/-- A transfer that has returned a length is complete. -/
theorem completed_of_returned {length : Nat} (h : t.returned = some length) (hpos : length ≠ 0) :
    t.point = .completed ∧ t.transferSizeInBytes = length := by
  rw [Transfer.returned] at h
  cases hpoint : t.point with
  | launched =>
    rw [hpoint] at h
    cases h
  | resent =>
    rw [hpoint] at h
    cases h
  | failed =>
    rw [hpoint] at h
    cases h
    exact absurd rfl hpos
  | completed =>
    rw [hpoint] at h
    exact ⟨rfl, Option.some.inj h⟩

/-- The dimensions of a transfer never change. -/
theorem dimensions_launch (t : Transfer) :
    t.launch.transferSizeInBytes = t.transferSizeInBytes ∧
      t.launch.packetCount = t.packetCount := by
  rw [Transfer.launch]
  split
  · exact ⟨rfl, rfl⟩
  · exact ⟨rfl, rfl⟩

theorem dimensions_account (t : Transfer) :
    t.account.transferSizeInBytes = t.transferSizeInBytes ∧
      t.account.packetCount = t.packetCount := by
  rw [Transfer.account, (dimensions_launch _).1, (dimensions_launch _).2]
  dsimp only
  split
  · exact ⟨rfl, rfl⟩
  · exact ⟨rfl, rfl⟩

theorem dimensions_of_run (hrun : channel.run t responses = some t') :
    t'.transferSizeInBytes = t.transferSizeInBytes ∧ t'.packetCount = t.packetCount := by
  induction responses generalizing t with
  | nil =>
    cases hrun
    exact ⟨rfl, rfl⟩
  | cons r responses ih =>
    obtain ⟨t₁, hnext, hrest⟩ := System.run_cons hrun
    rw [(ih hrest).1, (ih hrest).2]
    obtain ⟨-, ⟨sendCtrl, -, rfl⟩ | ⟨sendCtrl, -, rfl⟩ | ⟨sendCtrl, -, rfl⟩⟩ :=
      Transfer.next_cases hnext
    · exact ⟨rfl, rfl⟩
    · exact ⟨rfl, rfl⟩
    · exact dimensions_account _

theorem dimensions_transferIn (pipe : UsbPipe) (size : Nat) (packetId : PacketId)
    (m : ChannelMemory) :
    (transferIn pipe size packetId m).transferSizeInBytes = size % 2 ^ 32 ∧
      (transferIn pipe size packetId m).packetCount = packetCountOf pipe (size % 2 ^ 32) :=
  dimensions_launch _

theorem dimensions_transferOut (pipe : UsbPipe) (size : Nat) (packetId : PacketId)
    (m : ChannelMemory) :
    (transferOut pipe size packetId m).transferSizeInBytes = size % 2 ^ 32 ∧
      (transferOut pipe size packetId m).packetCount = packetCountOf pipe (size % 2 ^ 32) := by
  rw [transferOut]
  split
  · exact ⟨rfl, rfl⟩
  · exact dimensions_launch _

/-- A transfer that takes no further answer has returned. -/
theorem Transfer.ended_of_next_eq_none {r : Response} (h : t.next r = none) :
    t.point = .failed ∨ t.point = .completed := by
  rw [Transfer.next] at h
  cases hpoint : t.point with
  | launched =>
    rw [hpoint] at h
    cases h
  | resent =>
    rw [hpoint] at h
    cases h
  | failed => exact Or.inl rfl
  | completed => exact Or.inr rfl

theorem Transfer.ended_of_returned {length : Nat} (h : t.returned = some length) :
    t.point = .failed ∨ t.point = .completed := by
  rw [Transfer.returned] at h
  cases hpoint : t.point with
  | launched =>
    rw [hpoint] at h
    cases h
  | resent =>
    rw [hpoint] at h
    cases h
  | failed => exact Or.inl rfl
  | completed => exact Or.inr rfl

/-- The answers that a transfer takes are a run at whose end it has returned. -/
theorem Transfer.finish_spec (h : t.finish responses = some (t', rest)) :
    ∃ used, responses = used ++ rest ∧ channel.run t used = some t' ∧
      (t'.point = .failed ∨ t'.point = .completed) := by
  induction responses generalizing t with
  | nil =>
    rw [Transfer.finish] at h
    cases hreturned : t.returned with
    | none =>
      rw [hreturned] at h
      cases h
    | some length =>
      rw [hreturned] at h
      cases h
      exact ⟨[], rfl, rfl, Transfer.ended_of_returned hreturned⟩
  | cons r responses ih =>
    rw [Transfer.finish] at h
    cases hnext : t.next r with
    | none =>
      rw [hnext] at h
      cases h
      exact ⟨[], rfl, rfl, Transfer.ended_of_next_eq_none hnext⟩
    | some t₁ =>
      rw [hnext] at h
      obtain ⟨used, rfl, hrun, hended⟩ := ih h
      exact ⟨r :: used, rfl, (System.run_cons_of_next hnext used).trans hrun, hended⟩

/-- A transfer of a size has returned. -/
structure Ended (size : Nat) (t : Transfer) : Prop where
  size_eq : t.transferSizeInBytes = size
  point_eq : t.point = .failed ∨ t.point = .completed

variable {pipe : UsbPipe} {size : Nat} {packetId : PacketId} {m : ChannelMemory}

theorem ended_transferIn (hsize : size < 2 ^ 32)
    (h : (transferIn pipe size packetId m).finish responses = some (t, rest)) : Ended size t := by
  obtain ⟨used, -, hrun, hended⟩ := Transfer.finish_spec h
  refine ⟨?_, hended⟩
  rw [(dimensions_of_run hrun).1, (dimensions_transferIn pipe size packetId m).1,
    Nat.mod_eq_of_lt hsize]

theorem ended_transferOut (hsize : size < 2 ^ 32)
    (h : (transferOut pipe size packetId m).finish responses = some (t, rest)) : Ended size t := by
  obtain ⟨used, -, hrun, hended⟩ := Transfer.finish_spec h
  refine ⟨?_, hended⟩
  rw [(dimensions_of_run hrun).1, (dimensions_transferOut pipe size packetId m).1,
    Nat.mod_eq_of_lt hsize]

/-- What a transfer returns tells its failure only where its size is not zero. -/
theorem Ended.returned_ne_iff (h : Ended size t) :
    t.returned ≠ some size ↔ t.point = .failed ∧ size ≠ 0 := by
  rcases h.point_eq with hpoint | hpoint
  · have hreturned : t.returned = some 0 := by
      rw [Transfer.returned, hpoint]
    rw [hreturned]
    constructor
    · exact fun hne => ⟨hpoint, fun hzero => hne (congrArg some hzero.symm)⟩
    · rintro ⟨-, hne⟩ heq
      exact hne (Option.some.inj heq).symm
  · have hreturned : t.returned = some size := by
      rw [Transfer.returned, hpoint, h.size_eq]
    rw [hreturned]
    constructor
    · exact fun hne => absurd rfl hne
    · rintro ⟨hfailed, -⟩
      cases hpoint.symm.trans hfailed

theorem Ended.point_ne_failed (h : Ended size t)
    (hreturned : t.returned = some size) (hsize : size ≠ 0) : t.point ≠ .failed :=
  fun hfailed => h.returned_ne_iff.mpr ⟨hfailed, hsize⟩ hreturned

/-- A transfer returns a length where it is complete and not empty. -/
theorem Ended.returned_pos_iff (h : Ended size t) :
    0 < t.returned.getD 0 ↔ t.point = .completed ∧ size ≠ 0 := by
  rw [Transfer.returned]
  rcases h.point_eq with hpoint | hpoint
  · rw [hpoint]
    constructor
    · exact fun hpos => absurd hpos (Nat.lt_irrefl 0)
    · rintro ⟨hcompleted, -⟩
      cases hcompleted
  · rw [hpoint]
    dsimp only
    rw [h.size_eq, Option.getD_some]
    exact ⟨fun hpos => ⟨rfl, hpos.ne'⟩, fun hne => Nat.pos_of_ne_zero hne.2⟩

end Return

end RPiKernel.Usb
