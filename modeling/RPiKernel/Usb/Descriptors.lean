import RPiKernel.Machine.Stateful
import RPiKernel.Usb.ControlMessage
import Mathlib.Data.Stream.Init

/-!
# Reading descriptors

`HCDGetDescriptor` reads the header of a descriptor and then as much of the descriptor as its
header and the buffer allow.

## Implementation notes

The control messages of a device get the replies of a stream. A reply has the result, the bytes
that have arrived in the buffer, of which the transfer keeps no more than it asks for, and what
the variable for the length of the transfer holds in the end: the source leaves it as it is where
a message fails. Any reply is possible, since the result of a failed SETUP stage is no value that
has been stored. Lengths are natural numbers.
-/

namespace RPiKernel.Usb

open Machine

/-- What comes of a control message. -/
structure ControlReply where
  result : Result
  received : List UInt8 := []
  transferred : Nat := 0

/-- The replies to come, and the messages so far. -/
structure ControlState where
  replies : Stream' ControlReply
  sent : List ControlMessage := []

/-- The computations that send control messages. -/
abbrev UsbM := EStateM Fault ControlState

/-- A control message and its reply. -/
def submit (message : ControlMessage) : UsbM ControlReply := fun s =>
  .ok s.replies.head { replies := s.replies.tail, sent := s.sent ++ [message] }

/-- A buffer after the first bytes of it have been written. -/
def overwrite (buffer : Nat → UInt8) (bytes : List UInt8) (k : Nat) : UInt8 :=
  bytes.getD k (buffer k)

/-- The bytes of a transfer of at most `length` bytes arrive in a buffer with a capacity. -/
def arrive (capacity : Nat) (buffer : Nat → UInt8) (length : Nat) (received : List UInt8) :
    UsbM (Nat → UInt8) :=
  if (received.take length).length ≤ capacity then
    pure (overwrite buffer (received.take length))
  else
    throw .writeOutside

/-- `UsbDeviceRequest`. -/
structure UsbDeviceRequest where
  type : UInt8
  request : UInt8
  value : UInt16 := 0
  index : UInt16 := 0
  length : UInt16 := 0

/-- The bytes of a request. -/
def UsbDeviceRequest.bytes (r : UsbDeviceRequest) (k : Nat) : UInt8 :=
  [r.type, r.request, r.value.toUInt8, (r.value >>> 8).toUInt8, r.index.toUInt8,
    (r.index >>> 8).toUInt8, r.length.toUInt8, (r.length >>> 8).toUInt8].getD k 0

/-- The size of a `UsbDescriptorHeader`. -/
def sizeOfHeader : Nat := 2

/-- A message that asks for the first bytes of a descriptor. -/
def getDescriptorMessage (pipe0 : UsbPipe) (type index : UInt8) (langId : UInt16)
    (recipient : UInt8) (buffer : Nat → UInt8) (length : Nat) (bytesTransferred : Option UInt32) :
    ControlMessage where
  pipe0
  direction := .directionIn
  buffer := some buffer
  bufferLength := UInt32.ofNat length
  request := UsbDeviceRequest.bytes {
    type := recipient
    request := 6
    value := (type.toUInt16 <<< 8) ||| index.toUInt16
    index := langId
    length := UInt16.ofNat length }
  bytesTransferred

/-- What `HCDGetDescriptor` leaves: its result, what it has stored for the length of the transfer,
and the buffer. -/
structure DescriptorReport where
  result : Result
  bytesTransferred : Option Nat
  buffer : Nat → UInt8

/-- The header that a reply brings. -/
def ControlReply.header (reply : ControlReply) : Nat → UInt8 :=
  overwrite (fun _ => 0) (reply.received.take sizeOfHeader)

/-- The result of the header check on a reply. -/
def ControlReply.headerResult (reply : ControlReply) (type : UInt8) : Result :=
  if reply.result = .ok ∧ reply.header 1 ≠ type then .errorGeneral else reply.result

/-- The header check of `HCDGetDescriptor`: the length that is left to read, or the result. -/
def checkHeader (pipe0 : UsbPipe) (type index : UInt8) (langId : UInt16) (length : Nat)
    (recipient : UInt8) : UsbM (Except Result Nat) := do
  let reply ← submit
    (getDescriptorMessage pipe0 type index langId recipient (fun _ => 0) sizeOfHeader none)
  if reply.headerResult type ≠ .ok then
    return .error (reply.headerResult type)
  return .ok (min length (reply.header 0).toNat)

/-- The reading of a descriptor into a buffer with a capacity. -/
def readDescriptor (pipe0 : UsbPipe) (type index : UInt8) (langId : UInt16)
    (buffer : Nat → UInt8) (capacity length : Nat) (recipient : UInt8) : UsbM DescriptorReport := do
  let reply ← submit
    (getDescriptorMessage pipe0 type index langId recipient buffer length (some 0))
  let buffer ← arrive capacity buffer length reply.received
  let result := if length ≠ reply.transferred then .errorTransmission else reply.result
  return { result, bytesTransferred := some reply.transferred, buffer }

/-- `HCDGetDescriptor`. -/
def hcdGetDescriptor (pipe0 : UsbPipe) (type index : UInt8) (langId : UInt16)
    (buffer : Nat → UInt8) (capacity length : Nat) (recipient : UInt8) (runHeaderCheck : Bool) :
    UsbM DescriptorReport := do
  if runHeaderCheck then
    match ← checkHeader pipe0 type index langId length recipient with
    | .error result => return { result, bytesTransferred := none, buffer }
    | .ok length => readDescriptor pipe0 type index langId buffer capacity length recipient
  else
    readDescriptor pipe0 type index langId buffer capacity length recipient

section Runs

variable {α β : Type} {x : UsbM α} {f : α → UsbM β} {s : ControlState} {a : α}

/-- The computation ends with a value after some of the replies. -/
def Yields (x : UsbM α) (s : ControlState) (a : α) (rest : Stream' ControlReply) : Prop :=
  ∃ sent, x.run s = .ok a ⟨rest, sent⟩

/-- The computation ends with a fault. -/
def Faults (x : UsbM α) (s : ControlState) (fault : Fault) : Prop :=
  ∃ s', x.run s = .error fault s'

theorem yields_pure (a : α) (replies : Stream' ControlReply) (sent : List ControlMessage) :
    Yields (pure a) ⟨replies, sent⟩ a replies :=
  ⟨sent, rfl⟩

theorem Yields.bind {b : β} {rest rest' : Stream' ControlReply} (h : Yields x s a rest)
    (hf : ∀ sent, Yields (f a) ⟨rest, sent⟩ b rest') : Yields (x >>= f) s b rest' := by
  obtain ⟨sent, hx⟩ := h
  obtain ⟨sent', hb⟩ := hf sent
  exact ⟨sent', (run_bind_ok hx).trans hb⟩

/-- A sequence whose beginning is known ends as its rest does. -/
theorem Yields.bind_iff {rest : Stream' ControlReply} (h : Yields x s a rest) :
    ∃ sent, ∀ {β : Type} (f : α → UsbM β) b rest',
      Yields (x >>= f) s b rest' ↔ Yields (f a) ⟨rest, sent⟩ b rest' := by
  obtain ⟨sent, hx⟩ := h
  refine ⟨sent, fun f b rest' => ?_⟩
  rw [Yields, Yields, run_bind_ok hx]

theorem yields_map_iff {g : α → β} {b : β} {rest : Stream' ControlReply} :
    Yields (do return g (← x)) s b rest ↔ ∃ a, Yields x s a rest ∧ g a = b := by
  constructor
  · rintro ⟨sent, hb⟩
    obtain ⟨a, s', hx, hend⟩ := exists_of_run_bind hb
    cases hend
    exact ⟨a, ⟨sent, hx⟩, rfl⟩
  · rintro ⟨a, hx, rfl⟩
    exact hx.bind fun sent => yields_pure (g a) rest sent

theorem Yields.bind_faults {fault : Fault} {rest : Stream' ControlReply} (h : Yields x s a rest)
    (hf : ∀ sent, Faults (f a) ⟨rest, sent⟩ fault) : Faults (x >>= f) s fault := by
  obtain ⟨sent, hx⟩ := h
  obtain ⟨s', hb⟩ := hf sent
  exact ⟨s', (run_bind_ok hx).trans hb⟩

theorem Faults.bind {fault : Fault} (h : Faults x s fault) : Faults (x >>= f) s fault := by
  obtain ⟨s', hx⟩ := h
  exact ⟨s', run_bind_error hx⟩

theorem Yields.ite_pos {c : Prop} [Decidable c] {y : UsbM α} {rest : Stream' ControlReply}
    (hc : c) (h : Yields x s a rest) : Yields (if c then x else y) s a rest := by
  rwa [if_pos hc]

theorem Yields.ite_neg {c : Prop} [Decidable c] {y : UsbM α} {rest : Stream' ControlReply}
    (hc : ¬ c) (h : Yields x s a rest) : Yields (if c then y else x) s a rest := by
  rwa [if_neg hc]

theorem Faults.ite_neg {c : Prop} [Decidable c] {y : UsbM α} {fault : Fault}
    (hc : ¬ c) (h : Faults x s fault) : Faults (if c then y else x) s fault := by
  rwa [if_neg hc]

/-- A computation ends in one way. -/
theorem Yields.eq {b : α} {rest rest' : Stream' ControlReply} (h : Yields x s a rest)
    (h' : Yields x s b rest') : a = b := by
  obtain ⟨sent, hx⟩ := h
  obtain ⟨sent', hx'⟩ := h'
  rw [hx] at hx'
  cases hx'
  rfl

theorem Faults.not_yields {fault : Fault} {rest : Stream' ControlReply} (h : Faults x s fault) :
    ¬ Yields x s a rest := by
  rintro ⟨sent, hx⟩
  obtain ⟨s', hx'⟩ := h
  rw [hx'] at hx
  cases hx

end Runs

section Descriptor

variable {pipe0 : UsbPipe} {type index : UInt8} {langId : UInt16} {buffer : Nat → UInt8}
  {capacity length : Nat} {recipient : UInt8} {s : ControlState}

/-- What the reading of a descriptor leaves. -/
def ControlReply.report (reply : ControlReply) (length : Nat) (buffer : Nat → UInt8) :
    DescriptorReport where
  result := if length ≠ reply.transferred then .errorTransmission else reply.result
  bytesTransferred := some reply.transferred
  buffer := overwrite buffer (reply.received.take length)

theorem yields_submit (message : ControlMessage) (s : ControlState) :
    Yields (submit message) s s.replies.head s.replies.tail :=
  ⟨s.sent ++ [message], rfl⟩

theorem yields_arrive {received : List UInt8} (hfits : (received.take length).length ≤ capacity)
    (s : ControlState) :
    Yields (arrive capacity buffer length received) s (overwrite buffer (received.take length))
      s.replies := by
  rw [arrive, if_pos hfits]
  exact yields_pure _ _ _

theorem faults_arrive {received : List UInt8}
    (hfits : ¬ (received.take length).length ≤ capacity) (s : ControlState) :
    Faults (arrive capacity buffer length received) s .writeOutside := by
  rw [arrive, if_neg hfits]
  exact ⟨s, rfl⟩

/-- A descriptor that fits its buffer. -/
theorem yields_readDescriptor
    (hfits : (s.replies.head.received.take length).length ≤ capacity) :
    Yields (readDescriptor pipe0 type index langId buffer capacity length recipient) s
      (s.replies.head.report length buffer) s.replies.tail :=
  (yields_submit _ s).bind fun _ => (yields_arrive hfits _).bind fun _ => yields_pure _ _ _

theorem faults_readDescriptor
    (hfits : ¬ (s.replies.head.received.take length).length ≤ capacity) :
    Faults (readDescriptor pipe0 type index langId buffer capacity length recipient) s
      .writeOutside :=
  (yields_submit _ s).bind_faults fun _ => (faults_arrive hfits _).bind

theorem yields_checkHeader_refused (hheader : s.replies.head.headerResult type ≠ .ok) :
    Yields (checkHeader pipe0 type index langId length recipient) s
      (.error (s.replies.head.headerResult type)) s.replies.tail :=
  (yields_submit _ s).bind fun _ => Yields.ite_pos hheader (yields_pure _ _ _)

theorem yields_checkHeader (hheader : s.replies.head.headerResult type = .ok) :
    Yields (checkHeader pipe0 type index langId length recipient) s
      (.ok (min length (s.replies.head.header 0).toNat)) s.replies.tail :=
  (yields_submit _ s).bind fun _ =>
    Yields.ite_neg (not_not.mpr hheader) (yields_pure _ _ _)

/-- The bytes of a descriptor that arrive after its header. -/
def arrivedBytes (type : UInt8) (length : Nat) (replies : Stream' ControlReply) : List UInt8 :=
  if replies.head.headerResult type = .ok then
    replies.tail.head.received.take (min length (replies.head.header 0).toNat)
  else
    []

/-- What `HCDGetDescriptor` with the header check leaves. -/
def checkedReport (type : UInt8) (length : Nat) (buffer : Nat → UInt8)
    (replies : Stream' ControlReply) : DescriptorReport :=
  if replies.head.headerResult type = .ok then
    replies.tail.head.report (min length (replies.head.header 0).toNat) buffer
  else
    { result := replies.head.headerResult type, bytesTransferred := none, buffer }

/-- The replies behind a descriptor whose header is checked. -/
def afterDescriptor (type : UInt8) (replies : Stream' ControlReply) : Stream' ControlReply :=
  if replies.head.headerResult type = .ok then replies.tail.tail else replies.tail

section Read

variable {replies : Stream' ControlReply} {sent : List ControlMessage}

/-- A descriptor that fits its buffer is read. -/
theorem yields_hcdGetDescriptor (hfits : (arrivedBytes type length replies).length ≤ capacity) :
    Yields (hcdGetDescriptor pipe0 type index langId buffer capacity length recipient true)
      ⟨replies, sent⟩ (checkedReport type length buffer replies)
      (afterDescriptor type replies) := by
  rw [hcdGetDescriptor, if_pos rfl, checkedReport, afterDescriptor]
  by_cases hheader : replies.head.headerResult type = .ok
  · rw [arrivedBytes, if_pos hheader] at hfits
    rw [if_pos hheader, if_pos hheader]
    exact (yields_checkHeader hheader).bind fun sent =>
      @yields_readDescriptor _ _ _ _ _ _ _ _ ⟨replies.tail, sent⟩ hfits
  · rw [if_neg hheader, if_neg hheader]
    exact (yields_checkHeader_refused hheader).bind fun _ => yields_pure _ _ _

/-- A descriptor that does not fit its buffer is written beyond it. -/
theorem faults_hcdGetDescriptor (hfits : ¬ (arrivedBytes type length replies).length ≤ capacity) :
    Faults (hcdGetDescriptor pipe0 type index langId buffer capacity length recipient true)
      ⟨replies, sent⟩ .writeOutside := by
  rw [hcdGetDescriptor, if_pos rfl]
  by_cases hheader : replies.head.headerResult type = .ok
  · rw [arrivedBytes, if_pos hheader] at hfits
    exact (yields_checkHeader hheader).bind_faults fun sent =>
      @faults_readDescriptor _ _ _ _ _ _ _ _ ⟨replies.tail, sent⟩ hfits
  · rw [arrivedBytes, if_neg hheader] at hfits
    exact absurd (Nat.zero_le _) hfits

/-- A descriptor whose header is not checked. -/
theorem yields_hcdGetDescriptor_unchecked
    (hfits : (replies.head.received.take length).length ≤ capacity) :
    Yields (hcdGetDescriptor pipe0 type index langId buffer capacity length recipient false)
      ⟨replies, sent⟩ (replies.head.report length buffer) replies.tail := by
  rw [hcdGetDescriptor, if_neg Bool.false_ne_true]
  exact @yields_readDescriptor _ _ _ _ _ _ _ _ ⟨replies, sent⟩ hfits

theorem faults_hcdGetDescriptor_unchecked
    (hfits : ¬ (replies.head.received.take length).length ≤ capacity) :
    Faults (hcdGetDescriptor pipe0 type index langId buffer capacity length recipient false)
      ⟨replies, sent⟩ .writeOutside := by
  rw [hcdGetDescriptor, if_neg Bool.false_ne_true]
  exact @faults_readDescriptor _ _ _ _ _ _ _ _ ⟨replies, sent⟩ hfits

end Read

/-- No more arrives than has been asked for. -/
theorem length_arrivedBytes_le (type : UInt8) (length : Nat) (replies : Stream' ControlReply) :
    (arrivedBytes type length replies).length ≤ length := by
  rw [arrivedBytes]
  split
  · rw [List.length_take]
    omega
  · exact Nat.zero_le _

end Descriptor

end RPiKernel.Usb
