import RPiKernel.Usb.Descriptors
import RPiKernel.Usb.HidReport

/-!
# Reading HID descriptors

`HIDReadDescriptor` reads the report descriptor of a HID interface into a buffer, and
`EnumerateHID` describes what it has read of every interface of a device.

## Implementation notes

Nobody but the enumeration changes the tables while it runs. The lines that describe a report
descriptor are printed and nothing else, so that `enumerateHid` returns the calls of
`describe_hid_descriptor` instead; `describeReads` has the positions that such a call reads.
-/

namespace RPiKernel.Usb

open Machine

section Reads

variable (data : Nat → UInt8) (length : Nat)

/-- The positions that the loop over the data of an item reads. -/
def itemReads : Nat → Nat → List Nat
  | 0, _ => []
  | left + 1, i =>
      if i < length then i :: itemReads left (add32 i 1) else itemReads left i

/-- The position behind an item. -/
def itemEnd (i : Nat) : Nat :=
  (itemValue data length ((data i).toNat % 4) 0 (add32 i 1) 0).1

/-- The positions that the loop of `describe_hid_descriptor` reads from position `i` on. -/
def describeReads : Nat → Nat → List Nat
  | 0, _ => []
  | fuel + 1, i =>
      if i < length then
        if data i = 0xFE then
          [i]
        else
          i :: (itemReads length ((data i).toNat % 4) (add32 i 1) ++
            describeReads fuel (itemEnd data length i))
      else
        []

end Reads

/-- The walk over the items from position `i` on comes to a long item at position `p`. -/
inductive LongItemFrom (data : Nat → UInt8) : Nat → Nat → Prop
  | here {i : Nat} : data i = 0xFE → LongItemFrom data i i
  | next {i p : Nat} : data i ≠ 0xFE → LongItemFrom data (i + 1 + (data i).toNat % 4) p →
      LongItemFrom data i p

section Positions

variable {data data' : Nat → UInt8} {length i k p : Nat}

/-- The value of an item is made of the bytes that are read. -/
theorem itemValue_congr {left : Nat} (j value : Nat)
    (hdata : ∀ k ∈ itemReads length left i, data k = data' k) :
    itemValue data length left j i value = itemValue data' length left j i value := by
  induction left generalizing i j value with
  | zero => rfl
  | succ left ih =>
    rw [itemValue, itemValue]
    rw [itemReads] at hdata
    split at hdata
    · next hi =>
      rw [if_pos hi, if_pos hi, hdata i List.mem_cons_self]
      exact ih _ _ fun k hk => hdata k (List.mem_cons_of_mem _ hk)
    · next hi =>
      rw [if_neg hi, if_neg hi]
      exact ih _ _ hdata

/-- The lines are made of the bytes that are read. -/
theorem describeFrom_congr {fuel : Nat}
    (hdata : ∀ k ∈ describeReads data length fuel i, data k = data' k) :
    describeFrom data length fuel i = describeFrom data' length fuel i := by
  induction fuel generalizing i with
  | zero => rfl
  | succ fuel ih =>
    rw [describeReads] at hdata
    rw [describeFrom, describeFrom]
    by_cases hi : i < length
    · rw [if_pos hi] at hdata
      rw [if_pos hi, if_pos hi]
      by_cases hlong : data i = 0xFE
      · rw [if_pos hlong] at hdata
        rw [← hdata i List.mem_cons_self]
        simp only [hlong, if_true]
      · rw [if_neg hlong] at hdata
        have hheader : data i = data' i := hdata i List.mem_cons_self
        have hitem := itemValue_congr 0 0 fun k hk =>
          hdata k (List.mem_cons_of_mem _ (List.mem_append_left _ hk))
        have hrest := ih fun k hk =>
          hdata k (List.mem_cons_of_mem _ (List.mem_append_right _ hk))
        simp only [← hheader, hlong, if_false, ← hitem]
        rw [itemEnd] at hrest
        rw [hrest]
    · rw [if_neg hi, if_neg hi]

section Word

variable (hlength : length < 4294967296)
include hlength

theorem itemValue_position {left : Nat} (j value : Nat) (hi : i ≤ length) :
    (itemValue data length left j i value).1 = min (i + left) length := by
  induction left generalizing i j value with
  | zero =>
    rw [itemValue]
    exact (min_eq_left hi).symm
  | succ left ih =>
    rw [itemValue]
    split
    · next hlt =>
      rw [add32_of_lt (by omega), ih _ _ (by omega)]
      omega
    · rw [ih _ _ hi]
      omega

theorem itemEnd_eq (hi : i < length) :
    itemEnd data length i = min (i + 1 + (data i).toNat % 4) length := by
  rw [itemEnd, add32_of_lt (by omega), itemValue_position hlength _ _ (by omega)]

theorem mem_itemReads {left : Nat} (hi : i ≤ length) :
    k ∈ itemReads length left i ↔ i ≤ k ∧ k < min (i + left) length := by
  induction left generalizing i with
  | zero =>
    rw [itemReads]
    exact iff_of_false List.not_mem_nil (by omega)
  | succ left ih =>
    rw [itemReads]
    split
    · next hlt =>
      rw [List.mem_cons, add32_of_lt (by omega), ih (by omega)]
      omega
    · rw [ih hi]
      omega

theorem mem_describeReads {fuel : Nat} (hi : i < length) (hne : data i ≠ 0xFE) :
    k ∈ describeReads data length (fuel + 1) i ↔
      (i ≤ k ∧ k < min (i + 1 + (data i).toNat % 4) length) ∨
        k ∈ describeReads data length fuel (min (i + 1 + (data i).toNat % 4) length) := by
  rw [describeReads, if_pos hi, if_neg hne, List.mem_cons, List.mem_append, itemEnd_eq hlength hi,
    add32_of_lt (by omega), mem_itemReads hlength (by omega), ← or_assoc]
  exact or_congr_left (by omega)

/-- The walk reads forward, and within the descriptor. -/
theorem describeReads_bounds {fuel : Nat} (hk : k ∈ describeReads data length fuel i) :
    i ≤ k ∧ k < length := by
  induction fuel generalizing i with
  | zero => exact absurd hk List.not_mem_nil
  | succ fuel ih =>
    by_cases hi : i < length
    · by_cases hlong : data i = 0xFE
      · rw [describeReads, if_pos hi, if_pos hlong, List.mem_singleton] at hk
        omega
      · obtain hitem | hrest := (mem_describeReads hlength hi hlong).mp hk
        · omega
        · have := ih hrest
          omega
    · rw [describeReads, if_neg hi] at hk
      exact absurd hk List.not_mem_nil

end Word

theorem LongItemFrom.le (h : LongItemFrom data i p) : i ≤ p := by
  induction h with
  | here => exact le_rfl
  | next _ _ ih => omega

/-- Where a long item is depends on the bytes up to it. -/
theorem LongItemFrom.congr (h : LongItemFrom data i p) (hdata : ∀ k ≤ p, data k = data' k) :
    LongItemFrom data' i p := by
  induction h with
  | here hlong => exact .here ((hdata _ le_rfl).symm.trans hlong)
  | @next i p hne hrest ih =>
    have hi : data i = data' i := hdata i (by have := hrest.le; omega)
    rw [hi] at hne ih
    exact .next hne (ih hdata)

/-- The walk ends at a long item. -/
theorem LongItemFrom.reads_le (h : LongItemFrom data i p) (hlength : length < 4294967296)
    (hp : p < length) {fuel : Nat} (hk : k ∈ describeReads data length fuel i) : k ≤ p := by
  induction h generalizing fuel with
  | here hlong =>
    cases fuel with
    | zero => exact absurd hk List.not_mem_nil
    | succ fuel =>
      rw [describeReads, if_pos hp, if_pos hlong, List.mem_singleton] at hk
      exact hk.le
  | @next i p hne hrest ih =>
    have hle := hrest.le
    cases fuel with
    | zero => exact absurd hk List.not_mem_nil
    | succ fuel =>
      obtain hitem | hlater := (mem_describeReads hlength (by omega) hne).mp hk
      · omega
      · rw [min_eq_left (by omega)] at hlater
        exact ih hp hlater

/-- Without a long item before it, every position within the descriptor is read. -/
theorem exists_mem_describeReads {i : Nat} (hlength : length < 4294967296) (hik : i ≤ k)
    (hk : k < length) (hnone : ∀ p < k, ¬ LongItemFrom data i p) :
    ∃ fuel, k ∈ describeReads data length fuel i := by
  by_cases hlong : data i = 0xFE
  · have hki : k = i := by
      by_contra hne
      exact hnone i (by omega) (.here hlong)
    refine ⟨1, ?_⟩
    rw [describeReads, if_pos (by omega), if_pos hlong, hki]
    exact List.mem_cons_self
  by_cases hitem : k < i + 1 + (data i).toNat % 4
  · exact ⟨1, (mem_describeReads hlength (by omega) hlong).mpr (.inl (by omega))⟩
  · obtain ⟨fuel, hmem⟩ := exists_mem_describeReads hlength (by omega) hk fun p hp hrest =>
      hnone p hp (.next hlong hrest)
    refine ⟨fuel + 1, (mem_describeReads hlength (by omega) hlong).mpr (.inr ?_)⟩
    rwa [min_eq_left (by omega)]
termination_by k - i

/-- The walk stays within the first bytes of a descriptor exactly if those are all of it, or one of
them starts a long item. -/
theorem describeReads_within_iff (hlength : length < 4294967296) {received : Nat} :
    (∀ fuel, ∀ k ∈ describeReads data length fuel 0, k < received) ↔
      length ≤ received ∨ ∃ p < received, LongItemFrom data 0 p := by
  constructor
  · intro hreads
    by_contra hneither
    obtain ⟨hshort, hnone⟩ := not_or.mp hneither
    obtain ⟨fuel, hmem⟩ := exists_mem_describeReads hlength (Nat.zero_le received) (by omega)
      fun p hp hlong => hnone ⟨p, hp, hlong⟩
    exact lt_irrefl _ (hreads fuel received hmem)
  · rintro (hall | ⟨p, hp, hlong⟩) fuel k hk
    · exact (describeReads_bounds hlength hk).2.trans_le hall
    · obtain hinside | houtside := lt_or_ge p length
      · exact (hlong.reads_le hlength hinside hk).trans_lt hp
      · have := (describeReads_bounds hlength hk).2
        omega

end Positions

/-- `UsbDeviceAtAddress`. -/
def usbDeviceAtAddress (t : Tables) (devNumber : Nat) : Option UsbDevice :=
  if devNumber = 0 ∨ maximumDevices < devNumber then
    none
  else if (t.deviceTable (devNumber - 1)).payLoadId = .errorPayload then
    none
  else
    some (t.deviceTable (devNumber - 1))

/-- `GetDeviceNumber`. -/
def getDeviceNumber (device : UsbDevice) : Nat :=
  if device.payLoadId = .errorPayload then 0 else device.number

/-- `GetHidDevice`. -/
def getHidDevice (t : Tables) (device : UsbDevice) : Option HidDevice :=
  if device.payLoadId ≠ .hidPayload then none else device.payload.map t.hidTable

/-- `Descriptor[i].Length`. -/
def reportLength (hidDevice : HidDevice) (i : Nat) : Nat :=
  ((hidDevice.descriptor i).getD 7 0).toNat + 256 * ((hidDevice.descriptor i).getD 8 0).toNat

/-- The read of the length of an entry. -/
def readLength (hidDevice : HidDevice) (i : Nat) : UsbM Nat :=
  if i < maxHIDPerDevice then pure (reportLength hidDevice i) else throw .readOutside

/-- What `HIDReadDescriptor` leaves: its result and the buffer, and the entries of the HID payload
that it has read. -/
structure HidReadReport where
  result : Result
  buffer : Nat → UInt8
  entries : List Nat := []

/-- The read of the report descriptor of an entry. -/
def readEntry (pipe0 : UsbPipe) (hidDevice : HidDevice) (i : Nat) (buffer : Nat → UInt8)
    (length : UInt16) : UsbM HidReadReport := do
  let sizeToRead ← readLength hidDevice i
  let report ← hcdGetDescriptor pipe0 34 0 (UInt16.ofNat (hidDevice.hidInterface i)) buffer
    length.toNat sizeToRead 0x81 false
  if report.result ≠ .ok ∨ report.bytesTransferred ≠ some sizeToRead then
    return { result := .errorDevice, buffer := report.buffer, entries := [i] }
  return { result := .ok, buffer := report.buffer, entries := [i] }

/-- `HIDReadDescriptor`. -/
def hidReadDescriptor (pipe0 : UsbPipe) (t : Tables) (devNumber hidIndex : UInt8)
    (buffer : Nat → UInt8) (length : UInt16) : UsbM HidReadReport := do
  if length = 0 then
    return { result := .errorArgument, buffer }
  if devNumber = 0 ∨ maximumDevices < devNumber.toNat then
    return { result := .errorDeviceNumber, buffer }
  match usbDeviceAtAddress t devNumber.toNat with
  | none => return { result := .errorDeviceNumber, buffer }
  | some device =>
    match getHidDevice t device with
    | none => return { result := .errorNotHID, buffer }
    | some hidDevice =>
      if hidDevice.maxHID < hidIndex.toNat then
        return { result := .errorIndex, buffer }
      readEntry pipe0 hidDevice hidIndex.toNat buffer length

/-- A call of `describe_hid_descriptor`, for an entry of the HID payload. -/
structure HidDescription where
  index : Nat
  data : Nat → UInt8
  length : Nat

/-- The call for the report descriptor in `Buf`. -/
def describeReport (hidDevice : HidDevice) (i : Nat) (buf : Nat → UInt8) : HidDescription where
  index := i
  data k := buf (6 + k)
  length := (reportLength hidDevice i + (2 ^ 64 - 6)) % 2 ^ 64

/-- The size of `Buf`. -/
def bufSize : UInt16 := 1024

/-- The loop of `EnumerateHID` from entry `i` on, with `left` entries left. -/
def enumerateHidFrom (pipe0 : UsbPipe) (t : Tables) (device : UsbDevice) (hidDevice : HidDevice) :
    Nat → Nat → (Nat → UInt8) → UsbM (List HidDescription)
  | 0, _, _ => pure []
  | left + 1, i, buf => do
      let report ← hidReadDescriptor pipe0 t (UInt8.ofNat (getDeviceNumber device)) (UInt8.ofNat i)
        buf bufSize
      let described := if report.result = .ok then [describeReport hidDevice i report.buffer] else []
      let rest ← enumerateHidFrom pipe0 t device hidDevice left (i + 1) report.buffer
      return described ++ rest

/-- `EnumerateHID`. -/
def enumerateHid (pipe0 : UsbPipe) (t : Tables) (device : UsbDevice) (buf : Nat → UInt8) :
    UsbM (List HidDescription) :=
  match getHidDevice t device with
  | none => throw .nullPointer
  | some hidDevice => enumerateHidFrom pipe0 t device hidDevice hidDevice.maxHID 0 buf

/-- The HID payload of the device at an address. -/
def hidDeviceAt (t : Tables) (devNumber : Nat) : Option HidDevice :=
  (usbDeviceAtAddress t devNumber).bind (getHidDevice t)

/-- The reply sends as many bytes as the read asks for. -/
def ControlReply.Sends (reply : ControlReply) (size : Nat) : Prop :=
  reply.result = .ok ∧ reply.transferred = size

instance (reply : ControlReply) (size : Nat) : Decidable (reply.Sends size) :=
  inferInstanceAs (Decidable (_ ∧ _))

/-- The number of bytes that arrive of a report descriptor. -/
def arrived (hidDevice : HidDevice) (i : Nat) (reply : ControlReply) : Nat :=
  (reply.received.take (reportLength hidDevice i)).length

/-- What the read of an entry leaves. -/
def entryReport (hidDevice : HidDevice) (i : Nat) (buffer : Nat → UInt8) (reply : ControlReply) :
    HidReadReport where
  result := if reply.Sends (reportLength hidDevice i) then .ok else .errorDevice
  buffer := overwrite buffer (reply.received.take (reportLength hidDevice i))
  entries := [i]

section Entry

variable {pipe0 : UsbPipe} {hidDevice : HidDevice} {i : Nat} {buffer : Nat → UInt8}
  {length : UInt16} {replies : Stream' ControlReply} {sent : List ControlMessage}

theorem report_failed_iff (reply : ControlReply) (size : Nat) (buffer : Nat → UInt8) :
    ((reply.report size buffer).result ≠ .ok ∨
      (reply.report size buffer).bytesTransferred ≠ some size) ↔ ¬ reply.Sends size := by
  rw [ControlReply.report, ControlReply.Sends]
  by_cases htransfer : size = reply.transferred
  · simp [htransfer]
  · simp [htransfer, Ne.symm htransfer]

theorem yields_readLength (hi : i < maxHIDPerDevice) :
    Yields (readLength hidDevice i) ⟨replies, sent⟩ (reportLength hidDevice i) replies := by
  rw [readLength, if_pos hi]
  exact yields_pure _ _ _

/-- A report descriptor that fits the buffer. -/
theorem yields_readEntry (hi : i < maxHIDPerDevice)
    (hfits : arrived hidDevice i replies.head ≤ length.toNat) :
    Yields (readEntry pipe0 hidDevice i buffer length) ⟨replies, sent⟩
      (entryReport hidDevice i buffer replies.head) replies.tail := by
  refine (yields_readLength hi).bind fun _ => ?_
  refine (yields_hcdGetDescriptor_unchecked hfits).bind fun _ => ?_
  rw [entryReport]
  by_cases hsends : replies.head.Sends (reportLength hidDevice i)
  · rw [if_pos hsends]
    exact Yields.ite_neg ((report_failed_iff _ _ _).not.mpr (not_not.mpr hsends))
      (yields_pure _ _ _)
  · rw [if_neg hsends]
    exact Yields.ite_pos ((report_failed_iff _ _ _).mpr hsends) (yields_pure _ _ _)

/-- A report descriptor that is written beyond the buffer. -/
theorem faults_readEntry (hi : i < maxHIDPerDevice)
    (hfits : ¬ arrived hidDevice i replies.head ≤ length.toNat) :
    Faults (readEntry pipe0 hidDevice i buffer length) ⟨replies, sent⟩ .writeOutside :=
  (yields_readLength hi).bind_faults fun _ => (faults_hcdGetDescriptor_unchecked hfits).bind

/-- An entry that the table of the payload does not have. -/
theorem faults_readEntry_outside (hi : ¬ i < maxHIDPerDevice) :
    Faults (readEntry pipe0 hidDevice i buffer length) ⟨replies, sent⟩ .readOutside := by
  have hread : Faults (readLength hidDevice i) ⟨replies, sent⟩ .readOutside := by
    rw [readLength, if_neg hi]
    exact ⟨_, rfl⟩
  exact hread.bind

end Entry

section Read

variable {pipe0 : UsbPipe} {t : Tables} {devNumber hidIndex : UInt8} {buffer : Nat → UInt8}
  {length : UInt16} {replies : Stream' ControlReply} {sent : List ControlMessage}

theorem hidDeviceAt_eq_some {hidDevice : HidDevice} {n : Nat}
    (h : hidDeviceAt t n = some hidDevice) :
    ∃ device, usbDeviceAtAddress t n = some device ∧ getHidDevice t device = some hidDevice :=
  Option.bind_eq_some_iff.mp h

/-- The address of a device in use. -/
theorem usbDeviceAtAddress_eq_some {device : UsbDevice} {n : Nat}
    (h : usbDeviceAtAddress t n = some device) :
    1 ≤ n ∧ n ≤ maximumDevices ∧ device = t.deviceTable (n - 1) ∧
      device.payLoadId ≠ .errorPayload := by
  rw [usbDeviceAtAddress] at h
  split at h
  · cases h
  next hn =>
    split at h
    · cases h
    next hused =>
      cases h
      exact ⟨by omega, by omega, rfl, hused⟩

/-- A read of an entry that the device has, or seems to have. -/
theorem hidReadDescriptor_eq {hidDevice : HidDevice} (hlength : length ≠ 0)
    (hdevice : hidDeviceAt t devNumber.toNat = some hidDevice)
    (hindex : ¬ hidDevice.maxHID < hidIndex.toNat) :
    hidReadDescriptor pipe0 t devNumber hidIndex buffer length =
      readEntry pipe0 hidDevice hidIndex.toNat buffer length := by
  obtain ⟨device, haddress, hhid⟩ := hidDeviceAt_eq_some hdevice
  obtain ⟨hpos, hle, -, -⟩ := usbDeviceAtAddress_eq_some haddress
  have hnumber : ¬ (devNumber = 0 ∨ maximumDevices < devNumber.toNat) := by
    rintro (rfl | hlarge)
    · exact absurd hpos (by decide)
    · omega
  rw [hidReadDescriptor, if_neg hlength, if_neg hnumber, haddress]
  simp only [hhid]
  rw [if_neg hindex]

/-- A read that is refused. -/
theorem yields_hidReadDescriptor_refused
    (hrefused : length = 0 ∨ ∀ hidDevice, hidDeviceAt t devNumber.toNat = some hidDevice →
      hidDevice.maxHID < hidIndex.toNat) :
    ∃ result, Yields (hidReadDescriptor pipe0 t devNumber hidIndex buffer length) ⟨replies, sent⟩
      { result, buffer } replies := by
  by_cases hlength : length = 0
  · exact ⟨.errorArgument, Yields.ite_pos hlength (yields_pure _ _ _)⟩
  replace hrefused := hrefused.resolve_left hlength
  by_cases hnumber : devNumber = 0 ∨ maximumDevices < devNumber.toNat
  · exact ⟨.errorDeviceNumber,
      Yields.ite_neg hlength (Yields.ite_pos hnumber (yields_pure _ _ _))⟩
  rw [hidReadDescriptor, if_neg hlength, if_neg hnumber]
  cases haddress : usbDeviceAtAddress t devNumber.toNat with
  | none => exact ⟨.errorDeviceNumber, yields_pure _ _ _⟩
  | some device =>
    cases hhid : getHidDevice t device with
    | none =>
      simp only [hhid]
      exact ⟨.errorNotHID, yields_pure _ _ _⟩
    | some hidDevice =>
      have hindex := hrefused hidDevice (Option.bind_eq_some_iff.mpr ⟨device, haddress, hhid⟩)
      simp only [hhid]
      exact ⟨.errorIndex, Yields.ite_pos hindex (yields_pure _ _ _)⟩

end Read

/-- A read writes no more than its buffer has, and reads entries of the device. -/
def ReadRespects (pipe0 : UsbPipe) (t : Tables) (devNumber hidIndex : UInt8)
    (buffer : Nat → UInt8) (length : UInt16) (replies : Stream' ControlReply)
    (sent : List ControlMessage) : Prop :=
  ∃ report rest,
    Yields (hidReadDescriptor pipe0 t devNumber hidIndex buffer length) ⟨replies, sent⟩ report
      rest ∧
    ∀ i ∈ report.entries, ∀ hidDevice, hidDeviceAt t devNumber.toNat = some hidDevice →
      i < hidDevice.maxHID

/-- The read is refused, or it is of an entry of the device whose report descriptor fits. -/
def ReadFits (t : Tables) (devNumber hidIndex : UInt8) (length : UInt16) (reply : ControlReply) :
    Prop :=
  length = 0 ∨ ∀ hidDevice, hidDeviceAt t devNumber.toNat = some hidDevice →
    hidDevice.maxHID < hidIndex.toNat ∨
      hidIndex.toNat < min hidDevice.maxHID maxHIDPerDevice ∧
        arrived hidDevice hidIndex.toNat reply ≤ length.toNat

/-- A read keeps to its buffer and to the entries of the device exactly if it is refused, or fits. -/
theorem readRespects_iff {pipe0 : UsbPipe} {t : Tables} {devNumber hidIndex : UInt8}
    {buffer : Nat → UInt8} {length : UInt16} {replies : Stream' ControlReply}
    {sent : List ControlMessage} :
    ReadRespects pipe0 t devNumber hidIndex buffer length replies sent ↔
      ReadFits t devNumber hidIndex length replies.head := by
  by_cases hrefused : length = 0 ∨ ∀ hidDevice, hidDeviceAt t devNumber.toNat = some hidDevice →
      hidDevice.maxHID < hidIndex.toNat
  · obtain ⟨result, hrun⟩ := @yields_hidReadDescriptor_refused pipe0 t devNumber hidIndex buffer
      length replies sent hrefused
    refine iff_of_true ⟨_, _, hrun, fun i hi => absurd hi List.not_mem_nil⟩ ?_
    exact hrefused.imp_right fun hlarge hidDevice hdevice => .inl (hlarge hidDevice hdevice)
  obtain ⟨hlength, hnone⟩ := not_or.mp hrefused
  obtain ⟨hidDevice, hnone⟩ := not_forall.mp hnone
  obtain ⟨hdevice, hindex⟩ := Classical.not_imp.mp hnone
  have hfits : ReadFits t devNumber hidIndex length replies.head ↔
      hidIndex.toNat < min hidDevice.maxHID maxHIDPerDevice ∧
        arrived hidDevice hidIndex.toNat replies.head ≤ length.toNat := by
    rw [ReadFits, or_iff_right hlength]
    constructor
    · exact fun h => (h hidDevice hdevice).resolve_left hindex
    · intro h other hother
      cases hdevice.symm.trans hother
      exact .inr h
  rw [hfits, ReadRespects, hidReadDescriptor_eq hlength hdevice hindex]
  by_cases hinside : hidIndex.toNat < maxHIDPerDevice
  swap
  · refine iff_of_false ?_ fun h => hinside (lt_min_iff.mp h.1).2
    exact fun ⟨_, _, hrun, _⟩ => (faults_readEntry_outside hinside).not_yields hrun
  by_cases hroom : arrived hidDevice hidIndex.toNat replies.head ≤ length.toNat
  swap
  · refine iff_of_false ?_ fun h => hroom h.2
    exact fun ⟨_, _, hrun, _⟩ => (faults_readEntry hinside hroom).not_yields hrun
  have hread := @yields_readEntry pipe0 hidDevice _ buffer length replies sent hinside hroom
  rw [and_iff_left hroom, lt_min_iff, and_iff_left hinside]
  constructor
  · rintro ⟨report, rest, hrun, hentries⟩
    rw [← hread.eq hrun] at hentries
    exact hentries _ List.mem_cons_self hidDevice hdevice
  · intro hentry
    refine ⟨_, _, hread, fun i hi other hother => ?_⟩
    cases hdevice.symm.trans hother
    rwa [List.mem_singleton.mp hi]

section Enumeration

variable {pipe0 : UsbPipe} {t : Tables} {device : UsbDevice} {hidDevice : HidDevice}
  {replies : Stream' ControlReply} {sent : List ControlMessage}

/-- The bytes behind the first six of a report descriptor that arrives. -/
def describedBytes (reply : ControlReply) (k : Nat) : UInt8 := reply.received.getD (6 + k) 0

/-- A description reads bytes that have arrived for its entry. -/
def HidDescription.Stays (call : HidDescription) (hidDevice : HidDevice)
    (replies : Stream' ControlReply) : Prop :=
  ∀ fuel, ∀ k ∈ describeReads call.data call.length fuel 0,
    6 + k < arrived hidDevice call.index (replies.get call.index)

/-- Every report descriptor of the device fits `Buf`, and every description of one stays within
what has arrived. -/
def EnumerateRespects (pipe0 : UsbPipe) (t : Tables) (device : UsbDevice) (hidDevice : HidDevice)
    (buf : Nat → UInt8) (replies : Stream' ControlReply) (sent : List ControlMessage) : Prop :=
  ∃ calls rest, Yields (enumerateHid pipe0 t device buf) ⟨replies, sent⟩ calls rest ∧
    ∀ call ∈ calls, call.Stays hidDevice replies

/-- The description of an entry stays within what has arrived of it: the descriptor is not shorter
than what `EnumerateHID` leaves out, and it is whole or a long item in it ends its description. -/
def Describable (hidDevice : HidDevice) (i : Nat) (reply : ControlReply) : Prop :=
  6 ≤ reportLength hidDevice i ∧ (reportLength hidDevice i ≤ max 6 (arrived hidDevice i reply) ∨
    ∃ p < arrived hidDevice i reply - 6, LongItemFrom (describedBytes reply) 0 p)

/-- What the enumeration asks of an entry and of the reply of the device. -/
structure EntryFits (hidDevice : HidDevice) (i : Nat) (reply : ControlReply) : Prop where
  inside : i < maxHIDPerDevice
  fits : arrived hidDevice i reply ≤ bufSize.toNat
  describable : reply.Sends (reportLength hidDevice i) → Describable hidDevice i reply

theorem reportLength_lt (hidDevice : HidDevice) (i : Nat) : reportLength hidDevice i < 65536 := by
  have hlow := ((hidDevice.descriptor i).getD 7 0).toNat_lt
  have hhigh := ((hidDevice.descriptor i).getD 8 0).toNat_lt
  rw [reportLength]
  omega

theorem arrived_le (hidDevice : HidDevice) (i : Nat) (reply : ControlReply) :
    arrived hidDevice i reply ≤ reportLength hidDevice i := by
  rw [arrived, List.length_take]
  exact min_le_left _ _

/-- Where bytes have arrived, the buffer has them. -/
theorem overwrite_describedBytes {i k : Nat} (buf : Nat → UInt8) (reply : ControlReply)
    (hk : 6 + k < arrived hidDevice i reply) :
    overwrite buf (reply.received.take (reportLength hidDevice i)) (6 + k) =
      describedBytes reply k := by
  rw [arrived] at hk
  have hreceived : 6 + k < reply.received.length := hk.trans_le (List.length_take_le' _ _)
  rw [overwrite, describedBytes, List.getD_eq_getElem?_getD, List.getD_eq_getElem?_getD,
    List.getElem?_eq_getElem hk, List.getElem?_eq_getElem hreceived, List.getElem_take,
    Option.getD_some, Option.getD_some]

/-- The description of a report descriptor that has been read. -/
theorem stays_describeReport_iff {i : Nat} {reply : ControlReply} {buf : Nat → UInt8} :
    (∀ fuel, ∀ k ∈ describeReads
        (fun k => overwrite buf (reply.received.take (reportLength hidDevice i)) (6 + k))
        ((reportLength hidDevice i + (2 ^ 64 - 6)) % 2 ^ 64) fuel 0,
      6 + k < arrived hidDevice i reply) ↔ Describable hidDevice i reply := by
  have hlt := reportLength_lt hidDevice i
  have harrived := arrived_le hidDevice i reply
  rw [Describable]
  by_cases hshort : 6 ≤ reportLength hidDevice i
  swap
  · refine iff_of_false (fun hstays => ?_) fun h => hshort h.1
    have hfirst := hstays 1 0
    rw [describeReads, if_pos (by omega)] at hfirst
    have hread : 6 + 0 < arrived hidDevice i reply := by
      apply hfirst
      split
      · exact List.mem_cons_self
      · exact List.mem_cons_self
    omega
  have hlength : (reportLength hidDevice i + (2 ^ 64 - 6)) % 2 ^ 64 =
      reportLength hidDevice i - 6 := by omega
  have hwithin := @describeReads_within_iff
    (fun k => overwrite buf (reply.received.take (reportLength hidDevice i)) (6 + k))
    (reportLength hidDevice i - 6) (by omega) (arrived hidDevice i reply - 6)
  rw [and_iff_right hshort, hlength]
  refine Iff.trans ?_ (hwithin.trans (or_congr (by omega) ?_))
  · exact forall_congr' fun _ => forall₂_congr fun k _ => by omega
  · refine exists_congr fun p => and_congr_right fun hp => ?_
    constructor
    · refine fun hlong => hlong.congr fun k hk => ?_
      exact overwrite_describedBytes buf reply (by omega)
    · refine fun hlong => hlong.congr fun k hk => ?_
      exact (overwrite_describedBytes buf reply (by omega)).symm

/-- The reads of `EnumerateHID` are those of the entries of its device. -/
theorem hidReadDescriptor_entry {i : Nat} {buf : Nat → UInt8}
    (haddress : usbDeviceAtAddress t (getDeviceNumber device) = some device)
    (hhid : getHidDevice t device = some hidDevice) (hi : i ≤ maxHIDPerDevice)
    (hmax : i ≤ hidDevice.maxHID) :
    hidReadDescriptor pipe0 t (UInt8.ofNat (getDeviceNumber device)) (UInt8.ofNat i) buf bufSize =
      readEntry pipe0 hidDevice i buf bufSize := by
  obtain ⟨-, hnumber, -, -⟩ := usbDeviceAtAddress_eq_some haddress
  have hbyte : (UInt8.ofNat (getDeviceNumber device)).toNat = getDeviceNumber device :=
    UInt8.toNat_ofNat_of_lt' (hnumber.trans_lt (by decide))
  have hindex : (UInt8.ofNat i).toNat = i := UInt8.toNat_ofNat_of_lt' (hi.trans_lt (by decide))
  have hdevice : hidDeviceAt t (UInt8.ofNat (getDeviceNumber device)).toNat = some hidDevice := by
    rw [hbyte]
    exact Option.bind_eq_some_iff.mpr ⟨device, haddress, hhid⟩
  rw [hidReadDescriptor_eq (by decide) hdevice (by omega), hindex]

/-- The call of an entry, if its read has succeeded. -/
theorem described_stays_iff (i : Nat) (buf : Nat → UInt8) :
    (∀ call ∈ (if (entryReport hidDevice i buf (replies.get i)).result = .ok then
        [describeReport hidDevice i (entryReport hidDevice i buf (replies.get i)).buffer] else []),
      call.Stays hidDevice replies) ↔
      ((replies.get i).Sends (reportLength hidDevice i) →
        Describable hidDevice i (replies.get i)) := by
  by_cases hsends : (replies.get i).Sends (reportLength hidDevice i)
  · rw [forall_prop_of_true hsends, entryReport, if_pos hsends, if_pos rfl, List.forall_mem_singleton]
    exact stays_describeReport_iff
  · rw [entryReport, if_neg hsends, if_neg (by simp)]
    exact iff_of_true (fun call hcall => absurd hcall List.not_mem_nil) fun h => absurd h hsends

/-- The loop from an entry on, by the number of entries left. -/
theorem enumerateHidFrom_respects_iff {left i : Nat} {buf : Nat → UInt8}
    (haddress : usbDeviceAtAddress t (getDeviceNumber device) = some device)
    (hhid : getHidDevice t device = some hidDevice) (hi : i ≤ maxHIDPerDevice)
    (hmax : i + left ≤ hidDevice.maxHID) :
    (∃ calls rest, Yields (enumerateHidFrom pipe0 t device hidDevice left i buf)
        ⟨replies.drop i, sent⟩ calls rest ∧ ∀ call ∈ calls, call.Stays hidDevice replies) ↔
      ∀ j, i ≤ j → j < i + left → EntryFits hidDevice j (replies.get j) := by
  induction left generalizing i buf sent with
  | zero =>
    refine iff_of_true ?_ fun j hij hj => by omega
    exact ⟨[], _, yields_pure _ _ _, fun call hcall => absurd hcall List.not_mem_nil⟩
  | succ left ih =>
    rw [enumerateHidFrom, hidReadDescriptor_entry haddress hhid hi (by omega)]
    by_cases hinside : i < maxHIDPerDevice
    swap
    · refine iff_of_false ?_ fun h => hinside (h i le_rfl (by omega)).inside
      exact fun ⟨_, _, hrun, _⟩ => (faults_readEntry_outside hinside).bind.not_yields hrun
    have hhead : (replies.drop i).head = replies.get i := Stream'.head_drop _ _
    by_cases hfits : arrived hidDevice i (replies.drop i).head ≤ bufSize.toNat
    swap
    · refine iff_of_false ?_ fun h => hfits (hhead ▸ (h i le_rfl (by omega)).fits)
      exact fun ⟨_, _, hrun, _⟩ => (faults_readEntry hinside hfits).bind.not_yields hrun
    have hread := @yields_readEntry pipe0 hidDevice i buf bufSize (replies.drop i) sent hinside hfits
    rw [hhead] at hfits hread
    rw [Stream'.tail_drop'] at hread
    obtain ⟨sent', hstep⟩ := hread.bind_iff
    have hcalls : (∃ calls rest, Yields (enumerateHidFrom pipe0 t device hidDevice left (i + 1)
          (entryReport hidDevice i buf (replies.get i)).buffer) ⟨replies.drop (i + 1), sent'⟩ calls
          rest ∧ ∀ call ∈ calls, call.Stays hidDevice replies) ↔ _ :=
      ih (by omega) (by omega)
    have hsplit : (∀ j, i ≤ j → j < i + (left + 1) → EntryFits hidDevice j (replies.get j)) ↔
        ((replies.get i).Sends (reportLength hidDevice i) →
          Describable hidDevice i (replies.get i)) ∧
        ∀ j, i + 1 ≤ j → j < i + 1 + left → EntryFits hidDevice j (replies.get j) := by
      constructor
      · exact fun h => ⟨(h i le_rfl (by omega)).describable, fun j hij hj =>
          h j (by omega) (by omega)⟩
      · rintro ⟨hentry, hlater⟩ j hij hj
        obtain rfl | hij := hij.eq_or_lt
        · exact ⟨hinside, hfits, hentry⟩
        · exact hlater j hij (by omega)
    rw [hsplit, ← hcalls, ← described_stays_iff i buf]
    simp only [hstep, yields_map_iff]
    constructor
    · rintro ⟨_, rest, ⟨later, hlater, rfl⟩, hstays⟩
      rw [List.forall_mem_append] at hstays
      exact ⟨hstays.1, later, rest, hlater, hstays.2⟩
    · rintro ⟨hentry, later, rest, hlater, hstays⟩
      exact ⟨_, rest, ⟨later, hlater, rfl⟩, List.forall_mem_append.mpr ⟨hentry, hstays⟩⟩

theorem enumerateRespects_iff {buf : Nat → UInt8}
    (haddress : usbDeviceAtAddress t (getDeviceNumber device) = some device)
    (hhid : getHidDevice t device = some hidDevice) :
    EnumerateRespects pipe0 t device hidDevice buf replies sent ↔
      ∀ i < hidDevice.maxHID, EntryFits hidDevice i (replies.get i) := by
  have hloop := @enumerateHidFrom_respects_iff pipe0 t device hidDevice replies sent
    hidDevice.maxHID 0 buf haddress hhid (Nat.zero_le _) (by omega)
  rw [Nat.zero_add] at hloop
  rw [EnumerateRespects, enumerateHid, hhid]
  exact hloop.trans ⟨fun h i => h i (Nat.zero_le i), fun h i _ => h i⟩

end Enumeration

/-- The HID payload of a mouse, with a report descriptor of 52 bytes. -/
def mouseHid : HidDevice where
  descriptor := fun _ => [9, 33, 17, 1, 0, 1, 34, 52, 0]
  maxHID := 1

def mouseDevice : UsbDevice := { number := 1, payLoadId := .hidPayload, payload := some 0 }

def mouseTables : Tables where
  deviceTable := fun n => if n = 0 then mouseDevice else {}
  hidTable := fun _ => mouseHid

/-- A mouse sends its report descriptor. -/
def mouseReply : ControlReply where
  result := .ok
  received := List.replicate 52 0
  transferred := 52

end RPiKernel.Usb
