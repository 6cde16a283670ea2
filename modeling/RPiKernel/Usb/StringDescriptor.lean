import RPiKernel.Usb.Descriptors

/-!
# String descriptors

`HCDReadStringDescriptor` reads the list of languages of a device in two parts, looks for English
in it, reads a string in two parts as well, and narrows its characters into the buffer of the
caller.

## Implementation notes

An access outside of an array stops the model with a fault. What the arrays on the stack hold
that are not set is a parameter. `StringReads` has what the four reads bring, as a function of
the replies.
-/

namespace RPiKernel.Usb

open Machine

/-- The size of `langIds` in bytes. -/
def langIdsSize : Nat := 192

/-- The size of `descBuffer`. -/
def descBufferSize : Nat := 256

/-- A 16-bit number in memory. -/
def wordAt (bytes : Nat → UInt8) (k : Nat) : Nat := (bytes k).toNat + 256 * (bytes (k + 1)).toNat

/-- `langIds[i]`. -/
def langId (langIds : Nat → UInt8) (i : Nat) : Nat := wordAt langIds (2 * i)

/-- `langIds[0] & 0xFF`. -/
def listLength (langIds : Nat → UInt8) : Nat := langId langIds 0 % 256

/-- The number of entries that the list of languages says it has. -/
def lastEntry (langIds : Nat → UInt8) : Nat := listLength langIds / 2

/-- The reading of the list of languages, where it is read. -/
def readLanguages (pipe0 : UsbPipe) : UsbM (Option (Nat → UInt8)) := do
  let first ← hcdGetDescriptor pipe0 3 0 0 (fun _ => 0) langIdsSize 2 0x80 true
  let transfer := first.bytesTransferred.getD 0
  if first.result ≠ .ok ∧ transfer < 2 then
    return none
  if langId first.buffer 0 / 256 ≠ 3 then
    return none
  let second ←
    hcdGetDescriptor pipe0 3 0 0 first.buffer langIdsSize (listLength first.buffer) 0x80 true
  let transfer := second.bytesTransferred.getD transfer
  if second.result ≠ .ok ∧ transfer < listLength second.buffer then
    return none
  return some second.buffer

/-- The search for English from entry `i` on, with at most `left` entries left: where it ends. -/
def searchEnglish (langIds : Nat → UInt8) : Nat → Nat → UsbM Nat
  | 0, i => pure i
  | left + 1, i =>
      if i < lastEntry langIds then
        if 2 * i + 1 < langIdsSize then
          if langId langIds i = 0x409 then pure i else searchEnglish langIds left (i + 1)
        else
          throw .readOutside
      else
        pure i

/-- The reading of a string: the length in its header and the descriptor, or the result. -/
def readString (pipe0 : UsbPipe) (stringIndex : UInt8) (language : UInt16)
    (header descBuffer : Nat → UInt8) : UsbM (Except Result (Nat × (Nat → UInt8))) := do
  let third ← hcdGetDescriptor pipe0 3 stringIndex language header sizeOfHeader sizeOfHeader 0x80 true
  if third.result ≠ .ok ∨ third.bytesTransferred ≠ some sizeOfHeader then
    return .error .errorDevice
  let descriptorLength := (third.buffer 0).toNat
  let fourth ←
    hcdGetDescriptor pipe0 3 stringIndex language descBuffer descBufferSize descriptorLength 0x80 true
  if fourth.result ≠ .ok ∨ fourth.bytesTransferred ≠ some descriptorLength then
    return .error .errorArgument
  return .ok (descriptorLength, fourth.buffer)

/-- `wctob`, as it is stored in a `char`. -/
def wctob (c : Nat) : UInt8 := if c > 255 then 0xFF else UInt8.ofNat c

/-- A character of a descriptor. -/
def characterAt (descBuffer : Nat → UInt8) (i : Nat) : Nat := wordAt descBuffer (2 + 2 * i)

/-- The number of characters of a descriptor. -/
def characterCount (descriptorLength : Nat) : Nat := (descriptorLength - 2) / 2

/-- A store to a buffer with a length. -/
def store (length : Nat) (buffer : Nat → UInt8) (i : Nat) (c : UInt8) : UsbM (Nat → UInt8) :=
  if i < length then pure (Function.update buffer i c) else throw .writeOutside

/-- The loop that narrows the characters from `i` on, with at most `left` of them left. -/
def narrow (descBuffer : Nat → UInt8) (count length : Nat) :
    Nat → Nat → (Nat → UInt8) → UsbM (Nat × (Nat → UInt8))
  | 0, i, buffer => pure (i, buffer)
  | left + 1, i, buffer =>
      if i < count ∧ i < (length + (2 ^ 64 - 1)) % 2 ^ 64 then
        if 2 + 2 * i + 1 < descBufferSize then do
          let buffer ← store length buffer i (wctob (characterAt descBuffer i))
          narrow descBuffer count length left (i + 1) buffer
        else
          throw .readOutside
      else
        pure (i, buffer)

/-- What `HCDReadStringDescriptor` leaves: its result, the buffer and the length. -/
structure StringReport where
  result : Result
  buffer : Nat → UInt8
  length : Nat

/-- The end of `HCDReadStringDescriptor`: the text, and its terminator. -/
def storeString (noEnglishSupport : Bool) (descriptorLength : Nat) (descBuffer buffer : Nat → UInt8)
    (length : Nat) : UsbM StringReport := do
  if noEnglishSupport then
    let buffer ← store length buffer 0 0
    return { result := .ok, buffer, length }
  else
    let (i, buffer) ← narrow descBuffer (characterCount descriptorLength) length
      (characterCount descriptorLength) 0 buffer
    let buffer ← store length buffer i 0
    return { result := .ok, buffer, length := i }

/-- `HCDReadStringDescriptor`. -/
def hcdReadStringDescriptor (pipe0 : UsbPipe) (stringIndex : UInt8)
    (header descBuffer buffer : Nat → UInt8) (length : Nat) : UsbM StringReport := do
  if stringIndex = 0 then
    return { result := .errorArgument, buffer, length }
  match ← readLanguages pipe0 with
  | none => return { result := .errorArgument, buffer, length }
  | some langIds =>
    let i ← searchEnglish langIds (lastEntry langIds) 1
    let noEnglishSupport := i == lastEntry langIds
    let language := if noEnglishSupport then UInt16.ofNat (langId langIds 1) else 0x409
    match ← readString pipe0 stringIndex language header descBuffer with
    | .error result => return { result, buffer, length }
    | .ok (descriptorLength, descBuffer) =>
      storeString noEnglishSupport descriptorLength descBuffer buffer length

/-- What the four reads of a string depend on: what the device replies, and what the arrays that
are not set hold. -/
structure StringReads where
  replies : Stream' ControlReply
  header : Nat → UInt8
  descBuffer : Nat → UInt8

namespace StringReads

variable (r : StringReads)

/-- The read of the header of the list of languages. -/
def first : DescriptorReport := checkedReport 3 2 (fun _ => 0) r.replies

def secondReplies : Stream' ControlReply := afterDescriptor 3 r.replies

/-- The read of the list of languages. -/
def second : DescriptorReport :=
  checkedReport 3 (listLength r.first.buffer) r.first.buffer r.secondReplies

/-- The bytes of the list of languages that arrive. -/
def languageBytes : List UInt8 := arrivedBytes 3 (listLength r.first.buffer) r.secondReplies

/-- `langIds` when English is looked for. -/
def langIds : Nat → UInt8 := r.second.buffer

def thirdReplies : Stream' ControlReply := afterDescriptor 3 r.secondReplies

/-- The read of the header of the string. -/
def third : DescriptorReport := checkedReport 3 sizeOfHeader r.header r.thirdReplies

/-- `Header.DescriptorLength`. -/
def descriptorLength : Nat := (r.third.buffer 0).toNat

def fourthReplies : Stream' ControlReply := afterDescriptor 3 r.thirdReplies

def fifthReplies : Stream' ControlReply := afterDescriptor 3 r.fourthReplies

/-- The read of the string. -/
def fourth : DescriptorReport := checkedReport 3 r.descriptorLength r.descBuffer r.fourthReplies

/-- The device has a list of languages. -/
def HasLanguages : Prop :=
  (r.first.result = .ok ∨ 2 ≤ r.first.bytesTransferred.getD 0) ∧ langId r.first.buffer 0 / 256 = 3

/-- The list of languages is read. -/
def ReadsLanguages : Prop :=
  r.second.result = .ok ∨
    listLength r.langIds ≤ r.second.bytesTransferred.getD (r.first.bytesTransferred.getD 0)

/-- The header of the string and the string are read. -/
def ReadsString : Prop :=
  (r.third.result = .ok ∧ r.third.bytesTransferred = some sizeOfHeader) ∧
    r.fourth.result = .ok ∧ r.fourth.bytesTransferred = some r.descriptorLength

end StringReads

/-- The search for English ends within the list of languages, or the list within `langIds`. -/
def SearchStays (langIds : Nat → UInt8) : Prop :=
  lastEntry langIds ≤ 96 ∨ ∃ i, 1 ≤ i ∧ i < 96 ∧ langId langIds i = 0x409

/-- English is in the list of languages, or the list does not even have its header. -/
def HasEnglish (langIds : Nat → UInt8) : Prop :=
  lastEntry langIds = 0 ∨ ∃ i, 1 ≤ i ∧ i < lastEntry langIds ∧ langId langIds i = 0x409

/-- A buffer with a text of a length. -/
def Terminated (buffer : Nat → UInt8) (capacity length : Nat) : Prop :=
  length < capacity ∧ buffer length = 0 ∧ ∀ j < length, buffer j ≠ 0

section Phases

variable {pipe0 : UsbPipe} {s : ControlState} {langIds descBuffer buffer : Nat → UInt8}

/-- A descriptor whose length bounds it within the buffer. -/
theorem yields_hcdGetDescriptor_of_le {type index recipient : UInt8} {langId : UInt16}
    {capacity length : Nat} {replies : Stream' ControlReply} {sent : List ControlMessage}
    (hfits : length ≤ capacity) :
    Yields (hcdGetDescriptor pipe0 type index langId buffer capacity length recipient true)
      ⟨replies, sent⟩ (checkedReport type length buffer replies) (afterDescriptor type replies) :=
  yields_hcdGetDescriptor ((length_arrivedBytes_le _ _ _).trans hfits)

section Languages

variable {r : StringReads} {sent : List ControlMessage}

theorem yields_first (r : StringReads) (sent : List ControlMessage) :
    Yields (hcdGetDescriptor pipe0 3 0 0 (fun _ => 0) langIdsSize 2 0x80 true) ⟨r.replies, sent⟩
      r.first r.secondReplies :=
  yields_hcdGetDescriptor_of_le (by decide)

theorem yields_second (hfits : r.languageBytes.length ≤ langIdsSize) (sent : List ControlMessage) :
    Yields
      (hcdGetDescriptor pipe0 3 0 0 r.first.buffer langIdsSize (listLength r.first.buffer) 0x80 true)
      ⟨r.secondReplies, sent⟩ r.second r.thirdReplies :=
  yields_hcdGetDescriptor hfits

/-- A device without a list of languages. -/
theorem yields_readLanguages_missing (hlanguages : ¬ r.HasLanguages) :
    Yields (readLanguages pipe0) ⟨r.replies, sent⟩ none r.secondReplies := by
  refine (yields_first r sent).bind fun _ => ?_
  by_cases hresult : r.first.result ≠ .ok ∧ r.first.bytesTransferred.getD 0 < 2
  · exact Yields.ite_pos hresult (yields_pure _ _ _)
  · have hread : r.first.result = .ok ∨ 2 ≤ r.first.bytesTransferred.getD 0 :=
      (not_and_or.mp hresult).imp not_not.mp not_lt.mp
    have htype : langId r.first.buffer 0 / 256 ≠ 3 := fun htype => hlanguages ⟨hread, htype⟩
    exact Yields.ite_neg hresult (Yields.ite_pos htype (yields_pure _ _ _))

/-- The list of languages of a device that has one, from its second read on. -/
theorem HasLanguages.first (hlanguages : r.HasLanguages) :
    ¬ (r.first.result ≠ .ok ∧ r.first.bytesTransferred.getD 0 < 2) ∧
      ¬ langId r.first.buffer 0 / 256 ≠ 3 := by
  obtain ⟨hread, htype⟩ := hlanguages
  refine ⟨fun ⟨hresult, htransfer⟩ => ?_, not_not.mpr htype⟩
  exact hread.elim hresult htransfer.not_ge

/-- A list of languages that is cut off. -/
theorem yields_readLanguages_cut (hlanguages : r.HasLanguages)
    (hfits : r.languageBytes.length ≤ langIdsSize) (hread : ¬ r.ReadsLanguages) :
    Yields (readLanguages pipe0) ⟨r.replies, sent⟩ none r.thirdReplies := by
  obtain ⟨hresult, htype⟩ := HasLanguages.first hlanguages
  refine (yields_first r sent).bind fun _ => Yields.ite_neg hresult (Yields.ite_neg htype ?_)
  refine (yields_second hfits _).bind fun _ => ?_
  have hcut := not_or.mp hread
  exact Yields.ite_pos ⟨hcut.1, not_le.mp hcut.2⟩ (yields_pure _ _ _)

theorem yields_readLanguages (hlanguages : r.HasLanguages)
    (hfits : r.languageBytes.length ≤ langIdsSize) (hread : r.ReadsLanguages) :
    Yields (readLanguages pipe0) ⟨r.replies, sent⟩ (some r.langIds) r.thirdReplies := by
  obtain ⟨hresult, htype⟩ := HasLanguages.first hlanguages
  have hwhole : ¬ (r.second.result ≠ .ok ∧
      r.second.bytesTransferred.getD (r.first.bytesTransferred.getD 0) < listLength r.langIds) :=
    fun ⟨hresult, htransfer⟩ => hread.elim hresult htransfer.not_ge
  refine (yields_first r sent).bind fun _ => Yields.ite_neg hresult (Yields.ite_neg htype ?_)
  exact (yields_second hfits _).bind fun _ => Yields.ite_neg hwhole (yields_pure _ _ _)

/-- A list of languages that does not fit `langIds`. -/
theorem faults_readLanguages (hlanguages : r.HasLanguages)
    (hfits : ¬ r.languageBytes.length ≤ langIdsSize) :
    Faults (readLanguages pipe0) ⟨r.replies, sent⟩ .writeOutside := by
  obtain ⟨hresult, htype⟩ := HasLanguages.first hlanguages
  have hsecond : ∀ sent, Faults (hcdGetDescriptor pipe0 3 0 0 r.first.buffer langIdsSize
      (listLength r.first.buffer) 0x80 true) ⟨r.secondReplies, sent⟩ .writeOutside :=
    fun _ => faults_hcdGetDescriptor hfits
  refine (yields_first r sent).bind_faults fun _ => ?_
  exact Faults.ite_neg hresult (Faults.ite_neg htype (hsecond _).bind)

end Languages

section Search

/-- Where a search for English from entry `i` on ends: at its first entry, or behind the list. -/
def SearchEnds (langIds : Nat → UInt8) (i e : Nat) : Prop :=
  (∀ k, i ≤ k → k < e → langId langIds k ≠ 0x409) ∧
    (i ≤ e ∧ e < lastEntry langIds ∧ langId langIds e = 0x409 ∨ e = max i (lastEntry langIds))

theorem yields_searchEnglish {left i : Nat} (hleft : lastEntry langIds ≤ i + left)
    (hstays : lastEntry langIds ≤ 96 ∨ ∃ k, i ≤ k ∧ k < 96 ∧ langId langIds k = 0x409) :
    ∃ e, (∀ replies sent, Yields (searchEnglish langIds left i) ⟨replies, sent⟩ e replies) ∧
      SearchEnds langIds i e := by
  induction left generalizing i with
  | zero => exact ⟨i, yields_pure i, by omega, .inr (by omega)⟩
  | succ left ih =>
    rw [searchEnglish]
    by_cases hlast : i < lastEntry langIds
    · have hinside : 2 * i + 1 < langIdsSize := by
        have : i < 96 := by
          obtain hlist | ⟨k, hik, hk, _⟩ := hstays <;> omega
        rw [langIdsSize]
        omega
      by_cases henglish : langId langIds i = 0x409
      · refine ⟨i, fun _ _ => ?_, by omega, .inl ⟨le_rfl, hlast, henglish⟩⟩
        refine Yields.ite_pos hlast (Yields.ite_pos hinside ?_)
        exact Yields.ite_pos henglish (yields_pure _ _ _)
      · have hnext : lastEntry langIds ≤ 96 ∨
            ∃ k, i + 1 ≤ k ∧ k < 96 ∧ langId langIds k = 0x409 := by
          refine hstays.imp_right fun ⟨k, hik, hk, hfound⟩ => ⟨k, ?_, hk, hfound⟩
          exact hik.lt_of_ne fun hki => henglish (hki ▸ hfound)
        obtain ⟨e, hrun, hnone, hend⟩ := ih (i := i + 1) (by omega) hnext
        refine ⟨e, fun _ _ => ?_, fun k hik hke => ?_, ?_⟩
        · refine Yields.ite_pos hlast (Yields.ite_pos hinside ?_)
          exact Yields.ite_neg henglish (hrun _ _)
        · obtain rfl | hik := hik.eq_or_lt
          · exact henglish
          · exact hnone k hik hke
        · obtain ⟨hie, hfound⟩ | hend := hend
          · exact .inl ⟨by omega, hfound⟩
          · exact .inr (by omega)
    · exact ⟨i, fun _ _ => Yields.ite_neg hlast (yields_pure _ _ _), by omega, .inr (by omega)⟩

/-- A list of languages that is longer than `langIds`, and in which English is not found before. -/
theorem faults_searchEnglish {left i : Nat} (hleft : lastEntry langIds ≤ i + left) (hi : i ≤ 96)
    (hlong : 96 < lastEntry langIds)
    (hnone : ∀ k, i ≤ k → k < 96 → langId langIds k ≠ 0x409) :
    Faults (searchEnglish langIds left i) s .readOutside := by
  induction left generalizing i with
  | zero => omega
  | succ left ih =>
    rw [searchEnglish, if_pos (by omega : i < lastEntry langIds)]
    obtain rfl | hinside := hi.eq_or_lt
    · exact Faults.ite_neg (by decide) ⟨s, rfl⟩
    · rw [if_pos (by rw [langIdsSize]; omega), if_neg (hnone i le_rfl hinside)]
      exact ih (by omega) hinside fun k hik => hnone k (by omega)

/-- The search ends behind the list exactly if English is not in it. -/
theorem SearchEnds.eq_lastEntry_iff {e : Nat} (hend : SearchEnds langIds 1 e) :
    e = lastEntry langIds ↔ ¬ HasEnglish langIds := by
  obtain ⟨hnone, ⟨hie, hlast, hfound⟩ | hend⟩ := hend
  · exact iff_of_false hlast.ne fun henglish => henglish (.inr ⟨e, hie, hlast, hfound⟩)
  · constructor
    · rintro he (hempty | ⟨k, hk, hlast, hfound⟩)
      · omega
      · exact hnone k hk (by omega) hfound
    · intro henglish
      have : lastEntry langIds ≠ 0 := fun hempty => henglish (.inl hempty)
      omega

end Search

section String

/-- A string is read into buffers that hold what a length byte can ask for. -/
theorem yields_readString (pipe0 : UsbPipe) (stringIndex : UInt8) (language : UInt16)
    (r : StringReads) :
    ∃ outcome rest,
      (∀ sent, Yields (readString pipe0 stringIndex language r.header r.descBuffer)
        ⟨r.thirdReplies, sent⟩ outcome rest) ∧
      ((¬ r.ReadsString ∧ ∃ result, result ≠ .ok ∧ outcome = .error result) ∨
        r.ReadsString ∧ outcome = .ok (r.descriptorLength, r.fourth.buffer)) := by
  have hlength : r.descriptorLength ≤ descBufferSize := by
    have := (r.third.buffer 0).toNat_lt
    rw [StringReads.descriptorLength, descBufferSize]
    omega
  have hheader : ∀ sent, Yields (hcdGetDescriptor pipe0 3 stringIndex language r.header
      sizeOfHeader sizeOfHeader 0x80 true) ⟨r.thirdReplies, sent⟩ r.third r.fourthReplies :=
    fun _ => yields_hcdGetDescriptor_of_le le_rfl
  have hstring : ∀ sent, Yields (hcdGetDescriptor pipe0 3 stringIndex language r.descBuffer
      descBufferSize r.descriptorLength 0x80 true) ⟨r.fourthReplies, sent⟩ r.fourth
      r.fifthReplies := fun _ => yields_hcdGetDescriptor_of_le hlength
  by_cases hthird : r.third.result ≠ .ok ∨ r.third.bytesTransferred ≠ some sizeOfHeader
  · refine ⟨.error .errorDevice, r.fourthReplies, fun sent => ?_,
      .inl ⟨?_, .errorDevice, by decide, rfl⟩⟩
    · exact (hheader sent).bind fun _ => Yields.ite_pos hthird (yields_pure _ _ _)
    · rintro ⟨⟨hresult, htransfer⟩, _⟩
      exact hthird.elim (absurd hresult) (absurd htransfer)
  by_cases hfourth : r.fourth.result ≠ .ok ∨ r.fourth.bytesTransferred ≠ some r.descriptorLength
  · refine ⟨.error .errorArgument, r.fifthReplies, fun sent => ?_,
      .inl ⟨?_, .errorArgument, by decide, rfl⟩⟩
    · refine (hheader sent).bind fun _ => Yields.ite_neg hthird ?_
      exact (hstring _).bind fun _ => Yields.ite_pos hfourth (yields_pure _ _ _)
    · rintro ⟨_, hresult, htransfer⟩
      exact hfourth.elim (absurd hresult) (absurd htransfer)
  refine ⟨.ok (r.descriptorLength, r.fourth.buffer), r.fifthReplies, fun sent => ?_,
    .inr ⟨⟨?_, ?_⟩, rfl⟩⟩
  · refine (hheader sent).bind fun _ => Yields.ite_neg hthird ?_
    exact (hstring _).bind fun _ => Yields.ite_neg hfourth (yields_pure _ _ _)
  · simpa using hthird
  · simpa using hfourth

end String

section Text

variable {count length descriptorLength : Nat}

theorem yields_store {i : Nat} {c : UInt8} (hi : i < length) (replies : Stream' ControlReply)
    (sent : List ControlMessage) :
    Yields (store length buffer i c) ⟨replies, sent⟩ (Function.update buffer i c) replies := by
  rw [store, if_pos hi]
  exact yields_pure _ _ _

/-- What the loop leaves in the buffer: the characters from `i` on that it has narrowed. -/
def narrowed (descBuffer buffer : Nat → UInt8) (i stop j : Nat) : UInt8 :=
  if i ≤ j ∧ j < stop then wctob (characterAt descBuffer j) else buffer j

theorem narrowed_self (i : Nat) : narrowed descBuffer buffer i i = buffer := by
  funext j
  exact if_neg (by omega)

/-- One character more. -/
theorem narrowed_update {i stop : Nat} (hi : i < stop) :
    narrowed descBuffer (Function.update buffer i (wctob (characterAt descBuffer i))) (i + 1) stop =
      narrowed descBuffer buffer i stop := by
  funext j
  rw [narrowed, narrowed]
  obtain rfl | hj := eq_or_ne j i
  · rw [if_neg (by omega), if_pos ⟨le_rfl, hi⟩, Function.update_self]
  · rw [Function.update_of_ne hj]
    exact if_congr (by omega) rfl rfl

/-- The loop narrows the characters of the descriptor that leave room for a terminator. -/
theorem yields_narrow {left i : Nat} {replies : Stream' ControlReply} {sent : List ControlMessage}
    (hcount : count ≤ 127) (hlength : 1 ≤ length) (hword : length < 2 ^ 64)
    (hi : i ≤ min count (length - 1)) (hleft : count ≤ i + left) :
    Yields (narrow descBuffer count length left i buffer) ⟨replies, sent⟩
      (min count (length - 1), narrowed descBuffer buffer i (min count (length - 1))) replies := by
  have hroom : (length + (2 ^ 64 - 1)) % 2 ^ 64 = length - 1 := by omega
  induction left generalizing i buffer sent with
  | zero =>
    obtain rfl : i = min count (length - 1) := by omega
    rw [narrowed_self]
    exact yields_pure _ _ _
  | succ left ih =>
    rw [narrow, hroom]
    by_cases hmore : i < count ∧ i < length - 1
    · have hinside : 2 + 2 * i + 1 < descBufferSize := by
        rw [descBufferSize]
        omega
      have hstop : i < min count (length - 1) := by omega
      refine Yields.ite_pos hmore (Yields.ite_pos hinside ?_)
      refine (yields_store (by omega) replies sent).bind fun _ => ?_
      rw [← narrowed_update hstop]
      exact ih hstop (by omega)
    · obtain rfl : i = min count (length - 1) := by omega
      rw [narrowed_self]
      exact Yields.ite_neg hmore (yields_pure _ _ _)

/-- A character is narrowed to a terminator only if it is one. -/
theorem wctob_eq_zero_iff (c : Nat) : wctob c = 0 ↔ c = 0 := by
  rw [wctob]
  split
  · exact iff_of_false (by decide) (by omega)
  · rw [← UInt8.toNat_inj, UInt8.toNat_ofNat']
    have : c % 2 ^ 8 = c := Nat.mod_eq_of_lt (by omega)
    rw [this]
    rfl

/-- The buffer of a text that is stored whole: its terminator ends it if no character does. -/
theorem terminated_narrowed_iff {stop : Nat} (hstop : stop < length) :
    Terminated (Function.update (narrowed descBuffer buffer 0 stop) stop 0) length stop ↔
      ∀ i < stop, characterAt descBuffer i ≠ 0 := by
  have hkept : ∀ j < stop, Function.update (narrowed descBuffer buffer 0 stop) stop 0 j =
      wctob (characterAt descBuffer j) := by
    intro j hj
    rw [Function.update_of_ne hj.ne, narrowed, if_pos ⟨Nat.zero_le j, hj⟩]
  constructor
  · rintro ⟨_, _, hbytes⟩ j hj hzero
    exact hbytes j hj ((hkept j hj).trans ((wctob_eq_zero_iff _).mpr hzero))
  · intro hcharacters
    refine ⟨hstop, Function.update_self .., fun j hj hzero => ?_⟩
    exact hcharacters j hj ((wctob_eq_zero_iff _).mp ((hkept j hj).symm.trans hzero))

/-- The end of a read in English. -/
theorem yields_storeString {replies : Stream' ControlReply} {sent : List ControlMessage}
    (hlength : 1 ≤ length) (hword : length < 2 ^ 64) (hbyte : descriptorLength < 256) :
    Yields (storeString false descriptorLength descBuffer buffer length) ⟨replies, sent⟩
      { result := .ok
        buffer := Function.update
          (narrowed descBuffer buffer 0 (min (characterCount descriptorLength) (length - 1)))
          (min (characterCount descriptorLength) (length - 1)) 0
        length := min (characterCount descriptorLength) (length - 1) }
      replies := by
  have hcount : characterCount descriptorLength ≤ 127 := by
    rw [characterCount]
    omega
  have hnarrow := @yields_narrow descBuffer buffer _ length (characterCount descriptorLength) 0
    replies sent hcount hlength hword (Nat.zero_le _) (by omega)
  refine hnarrow.bind fun sent => ?_
  exact (yields_store (by omega) replies sent).bind fun _ => yields_pure _ _ _

/-- The end of a read without English. -/
theorem yields_storeString_empty {replies : Stream' ControlReply} {sent : List ControlMessage}
    (hlength : 1 ≤ length) :
    Yields (storeString true descriptorLength descBuffer buffer length) ⟨replies, sent⟩
      { result := .ok, buffer := Function.update buffer 0 0, length } replies :=
  (yields_store hlength replies sent).bind fun _ => yields_pure _ _ _

end Text

end Phases

section Whole

variable {pipe0 : UsbPipe} {stringIndex : UInt8} {r : StringReads} {buffer : Nat → UInt8}
  {length : Nat} {sent : List ControlMessage}

/-- A read of a string stays within its arrays, and what it succeeds with is a text of the length
that it returns. -/
def ReadsWithin (pipe0 : UsbPipe) (stringIndex : UInt8) (r : StringReads) (buffer : Nat → UInt8)
    (length : Nat) (sent : List ControlMessage) : Prop :=
  ∃ report rest,
    Yields (hcdReadStringDescriptor pipe0 stringIndex r.header r.descBuffer buffer length)
      ⟨r.replies, sent⟩ report rest ∧
    (report.result = .ok → Terminated report.buffer length report.length)

/-- The list of languages of the device, if there is one, fits `langIds`; the search of a list that
is read ends within it; and a string that is read is in English and has no terminator among the
characters that the buffer has room for. -/
def StringReads.Fits (r : StringReads) (length : Nat) : Prop :=
  r.HasLanguages → r.languageBytes.length ≤ langIdsSize ∧
    (r.ReadsLanguages → SearchStays r.langIds ∧
      (r.ReadsString → HasEnglish r.langIds ∧
        ∀ i < min (characterCount r.descriptorLength) (length - 1),
          characterAt r.fourth.buffer i ≠ 0))

/-- What a read within its arrays ends with decides. -/
theorem Yields.readsWithin_iff {report : StringReport} {rest : Stream' ControlReply}
    (hrun : Yields (hcdReadStringDescriptor pipe0 stringIndex r.header r.descBuffer buffer length)
      ⟨r.replies, sent⟩ report rest) :
    ReadsWithin pipe0 stringIndex r buffer length sent ↔
      (report.result = .ok → Terminated report.buffer length report.length) := by
  constructor
  · rintro ⟨report', rest', hrun', hwithin⟩
    rwa [hrun.eq hrun']
  · exact fun hwithin => ⟨report, rest, hrun, hwithin⟩

theorem Yields.readsWithin_of_ne {report : StringReport} {rest : Stream' ControlReply}
    (hrun : Yields (hcdReadStringDescriptor pipe0 stringIndex r.header r.descBuffer buffer length)
      ⟨r.replies, sent⟩ report rest) (hresult : report.result ≠ .ok) :
    ReadsWithin pipe0 stringIndex r buffer length sent :=
  hrun.readsWithin_iff.mpr fun hok => absurd hok hresult

theorem Faults.not_readsWithin {fault : Fault}
    (hrun : Faults (hcdReadStringDescriptor pipe0 stringIndex r.header r.descBuffer buffer length)
      ⟨r.replies, sent⟩ fault) :
    ¬ ReadsWithin pipe0 stringIndex r buffer length sent :=
  fun ⟨_, _, hyields, _⟩ => hrun.not_yields hyields

/-- A search that leaves `langIds`. -/
theorem faults_search {langIds : Nat → UInt8} {s : ControlState} (hstays : ¬ SearchStays langIds) :
    Faults (searchEnglish langIds (lastEntry langIds) 1) s .readOutside := by
  obtain ⟨hlong, hnone⟩ := not_or.mp hstays
  refine faults_searchEnglish (by omega) (by omega) (by omega) fun k hk hinside hfound => ?_
  exact hnone ⟨k, hk, hinside, hfound⟩

/-- The string is read where the list of languages has been searched. -/
theorem readsWithin_searched_iff (hindex : stringIndex ≠ 0) (hlength : 1 ≤ length)
    (hword : length < 2 ^ 64)
    (hlanguages : ∀ sent, Yields (readLanguages pipe0) ⟨r.replies, sent⟩ (some r.langIds)
      r.thirdReplies) (hstays : SearchStays r.langIds) :
    ReadsWithin pipe0 stringIndex r buffer length sent ↔
      (r.ReadsString → HasEnglish r.langIds ∧
        ∀ i < min (characterCount r.descriptorLength) (length - 1),
          characterAt r.fourth.buffer i ≠ 0) := by
  obtain ⟨e, hsearch, hends⟩ := yields_searchEnglish (i := 1) (Nat.le_add_left _ 1) hstays
  obtain ⟨outcome, rest, hread, houtcome⟩ := yields_readString pipe0 stringIndex
    (if e == lastEntry r.langIds then UInt16.ofNat (langId r.langIds 1) else 0x409) r
  obtain ⟨hstring, result, hresult, rfl⟩ | ⟨hstring, rfl⟩ := houtcome
  · have hrun : Yields (hcdReadStringDescriptor pipe0 stringIndex r.header r.descBuffer buffer
        length) ⟨r.replies, sent⟩ { result, buffer, length } rest := by
      refine Yields.ite_neg hindex ((hlanguages sent).bind fun _ => ?_)
      exact (hsearch _ _).bind fun _ => (hread _).bind fun _ => yields_pure _ _ _
    exact iff_of_true (hrun.readsWithin_of_ne hresult) fun h => absurd h hstring
  have hbegin : ∀ {report rest'},
      (∀ sent, Yields (storeString (e == lastEntry r.langIds) r.descriptorLength r.fourth.buffer
        buffer length) ⟨rest, sent⟩ report rest') →
      Yields (hcdReadStringDescriptor pipe0 stringIndex r.header r.descBuffer buffer length)
        ⟨r.replies, sent⟩ report rest' := by
    intro report rest' hstore
    refine Yields.ite_neg hindex ((hlanguages sent).bind fun _ => ?_)
    exact (hsearch _ _).bind fun _ => (hread _).bind fun _ => hstore _
  rw [forall_prop_of_true hstring]
  by_cases henglish : HasEnglish r.langIds
  · have hflag : (e == lastEntry r.langIds) = false := by
      simpa using hends.eq_lastEntry_iff.not.mpr (not_not.mpr henglish)
    rw [hflag] at hbegin
    have hrun := hbegin fun sent => yields_storeString hlength hword (r.third.buffer 0).toNat_lt
    rw [hrun.readsWithin_iff, forall_prop_of_true rfl, and_iff_right henglish]
    exact terminated_narrowed_iff (by omega)
  · have hflag : (e == lastEntry r.langIds) = true := by
      simpa using hends.eq_lastEntry_iff.mpr henglish
    rw [hflag] at hbegin
    have hrun := hbegin fun sent => yields_storeString_empty hlength
    rw [hrun.readsWithin_iff, forall_prop_of_true rfl]
    exact iff_of_false (fun h => lt_irrefl _ h.1) fun h => henglish h.1

/-- A device whose first string is `Hi`, in English. -/
def englishDevice : StringReads where
  replies := fun k =>
    let received := [[4, 3], [4, 3], [4, 3], [4, 3, 9, 4], [6, 3], [6, 3], [6, 3],
      [6, 3, 72, 0, 105, 0]].getD k []
    { result := .ok, received, transferred := received.length }
  header := fun _ => 0
  descBuffer := fun _ => 0

/-- A device that says its list of languages has 255 bytes, and sends them. -/
def longLanguages : StringReads where
  replies := fun k =>
    let received := if k = 3 then 255 :: List.replicate 254 3 else [255, 3]
    { result := .ok, received, transferred := received.length }
  header := fun _ => 0
  descBuffer := fun _ => 0

end Whole

end RPiKernel.Usb
