import Mathlib.Algebra.Order.Group.Nat
import RPiKernel.Usb.TransferTally

/-!
# What an IN transfer delivers

The bytes of the packets that a launch has counted off stand at the start of the DMA buffer.
`TransferIn` copies them if some transmission has reported success by the end of the launch,
and takes every packet for `packetSizeInBytes` bytes. A transfer delivers what the device sends
exactly when that is right for every launch that makes progress.
-/

namespace RPiKernel.Usb

open Machine Transition

/-- A launch that counts off packets ends with success reported, and its packets have the size
that they are taken for or are all packets of the transfer. -/
def Credits (t : Transfer) (r : Response) : Prop :=
  ∀ sendCtrl, judge t.isLowSpeed t.sendCtrl r.interrupts (t.point = .launched) = .account sendCtrl →
    r.packetCount < t.currentPacketCount →
    sendCtrl.success = true ∧
      (t.packetSizeInBytes = t.maxPacketSizeInBytes ∨
        (t.currentPacketCount = t.packetCount ∧ r.packetCount = 0))

/-- The bytes of the device that a number of packets leaves to be sent before them. -/
def Transfer.sentBefore (t : Transfer) (packetsLeft : Nat) : Nat :=
  min ((t.packetCount - packetsLeft) * t.maxPacketSizeInBytes) t.transferSizeInBytes

/-- The dimensions of an IN transfer that the registers and the DMA buffer can hold. -/
structure FitsChannel (t : Transfer) : Prop where
  direction_eq : t.direction = .directionIn
  size_pos : 0 < t.transferSizeInBytes
  size_le : t.transferSizeInBytes ≤ dmaBufferSize
  max_pos : 0 < t.maxPacketSizeInBytes
  count_pos : 0 < t.packetCount
  count_lt : t.packetCount < maxPacketCount
  packetSize_lt : t.packetSizeInBytes < 2 ^ 16
  lt_size : (t.packetCount - 1) * t.maxPacketSizeInBytes < t.transferSizeInBytes
  size_le_count : t.transferSizeInBytes ≤ t.packetCount * t.maxPacketSizeInBytes

/-- The buffer of the caller holds the bytes that the device has sent. -/
def Transfer.Delivered (m : ChannelMemory) (t : Transfer) : Prop :=
  ∀ i < t.transferSizeInBytes, t.memory.buffer i = m.payload i

/-- The counters of an IN transfer that waits, and the bytes received since the launch, which
stand at the start of the DMA buffer. -/
structure Counts (t : Transfer) : Prop extends FitsChannel t where
  current_pos : 0 < t.currentPacketCount
  left_le : t.packetsLeft ≤ t.currentPacketCount
  current_le : t.currentPacketCount ≤ t.packetCount
  received_eq : t.received = t.sentBefore t.packetsLeft
  dmaAddr_eq : t.sentBefore t.currentPacketCount + t.dmaAddr = t.received
  buffered : ∀ i < t.dmaAddr,
    t.memory.dmaBuffer i = t.memory.payload (t.sentBefore t.currentPacketCount + i)

/-- An IN transfer that waits, with every launch credited so far: the buffer of the caller holds
what has been received before the launch. Beyond what has been received and copied the memory
is what it was. -/
structure InProgress (m : ChannelMemory) (t : Transfer) : Prop extends Counts t where
  offset_eq : t.offset = t.sentBefore t.currentPacketCount
  buffer_eq : ∀ i < t.offset, t.memory.buffer i = t.memory.payload i
  payload_eq : t.memory.payload = m.payload
  dma_rest : ∀ i, t.received ≤ i → t.memory.dmaBuffer i = m.dmaBuffer i
  buffer_rest : ∀ i, t.offset ≤ i → i < 2 ^ 32 → t.memory.buffer i = m.buffer i
  /-- After progress, success has been reported and the sizes agree. -/
  started : t.currentPacketCount < t.packetCount →
    t.sendCtrl.success = true ∧ t.packetSizeInBytes = t.maxPacketSizeInBytes

section Arithmetic

variable {t : Transfer}

/-- While packets are left, those before have their full size. -/
theorem FitsChannel.sentBefore_eq (h : FitsChannel t) {left : Nat} (hpos : 0 < left) :
    t.sentBefore left = (t.packetCount - left) * t.maxPacketSizeInBytes := by
  have hle : (t.packetCount - left) * t.maxPacketSizeInBytes ≤
      (t.packetCount - 1) * t.maxPacketSizeInBytes :=
    Nat.mul_le_mul_right _ (by omega)
  exact Nat.min_eq_left (hle.trans h.lt_size.le)

theorem FitsChannel.sentBefore_zero (h : FitsChannel t) :
    t.sentBefore 0 = t.transferSizeInBytes :=
  Nat.min_eq_right h.size_le_count

theorem FitsChannel.sentBefore_count (h : FitsChannel t) : t.sentBefore t.packetCount = 0 := by
  rw [h.sentBefore_eq h.count_pos, Nat.sub_self, Nat.zero_mul]

theorem sentBefore_le (t : Transfer) (left : Nat) : t.sentBefore left ≤ t.transferSizeInBytes :=
  Nat.min_le_right _ _

/-- What the packets between two counts add. -/
theorem FitsChannel.sentBefore_step (h : FitsChannel t) {left left' : Nat} (hle : left' ≤ left)
    (hcount : left ≤ t.packetCount) :
    min (t.sentBefore left + (left - left') * t.maxPacketSizeInBytes) t.transferSizeInBytes =
      t.sentBefore left' := by
  rcases hle.eq_or_lt with rfl | hlt
  · rw [Nat.sub_self, Nat.zero_mul, Nat.add_zero]
    exact Nat.min_eq_left (sentBefore_le t _)
  · have hsum : t.packetCount - left + (left - left') = t.packetCount - left' := by omega
    rw [h.sentBefore_eq (by omega), ← Nat.add_mul, hsum, Transfer.sentBefore]

theorem sentBefore_mono (t : Transfer) {left left' : Nat} (hle : left' ≤ left) :
    t.sentBefore left ≤ t.sentBefore left' := by
  have hmul : (t.packetCount - left) * t.maxPacketSizeInBytes ≤
      (t.packetCount - left') * t.maxPacketSizeInBytes :=
    Nat.mul_le_mul_right _ (by omega)
  exact min_le_min_right _ hmul

end Arithmetic

section Copy

/-- Where the copy loop writes, and what. -/
theorem copyOut_apply (dmaBuffer buffer : Nat → UInt8) (offset : Nat) {n j : Nat}
    (hn : n ≤ 2 ^ 32) (hj : j < 2 ^ 32) (hoffset : offset < 2 ^ 32) :
    copyOut dmaBuffer offset n buffer j =
      if sub32 j offset < n then dmaBuffer (sub32 j offset) else buffer j := by
  induction n with
  | zero =>
    rw [copyOut, if_neg (Nat.not_lt_zero _)]
  | succ n ih =>
    have hindex : add32 offset n = j ↔ n = sub32 j offset := by
      rw [add32, sub32]
      omega
    rw [copyOut]
    rcases eq_or_ne j (add32 offset n) with heq | hne
    · have hn' : n = sub32 j offset := hindex.mp heq.symm
      rw [← heq, Function.update_self, ← hn', if_pos (Nat.lt_succ_self n)]
    · have hn' : n ≠ sub32 j offset := fun h => hne (hindex.mpr h).symm
      rw [Function.update_of_ne hne, ih (by omega)]
      split
      · next hlt => rw [if_pos (Nat.lt_succ_of_lt hlt)]
      · next hge => rw [if_neg (by omega)]

/-- A copy that does not wrap. -/
theorem copyOut_of_le (dmaBuffer buffer : Nat → UInt8) {offset n j : Nat}
    (hn : offset + n ≤ 2 ^ 32) (hj : j < 2 ^ 32) :
    copyOut dmaBuffer offset n buffer j =
      if offset ≤ j ∧ j < offset + n then dmaBuffer (j - offset) else buffer j := by
  rcases Nat.eq_zero_or_pos n with rfl | hpos
  · rw [copyOut, if_neg (by omega)]
  · rw [copyOut_apply dmaBuffer buffer offset (by omega) hj (by omega)]
    rcases Nat.lt_or_ge j offset with hlt | hge
    · rw [if_neg (by rw [sub32]; omega), if_neg (by omega)]
    · have hsub : sub32 j offset = j - offset := sub32_of_le hge hj
      rw [hsub]
      rcases Nat.lt_or_ge j (offset + n) with hlt | hge'
      · rw [if_pos (by omega), if_pos ⟨hge, hlt⟩]
      · rw [if_neg (by omega), if_neg (by omega)]

end Copy

section Transmit

variable {t : Transfer} {n : Nat}

theorem Counts.left_lt (h : Counts t) (hn : n ≤ t.packetsLeft) : n % maxPacketCount = n := by
  have hcount := h.count_lt
  have hleft := h.left_le
  have hcurrent := h.current_le
  exact Nat.mod_eq_of_lt (by omega)

theorem Counts.received_le (h : Counts t) (hn : n ≤ t.packetsLeft) :
    t.received ≤ t.sentBefore n := by
  rw [h.received_eq]
  exact sentBefore_mono t hn

/-- What a transmission that counts off packets makes of the counters. -/
theorem Counts.transmit_eq (h : Counts t) (hn : n ≤ t.packetsLeft) :
    t.transmit n = { t with
      packetsLeft := n
      exchanged := t.exchanged + (t.packetsLeft - n)
      dmaAddr := t.sentBefore n - t.sentBefore t.currentPacketCount
      received := t.sentBefore n
      memory := t.memory.receive t.dmaAddr t.received (t.sentBefore n - t.received) } := by
  have hleft := h.left_le
  have hcurrent := h.current_le
  have hstep : min (t.received + (t.packetsLeft - n) * t.maxPacketSizeInBytes)
      t.transferSizeInBytes = t.sentBefore n := by
    rw [h.received_eq]
    exact h.sentBefore_step hn (by omega)
  have hmono := h.received_le hn
  have hdma := h.dmaAddr_eq
  rw [Transfer.transmit, h.left_lt hn, h.direction_eq]
  simp only [hstep]
  congr 1
  · omega
  · omega

theorem Counts.transmit (h : Counts t) (hn : n ≤ t.packetsLeft) : Counts (t.transmit n) := by
  have hleft := h.left_le
  have hmono : t.sentBefore t.currentPacketCount ≤ t.sentBefore n :=
    sentBefore_mono t (by omega)
  have hdma := h.dmaAddr_eq
  rw [h.transmit_eq hn]
  exact
    { toFitsChannel := ⟨h.direction_eq, h.size_pos, h.size_le, h.max_pos, h.count_pos, h.count_lt,
        h.packetSize_lt, h.lt_size, h.size_le_count⟩
      current_pos := h.current_pos
      left_le := by
        dsimp only
        omega
      current_le := h.current_le
      received_eq := rfl
      dmaAddr_eq := Nat.add_sub_of_le hmono
      buffered := by
        intro i hi
        change i < t.sentBefore n - t.sentBefore t.currentPacketCount at hi
        change (if t.dmaAddr ≤ i ∧ i < t.dmaAddr + (t.sentBefore n - t.received) then
          t.memory.payload (t.received + (i - t.dmaAddr)) else t.memory.dmaBuffer i) =
          t.memory.payload (t.sentBefore t.currentPacketCount + i)
        rcases Nat.lt_or_ge i t.dmaAddr with hlt | hge
        · rw [if_neg (by omega), h.buffered i hlt]
        · rw [if_pos ⟨hge, by omega⟩]
          congr 1
          omega }

/-- A transmission writes nothing behind the bytes that have been received. -/
theorem Counts.dmaBuffer_transmit (h : Counts t) (hn : n ≤ t.packetsLeft) {i : Nat}
    (hi : t.sentBefore n ≤ i) : (t.transmit n).memory.dmaBuffer i = t.memory.dmaBuffer i := by
  have hdma := h.dmaAddr_eq
  have hmono := h.received_le hn
  rw [h.transmit_eq hn]
  exact if_neg (by omega)

theorem InProgress.transmit {m : ChannelMemory} (h : InProgress m t) (hn : n ≤ t.packetsLeft) :
    InProgress m (t.transmit n) := by
  have hcounts : Counts (t.transmit n) := h.toCounts.transmit hn
  have hmono := h.received_le hn
  have hrest : ∀ i, t.sentBefore n ≤ i → (t.transmit n).memory.dmaBuffer i = m.dmaBuffer i :=
    fun i hi => (h.dmaBuffer_transmit hn hi).trans (h.dma_rest i (hmono.trans hi))
  rw [h.transmit_eq hn] at hcounts hrest ⊢
  exact
    { toCounts := hcounts
      offset_eq := h.offset_eq
      buffer_eq := h.buffer_eq
      payload_eq := h.payload_eq
      dma_rest := hrest
      buffer_rest := h.buffer_rest
      started := h.started }

end Transmit

section Account

variable {t : Transfer} {m : ChannelMemory}

/-- The end of a launch, for an IN transfer: what it makes of the offset and of the buffer. -/
theorem account_eq (hdirection : t.direction = .directionIn) :
    ∃ offset buffer, t.account = Transfer.launch { t with
        offset
        memory := { t.memory with buffer }
        currentPacketCount := t.packetsLeft } ∧
      (t.sendCtrl.success = true → offset = add32 t.offset t.transferred ∧
        buffer = copyOut t.memory.dmaBuffer t.offset t.transferred t.memory.buffer) ∧
      (t.sendCtrl.success = false → offset = t.offset ∧ buffer = t.memory.buffer) := by
  cases hsuccess : t.sendCtrl.success with
  | true =>
    refine ⟨_, _, ?_, fun _ => ⟨rfl, rfl⟩, fun h => (by cases h)⟩
    rw [Transfer.account, if_pos hsuccess]
    dsimp only
    rw [hdirection]
  | false =>
    refine ⟨_, _, ?_, fun h => (by cases h), fun _ => ⟨rfl, rfl⟩⟩
    rw [Transfer.account, if_neg (by rw [hsuccess]; exact Bool.false_ne_true)]

/-- The next launch. -/
theorem launch_of_pos (hdirection : t.direction = .directionIn) (hpos : 0 < t.currentPacketCount) :
    t.launch = { t with point := .launched, dmaAddr := 0 } := by
  rw [Transfer.launch, if_pos hpos, hdirection]

theorem launch_of_zero (hzero : t.currentPacketCount = 0) :
    t.launch = { t with point := .completed } := by
  rw [Transfer.launch, if_neg (by omega)]

/-- Packets whose size is taken rightly are taken for the bytes that have been received. -/
theorem Counts.transferred_eq (h : Counts t)
    (hsizes : t.packetsLeft < t.currentPacketCount →
      t.packetSizeInBytes = t.maxPacketSizeInBytes ∨
        (t.currentPacketCount = t.packetCount ∧ t.packetsLeft = 0)) :
    t.transferred = t.dmaAddr := by
  have hdma := h.dmaAddr_eq
  have hreceived := h.received_eq
  have hcurrent := h.current_le
  have hcount := h.count_lt
  have hsize := h.size_le
  have hmaxCount : maxPacketCount = 1024 := rfl
  have hbuffer : dmaBufferSize = 1024 := rfl
  have hcurrentPos := h.current_pos
  rw [Transfer.transferred]
  rcases Nat.eq_zero_or_pos t.packetsLeft with hzero | hpos
  · rw [if_neg (by omega)]
    have hsub : sub32 t.packetCount t.currentPacketCount = t.packetCount - t.currentPacketCount :=
      sub32_of_le hcurrent (by omega)
    rw [hzero, h.sentBefore_zero] at hreceived
    rcases hsizes (by omega) with heq | ⟨hwhole, -⟩
    · have hbefore := h.sentBefore_eq hcurrentPos
      have hle : t.sentBefore t.currentPacketCount ≤ t.transferSizeInBytes := sentBefore_le t _
      have hmul : mul32 (t.packetCount - t.currentPacketCount) t.maxPacketSizeInBytes =
          t.sentBefore t.currentPacketCount := by
        rw [mul32, ← hbefore]
        exact Nat.mod_eq_of_lt (by omega)
      rw [hsub, heq, hmul, sub32_of_le hle (by omega)]
      omega
    · have hbefore := h.sentBefore_count
      rw [hsub, hwhole, Nat.sub_self, mul32, Nat.zero_mul, Nat.zero_mod,
        sub32_of_le (Nat.zero_le _) (by omega)]
      rw [hwhole, hbefore] at hdma
      omega
  · rw [if_pos hpos]
    have hleft := h.left_le
    have hsub : sub32 t.currentPacketCount t.packetsLeft = t.currentPacketCount - t.packetsLeft :=
      sub32_of_le hleft (by omega)
    rw [hsub]
    rcases hleft.eq_or_lt with heq | hlt
    · rw [heq, Nat.sub_self, mul32, Nat.zero_mul, Nat.zero_mod]
      rw [hreceived, heq] at hdma
      omega
    · have hagree : t.packetSizeInBytes = t.maxPacketSizeInBytes := by
        rcases hsizes hlt with hagree | ⟨-, hzero⟩
        · exact hagree
        · omega
      have hbefore := h.sentBefore_eq hcurrentPos
      have hafter := h.sentBefore_eq hpos
      have hsum : t.packetCount - t.currentPacketCount + (t.currentPacketCount - t.packetsLeft) =
          t.packetCount - t.packetsLeft := by omega
      have hbytes : (t.currentPacketCount - t.packetsLeft) * t.maxPacketSizeInBytes =
          t.dmaAddr := by
        rw [hreceived, hafter, hbefore, ← hsum, Nat.add_mul] at hdma
        omega
      have hle : t.sentBefore t.packetsLeft ≤ t.transferSizeInBytes := sentBefore_le t _
      rw [hagree, mul32, hbytes]
      exact Nat.mod_eq_of_lt (by omega)

/-- The end of a launch that is credited: what has been received stands in the buffer. -/
theorem InProgress.copied (h : InProgress m t)
    (hcredit : t.packetsLeft < t.currentPacketCount → t.sendCtrl.success = true ∧
      (t.packetSizeInBytes = t.maxPacketSizeInBytes ∨
        (t.currentPacketCount = t.packetCount ∧ t.packetsLeft = 0))) :
    ∃ offset buffer, t.account = Transfer.launch { t with
        offset
        memory := { t.memory with buffer }
        currentPacketCount := t.packetsLeft } ∧
      offset = t.sentBefore t.packetsLeft ∧ (∀ i < offset, buffer i = t.memory.payload i) ∧
      ∀ i, offset ≤ i → i < 2 ^ 32 → buffer i = m.buffer i := by
  have hdma := h.dmaAddr_eq
  have hreceived := h.received_eq
  have hsize := h.size_le
  have hbuffer : dmaBufferSize = 1024 := rfl
  have hle : t.sentBefore t.packetsLeft ≤ t.transferSizeInBytes := sentBefore_le t _
  have hoffset := h.offset_eq
  obtain ⟨offset, buffer, haccount, hcopied, hkept⟩ := account_eq h.direction_eq
  refine ⟨offset, buffer, haccount, ?_⟩
  cases hsuccess : t.sendCtrl.success with
  | true =>
    have htransferred : t.transferred = t.dmaAddr :=
      h.toCounts.transferred_eq fun hlt => (hcredit hlt).2
    obtain ⟨rfl, rfl⟩ := hcopied hsuccess
    rw [htransferred]
    have hsum : add32 t.offset t.dmaAddr = t.offset + t.dmaAddr := Nat.mod_eq_of_lt (by omega)
    rw [hsum]
    refine ⟨by omega, ?_, ?_⟩
    · intro i hi
      rw [copyOut_of_le _ _ (by omega) (by omega)]
      rcases Nat.lt_or_ge i t.offset with hlt | hge
      · rw [if_neg (by omega), h.buffer_eq i hlt]
      · rw [if_pos ⟨hge, hi⟩, h.buffered _ (by omega)]
        congr 1
        omega
    · intro i hi hlt
      rw [copyOut_of_le _ _ (by omega) hlt, if_neg (by omega), h.buffer_rest i (by omega) hlt]
  | false =>
    have hsame : t.packetsLeft = t.currentPacketCount := by
      refine (Nat.le_antisymm h.left_le (Nat.le_of_not_lt fun hlt => ?_))
      have hcredited := (hcredit hlt).1
      rw [hsuccess] at hcredited
      cases hcredited
    obtain ⟨rfl, rfl⟩ := hkept hsuccess
    rw [hsame]
    exact ⟨hoffset, h.buffer_eq, h.buffer_rest⟩

/-- The counters at the next launch. -/
theorem Counts.relaunch (h : Counts t) (hpos : 0 < t.packetsLeft) (offset : Nat)
    (buffer : Nat → UInt8) :
    Counts { t with
      point := .launched
      currentPacketCount := t.packetsLeft
      offset
      dmaAddr := 0
      memory := { t.memory with buffer } } :=
  { toFitsChannel := ⟨h.direction_eq, h.size_pos, h.size_le, h.max_pos, h.count_pos, h.count_lt,
      h.packetSize_lt, h.lt_size, h.size_le_count⟩
    current_pos := hpos
    left_le := le_rfl
    current_le := h.left_le.trans h.current_le
    received_eq := h.received_eq
    dmaAddr_eq := h.received_eq.symm
    buffered := fun i hi => absurd hi (Nat.not_lt_zero i) }

theorem Counts.withControl (h : Counts t) (sendCtrl : UsbSendControl) (point : TransferPoint) :
    Counts { t with sendCtrl, point } :=
  { toFitsChannel := ⟨h.direction_eq, h.size_pos, h.size_le, h.max_pos, h.count_pos, h.count_lt,
      h.packetSize_lt, h.lt_size, h.size_le_count⟩
    current_pos := h.current_pos
    left_le := h.left_le
    current_le := h.current_le
    received_eq := h.received_eq
    dmaAddr_eq := h.dmaAddr_eq
    buffered := h.buffered }

/-- The end of a launch that is credited: the next launch, or the end of the transfer. -/
theorem InProgress.account (h : InProgress m t)
    (hcredit : t.packetsLeft < t.currentPacketCount → t.sendCtrl.success = true ∧
      (t.packetSizeInBytes = t.maxPacketSizeInBytes ∨
        (t.currentPacketCount = t.packetCount ∧ t.packetsLeft = 0))) :
    (t.account.point = .launched ∧ InProgress m t.account) ∨
      (t.account.point = .completed ∧ Transfer.Delivered m t.account) := by
  have hleft := h.left_le
  have hcurrent := h.current_le
  obtain ⟨offset, buffer, haccount, hoffset, hdelivered, hrest⟩ := h.copied hcredit
  rw [haccount]
  rcases Nat.eq_zero_or_pos t.packetsLeft with hzero | hpos
  · right
    rw [launch_of_zero hzero]
    refine ⟨rfl, fun i hi => ?_⟩
    rw [hzero, h.sentBefore_zero] at hoffset
    exact (hdelivered i (hoffset ▸ hi)).trans (congrFun h.payload_eq i)
  · left
    have hlaunch := launch_of_pos (t := { t with
      offset
      memory := { t.memory with buffer }
      currentPacketCount := t.packetsLeft }) h.direction_eq hpos
    rw [hlaunch]
    refine ⟨rfl, ?_⟩
    exact
      { toCounts := h.toCounts.relaunch hpos offset buffer
        offset_eq := hoffset
        buffer_eq := hdelivered
        payload_eq := h.payload_eq
        dma_rest := h.dma_rest
        buffer_rest := hrest
        started := by
          intro hstarted
          change t.packetsLeft < t.packetCount at hstarted
          rcases hleft.eq_or_lt with heq | hlt
          · exact h.started (heq ▸ hstarted)
          · obtain ⟨hsuccess, hsizes⟩ := hcredit hlt
            refine ⟨hsuccess, ?_⟩
            rcases hsizes with hagree | ⟨-, hzero⟩
            · exact hagree
            · exact absurd hzero hpos.ne' }

theorem InProgress.withControl (h : InProgress m t) {sendCtrl : UsbSendControl}
    (hkeeps : t.sendCtrl.success = true → sendCtrl.success = true) (point : TransferPoint) :
    InProgress m { t with sendCtrl, point } :=
  { toCounts := h.toCounts.withControl sendCtrl point
    offset_eq := h.offset_eq
    buffer_eq := h.buffer_eq
    payload_eq := h.payload_eq
    dma_rest := h.dma_rest
    buffer_rest := h.buffer_rest
    started := fun hstarted => ⟨hkeeps (h.started hstarted).1, (h.started hstarted).2⟩ }

end Account

section Run

variable {t t' : Transfer} {m : ChannelMemory} {r : Response} {responses : List Response}

/-- A transfer that waits has one property, and one that is complete another. -/
structure Stage (waiting completed : Transfer → Prop) (t : Transfer) : Prop where
  of_waits : t.Waits → waiting t
  of_completed : t.point = .completed → completed t

/-- A step of a transfer that waits: a failure promises nothing. -/
theorem Stage.next {waiting completed : Transfer → Prop} (h : Stage waiting completed t)
    (hresend : ∀ sendCtrl, (t.sendCtrl.success = true → sendCtrl.success = true) → waiting t →
      waiting { t.transmit r.packetCount with sendCtrl, point := .resent })
    (haccount : ∀ sendCtrl,
      judge t.isLowSpeed t.sendCtrl r.interrupts (t.point = .launched) = .account sendCtrl →
      waiting t →
      Stage waiting completed (Transfer.account { t.transmit r.packetCount with sendCtrl }))
    (hnext : t.next r = some t') : Stage waiting completed t' := by
  obtain ⟨hwaits, hcases⟩ := Transfer.next_cases hnext
  rcases hcases with ⟨sendCtrl, -, rfl⟩ | ⟨sendCtrl, hjudge, rfl⟩ | ⟨sendCtrl, hjudge, rfl⟩
  · exact ⟨fun hwaits => absurd hwaits (Transfer.not_waits_of_failed rfl),
      fun hpoint => by cases hpoint⟩
  · exact ⟨fun _ => hresend sendCtrl (success_of_judge_eq hjudge) (h.of_waits hwaits),
      fun hpoint => by cases hpoint⟩
  · exact haccount sendCtrl hjudge (h.of_waits hwaits)

/-- What the end of a launch leads to: the next launch, or the end of the transfer. -/
theorem Stage.of_or {waiting completed : Transfer → Prop}
    (h : (t.point = .launched ∧ waiting t) ∨ (t.point = .completed ∧ completed t)) :
    Stage waiting completed t := by
  rcases h with ⟨hpoint, hwaiting⟩ | ⟨hpoint, hcompleted⟩
  · exact ⟨fun _ => hwaiting, fun hpoint' => by cases hpoint.symm.trans hpoint'⟩
  · exact ⟨fun hwaits => absurd hwaits (Transfer.not_waits_of_completed hpoint),
      fun _ => hcompleted⟩

/-- A transfer that waits is in progress, and one that is complete has delivered. -/
def Delivering (m : ChannelMemory) : Transfer → Prop :=
  Stage (InProgress m) (Transfer.Delivered m)

theorem Delivering.next (h : Delivering m t) (hobeys : Obeys t r) (hcredits : Credits t r)
    (hnext : t.next r = some t') : Delivering m t' := by
  refine Stage.next h ?_ ?_ hnext
  · intro sendCtrl hkeeps hprogress
    exact (hprogress.transmit hobeys).withControl hkeeps .resent
  · intro sendCtrl hjudge hprogress
    have hcontrolled := (hprogress.transmit hobeys).withControl (success_of_judge_eq hjudge) t.point
    have hleft : (t.transmit r.packetCount).packetsLeft = r.packetCount := hprogress.left_lt hobeys
    have hcredit := hcredits sendCtrl hjudge
    rw [← hleft] at hcredit
    exact Stage.of_or (hcontrolled.account hcredit)

/-- A run in which every launch is credited delivers what it has received. -/
theorem Delivering.run (h : Delivering m t) (hobeys : channel.StepsMeet Obeys t responses)
    (hcredits : channel.StepsMeet Credits t responses)
    (hrun : channel.run t responses = some t') : Delivering m t' := by
  refine System.StepsMeet.invariant ?_ (hobeys.and hcredits) h hrun
  rintro t r t' hdelivering ⟨hobeys, hcredits⟩ hnext
  exact hdelivering.next hobeys hcredits hnext

end Run

section Start

variable {pipe : UsbPipe} {size : Nat} {packetId : PacketId} {m : ChannelMemory}

/-- The number of packets of a buffer that is not empty and fits the DMA buffer. -/
theorem packetCountOf_eq (pipe : UsbPipe) (hpos : 0 < size) (hsize : size ≤ dmaBufferSize) :
    packetCountOf pipe size =
      (size + pipe.maxPacketSizeInBytes.toNat - 1) / pipe.maxPacketSizeInBytes.toNat := by
  have hmax : pipe.maxPacketSizeInBytes.toNat < 2 ^ 16 := pipe.maxPacketSizeInBytes.toNat_lt
  have hbuffer : dmaBufferSize = 1024 := rfl
  have hsum : sub32 (add32 size pipe.maxPacketSizeInBytes.toNat) 1 =
      size + pipe.maxPacketSizeInBytes.toNat - 1 := by
    rw [add32, sub32]
    omega
  rw [packetCountOf, if_neg hpos.ne', hsum]

/-- What fits the DMA buffer has no more packets than it has bytes. -/
theorem packetCountOf_le (hpos : 0 < size) (hsize : size ≤ dmaBufferSize) :
    packetCountOf pipe size ≤ size := by
  rw [packetCountOf_eq pipe hpos hsize]
  obtain hzero | hmax := Nat.eq_zero_or_pos pipe.maxPacketSizeInBytes.toNat
  · rw [hzero, Nat.div_zero]
    exact Nat.zero_le _
  · refine Nat.div_le_of_le_mul ?_
    have hmul : size + pipe.maxPacketSizeInBytes.toNat ≤
        pipe.maxPacketSizeInBytes.toNat * size + 1 := by
      obtain ⟨a, ha⟩ := Nat.exists_eq_add_one_of_ne_zero hpos.ne'
      obtain ⟨b, hb⟩ := Nat.exists_eq_add_one_of_ne_zero hmax.ne'
      rw [ha, hb, Nat.add_one_mul_add_one]
      omega
    omega

/-- A packet count that the register does not read as zero fits the register. -/
theorem packetCountOf_lt (hpos : 0 < size) (hsize : size ≤ dmaBufferSize)
    (hcount : packetCountOf pipe size % maxPacketCount ≠ 0) :
    0 < pipe.maxPacketSizeInBytes.toNat ∧ packetCountOf pipe size < maxPacketCount := by
  have hbuffer : dmaBufferSize = 1024 := rfl
  have hmaxCount : maxPacketCount = 1024 := rfl
  have hmax : 0 < pipe.maxPacketSizeInBytes.toNat := by
    refine Nat.pos_of_ne_zero fun hzero => hcount ?_
    rw [packetCountOf_eq pipe hpos hsize, hzero, Nat.div_zero, Nat.zero_mod]
  refine ⟨hmax, ?_⟩
  have hle : packetCountOf pipe size ≤ size := packetCountOf_le hpos hsize
  rcases Nat.lt_or_ge (packetCountOf pipe size) maxPacketCount with hlt | hge
  · exact hlt
  · have heq : packetCountOf pipe size = maxPacketCount := by omega
    rw [heq, Nat.mod_self] at hcount
    exact absurd rfl hcount

/-- The dimensions of an IN transfer as it starts. -/
theorem fitsChannel_program (packetId : PacketId) (m : ChannelMemory) (hpos : 0 < size)
    (hsize : size ≤ dmaBufferSize) (hcount : packetCountOf pipe size % maxPacketCount ≠ 0) :
    FitsChannel (Transfer.program .directionIn pipe size packetId m) := by
  have hbuffer : dmaBufferSize = 1024 := rfl
  have hmod : size % 2 ^ 32 = size := Nat.mod_eq_of_lt (by omega)
  obtain ⟨hmax, hlt⟩ := packetCountOf_lt hpos hsize hcount
  have heq := packetCountOf_eq pipe hpos hsize
  have hle : packetCountOf pipe size * pipe.maxPacketSizeInBytes.toNat ≤
      size + pipe.maxPacketSizeInBytes.toNat - 1 := by
    rw [heq]
    exact Nat.div_mul_le_self _ _
  have hcover : size + pipe.maxPacketSizeInBytes.toNat - 1 <
      packetCountOf pipe size * pipe.maxPacketSizeInBytes.toNat +
        pipe.maxPacketSizeInBytes.toNat := by
    rw [heq]
    exact Nat.lt_div_mul_add hmax
  have hcountPos : 0 < packetCountOf pipe size := by
    refine Nat.pos_of_ne_zero fun hzero => hcount ?_
    rw [hzero, Nat.zero_mod]
  rw [Transfer.program]
  simp only [hmod]
  exact
    { direction_eq := rfl
      size_pos := hpos
      size_le := hsize
      max_pos := hmax
      count_pos := hcountPos
      count_lt := hlt
      packetSize_lt := by
        dsimp only
        split
        · omega
        · exact pipe.maxPacketSizeInBytes.toNat_lt
      lt_size := by
        dsimp only
        rw [Nat.sub_mul, Nat.one_mul]
        omega
      size_le_count := by
        dsimp only
        omega }

/-- An IN transfer as it starts. -/
theorem transferIn_eq (hpos : 0 < packetCountOf pipe (size % 2 ^ 32)) :
    transferIn pipe size packetId m = Transfer.program .directionIn pipe size packetId m := by
  rw [transferIn, launch_of_pos rfl hpos]
  rfl

theorem delivering_transferIn (packetId : PacketId) (m : ChannelMemory) (hpos : 0 < size)
    (hsize : size ≤ dmaBufferSize) (hcount : packetCountOf pipe size % maxPacketCount ≠ 0) :
    Delivering m (transferIn pipe size packetId m) := by
  have hfits := fitsChannel_program packetId m hpos hsize hcount
  have hleft : (Transfer.program .directionIn pipe size packetId m).packetsLeft =
      (Transfer.program .directionIn pipe size packetId m).packetCount :=
    Nat.mod_eq_of_lt hfits.count_lt
  rw [transferIn_eq hfits.count_pos]
  refine ⟨fun _ => ?_, fun hpoint => by cases hpoint⟩
  exact
    { toFitsChannel := hfits
      current_pos := hfits.count_pos
      left_le := hleft.le
      current_le := le_rfl
      received_eq := by
        rw [hleft, hfits.sentBefore_count]
        rfl
      dmaAddr_eq := hfits.sentBefore_count
      buffered := fun i hi => absurd hi (Nat.not_lt_zero i)
      offset_eq := hfits.sentBefore_count.symm
      buffer_eq := fun i hi => absurd hi (Nat.not_lt_zero i)
      payload_eq := rfl
      dma_rest := fun _ _ => rfl
      buffer_rest := fun _ _ _ => rfl
      started := fun hstarted => absurd hstarted (Nat.lt_irrefl _) }

end Start

end RPiKernel.Usb
