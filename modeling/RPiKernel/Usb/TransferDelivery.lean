import RPiKernel.Usb.TransferIn

/-!
# Exactly the transfers that deliver

The control of a transfer never reads the bytes. Where a launch is not credited, the same
answers therefore lose a byte of a payload whose only nonzero byte is the one that the launch
misplaces.
-/

namespace RPiKernel.Usb

open Machine Transition

/-- Whatever the memory holds, an IN transfer that returns a length has delivered. -/
def Delivers (pipe : UsbPipe) (size : Nat) (packetId : PacketId) (responses : List Response) :
    Prop :=
  ∀ m t length, channel.run (transferIn pipe size packetId m) responses = some t →
    t.returned = some length → length ≠ 0 → ∀ i < length, t.memory.buffer i = m.payload i

/-- Two transfers that only differ in the memory. -/
def SameControl (t u : Transfer) : Prop := ∃ memory, u = { t with memory }

section SameControl

variable {t u t' : Transfer} {r : Response}

theorem SameControl.symm (h : SameControl t u) : SameControl u t := by
  obtain ⟨memory, rfl⟩ := h
  exact ⟨t.memory, rfl⟩

theorem SameControl.launch (h : SameControl t u) : SameControl t.launch u.launch := by
  obtain ⟨memory, rfl⟩ := h
  rcases Nat.eq_zero_or_pos t.currentPacketCount with hzero | hpos
  · rw [launch_of_zero hzero, launch_of_zero (t := { t with memory }) hzero]
    exact ⟨memory, rfl⟩
  · rw [Transfer.launch, Transfer.launch, if_pos hpos, if_pos hpos]
    exact ⟨_, rfl⟩

theorem SameControl.account (h : SameControl t u) : SameControl t.account u.account := by
  obtain ⟨memory, rfl⟩ := h
  refine SameControl.launch ?_
  cases hsuccess : t.sendCtrl.success with
  | true =>
    simp only [if_true]
    exact ⟨_, rfl⟩
  | false =>
    simp only [Bool.false_eq_true, if_false]
    exact ⟨_, rfl⟩

theorem SameControl.resume (h : SameControl t u) (interrupts : ChannelInterrupts)
    (isLaunch : Bool) :
    SameControl (t.resume interrupts isLaunch) (u.resume interrupts isLaunch) := by
  obtain ⟨memory, rfl⟩ := h
  rw [Transfer.resume, Transfer.resume]
  cases judge t.isLowSpeed t.sendCtrl interrupts isLaunch with
  | fail sendCtrl => exact ⟨memory, rfl⟩
  | resend sendCtrl => exact ⟨memory, rfl⟩
  | account sendCtrl => exact SameControl.account ⟨memory, rfl⟩

/-- The same answer has the same effect on the control. -/
theorem SameControl.next (t u : Transfer) (r : Response) (t' : Transfer) (h : SameControl t u)
    (hnext : t.next r = some t') : ∃ u', u.next r = some u' ∧ SameControl t' u' := by
  have htransmit : SameControl (t.transmit r.packetCount) (u.transmit r.packetCount) := by
    obtain ⟨memory, rfl⟩ := h
    exact ⟨_, rfl⟩
  have hpoint : u.point = t.point := by
    obtain ⟨memory, rfl⟩ := h
    rfl
  rw [Transfer.next] at hnext ⊢
  rw [hpoint]
  cases hstands : t.point with
  | launched =>
    rw [hstands] at hnext
    cases hnext
    exact ⟨_, rfl, htransmit.resume _ _⟩
  | resent =>
    rw [hstands] at hnext
    cases hnext
    exact ⟨_, rfl, htransmit.resume _ _⟩
  | failed =>
    rw [hstands] at hnext
    cases hnext
  | completed =>
    rw [hstands] at hnext
    cases hnext

theorem SameControl.obeys (t u : Transfer) (r : Response) (h : SameControl t u)
    (hobeys : Obeys t r) : Obeys u r := by
  obtain ⟨memory, rfl⟩ := h
  exact hobeys

theorem SameControl.credits (t u : Transfer) (r : Response) (h : SameControl t u)
    (hcredits : Credits t r) : Credits u r := by
  obtain ⟨memory, rfl⟩ := h
  exact hcredits

theorem SameControl.returned (h : SameControl t u) : u.returned = t.returned := by
  obtain ⟨memory, rfl⟩ := h
  rfl

theorem sameControl_transferIn (pipe : UsbPipe) (size : Nat) (packetId : PacketId)
    (m m' : ChannelMemory) :
    SameControl (transferIn pipe size packetId m) (transferIn pipe size packetId m') :=
  SameControl.launch ⟨m', rfl⟩

end SameControl

section Spoiled

/-- The device sends one byte that is not zero, and the buffers hold none. -/
def marked (j : Nat) : ChannelMemory where
  buffer _ := 0
  dmaBuffer _ := 0
  payload i := if i = j then 1 else 0

theorem marked_payload (j : Nat) : (marked j).payload j = 1 := if_pos rfl

/-- An IN transfer that waits, when the byte that is not zero has been missed: it has been
received, or taken as received, and later copies do not reach its place. -/
structure Spoiled (j : Nat) (t : Transfer) : Prop extends Counts t where
  mark_lt : j < t.transferSizeInBytes
  payload_eq : t.memory.payload = (marked j).payload
  buffer_eq : t.memory.buffer j = 0
  dma_rest : ∀ i, t.received ≤ i → t.memory.dmaBuffer i = 0
  passed : j < t.offset ∨ (j = t.offset ∧ j < t.sentBefore t.currentPacketCount)
  offset_le : t.offset ≤ (t.packetCount - t.currentPacketCount) * t.packetSizeInBytes

/-- The byte that is not zero is missing from the buffer. -/
def Transfer.Missing (j : Nat) (t : Transfer) : Prop :=
  j < t.transferSizeInBytes ∧ t.memory.buffer j = 0

variable {t t' : Transfer} {j : Nat} {r : Response} {responses : List Response}

theorem Spoiled.transmit (h : Spoiled j t) {n : Nat} (hn : n ≤ t.packetsLeft) :
    Spoiled j (t.transmit n) := by
  have hcounts : Counts (t.transmit n) := h.toCounts.transmit hn
  have hmono := h.received_le hn
  have hrest : ∀ i, t.sentBefore n ≤ i → (t.transmit n).memory.dmaBuffer i = 0 :=
    fun i hi => (h.dmaBuffer_transmit hn hi).trans (h.dma_rest i (hmono.trans hi))
  rw [h.transmit_eq hn] at hcounts hrest ⊢
  exact
    { toCounts := hcounts
      mark_lt := h.mark_lt
      payload_eq := h.payload_eq
      buffer_eq := h.buffer_eq
      dma_rest := hrest
      passed := h.passed
      offset_le := h.offset_le }

theorem Spoiled.withControl (h : Spoiled j t) (sendCtrl : UsbSendControl) (point : TransferPoint) :
    Spoiled j { t with sendCtrl, point } :=
  { toCounts := h.toCounts.withControl sendCtrl point
    mark_lt := h.mark_lt
    payload_eq := h.payload_eq
    buffer_eq := h.buffer_eq
    dma_rest := h.dma_rest
    passed := h.passed
    offset_le := h.offset_le }

/-- While packets are left, no product wraps. -/
theorem Counts.transferred_of_pos (h : Counts t) (hpos : 0 < t.packetsLeft) :
    t.transferred = (t.currentPacketCount - t.packetsLeft) * t.packetSizeInBytes := by
  have hleft := h.left_le
  have hcurrent := h.current_le
  have hcount := h.count_lt
  have hmaxCount : maxPacketCount = 1024 := rfl
  have hsub : sub32 t.currentPacketCount t.packetsLeft = t.currentPacketCount - t.packetsLeft :=
    sub32_of_le hleft (by omega)
  have hbound : (t.currentPacketCount - t.packetsLeft) * t.packetSizeInBytes ≤ 1024 * 2 ^ 16 :=
    Nat.mul_le_mul (by omega) h.packetSize_lt.le
  rw [Transfer.transferred, if_pos hpos, hsub, mul32]
  exact Nat.mod_eq_of_lt (by omega)

theorem transferred_lt (t : Transfer) : t.transferred < 2 ^ 32 := by
  rw [Transfer.transferred]
  split
  · exact Nat.mod_lt _ (by omega)
  · exact Nat.mod_lt _ (by omega)

/-- Without progress nothing is taken as received. -/
theorem Counts.left_lt_of_transferred (h : Counts t) (hpos : 0 < t.transferred) :
    t.packetsLeft < t.currentPacketCount := by
  refine h.left_le.lt_of_ne fun heq => hpos.ne' ?_
  rw [h.transferred_of_pos (heq ▸ h.current_pos), heq, Nat.sub_self, Nat.zero_mul]

/-- A launch that makes progress receives bytes. -/
theorem Counts.dmaAddr_pos (h : Counts t) (hlt : t.packetsLeft < t.currentPacketCount) :
    0 < t.dmaAddr := by
  have hdma := h.dmaAddr_eq
  have hreceived := h.received_eq
  have hcurrent := h.current_le
  have hmore : t.sentBefore t.currentPacketCount < t.sentBefore t.packetsLeft := by
    have hbefore := h.sentBefore_eq h.current_pos
    rcases Nat.eq_zero_or_pos t.packetsLeft with hzero | hpos
    · have hle : (t.packetCount - t.currentPacketCount) * t.maxPacketSizeInBytes ≤
          (t.packetCount - 1) * t.maxPacketSizeInBytes :=
        Nat.mul_le_mul_right _ (Nat.sub_le_sub_left h.current_pos _)
      rw [hzero, h.sentBefore_zero, hbefore]
      exact hle.trans_lt h.lt_size
    · rw [hbefore, h.sentBefore_eq hpos]
      exact Nat.mul_lt_mul_of_pos_right (by omega) h.max_pos
  omega

/-- A copy after the byte has been missed does not bring it back. -/
theorem Spoiled.copyOut_eq (h : Spoiled j t) :
    copyOut t.memory.dmaBuffer t.offset t.transferred t.memory.buffer j = 0 := by
  have hsize := h.size_le
  have hmark := h.mark_lt
  have hbuffer : dmaBufferSize = 1024 := rfl
  have hmaxCount : maxPacketCount = 1024 := rfl
  have hcurrent := h.current_le
  have hcount := h.count_lt
  have hcurrentPos := h.current_pos
  have hreceived := h.received_eq
  have hle : t.sentBefore t.packetsLeft ≤ t.transferSizeInBytes := sentBefore_le t _
  have hoffset : t.offset ≤ 1024 * 2 ^ 16 :=
    h.offset_le.trans (Nat.mul_le_mul (by omega) h.packetSize_lt.le)
  rw [copyOut_apply _ _ _ (transferred_lt t).le (by omega) (by omega)]
  split
  · next hcopied =>
    rcases h.passed with hlt | ⟨heq, hsent⟩
    · -- The index has wrapped: it lies beyond what has been received.
      have hindex : sub32 j t.offset = 2 ^ 32 + j - t.offset := by
        rw [sub32]
        omega
      exact h.dma_rest _ (by omega)
    · have hindex : sub32 j t.offset = 0 := by
        rw [sub32]
        omega
      rw [hindex] at hcopied ⊢
      have hprogress := h.left_lt_of_transferred hcopied
      rw [h.buffered 0 (h.dmaAddr_pos hprogress), h.payload_eq]
      exact if_neg (by omega)
  · exact h.buffer_eq

/-- The end of a launch, after the byte has been missed. -/
theorem Spoiled.account (h : Spoiled j t) :
    (t.account.point = .launched ∧ Spoiled j t.account) ∨
      (t.account.point = .completed ∧ t.account.Missing j) := by
  have hleft := h.left_le
  have hcurrent := h.current_le
  obtain ⟨offset, buffer, haccount, hcopied, hkept⟩ := account_eq h.direction_eq
  have hbuffer : buffer j = 0 := by
    cases hsuccess : t.sendCtrl.success with
    | true =>
      rw [(hcopied hsuccess).2]
      exact h.copyOut_eq
    | false =>
      rw [(hkept hsuccess).2]
      exact h.buffer_eq
  rw [haccount]
  rcases Nat.eq_zero_or_pos t.packetsLeft with hzero | hpos
  · right
    rw [launch_of_zero hzero]
    exact ⟨rfl, h.mark_lt, hbuffer⟩
  · left
    have hlaunch := launch_of_pos (t := { t with
      offset
      memory := { t.memory with buffer }
      currentPacketCount := t.packetsLeft }) h.direction_eq hpos
    have hmono : t.sentBefore t.currentPacketCount ≤ t.sentBefore t.packetsLeft :=
      sentBefore_mono t hleft
    have hoffset : t.offset ≤ offset ∧
        offset ≤ (t.packetCount - t.packetsLeft) * t.packetSizeInBytes := by
      have hsum : t.packetCount - t.currentPacketCount + (t.currentPacketCount - t.packetsLeft) =
          t.packetCount - t.packetsLeft := by omega
      have hsplit : (t.packetCount - t.packetsLeft) * t.packetSizeInBytes =
          (t.packetCount - t.currentPacketCount) * t.packetSizeInBytes +
            (t.currentPacketCount - t.packetsLeft) * t.packetSizeInBytes := by
        rw [← Nat.add_mul, hsum]
      have hbefore := h.offset_le
      cases hsuccess : t.sendCtrl.success with
      | true =>
        have hbound : (t.packetCount - t.packetsLeft) * t.packetSizeInBytes ≤ 1024 * 2 ^ 16 := by
          have hcount := h.count_lt
          have hmaxCount : maxPacketCount = 1024 := rfl
          exact Nat.mul_le_mul (by omega) h.packetSize_lt.le
        have hsum : offset = t.offset + t.transferred := by
          rw [(hcopied hsuccess).1, add32]
          refine Nat.mod_eq_of_lt ?_
          rw [h.transferred_of_pos hpos]
          omega
        rw [hsum, h.transferred_of_pos hpos]
        omega
      | false =>
        rw [(hkept hsuccess).1]
        omega
    rw [hlaunch]
    refine ⟨rfl, ?_⟩
    exact
      { toCounts := h.toCounts.relaunch hpos offset buffer
        mark_lt := h.mark_lt
        payload_eq := h.payload_eq
        buffer_eq := hbuffer
        dma_rest := h.dma_rest
        passed := by
          change j < offset ∨ (j = offset ∧ j < t.sentBefore t.packetsLeft)
          have hpassed := h.passed
          omega
        offset_le := hoffset.2 }

/-- A transfer that has missed the byte never delivers it. -/
def Lost (j : Nat) : Transfer → Prop := Stage (Spoiled j) (Transfer.Missing j)

theorem Lost.next (h : Lost j t) (hobeys : Obeys t r) (hnext : t.next r = some t') :
    Lost j t' := by
  refine Stage.next h ?_ ?_ hnext
  · intro sendCtrl _ hspoiled
    exact (hspoiled.transmit hobeys).withControl sendCtrl .resent
  · intro sendCtrl _ hspoiled
    exact Stage.of_or ((hspoiled.transmit hobeys).withControl sendCtrl t.point).account

theorem Lost.run (h : Lost j t) (hobeys : channel.StepsMeet Obeys t responses)
    (hrun : channel.run t responses = some t') : Lost j t' := by
  refine System.StepsMeet.invariant ?_ hobeys h hrun
  intro t r t' hlost hobeys hnext
  exact hlost.next hobeys hnext

end Spoiled

section Misplaced

variable {t : Transfer}

/-- The position of a byte that the end of a launch misplaces: the first of the launch where
nothing is copied, and the first behind the smaller of the two sizes otherwise. -/
def misplaced (t : Transfer) : Nat :=
  if t.sendCtrl.success then
    min ((t.packetCount - t.packetsLeft) * t.packetSizeInBytes)
      ((t.packetCount - t.packetsLeft) * t.maxPacketSizeInBytes)
  else
    0

theorem SameControl.misplaced {u : Transfer} (h : SameControl t u) : misplaced u = misplaced t := by
  obtain ⟨memory, rfl⟩ := h
  rfl

/-- A first launch that makes progress and reports no success leaves the first byte behind. -/
theorem InProgress.lost_of_no_success (h : InProgress (marked 0) t)
    (hfirst : t.currentPacketCount = t.packetCount) (hprogress : t.packetsLeft < t.packetCount)
    (hsuccess : t.sendCtrl.success = false) : Lost 0 t.account := by
  have hoffset : t.offset = 0 := by
    rw [h.offset_eq, hfirst, h.sentBefore_count]
  have hbuffer : t.memory.buffer 0 = 0 := h.buffer_rest 0 hoffset.le (by omega)
  obtain ⟨offset, buffer, haccount, -, hkept⟩ := account_eq h.direction_eq
  obtain ⟨rfl, rfl⟩ := hkept hsuccess
  refine Stage.of_or ?_
  rw [haccount]
  rcases Nat.eq_zero_or_pos t.packetsLeft with hzero | hpos
  · right
    rw [launch_of_zero hzero]
    exact ⟨rfl, h.size_pos, hbuffer⟩
  · left
    have hlaunch := launch_of_pos (t := { t with currentPacketCount := t.packetsLeft })
      h.direction_eq hpos
    have hsent : 0 < t.sentBefore t.packetsLeft := by
      rw [h.sentBefore_eq hpos]
      exact Nat.mul_pos (by omega) h.max_pos
    rw [hlaunch]
    refine ⟨rfl, ?_⟩
    exact
      { toCounts := h.toCounts.relaunch hpos t.offset t.memory.buffer
        mark_lt := h.size_pos
        payload_eq := h.payload_eq
        buffer_eq := hbuffer
        dma_rest := h.dma_rest
        passed := Or.inr ⟨hoffset.symm, hsent⟩
        offset_le := by
          dsimp only
          omega }

/-- A first launch that counts off some of the packets and takes them for the wrong number of
bytes misplaces the byte behind the smaller number. -/
theorem InProgress.lost_of_sizes_ne (h : InProgress (marked (misplaced t)) t)
    (hfirst : t.currentPacketCount = t.packetCount) (hprogress : t.packetsLeft < t.packetCount)
    (hsuccess : t.sendCtrl.success = true) (hpos : 0 < t.packetsLeft)
    (hsizes : t.packetSizeInBytes ≠ t.maxPacketSizeInBytes) : Lost (misplaced t) t.account := by
  have hsize := h.size_le
  have hdmaSize : dmaBufferSize = 1024 := rfl
  have hoffset : t.offset = 0 := by
    rw [h.offset_eq, hfirst, h.sentBefore_count]
  have htransferred : t.transferred = (t.packetCount - t.packetsLeft) * t.packetSizeInBytes := by
    rw [h.transferred_of_pos hpos, hfirst]
  have hsent : t.sentBefore t.packetsLeft =
      (t.packetCount - t.packetsLeft) * t.maxPacketSizeInBytes := h.sentBefore_eq hpos
  have hreceived := h.received_eq
  have hmisplaced : misplaced t = min t.transferred (t.sentBefore t.packetsLeft) := by
    rw [misplaced, if_pos hsuccess, htransferred, hsent]
  have hne : t.transferred ≠ t.sentBefore t.packetsLeft := by
    rw [htransferred, hsent]
    exact fun heq => hsizes (Nat.eq_of_mul_eq_mul_left (by omega) heq)
  have hmark : misplaced t < t.transferSizeInBytes := by
    have hle : (t.packetCount - t.packetsLeft) * t.maxPacketSizeInBytes ≤
        (t.packetCount - 1) * t.maxPacketSizeInBytes :=
      Nat.mul_le_mul_right _ (by omega)
    have hlast := h.lt_size
    omega
  obtain ⟨offset, buffer, haccount, hcopied, -⟩ := account_eq h.direction_eq
  obtain ⟨rfl, rfl⟩ := hcopied hsuccess
  have hsum : add32 t.offset t.transferred = t.transferred := by
    rw [hoffset, add32, Nat.zero_add]
    exact Nat.mod_eq_of_lt (transferred_lt t)
  have hbuffer : copyOut t.memory.dmaBuffer t.offset t.transferred t.memory.buffer (misplaced t) =
      0 := by
    have hlt := transferred_lt t
    rw [hoffset, copyOut_of_le _ _ (by omega) (by omega)]
    split
    · next hcopy => exact h.dma_rest _ (by omega)
    · next hcopy => exact h.buffer_rest _ (by omega) (by omega)
  have hlaunch := launch_of_pos (t := { t with
    offset := add32 t.offset t.transferred
    memory := { t.memory with
      buffer := copyOut t.memory.dmaBuffer t.offset t.transferred t.memory.buffer }
    currentPacketCount := t.packetsLeft }) h.direction_eq hpos
  refine Stage.of_or (Or.inl ?_)
  rw [haccount, hlaunch]
  refine ⟨rfl, ?_⟩
  exact
    { toCounts := h.toCounts.relaunch hpos _ _
      mark_lt := hmark
      payload_eq := h.payload_eq
      buffer_eq := hbuffer
      dma_rest := h.dma_rest
      passed := by
        change misplaced t < add32 t.offset t.transferred ∨
          (misplaced t = add32 t.offset t.transferred ∧ misplaced t < t.sentBefore t.packetsLeft)
        omega
      offset_le := by
        change add32 t.offset t.transferred ≤
          (t.packetCount - t.packetsLeft) * t.packetSizeInBytes
        omega }

/-- The end of a launch that is not credited loses the byte that it misplaces. -/
theorem InProgress.lost (h : InProgress (marked (misplaced t)) t)
    (hprogress : t.packetsLeft < t.currentPacketCount)
    (hfails : ¬ (t.sendCtrl.success = true ∧
      (t.packetSizeInBytes = t.maxPacketSizeInBytes ∨
        (t.currentPacketCount = t.packetCount ∧ t.packetsLeft = 0)))) :
    Lost (misplaced t) t.account := by
  have hfirst : t.currentPacketCount = t.packetCount := by
    refine Nat.le_antisymm h.current_le (Nat.le_of_not_lt fun hlt => hfails ?_)
    exact ⟨(h.started hlt).1, Or.inl (h.started hlt).2⟩
  rw [hfirst] at hprogress
  cases hsuccess : t.sendCtrl.success with
  | true =>
    have hpos : 0 < t.packetsLeft :=
      Nat.pos_of_ne_zero fun hzero => hfails ⟨hsuccess, Or.inr ⟨hfirst, hzero⟩⟩
    exact h.lost_of_sizes_ne hfirst hprogress hsuccess hpos fun hsizes =>
      hfails ⟨hsuccess, Or.inl hsizes⟩
  | false =>
    have hmisplaced : misplaced t = 0 := by
      rw [misplaced, if_neg (by rw [hsuccess]; exact Bool.false_ne_true)]
    rw [hmisplaced] at h ⊢
    exact h.lost_of_no_success hfirst hprogress hsuccess

end Misplaced

section RegisterZero

/-- The device sends bytes that are not zero, and the buffers hold none. -/
def blank : ChannelMemory where
  buffer _ := 0
  dmaBuffer _ := 0
  payload _ := 1

/-- An IN transfer for which no packets are programmed. -/
structure Idle (t : Transfer) : Prop where
  direction_eq : t.direction = .directionIn
  packetsLeft_eq : t.packetsLeft = 0
  dmaBuffer_eq : t.memory.dmaBuffer = fun _ => 0
  buffer_eq : t.memory.buffer = fun _ => 0

theorem copyOut_zero (offset n : Nat) :
    copyOut (fun _ => 0) offset n (fun _ => 0) = fun _ => 0 := by
  induction n with
  | zero => rfl
  | succ n ih =>
    rw [copyOut, ih]
    exact Function.update_eq_self _ _

variable {t t' : Transfer} {r : Response} {responses : List Response}

theorem Idle.transmit (h : Idle t) {n : Nat} (hn : n ≤ t.packetsLeft) : Idle (t.transmit n) := by
  have hzero : n = 0 := Nat.eq_zero_of_le_zero (h.packetsLeft_eq ▸ hn)
  have hsize : min t.received t.transferSizeInBytes - t.received = 0 := by omega
  refine ⟨h.direction_eq, by rw [hzero]; rfl, ?_, h.buffer_eq⟩
  rw [Transfer.transmit, hzero, h.packetsLeft_eq, h.direction_eq]
  funext i
  simp only [Nat.zero_mod, Nat.sub_self, Nat.zero_mul, Nat.add_zero, hsize,
    ChannelMemory.receive, h.dmaBuffer_eq]
  exact if_neg (by omega)

theorem Idle.account (h : Idle t) :
    t.account.point = .completed ∧ t.account.memory.buffer = fun _ => 0 := by
  obtain ⟨offset, buffer, haccount, hcopied, hkept⟩ := account_eq h.direction_eq
  rw [haccount, launch_of_zero h.packetsLeft_eq]
  refine ⟨rfl, ?_⟩
  cases hsuccess : t.sendCtrl.success with
  | true =>
    change buffer = _
    rw [(hcopied hsuccess).2, h.dmaBuffer_eq, h.buffer_eq]
    exact copyOut_zero _ _
  | false => exact (hkept hsuccess).2.trans h.buffer_eq

/-- A transfer for which no packets are programmed leaves the buffer as it was. -/
def Unserved : Transfer → Prop := Stage Idle fun t => t.memory.buffer = fun _ => 0

theorem Unserved.next (h : Unserved t) (hobeys : Obeys t r) (hnext : t.next r = some t') :
    Unserved t' := by
  refine Stage.next h ?_ ?_ hnext
  · intro sendCtrl _ hidle
    have htransmit := hidle.transmit hobeys
    exact ⟨htransmit.direction_eq, htransmit.packetsLeft_eq, htransmit.dmaBuffer_eq,
      htransmit.buffer_eq⟩
  · intro sendCtrl _ hidle
    have htransmit := hidle.transmit hobeys
    have hcontrolled : Idle { t.transmit r.packetCount with sendCtrl } :=
      ⟨htransmit.direction_eq, htransmit.packetsLeft_eq, htransmit.dmaBuffer_eq,
        htransmit.buffer_eq⟩
    exact Stage.of_or (Or.inr hcontrolled.account)

theorem Unserved.run (h : Unserved t) (hobeys : channel.StepsMeet Obeys t responses)
    (hrun : channel.run t responses = some t') : Unserved t' := by
  refine System.StepsMeet.invariant ?_ hobeys h hrun
  intro t r t' hunserved hobeys hnext
  exact hunserved.next hobeys hnext

theorem unserved_transferIn {pipe : UsbPipe} {size : Nat} (packetId : PacketId)
    (hcount : packetCountOf pipe (size % 2 ^ 32) % maxPacketCount = 0) :
    Unserved (transferIn pipe size packetId blank) := by
  rcases Nat.eq_zero_or_pos (packetCountOf pipe (size % 2 ^ 32)) with hzero | hpos
  · rw [transferIn, launch_of_zero hzero]
    exact Stage.of_or (Or.inr ⟨rfl, rfl⟩)
  · rw [transferIn_eq hpos]
    exact ⟨fun _ => ⟨rfl, hcount, rfl, rfl⟩, fun hpoint => by cases hpoint⟩

end RegisterZero

section Delivers

variable {pipe : UsbPipe} {size length : Nat} {packetId : PacketId} {responses : List Response}
  {m : ChannelMemory} {t : Transfer}

/-- An account is what its verdict makes of the transfer. -/
theorem next_of_account {t t' : Transfer} {r : Response} {sendCtrl : UsbSendControl}
    (hnext : t.next r = some t')
    (hjudge : judge t.isLowSpeed t.sendCtrl r.interrupts (t.point = .launched) =
      .account sendCtrl) :
    t.Waits ∧ t' = Transfer.account { t.transmit r.packetCount with sendCtrl } := by
  obtain ⟨hwaits, ⟨_, hother, -⟩ | ⟨_, hother, -⟩ | ⟨_, hsame, rfl⟩⟩ := Transfer.next_cases hnext
  · cases hjudge.symm.trans hother
  · cases hjudge.symm.trans hother
  · cases hjudge.symm.trans hsame
    exact ⟨hwaits, rfl⟩

/-- Credited launches deliver, whatever the memory holds. -/
theorem delivers_of_credits (hpos : 0 < size) (hsize : size ≤ dmaBufferSize)
    (hcount : packetCountOf pipe size % maxPacketCount ≠ 0)
    (hobeys : channel.StepsMeet Obeys (transferIn pipe size packetId m) responses)
    (hrun : channel.run (transferIn pipe size packetId m) responses = some t)
    (hcredits : channel.StepsMeet Credits (transferIn pipe size packetId m) responses) :
    Delivers pipe size packetId responses := by
  intro m' t' length hrun' hreturned hlength
  have hsame := sameControl_transferIn pipe size packetId m m'
  have hobeys' := hobeys.of_lockstep SameControl.next SameControl.obeys hsame hrun
  have hcredits' := hcredits.of_lockstep SameControl.next SameControl.credits hsame hrun
  have hdelivering : Delivering m' t' :=
    (delivering_transferIn packetId m' hpos hsize hcount).run hobeys' hcredits' hrun'
  obtain ⟨hpoint, hlength'⟩ := completed_of_returned hreturned hlength
  rw [← hlength']
  exact hdelivering.of_completed hpoint

/-- A launch that is not credited loses a byte. -/
theorem credits_of_delivers (hpos : 0 < size) (hsize : size ≤ dmaBufferSize)
    (hcount : packetCountOf pipe size % maxPacketCount ≠ 0)
    (hobeys : channel.StepsMeet Obeys (transferIn pipe size packetId m) responses)
    (hrun : channel.run (transferIn pipe size packetId m) responses = some t)
    (hreturned : t.returned = some length) (hlength : length ≠ 0)
    (hdelivers : Delivers pipe size packetId responses) :
    channel.StepsMeet Credits (transferIn pipe size packetId m) responses := by
  by_contra hfails
  obtain ⟨before, r, after, t₁, t₂, rfl, hbefore, hmeet, hfails, hnext, hafter⟩ :=
    System.exists_first_of_not_stepsMeet hrun hfails
  rw [Credits] at hfails
  push Not at hfails
  obtain ⟨sendCtrl, hjudge, hprogress, hfails⟩ := hfails
  -- The position of the byte that is lost depends on the control only.
  obtain ⟨j, hj⟩ : ∃ j, j = misplaced { t₁.transmit r.packetCount with sendCtrl } := ⟨_, rfl⟩
  have hsame := sameControl_transferIn pipe size packetId m (marked j)
  have hobeys' := hobeys.of_lockstep SameControl.next SameControl.obeys hsame hrun
  have hmeet' := hmeet.of_lockstep SameControl.next SameControl.credits hsame hbefore
  obtain ⟨u₁, hbefore', memory, rfl⟩ :=
    System.exists_run_of_lockstep SameControl.next hsame hbefore
  obtain ⟨u₂, hnext', hsame₂⟩ := SameControl.next t₁ _ r t₂ ⟨memory, rfl⟩ hnext
  obtain ⟨u, hafter', hsame'⟩ := System.exists_run_of_lockstep SameControl.next hsame₂ hafter
  have hrun' : channel.run (transferIn pipe size packetId (marked j)) (before ++ r :: after) =
      some u := by
    rw [System.run_append hbefore', System.run_cons_of_next hnext', hafter']
  have hlater := (System.stepsMeet_cons hnext' after).mp (hobeys'.of_append hbefore')
  have hdelivering : Delivering (marked j) { t₁ with memory } :=
    (delivering_transferIn packetId (marked j) hpos hsize hcount).run hobeys'.left_of_append
      hmeet' hbefore'
  obtain ⟨hwaits, rfl⟩ := next_of_account hnext' hjudge
  have hprogressing := hdelivering.of_waits hwaits
  have hleft := hprogressing.left_lt hlater.1
  have hend := (hprogressing.transmit hlater.1).withControl (success_of_judge_eq hjudge) t₁.point
  have hlost : Lost j (Transfer.account
      { ({ t₁ with memory } : Transfer).transmit r.packetCount with sendCtrl }) := by
    have hj' : j = misplaced { ({ t₁ with memory } : Transfer).transmit r.packetCount with
        sendCtrl } := hj
    rw [hj'] at hend ⊢
    refine hend.lost (hleft.trans_lt hprogress) ?_
    rintro ⟨hsuccess, hsizes | ⟨hfirst, hzero⟩⟩
    · exact (hfails hsuccess).1 hsizes
    · exact (hfails hsuccess).2 hfirst (hleft.symm.trans hzero)
  obtain ⟨hpoint, hsize'⟩ := completed_of_returned (hsame'.returned.trans hreturned) hlength
  obtain ⟨hmark, hmissing⟩ := (hlost.run hlater.2 hafter').of_completed hpoint
  have hdelivered : u.memory.buffer j = (marked j).payload j :=
    hdelivers (marked j) u length hrun' (hsame'.returned.trans hreturned) hlength j
      (hsize' ▸ hmark)
  rw [hmissing, marked_payload] at hdelivered
  exact absurd hdelivered (by decide)

/-- A transfer for which the register holds no packets returns a length without the bytes. -/
theorem count_ne_zero_of_delivers (hsize : size ≤ dmaBufferSize)
    (hobeys : channel.StepsMeet Obeys (transferIn pipe size packetId m) responses)
    (hrun : channel.run (transferIn pipe size packetId m) responses = some t)
    (hreturned : t.returned = some length) (hlength : length ≠ 0)
    (hdelivers : Delivers pipe size packetId responses) :
    packetCountOf pipe size % maxPacketCount ≠ 0 := by
  intro hcount
  have hbuffer : dmaBufferSize = 1024 := rfl
  have hmod : size % 2 ^ 32 = size := Nat.mod_eq_of_lt (by omega)
  have hsame := sameControl_transferIn pipe size packetId m blank
  have hobeys' := hobeys.of_lockstep SameControl.next SameControl.obeys hsame hrun
  obtain ⟨u, hrun', hsame'⟩ := System.exists_run_of_lockstep SameControl.next hsame hrun
  have hunserved : Unserved u :=
    (unserved_transferIn packetId (by rw [hmod]; exact hcount)).run hobeys' hrun'
  have hreturned' := hsame'.returned.trans hreturned
  have hdelivered := hdelivers blank u length hrun' hreturned' hlength 0
    (Nat.pos_of_ne_zero hlength)
  rw [hunserved.of_completed (completed_of_returned hreturned' hlength).1] at hdelivered
  exact absurd hdelivered (by decide)

/-- An IN transfer that returns a length has delivered, whatever the memory holds, exactly when
packets were programmed for it and every launch that counted off packets was credited. -/
theorem delivers_iff_credits (hsize : size ≤ dmaBufferSize)
    (hobeys : channel.StepsMeet Obeys (transferIn pipe size packetId m) responses)
    (hrun : channel.run (transferIn pipe size packetId m) responses = some t)
    (hreturned : t.returned = some length) (hlength : length ≠ 0) :
    Delivers pipe size packetId responses ↔
      packetCountOf pipe size % maxPacketCount ≠ 0 ∧
        channel.StepsMeet Credits (transferIn pipe size packetId m) responses := by
  have hpos : 0 < size := by
    have hsize' := (completed_of_returned hreturned hlength).2
    rw [(dimensions_of_run hrun).1, (dimensions_transferIn pipe size packetId m).1] at hsize'
    refine Nat.pos_of_ne_zero fun hzero => hlength ?_
    rw [← hsize', hzero, Nat.zero_mod]
  constructor
  · intro hdelivers
    have hcount :=
      count_ne_zero_of_delivers hsize hobeys hrun hreturned hlength hdelivers
    exact ⟨hcount,
      credits_of_delivers hpos hsize hcount hobeys hrun hreturned hlength hdelivers⟩
  · rintro ⟨hcount, hcredits⟩
    exact delivers_of_credits hpos hsize hcount hobeys hrun hcredits

/-- Two packets in two launches, with a refusal in between. -/
theorem delivers_iff_credits_refused :
    Delivers ⟨8, .high⟩ 16 .data0
      [⟨{ halt := true, acknowledgement := true, transferComplete := true }, 1⟩,
        ⟨{ halt := true, negativeAcknowledgement := true }, 1⟩,
        ⟨{ halt := true, acknowledgement := true, transferComplete := true }, 0⟩] := by
  have hobeys : channel.StepsMeet Obeys (transferIn ⟨8, .high⟩ 16 .data0 blank)
      [⟨{ halt := true, acknowledgement := true, transferComplete := true }, 1⟩,
        ⟨{ halt := true, negativeAcknowledgement := true }, 1⟩,
        ⟨{ halt := true, acknowledgement := true, transferComplete := true }, 0⟩] :=
    ⟨Nat.le_of_ble_eq_true rfl, Nat.le_of_ble_eq_true rfl, Nat.le_of_ble_eq_true rfl, trivial⟩
  refine (delivers_iff_credits (by decide) hobeys rfl rfl (by decide)).mpr
    ⟨by decide, ?_, ?_, ?_, trivial⟩
  · rintro sendCtrl hjudge -
    cases hjudge
    exact ⟨rfl, Or.inl rfl⟩
  · rintro sendCtrl hjudge -
    cases hjudge
    exact ⟨rfl, Or.inl rfl⟩
  · rintro sendCtrl hjudge -
    cases hjudge
    exact ⟨rfl, Or.inl rfl⟩

/-- A packet that is counted off before a refusal is lost: the second one is copied to the start
of the buffer. -/
theorem not_delivers_before_refusal :
    ¬ ∀ pipe size packetId responses, size ≤ dmaBufferSize →
      (∀ m, channel.StepsMeet Obeys (transferIn pipe size packetId m) responses) →
      Delivers pipe size packetId responses := by
  intro hholds
  have hdelivers := hholds ⟨8, .high⟩ 16 .data0
    [⟨{ halt := true, negativeAcknowledgement := true }, 1⟩,
      ⟨{ halt := true, acknowledgement := true, transferComplete := true }, 0⟩]
    (by decide) fun m => ⟨Nat.le_of_ble_eq_true rfl, Nat.le_of_ble_eq_true rfl, trivial⟩
  have hfirst := hdelivers ⟨fun _ => 0, fun _ => 0, fun i => if i < 8 then 1 else 2⟩ _ 16 rfl rfl
    (by decide) 0 (by decide)
  exact absurd hfirst (by decide)

end Delivers

end RPiKernel.Usb
