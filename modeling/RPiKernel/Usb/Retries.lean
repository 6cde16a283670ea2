import Mathlib.Data.Stream.Init
import RPiKernel.Usb.TransferIn

/-!
# Retries against a silent device

A device that halts the channel without ever acknowledging leaves a transfer with a number of
attempts: three launches on a high-speed pipe, and a launch with five completions of its split
on any other. Every answer uses one of them up, whatever errors it reports.
-/

namespace RPiKernel.Usb

open Machine Transition

/-- The answer halts the channel without an acknowledgement and leaves packets. -/
structure Silent (r : Response) : Prop where
  halt : r.interrupts.halt = true
  unacknowledged : r.interrupts.acknowledgement = false
  left : 0 < r.packetCount % maxPacketCount

/-- The most transmissions of a transfer that is never acknowledged. -/
def maxAttempts : UsbSpeed → Nat
  | .high => 3
  | .full => 6
  | .low => 6

section Judge

variable {interrupts : ChannelInterrupts} {packetSplit isLaunch : Bool} {sendCtrl : UsbSendControl}

/-- What a check without an acknowledgement leaves, if it is not fatal: one more attempt has
been counted, and it was not the last one. -/
structure Retried (packetSplit : Bool) (sendCtrl sendCtrl' : UsbSendControl) : Prop where
  success_eq : sendCtrl'.success = sendCtrl.success
  resend_eq : sendCtrl'.actionResendSplit = packetSplit
  split : packetSplit = true → sendCtrl'.splitTries = (sendCtrl.splitTries + 1) % 256 ∧
    sendCtrl'.splitTries ≠ 5
  packet : packetSplit = false → sendCtrl'.packetTries = (sendCtrl.packetTries + 1) % 256 ∧
    sendCtrl'.packetTries ≠ 3

theorem check_unacknowledged (hack : interrupts.acknowledgement = false)
    (hfatal : (hcdCheckErrorAndAction interrupts packetSplit sendCtrl).2.actionFatalError = false) :
    Retried packetSplit sendCtrl (hcdCheckErrorAndAction interrupts packetSplit sendCtrl).2 := by
  have hahb : interrupts.ahbError = false := by
    by_contra h
    simp [hcdCheckErrorAndAction, eq_true_of_ne_false h] at hfatal
  have htoggle : interrupts.dataToggleError = false := by
    by_contra h
    simp [hcdCheckErrorAndAction, hahb, eq_true_of_ne_false h] at hfatal
  cases packetSplit with
  | false =>
    have htries : (sendCtrl.packetTries + 1) % 256 ≠ 3 := by
      intro h
      simp [hcdCheckErrorAndAction, hahb, htoggle, hack, h] at hfatal
    constructor
    case success_eq =>
      simp [hcdCheckErrorAndAction, hahb, htoggle, hack, htries, apply_ite Prod.snd,
        apply_ite UsbSendControl.success]
    case resend_eq =>
      simp [hcdCheckErrorAndAction, hahb, htoggle, hack, htries, apply_ite Prod.snd,
        apply_ite UsbSendControl.actionResendSplit]
    case split => exact fun h => by cases h
    case packet =>
      intro _
      simp [hcdCheckErrorAndAction, hahb, htoggle, hack, htries, apply_ite Prod.snd,
        apply_ite UsbSendControl.packetTries]
  | true =>
    have htries : (sendCtrl.splitTries + 1) % 256 ≠ 5 := by
      intro h
      simp [hcdCheckErrorAndAction, hahb, htoggle, hack, h] at hfatal
    constructor
    case success_eq =>
      simp [hcdCheckErrorAndAction, hahb, htoggle, hack, htries, apply_ite Prod.snd,
        apply_ite UsbSendControl.success]
    case resend_eq =>
      -- the third serious error would be fatal
      have hserious : (interrupts.stall = false ∧ interrupts.babbleError = false) ∧
          interrupts.frameOverrun = false ∨ ¬ (sendCtrl.globalTries + 1) % 256 = 3 := by
        by_contra h
        obtain ⟨herrors, hglobal⟩ := not_or.mp h
        simp [hcdCheckErrorAndAction, hahb, htoggle, hack, htries, herrors, not_not.mp hglobal]
          at hfatal
      simpa [hcdCheckErrorAndAction, hahb, htoggle, hack, htries, apply_ite Prod.snd,
        apply_ite UsbSendControl.actionResendSplit] using hserious
    case split =>
      intro _
      simp [hcdCheckErrorAndAction, hahb, htoggle, hack, htries, apply_ite Prod.snd,
        apply_ite UsbSendControl.splitTries]
    case packet => exact fun h => by cases h

/-- The verdict on an answer without an acknowledgement: the transfer fails, or the check has
counted one more attempt, and a split is resent. -/
theorem judge_unacknowledged (hhalt : interrupts.halt = true)
    (hack : interrupts.acknowledgement = false) :
    (∃ sendCtrl', judge packetSplit sendCtrl interrupts isLaunch = .fail sendCtrl') ∨
    ∃ checked, Retried packetSplit sendCtrl checked ∧
      judge packetSplit sendCtrl interrupts isLaunch =
        if packetSplit then
          .resend (if isLaunch then { checked with splitTries := 0 } else checked)
        else
          .account (if isLaunch then { checked with splitTries := 0 } else checked) := by
  cases hfatal : (hcdCheckErrorAndAction interrupts packetSplit sendCtrl).2.actionFatalError with
  | true =>
    exact Or.inl ⟨(hcdCheckErrorAndAction interrupts packetSplit sendCtrl).2, by
      simp [judge, hhalt, hfatal]⟩
  | false =>
    have hretried := check_unacknowledged hack hfatal
    refine Or.inr ⟨_, hretried, ?_⟩
    cases isLaunch with
    | false => simp [judge, hhalt, hfatal, hretried.resend_eq]
    | true => simp [judge, hhalt, hfatal, hretried.resend_eq]

end Judge

section Attempts

variable {t t' : Transfer} {r : Response}

/-- A transfer that waits and has had no success: only splits are completed, and the attempts
that have been counted are fewer than the last one. -/
structure Struggles (t : Transfer) : Prop where
  waits : t.Waits
  success_eq : t.sendCtrl.success = false
  launched : t.isLowSpeed = false → t.point = .launched
  splitTries_lt : t.point = .resent → t.sendCtrl.splitTries < 5
  packetTries_lt : t.isLowSpeed = false → t.sendCtrl.packetTries < 3

/-- The attempts that a transfer has left. -/
def Transfer.attempts (t : Transfer) : Nat :=
  if t.isLowSpeed then
    if t.point = .launched then 6 else 5 - t.sendCtrl.splitTries
  else
    3 - t.sendCtrl.packetTries

/-- An account without success launches the next transmission while packets are left. -/
theorem account_unsuccessful (hsuccess : t.sendCtrl.success = false) (hleft : 0 < t.packetsLeft) :
    t.account.point = .launched ∧ t.account.isLowSpeed = t.isLowSpeed ∧
      t.account.sendCtrl = t.sendCtrl := by
  rw [Transfer.account, if_neg (by rw [hsuccess]; exact Bool.false_ne_true), Transfer.launch,
    if_pos hleft]
  exact ⟨rfl, rfl, rfl⟩

theorem Transfer.Waits.next (h : t.Waits) (r : Response) : ∃ t', t.next r = some t' := by
  rw [Transfer.next]
  rcases h with hpoint | hpoint
  · rw [hpoint]
    exact ⟨_, rfl⟩
  · rw [hpoint]
    exact ⟨_, rfl⟩

/-- The completion of a split uses up an attempt. -/
theorem Struggles.resent (h : Struggles t) (hsplit : t.isLowSpeed = true)
    {checked sendCtrl : UsbSendControl} (hretried : Retried true t.sendCtrl checked)
    (hcontrol : sendCtrl =
      if t.point = .launched then { checked with splitTries := 0 } else checked)
    (hspeed : t'.isLowSpeed = t.isLowSpeed) (hpoint : t'.point = .resent)
    (hkept : t'.sendCtrl = sendCtrl) : Struggles t' ∧ t'.attempts < t.attempts := by
  have hsuccess : sendCtrl.success = false := by
    rw [hcontrol, apply_ite UsbSendControl.success, ite_self, hretried.success_eq, h.success_eq]
  have htries : sendCtrl.splitTries < 5 ∧ 5 - sendCtrl.splitTries < t.attempts := by
    rw [Transfer.attempts, if_pos hsplit]
    by_cases hlaunched : t.point = .launched
    · rw [hcontrol, if_pos hlaunched, if_pos hlaunched]
      exact ⟨Nat.zero_lt_succ 4, Nat.lt_succ_self 5⟩
    · obtain ⟨hcount, hlast⟩ := hretried.split rfl
      have hlt := h.splitTries_lt (h.waits.resolve_left hlaunched)
      rw [hcontrol, if_neg hlaunched, if_neg hlaunched]
      omega
  constructor
  · constructor
    case waits => exact Or.inr hpoint
    case success_eq => rw [hkept, hsuccess]
    case launched => exact fun hfast => by cases hsplit.symm.trans (hspeed.symm.trans hfast)
    case splitTries_lt => exact fun _ => hkept ▸ htries.1
    case packetTries_lt => exact fun hfast => by cases hsplit.symm.trans (hspeed.symm.trans hfast)
  · have hattempts : t'.attempts = 5 - sendCtrl.splitTries := by
      rw [Transfer.attempts, if_pos (hspeed.trans hsplit), hpoint, hkept, if_neg (by decide)]
    rw [hattempts]
    exact htries.2

/-- Another launch uses up an attempt. -/
theorem Struggles.relaunched (h : Struggles t) (hfast : t.isLowSpeed = false)
    {checked : UsbSendControl} (hretried : Retried false t.sendCtrl checked)
    (hspeed : t'.isLowSpeed = t.isLowSpeed) (hpoint : t'.point = .launched)
    (hkept : t'.sendCtrl = { checked with splitTries := 0 }) :
    Struggles t' ∧ t'.attempts < t.attempts := by
  obtain ⟨hcount, hlast⟩ := hretried.packet rfl
  have hlt := h.packetTries_lt hfast
  have htries : t'.sendCtrl.packetTries = t.sendCtrl.packetTries + 1 := by
    rw [hkept]
    dsimp only
    omega
  constructor
  · constructor
    case waits => exact Or.inl hpoint
    case success_eq => rw [hkept, ← h.success_eq, ← hretried.success_eq]
    case launched => exact fun _ => hpoint
    case splitTries_lt => exact fun hresent => by cases hpoint.symm.trans hresent
    case packetTries_lt =>
      intro _
      omega
  · have hslow : ¬ t.isLowSpeed = true := by
      rw [hfast]
      exact Bool.false_ne_true
    rw [Transfer.attempts, Transfer.attempts, hspeed, if_neg hslow, if_neg hslow]
    omega

/-- An answer of a silent device fails the transfer or uses up an attempt. -/
theorem Struggles.next (h : Struggles t) (hr : Silent r) (hnext : t.next r = some t') :
    t'.point = .failed ∨ (Struggles t' ∧ t'.attempts < t.attempts) := by
  obtain ⟨-, hverdict⟩ := Transfer.next_cases hnext
  have hjudged := @judge_unacknowledged r.interrupts t.isLowSpeed (t.point = .launched) t.sendCtrl
    hr.halt hr.unacknowledged
  rcases hverdict with ⟨sendCtrl, hjudge, rfl⟩ | ⟨sendCtrl, hjudge, rfl⟩ | ⟨sendCtrl, hjudge, rfl⟩
  · exact Or.inl rfl
  · rw [hjudge] at hjudged
    rcases hjudged with ⟨sendCtrl', hfail⟩ | ⟨checked, hretried, hresend⟩
    · cases hfail
    · cases hspeed : t.isLowSpeed with
      | false =>
        rw [hspeed] at hresend
        cases hresend
      | true =>
        rw [hspeed] at hresend hretried
        have hcontrol := Verdict.resend.inj hresend
        simp only [decide_eq_true_eq] at hcontrol
        exact Or.inr (h.resent hspeed hretried hcontrol rfl rfl rfl)
  · rw [hjudge] at hjudged
    rcases hjudged with ⟨sendCtrl', hfail⟩ | ⟨checked, hretried, haccount⟩
    · cases hfail
    · cases hspeed : t.isLowSpeed with
      | true =>
        rw [hspeed] at haccount
        cases haccount
      | false =>
        rw [hspeed] at haccount hretried
        have hcontrol : sendCtrl = { checked with splitTries := 0 } := by
          simpa [h.launched hspeed] using Verdict.account.inj haccount
        have hsuccess : sendCtrl.success = false := by
          rw [hcontrol, ← h.success_eq, ← hretried.success_eq]
        obtain ⟨hpoint, hspeed', hkept⟩ :=
          account_unsuccessful (t := { t.transmit r.packetCount with sendCtrl }) hsuccess hr.left
        exact Or.inr (h.relaunched hspeed hretried hspeed' hpoint (hkept.trans hcontrol))

/-- A transfer that waits has an attempt left. -/
theorem Struggles.attempts_pos (h : Struggles t) : 0 < t.attempts := by
  rw [Transfer.attempts]
  cases hspeed : t.isLowSpeed with
  | false =>
    have hlt := h.packetTries_lt hspeed
    rw [if_neg Bool.false_ne_true]
    omega
  | true =>
    rw [if_pos rfl]
    split
    · decide
    · next hlaunched =>
      have hlt := h.splitTries_lt (h.waits.resolve_left hlaunched)
      omega

/-- A run of answers of a silent device fails the transfer within the attempts that it has. -/
theorem Struggles.run {n : Nat} {responses : Stream' Response} (h : Struggles t)
    (hn : t.attempts ≤ n) (hsilent : ∀ i, Silent (responses.get i)) :
    ∃ k ≤ n, ∃ t', channel.run t (responses.take k) = some t' ∧ t'.point = .failed := by
  induction n generalizing t responses with
  | zero => exact absurd h.attempts_pos (Nat.not_lt.mpr hn)
  | succ n ih =>
    obtain ⟨t', hnext⟩ := h.waits.next responses.head
    rcases h.next (hsilent 0) hnext with hfailed | ⟨hstruggles, hlt⟩
    · refine ⟨1, by omega, t', ?_, hfailed⟩
      rw [Stream'.take_succ, System.run_cons_of_next hnext]
      rfl
    · obtain ⟨k, hk, t'', hrun, hfailed⟩ := ih hstruggles (by omega) fun i => hsilent (i + 1)
      refine ⟨k + 1, by omega, t'', ?_, hfailed⟩
      rw [Stream'.take_succ, System.run_cons_of_next hnext]
      exact hrun

variable {pipe : UsbPipe} {size : Nat} {packetId : PacketId} {m : ChannelMemory}
  {direction : UsbDirection}

/-- A buffer that fits the DMA buffer has a packet. -/
theorem packetCountOf_pos (hmax : 1 ≤ pipe.maxPacketSizeInBytes.toNat)
    (hsize : size ≤ dmaBufferSize) : 0 < packetCountOf pipe size := by
  rcases Nat.eq_zero_or_pos size with rfl | hpos
  · exact Nat.one_pos
  · rw [packetCountOf_eq pipe hpos hsize]
    exact Nat.div_pos (by omega) hmax

/-- A transfer as it is launched for the first time. -/
theorem struggles_program (hcount : 0 < packetCountOf pipe (size % 2 ^ 32)) :
    Struggles (Transfer.program direction pipe size packetId m).launch ∧
      (Transfer.program direction pipe size packetId m).launch.attempts = maxAttempts pipe.speed := by
  have hlaunch : (Transfer.program direction pipe size packetId m).launch.point = .launched ∧
      (Transfer.program direction pipe size packetId m).launch.isLowSpeed =
        decide (pipe.speed ≠ .high) ∧
      (Transfer.program direction pipe size packetId m).launch.sendCtrl = {} := by
    have hcurrent : (Transfer.program direction pipe size packetId m).currentPacketCount > 0 :=
      hcount
    rw [Transfer.launch, if_pos hcurrent]
    exact ⟨rfl, rfl, rfl⟩
  obtain ⟨hpoint, hspeed, hcontrol⟩ := hlaunch
  constructor
  · constructor
    case waits => exact Or.inl hpoint
    case success_eq => rw [hcontrol]
    case launched => exact fun _ => hpoint
    case splitTries_lt => exact fun hresent => by cases hpoint.symm.trans hresent
    case packetTries_lt =>
      rw [hcontrol]
      exact fun _ => Nat.zero_lt_succ 2
  · rw [Transfer.attempts, hspeed, hpoint, hcontrol]
    cases pipe.speed
    · rfl
    · rfl
    · rfl

/-- Against a device that halts every transmission and acknowledges none, both transfers return
zero after at most three transmissions on a high-speed pipe, and six on any other. -/
theorem retries_bounded (hmax : 1 ≤ pipe.maxPacketSizeInBytes.toNat) (hsize : size ≤ dmaBufferSize)
    {responses : Stream' Response} (hsilent : ∀ i, Silent (responses.get i)) :
    ∀ t, t = transferIn pipe size packetId m ∨ t = transferOut pipe size packetId m →
      ∃ n ≤ maxAttempts pipe.speed, ∃ t', channel.run t (responses.take n) = some t' ∧
        t'.returned = some 0 := by
  have hbuffer : dmaBufferSize = 1024 := rfl
  have hmod : size % 2 ^ 32 = size := Nat.mod_eq_of_lt (by omega)
  have hcount : 0 < packetCountOf pipe (size % 2 ^ 32) := by
    rw [hmod]
    exact packetCountOf_pos hmax hsize
  have hfails : ∀ direction, ∃ n ≤ maxAttempts pipe.speed, ∃ t',
      channel.run (Transfer.program direction pipe size packetId m).launch (responses.take n) =
        some t' ∧ t'.returned = some 0 := by
    intro direction
    obtain ⟨hstruggles, hattempts⟩ := @struggles_program pipe size packetId m direction hcount
    obtain ⟨n, hn, t', hrun, hfailed⟩ := hstruggles.run hattempts.le hsilent
    refine ⟨n, hn, t', hrun, ?_⟩
    rw [Transfer.returned, hfailed]
  rintro t (rfl | rfl)
  · exact hfails .directionIn
  · rw [transferOut, if_neg (Nat.not_lt.mpr hsize)]
    exact hfails .directionOut

/-- A device that answers every transmission with a NAK. -/
def refusing : Response :=
  { interrupts := { halt := true, negativeAcknowledgement := true }, packetCount := 1 }

/-- Six transmissions are enough for a device descriptor that a slow device never sends. -/
theorem retries_bounded_refusing :
    ∃ n ≤ maxAttempts .low, ∃ t',
      channel.run (transferIn ⟨8, .low⟩ 18 .data1 ⟨fun _ => 0, fun _ => 0, fun _ => 0⟩)
        ((Stream'.const refusing).take n) = some t' ∧ t'.returned = some 0 := by
  have hmax : 1 ≤ (⟨8, .low⟩ : UsbPipe).maxPacketSizeInBytes.toNat := by decide
  have hsize : 18 ≤ dmaBufferSize := by decide
  have hsilent : ∀ i, Silent ((Stream'.const refusing).get i) :=
    fun _ => ⟨rfl, rfl, Nat.one_pos⟩
  exact retries_bounded hmax hsize hsilent _ (Or.inl rfl)

end Attempts

end RPiKernel.Usb
