import RPiKernel.Usb.ChannelTransfer

/-!
# What a transfer counts

The packets that have been counted off and those that are left add up to the packet count that
the register has been given, and success is noted where an answer reports it.
-/

namespace RPiKernel.Usb

open Machine Transition

/-- The hardware does not add to the packets that are left. -/
def Obeys (t : Transfer) (r : Response) : Prop := r.packetCount ≤ t.packetsLeft

section Judge

variable {interrupts : ChannelInterrupts} {packetSplit isLaunch : Bool} {sendCtrl : UsbSendControl}

/-- A check that ends without a fatal error notes the success that is reported. -/
theorem success_of_check
    (hfatal : (hcdCheckErrorAndAction interrupts packetSplit sendCtrl).2.actionFatalError = false) :
    (hcdCheckErrorAndAction interrupts packetSplit sendCtrl).2.success =
      (sendCtrl.success || (interrupts.acknowledgement && interrupts.transferComplete)) := by
  cases hahb : interrupts.ahbError with
  | true => simp [hcdCheckErrorAndAction, hahb] at hfatal
  | false =>
    cases htoggle : interrupts.dataToggleError with
    | true => simp [hcdCheckErrorAndAction, hahb, htoggle] at hfatal
    | false =>
      cases hacknowledged : interrupts.acknowledgement with
      | true => simp [hcdCheckErrorAndAction, hahb, htoggle, hacknowledged]
      | false =>
        simp only [hcdCheckErrorAndAction, hahb, htoggle, hacknowledged, apply_ite Prod.snd,
          apply_ite UsbSendControl.success, Bool.false_eq_true, if_false, Bool.false_and,
          Bool.or_false, ite_self]

/-- A verdict that is no failure notes the success that is reported. -/
theorem success_of_judge {verdict : Verdict}
    (hjudge : judge packetSplit sendCtrl interrupts isLaunch = verdict)
    (hgoes : ∀ failed, verdict ≠ .fail failed) :
    verdict.sendCtrl.success =
      (sendCtrl.success || (interrupts.acknowledgement && interrupts.transferComplete)) := by
  rw [judge] at hjudge
  split at hjudge
  · exact absurd hjudge.symm (hgoes _)
  · dsimp only at hjudge
    split at hjudge
    · exact absurd hjudge.symm (hgoes _)
    · next hfatal =>
      rw [← hjudge, ← success_of_check (eq_false_of_ne_true hfatal)]
      simp only [apply_ite Verdict.sendCtrl, Verdict.sendCtrl_resend, Verdict.sendCtrl_account,
        apply_ite UsbSendControl.success, ite_self]

end Judge

section Tally

variable {t t' : Transfer} {r : Response} {responses : List Response}

/-- The answer reports the acknowledgement of a complete transfer. -/
def Response.reports (r : Response) : Bool :=
  r.interrupts.acknowledgement && r.interrupts.transferComplete

/-- What the head of the loop leaves alone, and when it ends the transfer. -/
theorem registers_launch (t : Transfer) :
    t.launch.sendCtrl = t.sendCtrl ∧ t.launch.packetsLeft = t.packetsLeft ∧
      t.launch.exchanged = t.exchanged ∧
      (t.launch.point = .completed → t.currentPacketCount = 0) := by
  rw [Transfer.launch]
  split
  · exact ⟨rfl, rfl, rfl, fun hpoint => by cases hpoint⟩
  · next hzero => exact ⟨rfl, rfl, rfl, fun _ => Nat.eq_zero_of_not_pos hzero⟩

theorem registers_account (t : Transfer) :
    t.account.sendCtrl = t.sendCtrl ∧ t.account.packetsLeft = t.packetsLeft ∧
      t.account.exchanged = t.exchanged ∧
      (t.account.point = .completed → t.packetsLeft = 0) := by
  cases hsuccess : t.sendCtrl.success with
  | true =>
    rw [Transfer.account, if_pos hsuccess]
    exact registers_launch _
  | false =>
    rw [Transfer.account, if_neg (by rw [hsuccess]; exact Bool.false_ne_true)]
    exact registers_launch { t with currentPacketCount := t.packetsLeft }

/-- A transfer whose packets have all been programmed or counted off, so far without failure. -/
structure Tallies (count : Nat) (t : Transfer) : Prop where
  left_lt : t.packetsLeft < maxPacketCount
  tally : t.exchanged + t.packetsLeft = count
  done : t.point = .completed → t.packetsLeft = 0

/-- A step that does not fail the transfer keeps the tally and notes the success reported. -/
theorem Tallies.next {count : Nat} (h : Tallies count t) (hobeys : Obeys t r)
    (hnext : t.next r = some t') (hgoes : t'.point ≠ .failed) :
    Tallies count t' ∧ t'.sendCtrl.success = (t.sendCtrl.success || r.reports) := by
  have hlt := h.left_lt
  have htally := h.tally
  have hobeys' : r.packetCount ≤ t.packetsLeft := hobeys
  have hmod : r.packetCount % maxPacketCount = r.packetCount := Nat.mod_eq_of_lt (by omega)
  have hleft : (t.transmit r.packetCount).packetsLeft = r.packetCount := hmod
  have hexchanged : (t.transmit r.packetCount).exchanged =
      t.exchanged + (t.packetsLeft - r.packetCount) := by
    rw [Transfer.transmit, hmod]
  obtain ⟨-, ⟨sendCtrl, -, rfl⟩ | ⟨sendCtrl, hjudge, rfl⟩ | ⟨sendCtrl, hjudge, rfl⟩⟩ :=
    Transfer.next_cases hnext
  · exact absurd rfl hgoes
  · refine ⟨⟨?_, ?_, fun hpoint => by cases hpoint⟩, ?_⟩
    · exact hleft.trans_lt (by omega)
    · change (t.transmit r.packetCount).exchanged + (t.transmit r.packetCount).packetsLeft = count
      omega
    · exact success_of_judge hjudge fun _ hfail => by cases hfail
  · obtain ⟨hcontrol, hleft', hexchanged', hdone⟩ :=
      registers_account { t.transmit r.packetCount with sendCtrl }
    refine ⟨⟨?_, ?_, ?_⟩, ?_⟩
    · rw [hleft']
      exact hleft.trans_lt (by omega)
    · rw [hleft', hexchanged']
      change (t.transmit r.packetCount).exchanged + (t.transmit r.packetCount).packetsLeft = count
      omega
    · intro hpoint
      rw [hleft']
      exact hdone hpoint
    · rw [hcontrol]
      exact success_of_judge hjudge fun _ hfail => by cases hfail

/-- Over a run that is complete the tally is kept, and a success is noted if one is reported. -/
theorem Tallies.run {count : Nat} (h : Tallies count t)
    (hobeys : channel.StepsMeet Obeys t responses) (hrun : channel.run t responses = some t')
    (hcompleted : t'.point = .completed) :
    Tallies count t' ∧
      t'.sendCtrl.success = (t.sendCtrl.success || responses.any Response.reports) := by
  induction responses generalizing t with
  | nil =>
    cases hrun
    exact ⟨h, (Bool.or_false _).symm⟩
  | cons r responses ih =>
    obtain ⟨t₁, hnext, hrest⟩ := System.run_cons hrun
    obtain ⟨hobeys, hobeysRest⟩ := (System.stepsMeet_cons hnext responses).mp hobeys
    have hgoes : t₁.point ≠ .failed := by
      intro hfailed
      cases responses with
      | nil =>
        cases hrest
        cases hfailed.symm.trans hcompleted
      | cons r' responses =>
        obtain ⟨t₂, hnext', -⟩ := System.run_cons hrest
        exact Transfer.not_waits_of_failed hfailed (Transfer.next_cases hnext').1
    obtain ⟨htallies, hnoted⟩ := h.next hobeys hnext hgoes
    obtain ⟨htallies', hnoted'⟩ := ih htallies hobeysRest hrest
    refine ⟨htallies', ?_⟩
    rw [hnoted', hnoted, List.any_cons, Bool.or_assoc]

theorem tallies_program {direction : UsbDirection} {pipe : UsbPipe} {size : Nat}
    {packetId : PacketId} {m : ChannelMemory} :
    Tallies (packetCountOf pipe (size % 2 ^ 32) % maxPacketCount)
      (Transfer.program direction pipe size packetId m).launch := by
  obtain ⟨-, hleft, hexchanged, hdone⟩ :=
    registers_launch (Transfer.program direction pipe size packetId m)
  have hlt : packetCountOf pipe (size % 2 ^ 32) % maxPacketCount < maxPacketCount :=
    Nat.mod_lt _ (by decide)
  refine ⟨hleft.trans_lt hlt, ?_, fun hpoint => ?_⟩
  · rw [hleft, hexchanged]
    exact Nat.zero_add _
  · have hzero : packetCountOf pipe (size % 2 ^ 32) = 0 := hdone hpoint
    rw [hleft]
    change packetCountOf pipe (size % 2 ^ 32) % maxPacketCount = 0
    rw [hzero, Nat.zero_mod]

/-- A transfer as it starts. -/
theorem tallies_initial (h : channel.Initial t) :
    Tallies (t.packetCount % maxPacketCount) t ∧ t.sendCtrl.success = false := by
  obtain ⟨pipe, size, packetId, m, rfl | rfl⟩ := h
  · rw [(dimensions_transferIn pipe size packetId m).2]
    exact ⟨tallies_program, congrArg UsbSendControl.success (registers_launch _).1⟩
  · rw [(dimensions_transferOut pipe size packetId m).2, transferOut]
    split
    · exact ⟨⟨Nat.mod_lt _ (by decide), Nat.zero_add _, fun hpoint => by cases hpoint⟩, rfl⟩
    · exact ⟨tallies_program, congrArg UsbSendControl.success (registers_launch _).1⟩

/-- A transfer that has run to its end has exchanged the packets that the register was given. -/
theorem exchanged_of_completed (hinitial : channel.Initial t)
    (hobeys : channel.StepsMeet Obeys t responses) (hrun : channel.run t responses = some t')
    (hcompleted : t'.point = .completed) : t'.exchanged = t.packetCount % maxPacketCount := by
  have htallies := ((tallies_initial hinitial).1.run hobeys hrun hcompleted).1
  have hdone := htallies.done hcompleted
  have htally := htallies.tally
  omega

end Tally

end RPiKernel.Usb
