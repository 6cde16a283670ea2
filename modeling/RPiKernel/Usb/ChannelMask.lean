import RPiKernel.Usb.HostChannels

/-!
# The interrupt mask of the USB host

A client sets the bit of a channel after it has taken it, and clears it before it puts it
back, each time with a read and a write of the mask. As long as no client writes over a
change of the mask that it has not read, the mask follows the locked channels.
-/

namespace RPiKernel.Usb

open Transition

variable {ι : Type*} [DecidableEq ι]

/-- The channel whose release has begun and is yet to clear the bit. -/
def ChannelPoint.unmasking : ChannelPoint → Option Nat
  | .readUnmask channel => some channel
  | .writeUnmask channel _ => some channel
  | _ => none

/-- The mask that a client has read and is about to write. -/
def ChannelPoint.maskRead : ChannelPoint → Option (BitVec 32)
  | .writeMask _ mask => some mask
  | .writeUnmask _ mask => some mask
  | _ => none

@[simp] theorem ChannelPoint.unmasking_idle : ChannelPoint.idle.unmasking = none := rfl

@[simp] theorem ChannelPoint.unmasking_readUnmask (c : Nat) :
    (ChannelPoint.readUnmask c).unmasking = some c :=
  rfl

@[simp] theorem ChannelPoint.unmasking_exchange (c : Nat) :
    (ChannelPoint.exchange c).unmasking = none :=
  rfl

theorem ChannelPoint.carried_of_unmasking {p : ChannelPoint} {c : Nat}
    (h : p.unmasking = some c) : p.carried = some c := by
  cases p with
  | readUnmask channel => exact h
  | writeUnmask channel mask => exact h
  | _ => cases h

namespace HostChannels

variable {n c : Nat} {s s' : HostChannels ι} {t : ι}

/-- A client that writes the mask finds it as it has read it. -/
def UpToDate (s : HostChannels ι) : ChannelAction ι → Prop
  | .step t => ∀ mask ∈ (s.point t).maskRead, s.interruptMask = mask
  | _ => True

instance (s : HostChannels ι) (action : ChannelAction ι) : Decidable (s.UpToDate action) :=
  match action with
  | .getChannel _ => isTrue trivial
  | .destroy _ _ => isTrue trivial
  | .step t => inferInstanceAs (Decidable (∀ mask ∈ (s.point t).maskRead, s.interruptMask = mask))

/-- The bits of the mask are those of the locked channels, and of those whose release has not
come to the mask. -/
def Masked (s : HostChannels ι) : Prop :=
  ∀ i, s.interruptMask.getLsbD i = true ↔
    i ∈ s.locked ∨ ∃ t, (s.point t).unmasking = some i

section Bits

theorem getLsbD_bit32 {c : Nat} (hc : c < 32) (i : Nat) :
    (1#32 <<< c).getLsbD i = decide (i = c) := by
  rw [BitVec.getLsbD_shiftLeft, BitVec.getLsbD_one, Bool.eq_iff_iff]
  simp only [Bool.and_eq_true, decide_eq_true_eq, Bool.not_eq_true', decide_eq_false_iff_not]
  omega

theorem getLsbD_setBit {c : Nat} (hc : c < 32) (mask : BitVec 32) (i : Nat) :
    (mask ||| 1#32 <<< c).getLsbD i = true ↔ i = c ∨ mask.getLsbD i = true := by
  rw [BitVec.getLsbD_or, getLsbD_bit32 hc, Bool.or_eq_true, decide_eq_true_eq, Or.comm]

theorem getLsbD_clearBit {c : Nat} (hc : c < 32) (mask : BitVec 32) (i : Nat) :
    (mask &&& ~~~(1#32 <<< c)).getLsbD i = true ↔ i ≠ c ∧ mask.getLsbD i = true := by
  rw [BitVec.getLsbD_and, BitVec.getLsbD_not, getLsbD_bit32 hc]
  simp only [Bool.and_eq_true, Bool.not_eq_true', decide_eq_true_eq, decide_eq_false_iff_not]
  constructor
  · rintro ⟨hmask, -, hne⟩
    exact ⟨hne, hmask⟩
  · rintro ⟨hne, hmask⟩
    exact ⟨hmask, BitVec.lt_of_getLsbD hmask, hne⟩

end Bits

section Steps

/-- The releases in progress when a client goes to another point. -/
theorem exists_unmasking_goTo (s : HostChannels ι) (t : ι) (p : ChannelPoint) (i : Nat) :
    (∃ u, ((s.goTo t p).point u).unmasking = some i) ↔
      p.unmasking = some i ∨ ∃ u ≠ t, (s.point u).unmasking = some i := by
  constructor
  · rintro ⟨u, hu⟩
    rcases eq_or_ne u t with rfl | hne
    · rw [goTo_point_self] at hu
      exact Or.inl hu
    · rw [goTo_point_of_ne s hne] at hu
      exact Or.inr ⟨u, hne, hu⟩
  · rintro (hp | ⟨u, hne, hu⟩)
    · exact ⟨t, by rwa [goTo_point_self]⟩
    · exact ⟨u, by rwa [goTo_point_of_ne s hne]⟩

omit [DecidableEq ι] in
theorem exists_unmasking_iff (s : HostChannels ι) (t : ι) (i : Nat) :
    (∃ u, (s.point u).unmasking = some i) ↔
      (s.point t).unmasking = some i ∨ ∃ u ≠ t, (s.point u).unmasking = some i := by
  constructor
  · rintro ⟨u, hu⟩
    rcases eq_or_ne u t with rfl | hne
    · exact Or.inl hu
    · exact Or.inr ⟨u, hne, hu⟩
  · rintro (ht | ⟨u, -, hu⟩)
    · exact ⟨t, ht⟩
    · exact ⟨u, hu⟩

omit [DecidableEq ι] in
theorem masked_make (n : Nat) : Masked (make n : HostChannels ι) := by
  intro i
  simp [make, ChannelPoint.unmasking]

/-- A client that goes on without a change of what it unmasks, or of the mask. -/
theorem Masked.goTo (h : Masked s) {p : ChannelPoint}
    (hp : p.unmasking = (s.point t).unmasking) : Masked (s.goTo t p) := by
  intro i
  rw [exists_unmasking_goTo, hp, ← exists_unmasking_iff]
  exact h i

/-- A channel is locked and its bit is set. -/
theorem Masked.lock (h : Masked s) (hc : c < 32) (hnone : (s.point t).unmasking = none) :
    Masked ({ s with
      interruptMask := s.interruptMask ||| 1#32 <<< c
      locked := c :: s.locked }.goTo t .idle) := by
  intro i
  have hbefore := h i
  rw [exists_unmasking_iff s t, hnone] at hbefore
  rw [exists_unmasking_goTo]
  simp only [HostChannels.goTo, ChannelPoint.unmasking_idle]
  rw [getLsbD_setBit hc, hbefore, List.mem_cons, or_assoc]

/-- The release of a locked channel begins. -/
theorem Masked.unlock (h : Masked s) (hnodup : s.locked.Nodup) (hmem : c ∈ s.locked)
    (hnone : (s.point t).unmasking = none) :
    Masked ({ s with locked := s.locked.erase c }.goTo t (.readUnmask c)) := by
  intro i
  have hbefore := h i
  rw [exists_unmasking_iff s t, hnone] at hbefore
  rw [exists_unmasking_goTo]
  simp only [HostChannels.goTo, ChannelPoint.unmasking_readUnmask, Option.some_inj]
  rw [hbefore, hnodup.mem_erase_iff]
  rcases eq_or_ne c i with rfl | hne
  · simp [hmem]
  · simp [hne, hne.symm]

/-- The bit of the channel that a client carries back is cleared. -/
theorem Masked.unmask (h : Masked s) (hs : Exclusive s) (hc : c < 32)
    (hunmasking : (s.point t).unmasking = some c) :
    Masked ({ s with interruptMask := s.interruptMask &&& ~~~(1#32 <<< c) }.goTo t
      (.exchange c)) := by
  intro i
  have hbefore := h i
  rw [exists_unmasking_iff s t, hunmasking, Option.some_inj] at hbefore
  rw [exists_unmasking_goTo]
  simp only [HostChannels.goTo, ChannelPoint.unmasking_exchange]
  rw [getLsbD_clearBit hc, hbefore]
  rcases eq_or_ne c i with rfl | hne
  · have hat : s.At c (.client t) := ChannelPoint.carried_of_unmasking hunmasking
    have hlocked : c ∉ s.locked := by
      intro hmem
      have hplace := (hs.at_iff hat .locked).mp hmem
      cases hplace
    have hothers : ¬ ∃ u ≠ t, (s.point u).unmasking = some c := by
      rintro ⟨u, hne, hu⟩
      have hplace := (hs.at_iff hat (.client u)).mp (ChannelPoint.carried_of_unmasking hu)
      cases hplace
      exact hne rfl
    simp [hlocked, hothers]
  · simp [hne, hne.symm]

/-- A step of a client that finds the mask as it has read it. -/
theorem Masked.stepAt (h : Masked s) (hs : Exclusive s) (hn : s.numChannels ≤ 32)
    (hup : s.UpToDate (.step t)) (hnext : s.stepAt t (s.point t) = some s') : Masked s' := by
  rw [UpToDate] at hup
  cases hpoint : s.point t with
  | idle =>
    rw [hpoint] at hnext
    cases hnext
  | load i =>
    have hnone : (s.point t).unmasking = none := by rw [hpoint]; rfl
    rw [hpoint, HostChannels.stepAt] at hnext
    split at hnext
    · cases hslot : s.freeChannels i with
      | some c =>
        simp only [hslot] at hnext
        cases hnext
        exact h.goTo hnone.symm
      | none =>
        simp only [hslot] at hnext
        cases hnext
        exact h.goTo hnone.symm
    · cases hnext
      exact h.goTo hnone.symm
  | compareExchange i c =>
    have hnone : (s.point t).unmasking = none := by rw [hpoint]; rfl
    rw [hpoint, HostChannels.stepAt] at hnext
    split at hnext
    · cases hnext
      have hslots : Masked { s with freeChannels := Function.update s.freeChannels i none } :=
        fun j => h j
      exact hslots.goTo hnone.symm
    · cases hnext
      exact h.goTo hnone.symm
  | readMask c =>
    rw [hpoint] at hnext
    cases hnext
    exact h.goTo (by rw [hpoint]; rfl)
  | writeMask c mask =>
    rw [hpoint] at hnext hup
    cases hnext
    have hc : c < s.numChannels := hs.lt c (.client t) (by rw [At, hpoint, ChannelPoint.carried])
    rw [← hup mask rfl]
    exact h.lock (by omega) (by rw [hpoint]; rfl)
  | readUnmask c =>
    rw [hpoint] at hnext
    cases hnext
    exact h.goTo (by rw [hpoint]; rfl)
  | writeUnmask c mask =>
    rw [hpoint] at hnext hup
    cases hnext
    have hc : c < s.numChannels := hs.lt c (.client t) (by rw [At, hpoint, ChannelPoint.carried])
    rw [← hup mask rfl]
    exact h.unmask hs (by omega) (by rw [hpoint]; rfl)
  | exchange c =>
    rw [hpoint] at hnext
    cases hnext
    have hslots : Masked
        { s with freeChannels := Function.update s.freeChannels c (some c) } := fun j => h j
    exact hslots.goTo (by rw [hpoint]; rfl)

theorem Masked.next (h : Masked s) (hs : Exclusive s) (hn : s.numChannels ≤ 32)
    {action : ChannelAction ι} (hup : s.UpToDate action)
    (hnext : (channelSystem ι n).next s action = some s') : Masked s' := by
  cases action with
  | getChannel t =>
    simp only [channelSystem] at hnext
    split at hnext
    · next hidle =>
      cases hnext
      exact h.goTo (by rw [hidle]; rfl)
    · cases hnext
  | destroy t c =>
    simp only [channelSystem] at hnext
    split at hnext
    · next hlocked =>
      cases hnext
      exact h.unlock hs.nodup hlocked.2 (by rw [hlocked.1]; rfl)
    · cases hnext
  | step t => exact h.stepAt hs hn hup hnext

theorem usedChannels_le (n : Nat) : usedChannels n ≤ 8 := by
  rw [usedChannels, maxChannels]
  split
  · exact le_rfl
  · omega

theorem masked_of_reachableBy (h : (channelSystem ι n).ReachableBy UpToDate s) : Masked s := by
  refine System.ReachableBy.invariant_of_reachable ?_ ?_ h
  · rintro s rfl
    exact masked_make n
  · intro s action s' hs hmasked hup hnext
    have hn : s.numChannels ≤ 8 := by
      rw [numChannels_of_reachable hs]
      exact usedChannels_le n
    exact hmasked.next (exclusive_of_reachable hs) (by omega) hup hnext

/-- No `GetChannel` and no release is in progress. -/
def Quiescent (s : HostChannels ι) : Prop := ∀ t, s.point t = .idle

end Steps

end HostChannels

open HostChannels

section Results

variable {n : Nat}

/-- In every run whose clients write the mask as they have read it, the bits that are set
between operations are those of the locked channels. -/
theorem mask_follows_locked {s : HostChannels ι} (h : (channelSystem ι n).ReachableBy UpToDate s)
    (hquiescent : Quiescent s) (i : Nat) : s.interruptMask.getLsbD i = true ↔ i ∈ s.locked := by
  have hnone : ¬ ∃ t, (s.point t).unmasking = some i := by
    rintro ⟨t, ht⟩
    rw [hquiescent t] at ht
    cases ht
  rw [masked_of_reachableBy h i, or_iff_left hnone]

/-- A client obtains a channel. -/
theorem mask_follows_locked_one :
    ∃ s, (channelSystem Bool 1).ReachableBy UpToDate s ∧ s.locked = [0] ∧
      (s.interruptMask.getLsbD 0 = true ↔ 0 ∈ s.locked) := by
  have hmake : (channelSystem Bool 1).ReachableBy UpToDate (make 1) :=
    System.ReachableBy.initial rfl
  have hcall : (channelSystem Bool 1).ReachableBy UpToDate _ :=
    System.ReachableBy.next (.getChannel true) hmake trivial rfl
  have hload : (channelSystem Bool 1).ReachableBy UpToDate _ :=
    System.ReachableBy.next (.step true) hcall (fun mask hmask => by cases hmask) rfl
  have htaken : (channelSystem Bool 1).ReachableBy UpToDate _ :=
    System.ReachableBy.next (.step true) hload (fun mask hmask => by cases hmask) rfl
  have hread : (channelSystem Bool 1).ReachableBy UpToDate _ :=
    System.ReachableBy.next (.step true) htaken (fun mask hmask => by cases hmask) rfl
  have hobtained : (channelSystem Bool 1).ReachableBy UpToDate _ :=
    System.ReachableBy.next (.step true) hread (fun mask hmask => by cases hmask; rfl) rfl
  refine ⟨_, hobtained, rfl, mask_follows_locked hobtained ?_ 0⟩
  intro t
  cases t with
  | false => rfl
  | true => rfl

/-- Two clients obtain channels, and the second writes the mask between the read and the
write of the first: its channel stays masked. -/
theorem not_mask_follows_locked :
    ∃ s, (channelSystem Bool 2).Reachable s ∧ Quiescent s ∧
      ¬ (s.interruptMask.getLsbD 1 = true ↔ 1 ∈ s.locked) := by
  have hmake : (channelSystem Bool 2).Reachable (make 2) := System.ReachableBy.initial rfl
  have hreachable : (channelSystem Bool 2).Reachable _ :=
    hmake.run
      -- the first client reads the mask, the second obtains a channel, the first writes
      ([.getChannel true, .step true, .step true, .step true, .getChannel false] ++
        List.replicate 5 (.step false) ++ [.step true]) rfl
  refine ⟨_, hreachable, ?_, by decide⟩
  intro t
  cases t with
  | false => rfl
  | true => rfl

end Results

end RPiKernel.Usb
