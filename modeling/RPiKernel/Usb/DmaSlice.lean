import RPiKernel.Usb.TransferIn
import Mathlib.Data.Set.BooleanAlgebra
import Mathlib.Order.CompletePartialOrder
import Mathlib.Order.Interval.Set.Basic

/-!
# The DMA slice of a channel

`HCDHost::Make` gives every channel a slice of the DMA memory. `TransferIn` has no limit on the
length of its buffer: it has the controller write as many bytes from the start of the slice on as
it programs, and copies as many bytes from there as it derives from the packet counts.

## Implementation notes

The transfer size register has nineteen bits for the size. What the controller writes after one of
several launches is what is left of the size that has been programmed. An address is an index into
the DMA memory.
-/

namespace RPiKernel.Usb

open Machine Transition

/-- The addresses that `HCDHost::Make` gives a channel, of `MaxPacketSize` bytes. -/
def dmaSlice (channel : Nat) : Set Nat :=
  Set.Ico (channel * dmaBufferSize) (channel * dmaBufferSize + dmaBufferSize)

/-- The first addresses from the start of the slice of a channel on. -/
def fromSlice (channel size : Nat) : Set Nat :=
  Set.Ico (channel * dmaBufferSize) (channel * dmaBufferSize + size)

theorem fromSlice_subset_iff (channel size : Nat) :
    fromSlice channel size ⊆ dmaSlice channel ↔ size ≤ dmaBufferSize := by
  constructor
  · intro h
    by_contra hsize
    have hlast : channel * dmaBufferSize + dmaBufferSize ∈ fromSlice channel size :=
      ⟨by omega, by omega⟩
    exact lt_irrefl _ (h hlast).2
  · exact fun h => Set.Ico_subset_Ico le_rfl (by omega)

/-- No two channels share an address. -/
theorem disjoint_dmaSlice {channel other : Nat} (h : channel ≠ other) :
    Disjoint (dmaSlice channel) (dmaSlice other) := by
  rw [Set.disjoint_left]
  rintro a ⟨hlow, hhigh⟩ ⟨hlow', hhigh'⟩
  rw [dmaBufferSize] at hlow hhigh hlow' hhigh'
  omega

/-- The size in the transfer size register. -/
def Transfer.programmedSize (t : Transfer) : Nat := t.transferSizeInBytes % 2 ^ 19

/-- The number of bytes that are copied from the DMA buffer after an answer. -/
def Transfer.copied (t : Transfer) (r : Response) : Nat :=
  match judge t.isLowSpeed t.sendCtrl r.interrupts (t.point = .launched) with
  | .fail _ => 0
  | .resend _ => 0
  | .account sendCtrl => if sendCtrl.success then (t.transmit r.packetCount).transferred else 0

/-- A launch, and what is copied after it, keep to the slice of the channel. -/
structure KeepsToSlice (channel : Nat) (t : Transfer) (r : Response) : Prop where
  written : t.point = .launched → fromSlice channel t.programmedSize ⊆ dmaSlice channel
  read : fromSlice channel (t.copied r) ⊆ dmaSlice channel

/-- Every run whose answers meet a condition keeps to the slice of the channel. -/
def Transfer.StaysInSlice (answers : Transfer → Response → Prop) (n : Nat) (t : Transfer) : Prop :=
  ∀ responses t', channel.run t responses = some t' → channel.StepsMeet answers t responses →
    channel.StepsMeet (KeepsToSlice n) t responses

/-- The size of the packets that the copies count with. -/
def packetSizeOf (pipe : UsbPipe) : Nat :=
  if pipe.speed = .low then 8 else pipe.maxPacketSizeInBytes.toNat

section Steps

variable {t t' : Transfer} {r : Response} {n : Nat}

theorem keepsToSlice_iff :
    KeepsToSlice n t r ↔
      (t.point = .launched → t.programmedSize ≤ dmaBufferSize) ∧ t.copied r ≤ dmaBufferSize := by
  rw [← fromSlice_subset_iff n, ← fromSlice_subset_iff n]
  exact ⟨fun h => ⟨h.written, h.read⟩, fun h => ⟨h.1, h.2⟩⟩

/-- What the end of the loop leaves alone, and the packets of its next round. -/
theorem shape_account (t : Transfer) :
    t.account.transferSizeInBytes = t.transferSizeInBytes ∧
      t.account.packetCount = t.packetCount ∧
      t.account.packetSizeInBytes = t.packetSizeInBytes ∧
      t.account.currentPacketCount = t.packetsLeft ∧ t.account.packetsLeft = t.packetsLeft ∧
      (t.account.Waits → 0 < t.packetsLeft) := by
  have hlaunch : ∀ t : Transfer, t.launch.transferSizeInBytes = t.transferSizeInBytes ∧
      t.launch.packetCount = t.packetCount ∧ t.launch.packetSizeInBytes = t.packetSizeInBytes ∧
      t.launch.currentPacketCount = t.currentPacketCount ∧
      t.launch.packetsLeft = t.packetsLeft ∧ (t.launch.Waits → 0 < t.currentPacketCount) := by
    intro t
    rw [Transfer.launch]
    split
    · next hpos => exact ⟨rfl, rfl, rfl, rfl, rfl, fun _ => hpos⟩
    · exact ⟨rfl, rfl, rfl, rfl, rfl, fun h => absurd h (Transfer.not_waits_of_completed rfl)⟩
  rw [Transfer.account]
  dsimp only
  split
  · exact hlaunch _
  · exact hlaunch _

/-- The dimensions of a transfer, with the size of its packets, never change. -/
theorem shape_next (hnext : t.next r = some t') :
    t'.transferSizeInBytes = t.transferSizeInBytes ∧ t'.packetCount = t.packetCount ∧
      t'.packetSizeInBytes = t.packetSizeInBytes := by
  obtain ⟨-, ⟨sendCtrl, -, rfl⟩ | ⟨sendCtrl, -, rfl⟩ | ⟨sendCtrl, -, rfl⟩⟩ :=
    Transfer.next_cases hnext
  · exact ⟨rfl, rfl, rfl⟩
  · exact ⟨rfl, rfl, rfl⟩
  · obtain ⟨hsize, hcount, hpacket, -⟩ := shape_account { t.transmit r.packetCount with sendCtrl }
    exact ⟨hsize, hcount, hpacket⟩

/-- What is copied is what the packets counted off are taken for, or nothing. -/
theorem copied_le {size : Nat} (h : (t.transmit r.packetCount).transferred ≤ size) :
    t.copied r ≤ size := by
  rw [Transfer.copied]
  split
  · exact Nat.zero_le _
  · exact Nat.zero_le _
  · split
    · exact h
    · exact Nat.zero_le _

/-- The bytes that the packets counted off by an answer are taken for. -/
theorem transferred_transmit (t : Transfer) (p : Nat) :
    (t.transmit p).transferred =
      if p % maxPacketCount > 0 then
        mul32 (sub32 t.currentPacketCount (p % maxPacketCount)) t.packetSizeInBytes
      else
        sub32 t.transferSizeInBytes
          (mul32 (sub32 t.packetCount t.currentPacketCount) t.packetSizeInBytes) :=
  rfl

/-- A transfer that counts no bytes copies none. -/
theorem transferred_of_packetSize_zero (hpacket : t.packetSizeInBytes = 0)
    (hsize : t.transferSizeInBytes = 0) : t.transferred = 0 := by
  rw [Transfer.transferred, hpacket, hsize, mul32, mul32, Nat.mul_zero, Nat.mul_zero]
  split
  · rfl
  · rfl

end Steps

/-- A transfer of no more bytes than the slice has, whose packets before the last one do not hold
more than all of it; or the register reads zero at once. -/
structure WithinSlice (t : Transfer) : Prop where
  size_le : t.transferSizeInBytes ≤ dmaBufferSize
  count_le : t.packetCount ≤ maxPacketCount
  left_le : t.packetsLeft ≤ t.currentPacketCount
  left_lt : t.packetsLeft < maxPacketCount
  current_pos : 0 < t.currentPacketCount
  current_le : t.currentPacketCount ≤ t.packetCount
  before_last : t.packetSizeInBytes * (t.packetCount - 1) ≤ t.transferSizeInBytes ∨
    t.packetsLeft = 0 ∧ t.currentPacketCount = t.packetCount

section Obeying

variable {t t' : Transfer} {r : Response} {responses : List Response} {n : Nat}

theorem WithinSlice.transmit_left (h : WithinSlice t) (hobeys : Obeys t r) :
    (t.transmit r.packetCount).packetsLeft = r.packetCount := by
  have hlt := h.left_lt
  rw [Obeys] at hobeys
  exact Nat.mod_eq_of_lt (by omega)

/-- The packets counted off are taken for no more than the transfer. -/
theorem WithinSlice.transferred_le (h : WithinSlice t) (hobeys : Obeys t r) :
    (t.transmit r.packetCount).transferred ≤ dmaBufferSize := by
  have hsize := h.size_le
  have hcount := h.count_le
  have hcurrent := h.current_le
  have hpos := h.current_pos
  have hleft := h.left_le
  have hbuffer : dmaBufferSize = 1024 := rfl
  have hmax : maxPacketCount = 1024 := rfl
  rw [Obeys] at hobeys
  have hreg : r.packetCount % maxPacketCount = r.packetCount := h.transmit_left hobeys
  rw [transferred_transmit, hreg]
  split
  · next hmore =>
    have hbefore := h.before_last.resolve_right fun hzero => by omega
    have hcounted : (t.currentPacketCount - r.packetCount) * t.packetSizeInBytes ≤
        t.transferSizeInBytes := by
      rw [Nat.mul_comm]
      exact (Nat.mul_le_mul_left _ (by omega)).trans hbefore
    have hsub : sub32 t.currentPacketCount r.packetCount =
        t.currentPacketCount - r.packetCount := by
      rw [sub32]
      omega
    rw [hsub, mul32, Nat.mod_eq_of_lt (by omega)]
    omega
  · have hsub : sub32 t.packetCount t.currentPacketCount = t.packetCount - t.currentPacketCount := by
      rw [sub32]
      omega
    have hcounted : (t.packetCount - t.currentPacketCount) * t.packetSizeInBytes ≤
        t.transferSizeInBytes := by
      obtain hbefore | ⟨-, hall⟩ := h.before_last
      · rw [Nat.mul_comm]
        exact (Nat.mul_le_mul_left _ (by omega)).trans hbefore
      · rw [hall, Nat.sub_self, Nat.zero_mul]
        exact Nat.zero_le _
    rw [hsub, mul32, Nat.mod_eq_of_lt (by omega), sub32]
    omega

theorem WithinSlice.keepsToSlice (h : WithinSlice t) (hobeys : Obeys t r) :
    KeepsToSlice n t r :=
  keepsToSlice_iff.mpr
    ⟨fun _ => (Nat.mod_le _ _).trans h.size_le, copied_le (h.transferred_le hobeys)⟩

theorem WithinSlice.next (h : WithinSlice t) (hobeys : Obeys t r) (hnext : t.next r = some t')
    (hwaits : t'.Waits) : WithinSlice t' := by
  have hleft := h.left_le
  have hlt := h.left_lt
  have hcurrent := h.current_le
  have hreg := h.transmit_left hobeys
  rw [Obeys] at hobeys
  obtain ⟨-, ⟨sendCtrl, -, rfl⟩ | ⟨sendCtrl, -, rfl⟩ | ⟨sendCtrl, -, rfl⟩⟩ :=
    Transfer.next_cases hnext
  · exact absurd hwaits (Transfer.not_waits_of_failed rfl)
  · exact
      { size_le := h.size_le
        count_le := h.count_le
        left_le := hreg.le.trans (hobeys.trans hleft)
        left_lt := hreg.trans_lt (hobeys.trans_lt hlt)
        current_pos := h.current_pos
        current_le := hcurrent
        before_last := h.before_last.imp_right fun ⟨hzero, hall⟩ =>
          ⟨hreg.trans (Nat.le_zero.mp (hobeys.trans hzero.le)), hall⟩ }
  · obtain ⟨hsize, hcount, hpacket, hnow, hregister, hpos⟩ :=
      shape_account { t.transmit r.packetCount with sendCtrl }
    have hmore : 0 < r.packetCount := hreg ▸ hpos hwaits
    have hbefore := h.before_last.resolve_right fun hzero => by omega
    exact
      { size_le := hsize.trans_le h.size_le
        count_le := hcount.trans_le h.count_le
        left_le := hregister.le.trans hnow.ge
        left_lt := hregister.trans_lt (hreg.trans_lt (hobeys.trans_lt hlt))
        current_pos := (hpos hwaits).trans_le hnow.ge
        current_le := by
          rw [hnow, hcount]
          exact hreg.le.trans (hobeys.trans (hleft.trans hcurrent))
        before_last := by
          rw [hsize, hcount, hpacket]
          exact .inl hbefore }

/-- A run keeps to the slice while the controller obeys. -/
theorem WithinSlice.run (h : t.Waits → WithinSlice t) (hrun : channel.run t responses = some t')
    (hobeys : channel.StepsMeet Obeys t responses) :
    channel.StepsMeet (KeepsToSlice n) t responses := by
  induction responses generalizing t with
  | nil => trivial
  | cons r responses ih =>
    obtain ⟨t₁, hnext, hrest⟩ := System.run_cons hrun
    obtain ⟨hfirst, hlater⟩ := (System.stepsMeet_cons hnext responses).mp hobeys
    have hwithin := h (Transfer.next_cases hnext).1
    refine (System.stepsMeet_cons hnext responses).mpr ⟨hwithin.keepsToSlice hfirst, ?_⟩
    exact ih (hwithin.next hfirst hnext) hrest hlater

end Obeying

/-- The acknowledgement of a complete transfer, with the packets that are left. -/
def done (packetCount : Nat) : Response :=
  ⟨{ halt := true, acknowledgement := true, transferComplete := true }, packetCount⟩

section Violation

variable {t : Transfer} {n p : Nat} {success : Bool}

theorem judge_done (isLowSpeed success : Bool) (p : Nat) :
    judge isLowSpeed { success } (done p).interrupts true = .account { success := true } := by
  cases isLowSpeed <;> cases success <;> rfl

/-- A launch that is acknowledged is accounted for. -/
theorem next_done (hpoint : t.point = .launched) (hcontrol : t.sendCtrl = { success }) (p : Nat) :
    t.next (done p) =
    some (Transfer.account { t.transmit p with sendCtrl := { success := true } }) := by
  have hjudge := judge_done t.isLowSpeed success p
  rw [Transfer.next, hpoint]
  change some (match judge t.isLowSpeed t.sendCtrl (done p).interrupts true with
    | .fail sendCtrl => { t.transmit p with sendCtrl, point := .failed }
    | .resend sendCtrl => { t.transmit p with sendCtrl, point := .resent }
    | .account sendCtrl => Transfer.account { t.transmit p with sendCtrl }) = _
  rw [hcontrol, hjudge]

theorem copied_done (hpoint : t.point = .launched) (hcontrol : t.sendCtrl = { success }) (p : Nat) :
    t.copied (done p) = (t.transmit p).transferred := by
  have hjudge := judge_done t.isLowSpeed success p
  rw [Transfer.copied, hpoint, hcontrol, decide_eq_true rfl, hjudge]
  exact if_pos rfl

theorem launched_account (hleft : 0 < t.packetsLeft) : t.account.point = .launched := by
  have hlaunch : ∀ t : Transfer, 0 < t.currentPacketCount → t.launch.point = .launched := by
    intro t hpos
    rw [Transfer.launch, if_pos hpos]
  rw [Transfer.account]
  dsimp only
  split
  · exact hlaunch _ hleft
  · exact hlaunch _ hleft

/-- A round after which one packet is left. -/
theorem exists_next_one (hpoint : t.point = .launched) (hcontrol : t.sendCtrl = { success }) :
    ∃ t₁, t.next (done 1) = some t₁ ∧ t₁.point = .launched ∧ t₁.sendCtrl = { success := true } ∧
      t₁.currentPacketCount = 1 ∧ t₁.packetsLeft = 1 ∧
      t₁.transferSizeInBytes = t.transferSizeInBytes ∧ t₁.packetCount = t.packetCount ∧
      t₁.packetSizeInBytes = t.packetSizeInBytes := by
  have hleft : (t.transmit 1).packetsLeft = 1 := Nat.mod_eq_of_lt (by decide)
  obtain ⟨hsize, hcount, hpacket, hcurrent, hregister, -⟩ :=
    shape_account { t.transmit 1 with sendCtrl := { success := true } }
  exact ⟨_, next_done hpoint hcontrol 1, launched_account (hleft.symm ▸ Nat.one_pos),
    (registers_account _).1, hcurrent.trans hleft, hregister.trans hleft, hsize, hcount, hpacket⟩

/-- An answer that has the copy leave the slice. -/
theorem not_stays_of_first {answers : Transfer → Response → Prop} (hpoint : t.point = .launched)
    (hcontrol : t.sendCtrl = { success }) (hanswer : answers t (done p))
    (hcopied : dmaBufferSize < (t.transmit p).transferred) : ¬ t.StaysInSlice answers n := by
  intro hstays
  have hnext := next_done hpoint hcontrol p
  have hmeets := hstays [done p] _ (System.run_cons_of_next hnext [])
    ((System.stepsMeet_cons hnext []).mpr ⟨hanswer, trivial⟩)
  have hread := (keepsToSlice_iff.mp ((System.stepsMeet_cons hnext []).mp hmeets).1).2
  rw [copied_done hpoint hcontrol] at hread
  omega

/-- Two answers, of which the second one has the copy leave the slice. -/
theorem not_stays_of_second {answers : Transfer → Response → Prop} (hpoint : t.point = .launched)
    (hcontrol : t.sendCtrl = { success }) (hfirst : answers t (done 1))
    (hsecond : ∀ t₁, t.next (done 1) = some t₁ → t₁.packetsLeft = 1 → answers t₁ (done p))
    (hcopied : dmaBufferSize <
      if p % maxPacketCount > 0 then mul32 (sub32 1 (p % maxPacketCount)) t.packetSizeInBytes
      else sub32 t.transferSizeInBytes (mul32 (sub32 t.packetCount 1) t.packetSizeInBytes)) :
    ¬ t.StaysInSlice answers n := by
  obtain ⟨t₁, hnext, hpoint₁, hcontrol₁, hcurrent, hleft, hsize, hcount, hpacket⟩ :=
    exists_next_one hpoint hcontrol
  have hnext₁ := next_done hpoint₁ hcontrol₁ p
  intro hstays
  have hmeets := hstays [done 1, done p] _
    ((System.run_cons_of_next hnext _).trans (System.run_cons_of_next hnext₁ []))
    ((System.stepsMeet_cons hnext _).mpr ⟨hfirst,
      (System.stepsMeet_cons hnext₁ []).mpr ⟨hsecond t₁ hnext hleft, trivial⟩⟩)
  have hlater := ((System.stepsMeet_cons hnext _).mp hmeets).2
  have hread := (keepsToSlice_iff.mp ((System.stepsMeet_cons hnext₁ []).mp hlater).1).2
  have htransferred : (t₁.transmit p).transferred =
      if p % maxPacketCount > 0 then mul32 (sub32 1 (p % maxPacketCount)) t.packetSizeInBytes
      else sub32 t.transferSizeInBytes (mul32 (sub32 t.packetCount 1) t.packetSizeInBytes) := by
    rw [transferred_transmit, hcurrent, hsize, hcount, hpacket]
  rw [copied_done hpoint₁ hcontrol₁, htransferred] at hread
  omega

end Violation

section Start

variable {pipe : UsbPipe} {size n : Nat} {packetId : PacketId} {memory : ChannelMemory}
  {answers : Transfer → Response → Prop}

/-- Without a packet nothing is launched. -/
theorem staysInSlice_of_no_packet (hcount : packetCountOf pipe (size % 2 ^ 32) = 0) :
    (transferIn pipe size packetId memory).StaysInSlice answers n := by
  have hpoint : (transferIn pipe size packetId memory).point = .completed := by
    rw [transferIn, launch_of_zero hcount]
  intro responses t' hrun _
  cases responses with
  | nil => trivial
  | cons r responses =>
    obtain ⟨t₁, hnext, -⟩ := System.run_cons hrun
    exact absurd (Transfer.next_cases hnext).1 (Transfer.not_waits_of_completed hpoint)

/-- What is programmed and copied of an empty transfer whose packets are taken for none. -/
theorem staysInSlice_of_empty {t : Transfer} (hpacket : t.packetSizeInBytes = 0)
    (hsize : t.transferSizeInBytes = 0) : t.StaysInSlice answers n := by
  intro responses
  induction responses generalizing t with
  | nil => exact fun _ _ _ => trivial
  | cons r responses ih =>
    intro t' hrun hmeets
    obtain ⟨t₁, hnext, hrest⟩ := System.run_cons hrun
    obtain ⟨hsize₁, -, hpacket₁⟩ := shape_next hnext
    have hlater := ih (hpacket₁.trans hpacket) (hsize₁.trans hsize) t' hrest
      ((System.stepsMeet_cons hnext responses).mp hmeets).2
    refine (System.stepsMeet_cons hnext responses).mpr ⟨keepsToSlice_iff.mpr ⟨fun _ => ?_, ?_⟩, hlater⟩
    · rw [Transfer.programmedSize, hsize]
      exact Nat.zero_le _
    · have hnone : (t.transmit r.packetCount).transferred = 0 :=
        transferred_of_packetSize_zero hpacket hsize
      exact (copied_le hnone.le).trans (Nat.zero_le _)

/-- A transfer that is longer than the slice is copied whole after its only launch. -/
theorem not_stays_of_long (hcount : 0 < packetCountOf pipe (size % 2 ^ 32))
    (hlong : dmaBufferSize < size % 2 ^ 32)
    (hanswer : answers (transferIn pipe size packetId memory) (done 0)) :
    ¬ (transferIn pipe size packetId memory).StaysInSlice answers n := by
  rw [transferIn_eq hcount] at hanswer ⊢
  refine @not_stays_of_first _ n 0 false answers rfl rfl hanswer ?_
  have hself : ∀ a, sub32 a a = 0 := by
    intro a
    rw [sub32]
    omega
  rw [transferred_transmit, if_neg (by decide), Transfer.program]
  dsimp only
  rw [hself, mul32, Nat.zero_mul, Nat.zero_mod, sub32]
  omega

theorem packetSizeOf_lt (pipe : UsbPipe) : packetSizeOf pipe < 65536 := by
  rw [packetSizeOf]
  split
  · decide
  · exact pipe.maxPacketSizeInBytes.toNat_lt

/-- A packet count that goes up is taken for more bytes than there are. -/
theorem not_stays_of_increase (hcount : 0 < packetCountOf pipe (size % 2 ^ 32))
    (hpacket : 0 < packetSizeOf pipe) :
    ¬ (transferIn pipe size packetId memory).StaysInSlice (fun _ _ => True) n := by
  rw [transferIn_eq hcount]
  refine @not_stays_of_second _ n 2 false _ rfl rfl trivial (fun _ _ _ => trivial) ?_
  rw [if_pos (by decide)]
  change dmaBufferSize < mul32 (sub32 1 2) (packetSizeOf pipe)
  have hbyte := packetSizeOf_lt pipe
  have hbuffer : dmaBufferSize = 1024 := rfl
  have hwrapped : sub32 1 2 = 4294967295 := rfl
  have hproduct : 4294967295 * packetSizeOf pipe =
      4294967296 - packetSizeOf pipe + 4294967296 * (packetSizeOf pipe - 1) := by omega
  rw [hwrapped, mul32, hproduct, Nat.add_mul_mod_self_left]
  omega

/-- Packets that are taken for more than the transfer, before the last one. -/
theorem not_stays_of_packets (hcount : packetCountOf pipe (size % 2 ^ 32) < maxPacketCount)
    (hsize : size % 2 ^ 32 ≤ dmaBufferSize)
    (hbefore : size % 2 ^ 32 < packetSizeOf pipe * (packetCountOf pipe (size % 2 ^ 32) - 1)) :
    ¬ (transferIn pipe size packetId memory).StaysInSlice Obeys n := by
  have hmax : maxPacketCount = 1024 := rfl
  have hbuffer : dmaBufferSize = 1024 := rfl
  have hmore : 2 ≤ packetCountOf pipe (size % 2 ^ 32) := by
    by_contra hfew
    rw [show packetCountOf pipe (size % 2 ^ 32) - 1 = 0 by omega, Nat.mul_zero] at hbefore
    omega
  rw [transferIn_eq (by omega)]
  have hregister : (Transfer.program .directionIn pipe size packetId memory).packetsLeft =
      packetCountOf pipe (size % 2 ^ 32) := Nat.mod_eq_of_lt hcount
  refine @not_stays_of_second _ n 0 false _ rfl rfl ?_ (fun _ _ _ => Nat.zero_le _) ?_
  · rw [Obeys, hregister]
    exact (Nat.le_succ 1).trans hmore
  rw [if_neg (by decide)]
  change dmaBufferSize < sub32 (size % 2 ^ 32)
    (mul32 (sub32 (packetCountOf pipe (size % 2 ^ 32)) 1) (packetSizeOf pipe))
  have hbyte := packetSizeOf_lt pipe
  have hprevious : sub32 (packetCountOf pipe (size % 2 ^ 32)) 1 =
      packetCountOf pipe (size % 2 ^ 32) - 1 := by
    rw [sub32]
    omega
  have hfew : packetSizeOf pipe * (packetCountOf pipe (size % 2 ^ 32) - 1) ≤ 65536 * 1024 :=
    Nat.mul_le_mul hbyte.le (by omega)
  have hproduct : mul32 (packetCountOf pipe (size % 2 ^ 32) - 1) (packetSizeOf pipe) =
      packetSizeOf pipe * (packetCountOf pipe (size % 2 ^ 32) - 1) := by
    rw [mul32, Nat.mul_comm]
    exact Nat.mod_eq_of_lt (by omega)
  rw [hprevious, hproduct, sub32]
  omega

/-- Packets that are taken for no bytes carry none. -/
theorem size_eq_zero (hcount : packetCountOf pipe size ≠ 0) (hpacket : packetSizeOf pipe = 0) :
    size = 0 := by
  by_contra hsize
  rw [packetSizeOf] at hpacket
  split at hpacket
  · exact absurd hpacket (by decide)
  · apply hcount
    rw [packetCountOf, if_neg hsize, hpacket, Nat.div_zero]

theorem packetCountOf_le_maxPacketCount (hsize : size ≤ dmaBufferSize) :
    packetCountOf pipe size ≤ maxPacketCount := by
  obtain rfl | hpos := Nat.eq_zero_or_pos size
  · rw [packetCountOf, if_pos rfl]
    decide
  · exact (packetCountOf_le hpos hsize).trans hsize

/-- An IN transfer as it starts. -/
theorem withinSlice_transferIn (hcount : 0 < packetCountOf pipe (size % 2 ^ 32))
    (hsize : size % 2 ^ 32 ≤ dmaBufferSize)
    (hbefore : packetCountOf pipe (size % 2 ^ 32) = maxPacketCount ∨
      packetSizeOf pipe * (packetCountOf pipe (size % 2 ^ 32) - 1) ≤ size % 2 ^ 32) :
    WithinSlice (transferIn pipe size packetId memory) := by
  rw [transferIn_eq hcount]
  exact
    { size_le := hsize
      count_le := packetCountOf_le_maxPacketCount hsize
      left_le := Nat.mod_le _ _
      left_lt := Nat.mod_lt _ (by decide)
      current_pos := hcount
      current_le := le_rfl
      before_last := by
        obtain hall | hbefore := hbefore
        · refine .inr ⟨?_, rfl⟩
          change packetCountOf pipe (size % 2 ^ 32) % maxPacketCount = 0
          rw [hall, Nat.mod_self]
        · exact .inl hbefore }

/-- An IN transfer keeps to the slice of its channel whatever the packet counts are exactly if it
launches nothing or takes no packet for a byte. While the packet counts do not go up, it does so
exactly if it launches nothing, or the slice holds its buffer and the buffer the packets before the
last one. -/
theorem transferIn_staysInSlice_iff (pipe : UsbPipe) (size : Nat) (packetId : PacketId)
    (memory : ChannelMemory) (n : Nat) :
    ((transferIn pipe size packetId memory).StaysInSlice (fun _ _ => True) n ↔
      packetCountOf pipe (size % 2 ^ 32) = 0 ∨ packetSizeOf pipe = 0) ∧
    ((transferIn pipe size packetId memory).StaysInSlice Obeys n ↔
      packetCountOf pipe (size % 2 ^ 32) = 0 ∨ size % 2 ^ 32 ≤ dmaBufferSize ∧
        (packetCountOf pipe (size % 2 ^ 32) = maxPacketCount ∨
          packetSizeOf pipe * (packetCountOf pipe (size % 2 ^ 32) - 1) ≤ size % 2 ^ 32)) := by
  obtain hcount | hcount := Nat.eq_zero_or_pos (packetCountOf pipe (size % 2 ^ 32))
  · exact ⟨iff_of_true (staysInSlice_of_no_packet hcount) (.inl hcount),
      iff_of_true (staysInSlice_of_no_packet hcount) (.inl hcount)⟩
  rw [or_iff_right hcount.ne', or_iff_right hcount.ne']
  refine ⟨⟨fun hstays => ?_, fun hpacket => ?_⟩, fun hstays => ?_, fun ⟨hsize, hbefore⟩ => ?_⟩
  · by_contra hpacket
    exact not_stays_of_increase hcount (Nat.pos_of_ne_zero hpacket) hstays
  · have hempty := size_eq_zero hcount.ne' hpacket
    rw [transferIn_eq hcount]
    exact staysInSlice_of_empty hpacket hempty
  · have hsize : size % 2 ^ 32 ≤ dmaBufferSize := by
      by_contra hlong
      exact not_stays_of_long hcount (not_le.mp hlong) (Nat.zero_le _) hstays
    refine ⟨hsize, Decidable.or_iff_not_imp_left.mpr fun hall => ?_⟩
    by_contra hbefore
    have hlt := (packetCountOf_le_maxPacketCount hsize).lt_of_ne hall
    exact not_stays_of_packets hlt hsize (not_le.mp hbefore) hstays
  · intro responses t' hrun hobeys
    exact WithinSlice.run (fun _ => withinSlice_transferIn hcount hsize hbefore) hrun hobeys

/-- A configuration of 2000 bytes is written beyond the slice. -/
theorem not_transferIn_staysInSlice :
    ¬ ∀ (pipe : UsbPipe) (size : Nat) (packetId : PacketId) (memory : ChannelMemory) (n : Nat),
      (transferIn pipe size packetId memory).StaysInSlice (fun _ _ => True) n := by
  intro hstays
  have hlong : ¬ (transferIn ⟨64, .high⟩ 2000 .data1 ⟨fun _ => 0, fun _ => 0, fun _ => 0⟩).StaysInSlice
      (fun _ _ => True) 0 := not_stays_of_long (by decide) (by decide) trivial
  exact hlong (hstays ⟨64, .high⟩ 2000 .data1 ⟨fun _ => 0, fun _ => 0, fun _ => 0⟩ 0)

end Start

end RPiKernel.Usb
