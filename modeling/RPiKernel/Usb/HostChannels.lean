import Mathlib.Algebra.Order.Group.Nat
import Mathlib.Data.List.Nodup
import RPiKernel.Transition.System

/-!
# The channels of the USB host

Clients take channels out of slots with `GetChannel` and put them back when the locked
channel is destroyed. In every reachable state each channel is in one place: its slot, a
locked channel, or a client that carries it from one to the other.

## Implementation notes

A channel is known by its number. A step of a client is one access to a slot, or one access
to the interrupt mask of the host. The locked channels stand in one list: a client may
destroy a locked channel that another has obtained.
-/

namespace RPiKernel.Usb

open Transition

variable {ι : Type*} [DecidableEq ι]

def maxChannels : Nat := 8

/-- Where a client stands within `GetChannel` and `ReleaseChannel`. -/
inductive ChannelPoint
  | idle
  | load (i : Nat)
  | compareExchange (i currentChannel : Nat)
  | readMask (channel : Nat)
  | writeMask (channel : Nat) (mask : BitVec 32)
  | readUnmask (channel : Nat)
  | writeUnmask (channel : Nat) (mask : BitVec 32)
  | exchange (channel : Nat)
  deriving DecidableEq, Repr

/-- The host and its clients. `locked` holds the channels of the locked channels. -/
structure HostChannels (ι : Type*) where
  numChannels : Nat
  freeChannels : Nat → Option Nat
  interruptMask : BitVec 32
  locked : List Nat
  point : ι → ChannelPoint

namespace HostChannels

/-- The number of channels that a host uses, of those that the hardware has. -/
def usedChannels (numChannels : Nat) : Nat :=
  if numChannels > maxChannels then maxChannels else numChannels

/-- The channels of `HCDHost::Make`. -/
def make (numChannels : Nat) : HostChannels ι where
  numChannels := usedChannels numChannels
  freeChannels := fun i => if i < usedChannels numChannels then some i else none
  interruptMask := 0#32
  locked := []
  point := fun _ => .idle

/-- The client goes on to another point. -/
def goTo (s : HostChannels ι) (t : ι) (p : ChannelPoint) : HostChannels ι :=
  { s with point := Function.update s.point t p }

/-- The next step of a client that is at a point. -/
def stepAt (s : HostChannels ι) (t : ι) : ChannelPoint → Option (HostChannels ι)
  | .idle => none
  | .load i =>
      if i < s.numChannels then
        match s.freeChannels i with
        | some currentChannel => some (s.goTo t (.compareExchange i currentChannel))
        | none => some (s.goTo t (.load (i + 1)))
      else
        -- the scan begins anew after a delay
        some (s.goTo t (.load 0))
  | .compareExchange i currentChannel =>
      if s.freeChannels i = some currentChannel then
        some ({ s with freeChannels := Function.update s.freeChannels i none }.goTo t
          (.readMask currentChannel))
      else
        some (s.goTo t (.load (i + 1)))
  | .readMask channel => some (s.goTo t (.writeMask channel s.interruptMask))
  | .writeMask channel mask =>
      some ({ s with
        interruptMask := mask ||| 1#32 <<< channel
        locked := channel :: s.locked }.goTo t .idle)
  | .readUnmask channel => some (s.goTo t (.writeUnmask channel s.interruptMask))
  | .writeUnmask channel mask =>
      some ({ s with interruptMask := mask &&& ~~~(1#32 <<< channel) }.goTo t (.exchange channel))
  | .exchange channel =>
      some ({ s with
        freeChannels := Function.update s.freeChannels channel (some channel) }.goTo t .idle)

end HostChannels

inductive ChannelAction (ι : Type*)
  /-- `GetChannel` is called. -/
  | getChannel (t : ι)
  /-- A locked channel is destroyed. -/
  | destroy (t : ι) (channel : Nat)
  | step (t : ι)

def ChannelAction.client : ChannelAction ι → ι
  | .getChannel t => t
  | .destroy t _ => t
  | .step t => t

/-- The clients of a host that has been made with a number of channels. -/
def channelSystem (ι : Type*) [DecidableEq ι] (numChannels : Nat) :
    System (HostChannels ι) (ChannelAction ι) where
  Initial := fun s => s = HostChannels.make numChannels
  next := fun s action =>
    match action with
    | .getChannel t => if s.point t = .idle then some (s.goTo t (.load 0)) else none
    | .destroy t channel =>
        if s.point t = .idle ∧ channel ∈ s.locked then
          some ({ s with locked := s.locked.erase channel }.goTo t (.readUnmask channel))
        else
          none
    | .step t => s.stepAt t (s.point t)

/-- The channel that a client carries at a point: between its slot and a locked channel. -/
def ChannelPoint.carried : ChannelPoint → Option Nat
  | .idle => none
  | .load _ => none
  | .compareExchange _ _ => none
  | .readMask channel => some channel
  | .writeMask channel _ => some channel
  | .readUnmask channel => some channel
  | .writeUnmask channel _ => some channel
  | .exchange channel => some channel

/-- The places of a channel. -/
inductive Whereabouts (ι : Type*)
  | slot
  | locked
  | client (t : ι)
  deriving DecidableEq

namespace HostChannels

variable {s s' : HostChannels ι} {t : ι} {c : Nat}

def At (s : HostChannels ι) (c : Nat) : Whereabouts ι → Prop
  | .slot => s.freeChannels c = some c
  | .locked => c ∈ s.locked
  | .client t => (s.point t).carried = some c

/-- Every channel is in one place, and nothing else is in a slot, locked or carried. -/
structure Exclusive (s : HostChannels ι) : Prop where
  unique : ∀ c < s.numChannels, ∃ w, ∀ v, s.At c v ↔ v = w
  nodup : s.locked.Nodup
  slot_eq : ∀ i c, s.freeChannels i = some c → i = c
  lt : ∀ c w, s.At c w → c < s.numChannels
  /-- The channel that a client has seen in a slot is the one of the slot. -/
  expected : ∀ t i c, s.point t = .compareExchange i c → i = c

section Places

@[simp] theorem goTo_point_self (s : HostChannels ι) (t : ι) (p : ChannelPoint) :
    (s.goTo t p).point t = p := by
  simp only [goTo, Function.update_self]

theorem goTo_point_of_ne (s : HostChannels ι) {t u : ι} (hne : u ≠ t) (p : ChannelPoint) :
    (s.goTo t p).point u = s.point u := by
  simp only [goTo, Function.update_of_ne hne]

/-- A client at another point: the others carry what they did. -/
theorem at_goTo (s : HostChannels ι) (t : ι) (p : ChannelPoint) (c : Nat) (v : Whereabouts ι) :
    (s.goTo t p).At c v ↔ if v = .client t then p.carried = some c else s.At c v := by
  cases v with
  | slot => rw [if_neg (by simp), At, goTo, At]
  | locked => rw [if_neg (by simp), At, goTo, At]
  | client u =>
    rcases eq_or_ne u t with rfl | hne
    · rw [if_pos rfl, At, goTo_point_self]
    · rw [if_neg (by simpa using hne), At, goTo_point_of_ne s hne, At]

/-- A client that goes on with the channel that it carries, or with none, moves nothing. -/
theorem at_goTo_of_carried_eq {p : ChannelPoint} (hp : p.carried = (s.point t).carried)
    (c : Nat) (v : Whereabouts ι) : (s.goTo t p).At c v ↔ s.At c v := by
  rw [at_goTo]
  split
  · next hv => rw [hv, At, hp]
  · rfl

/-- What a slot that is written says of the channels. -/
theorem at_writeSlot (s : HostChannels ι) (i c : Nat) (o : Option Nat) (v : Whereabouts ι) :
    { s with freeChannels := Function.update s.freeChannels i o }.At c v ↔
      if v = .slot ∧ c = i then o = some c else s.At c v := by
  cases v with
  | slot =>
    rcases eq_or_ne c i with rfl | hne
    · simp [At]
    · simp [At, hne]
  | locked => rw [if_neg (by simp), At, At]
  | client u => rw [if_neg (by simp), At, At]

theorem at_emptySlot (s : HostChannels ι) (i c : Nat) (v : Whereabouts ι) :
    { s with freeChannels := Function.update s.freeChannels i none }.At c v ↔
      if v = .slot ∧ c = i then False else s.At c v := by
  rw [at_writeSlot, eq_false (Option.some_ne_none c).symm]

theorem at_fillSlot (s : HostChannels ι) (i c : Nat) (v : Whereabouts ι) :
    { s with freeChannels := Function.update s.freeChannels i (some i) }.At c v ↔
      if v = .slot ∧ c = i then True else s.At c v := by
  rw [at_writeSlot]
  split
  · next h => exact iff_of_true (congrArg some h.2.symm) trivial
  · rfl

theorem at_lock (s : HostChannels ι) (d c : Nat) (v : Whereabouts ι) :
    { s with locked := d :: s.locked }.At c v ↔
      if v = .locked ∧ c = d then True else s.At c v := by
  cases v with
  | slot => rw [if_neg (by simp), At, At]
  | locked =>
    rw [At, List.mem_cons, At]
    rcases eq_or_ne c d with rfl | hne
    · simp
    · simp [hne]
  | client u => rw [if_neg (by simp), At, At]

theorem at_unlock (hnodup : s.locked.Nodup) (d c : Nat) (v : Whereabouts ι) :
    { s with locked := s.locked.erase d }.At c v ↔
      if v = .locked ∧ c = d then False else s.At c v := by
  cases v with
  | slot => rw [if_neg (by simp), At, At]
  | locked =>
    rw [At, hnodup.mem_erase_iff, At]
    rcases eq_or_ne c d with rfl | hne
    · simp
    · simp [hne]
  | client u => rw [if_neg (by simp), At, At]

end Places

section Steps

variable {n : Nat}

omit [DecidableEq ι] in
theorem exclusive_make (n : Nat) : Exclusive (make n : HostChannels ι) where
  unique := by
    intro c hc
    refine ⟨.slot, fun v => ?_⟩
    cases v with
    | slot => simpa [At, make] using hc
    | locked => simp [At, make]
    | client t => simp [At, make, ChannelPoint.carried]
  nodup := List.nodup_nil
  slot_eq := by
    intro i c hslot
    simp only [make] at hslot
    split at hslot
    · exact Option.some.inj hslot
    · cases hslot
  lt := by
    intro c w hw
    cases w with
    | slot =>
      rw [At] at hw
      simp only [make] at hw ⊢
      split at hw
      · assumption
      · cases hw
    | locked => exact absurd hw List.not_mem_nil
    | client t => cases hw
  expected := fun t i c h => by cases h

omit [DecidableEq ι] in
theorem Exclusive.at_iff (h : Exclusive s) {w : Whereabouts ι} (hw : s.At c w)
    (v : Whereabouts ι) : s.At c v ↔ v = w := by
  obtain ⟨w₀, hw₀⟩ := h.unique c (h.lt c w hw)
  rw [hw₀, (hw₀ w).mp hw]

omit [DecidableEq ι] in
/-- A step that moves one channel from its place to another. -/
theorem Exclusive.move (h : Exclusive s) {w w' : Whereabouts ι} (hw : s.At c w)
    (hat : ∀ d v, s'.At d v ↔ if d = c then v = w' else s.At d v)
    (hnum : s'.numChannels = s.numChannels) :
    (∀ d < s'.numChannels, ∃ u, ∀ v, s'.At d v ↔ v = u) ∧
      ∀ d v, s'.At d v → d < s'.numChannels := by
  rw [hnum]
  constructor
  · intro d hd
    rcases eq_or_ne d c with rfl | hne
    · exact ⟨w', fun v => by rw [hat, if_pos rfl]⟩
    · obtain ⟨u, hu⟩ := h.unique d hd
      exact ⟨u, fun v => by rw [hat, if_neg hne, hu]⟩
  · intro d v hv
    rw [hat] at hv
    split at hv
    · next heq =>
      rw [heq]
      exact h.lt c w hw
    · exact h.lt d v hv

/-- The client sees at most the channel of the slot at the point it goes to. -/
theorem Exclusive.expected_goTo (h : Exclusive s) {s₀ : HostChannels ι} {p : ChannelPoint}
    (hpoint : s₀.point = s.point) (hp : ∀ i c, p = .compareExchange i c → i = c) :
    ∀ u i c, (s₀.goTo t p).point u = .compareExchange i c → i = c := by
  intro u i c hu
  rcases eq_or_ne u t with rfl | hne
  · rw [goTo_point_self] at hu
    exact hp i c hu
  · rw [goTo_point_of_ne s₀ hne, hpoint] at hu
    exact h.expected u i c hu

/-- A step without a move. -/
theorem Exclusive.goTo (h : Exclusive s) {p : ChannelPoint}
    (hp : p.carried = (s.point t).carried) (hexpected : ∀ i c, p = .compareExchange i c → i = c) :
    Exclusive (s.goTo t p) where
  unique := by
    intro c hc
    obtain ⟨w, hw⟩ := h.unique c hc
    exact ⟨w, fun v => by rw [at_goTo_of_carried_eq hp, hw]⟩
  nodup := h.nodup
  slot_eq := h.slot_eq
  lt := fun c w hw => h.lt c w ((at_goTo_of_carried_eq hp c w).mp hw)
  expected := h.expected_goTo rfl hexpected

omit [DecidableEq ι] in
theorem Exclusive.withMask (h : Exclusive s) (mask : BitVec 32) :
    Exclusive { s with interruptMask := mask } :=
  ⟨fun c hc => h.unique c hc, h.nodup, h.slot_eq, fun c w hw => h.lt c w hw, h.expected⟩

section Moves

variable {s₀ : HostChannels ι} {u : Whereabouts ι} {p : ChannelPoint}

/-- A channel goes from a slot or from the locked channels to a client that carried none. -/
theorem Exclusive.taken (h : Exclusive s) (hu : u ≠ .client t) (hthere : s.At c u)
    (hbase : ∀ d v, s₀.At d v ↔ if v = u ∧ d = c then False else s.At d v)
    (hnone : (s.point t).carried = none) (hp : p.carried = some c)
    (hnum : s₀.numChannels = s.numChannels) :
    (∀ d < s.numChannels, ∃ w, ∀ v, (s₀.goTo t p).At d v ↔ v = w) ∧
      ∀ d v, (s₀.goTo t p).At d v → d < s.numChannels := by
  have hat : ∀ d v, (s₀.goTo t p).At d v ↔ if d = c then v = .client t else s.At d v := by
    intro d v
    rw [at_goTo, hp, hbase]
    rcases eq_or_ne d c with rfl | hne
    · rw [if_pos rfl, h.at_iff hthere v]
      rcases eq_or_ne v u with rfl | hv
      · simp [hu]
      · simp [hv]
    · rw [if_neg hne]
      rcases eq_or_ne v (.client t) with rfl | hv
      · simp [At, hnone, hne.symm]
      · simp [hv, hne]
  have hmove := h.move hthere hat hnum
  rwa [show (s₀.goTo t p).numChannels = s.numChannels from hnum] at hmove

/-- The channel that a client carries goes to a slot or to the locked channels. -/
theorem Exclusive.given (h : Exclusive s) (hu : u ≠ .client t)
    (hcarried : (s.point t).carried = some c)
    (hbase : ∀ d v, s₀.At d v ↔ if v = u ∧ d = c then True else s.At d v)
    (hp : p.carried = none) (hnum : s₀.numChannels = s.numChannels) :
    (∀ d < s.numChannels, ∃ w, ∀ v, (s₀.goTo t p).At d v ↔ v = w) ∧
      ∀ d v, (s₀.goTo t p).At d v → d < s.numChannels := by
  have hthere : s.At c (.client t) := hcarried
  have hat : ∀ d v, (s₀.goTo t p).At d v ↔ if d = c then v = u else s.At d v := by
    intro d v
    rw [at_goTo, hp, hbase]
    rcases eq_or_ne d c with rfl | hne
    · rw [if_pos rfl, h.at_iff hthere v]
      rcases eq_or_ne v (.client t) with rfl | hv
      · simp [hu.symm]
      · simp [hv]
    · rw [if_neg hne]
      rcases eq_or_ne v (.client t) with rfl | hv
      · simp [At, hcarried, hne.symm]
      · simp [hv, hne]
  have hmove := h.move hthere hat hnum
  rwa [show (s₀.goTo t p).numChannels = s.numChannels from hnum] at hmove

end Moves

omit [DecidableEq ι] in
theorem slot_eq_update (h : ∀ i d, s.freeChannels i = some d → i = d) {x : Option Nat}
    (hx : ∀ d, x = some d → c = d) :
    ∀ i d, Function.update s.freeChannels c x i = some d → i = d := by
  intro i d hd
  rcases eq_or_ne i c with rfl | hne
  · rw [Function.update_self] at hd
    exact hx d hd
  · rw [Function.update_of_ne hne] at hd
    exact h i d hd

/-- The channel of a slot is taken by a client. -/
theorem Exclusive.take (h : Exclusive s) (hnone : (s.point t).carried = none)
    (hslot : s.freeChannels c = some c) :
    Exclusive ({ s with freeChannels := Function.update s.freeChannels c none }.goTo t
      (.readMask c)) := by
  obtain ⟨hunique, hlt⟩ := h.taken (u := .slot) (p := .readMask c) (by simp) hslot
    (fun d v => at_emptySlot s c d v) hnone rfl rfl
  exact ⟨hunique, h.nodup, slot_eq_update h.slot_eq (by simp), hlt, h.expected_goTo rfl (by simp)⟩

/-- The channel that a client carries is locked. -/
theorem Exclusive.lock (h : Exclusive s) (hcarried : (s.point t).carried = some c) :
    Exclusive ({ s with locked := c :: s.locked }.goTo t .idle) := by
  obtain ⟨hunique, hlt⟩ := h.given (u := .locked) (p := .idle) (by simp) hcarried
    (fun d v => at_lock s c d v) rfl rfl
  have hnew : c ∉ s.locked := by
    intro hmem
    have hlocked := (h.at_iff (w := .client t) hcarried .locked).mp hmem
    cases hlocked
  exact ⟨hunique, List.nodup_cons.mpr ⟨hnew, h.nodup⟩, h.slot_eq, hlt,
    h.expected_goTo rfl (by simp)⟩

/-- A locked channel goes to a client. -/
theorem Exclusive.unlock (h : Exclusive s) (hnone : (s.point t).carried = none)
    (hmem : c ∈ s.locked) :
    Exclusive ({ s with locked := s.locked.erase c }.goTo t (.readUnmask c)) := by
  obtain ⟨hunique, hlt⟩ := h.taken (u := .locked) (p := .readUnmask c) (by simp) hmem
    (fun d v => at_unlock h.nodup c d v) hnone rfl rfl
  exact ⟨hunique, h.nodup.erase c, h.slot_eq, hlt, h.expected_goTo rfl (by simp)⟩

/-- The channel that a client carries returns to its slot. -/
theorem Exclusive.putBack (h : Exclusive s) (hcarried : (s.point t).carried = some c) :
    Exclusive ({ s with freeChannels := Function.update s.freeChannels c (some c) }.goTo t
      .idle) := by
  obtain ⟨hunique, hlt⟩ := h.given (u := .slot) (p := .idle) (by simp) hcarried
    (fun d v => at_fillSlot s c d v) rfl rfl
  exact ⟨hunique, h.nodup, slot_eq_update h.slot_eq (by simp), hlt, h.expected_goTo rfl (by simp)⟩

/-- A step of a client, for each point that it is at. -/
theorem Exclusive.stepAt (h : Exclusive s) (hs : s.stepAt t (s.point t) = some s') :
    Exclusive s' := by
  cases hpoint : s.point t with
  | idle =>
    rw [hpoint] at hs
    cases hs
  | load i =>
    have hnone : (s.point t).carried = none := by rw [hpoint, ChannelPoint.carried]
    rw [hpoint, HostChannels.stepAt] at hs
    split at hs
    · cases hslot : s.freeChannels i with
      | some c =>
        simp only [hslot] at hs
        cases hs
        refine h.goTo hnone.symm fun j d hp => ?_
        cases hp
        exact h.slot_eq i c hslot
      | none =>
        simp only [hslot] at hs
        cases hs
        exact h.goTo hnone.symm (by simp)
    · cases hs
      exact h.goTo hnone.symm (by simp)
  | compareExchange i c =>
    have hnone : (s.point t).carried = none := by rw [hpoint, ChannelPoint.carried]
    rw [hpoint, HostChannels.stepAt] at hs
    split at hs
    · next hslot =>
      cases hs
      obtain rfl : i = c := h.expected t i c hpoint
      exact h.take hnone hslot
    · cases hs
      exact h.goTo hnone.symm (by simp)
  | readMask c =>
    rw [hpoint] at hs
    cases hs
    exact h.goTo (by rw [hpoint]; rfl) (by simp)
  | writeMask c mask =>
    rw [hpoint] at hs
    cases hs
    have hlocked := h.withMask (mask ||| 1#32 <<< c)
    exact hlocked.lock (by rw [hpoint]; rfl)
  | readUnmask c =>
    rw [hpoint] at hs
    cases hs
    exact h.goTo (by rw [hpoint]; rfl) (by simp)
  | writeUnmask c mask =>
    rw [hpoint] at hs
    cases hs
    have hunmasked := h.withMask (mask &&& ~~~(1#32 <<< c))
    exact hunmasked.goTo (by rw [hpoint]; rfl) (by simp)
  | exchange c =>
    rw [hpoint] at hs
    cases hs
    exact h.putBack (by rw [hpoint]; rfl)

theorem Exclusive.next (h : Exclusive s) {action : ChannelAction ι}
    (hs : (channelSystem ι n).next s action = some s') : Exclusive s' := by
  cases action with
  | getChannel t =>
    simp only [channelSystem] at hs
    split at hs
    · next hidle =>
      cases hs
      exact h.goTo (by rw [hidle]; rfl) (by simp)
    · cases hs
  | destroy t c =>
    simp only [channelSystem] at hs
    split at hs
    · next hlocked =>
      cases hs
      exact h.unlock (by rw [hlocked.1, ChannelPoint.carried]) hlocked.2
    · cases hs
  | step t => exact h.stepAt hs

theorem numChannels_of_stepAt {p : ChannelPoint} (hs : s.stepAt t p = some s') :
    s'.numChannels = s.numChannels := by
  cases p with
  | idle => cases hs
  | load i =>
    rw [HostChannels.stepAt] at hs
    split at hs
    · split at hs
      · cases hs
        rfl
      · cases hs
        rfl
    · cases hs
      rfl
  | compareExchange i c =>
    rw [HostChannels.stepAt] at hs
    split at hs
    · cases hs
      rfl
    · cases hs
      rfl
  | readMask c =>
    cases hs
    rfl
  | writeMask c mask =>
    cases hs
    rfl
  | readUnmask c =>
    cases hs
    rfl
  | writeUnmask c mask =>
    cases hs
    rfl
  | exchange c =>
    cases hs
    rfl

theorem numChannels_of_next {action : ChannelAction ι}
    (hs : (channelSystem ι n).next s action = some s') : s'.numChannels = s.numChannels := by
  cases action with
  | getChannel t =>
    simp only [channelSystem] at hs
    split at hs
    · cases hs
      rfl
    · cases hs
  | destroy t c =>
    simp only [channelSystem] at hs
    split at hs
    · cases hs
      rfl
    · cases hs
  | step t => exact numChannels_of_stepAt hs

theorem numChannels_of_reachable (h : (channelSystem ι n).Reachable s) :
    s.numChannels = usedChannels n := by
  refine System.Reachable.invariant (I := fun s => s.numChannels = usedChannels n) ?_ ?_ h
  · rintro s rfl
    rfl
  · intro s action s' hs hnext
    rw [numChannels_of_next hnext, hs]

theorem exclusive_of_reachable (h : (channelSystem ι n).Reachable s) : Exclusive s := by
  refine System.Reachable.invariant ?_ ?_ h
  · rintro s rfl
    exact exclusive_make n
  · intro s action s' hs hnext
    exact hs.next hnext

end Steps

section Obtain

variable {n k : Nat}

/-- Actions of one client alone lead from one state to another. -/
def Alone (n : Nat) (t : ι) (s s' : HostChannels ι) : Prop :=
  (channelSystem ι n).LeadsTo (fun action => action.client = t) s s'

theorem Alone.step (hs : s.stepAt t (s.point t) = some s₁) (h : Alone n t s₁ s') :
    Alone n t s s' :=
  System.LeadsTo.head (a := .step t) rfl hs h

@[simp] theorem goTo_goTo (s : HostChannels ι) (t : ι) (p q : ChannelPoint) :
    (s.goTo t p).goTo t q = s.goTo t q := by
  simp [goTo]

/-- The scan passes the slots that are empty. -/
theorem alone_scan (hk : k ≤ s.numChannels) (hempty : ∀ i < k, s.freeChannels i = none) :
    Alone n t (s.goTo t (.load 0)) (s.goTo t (.load k)) := by
  induction k with
  | zero => exact System.LeadsTo.refl
  | succ k ih =>
    have hscanned := ih (by omega) fun i hi => hempty i (by omega)
    refine System.LeadsTo.trans hscanned (Alone.step ?_ System.LeadsTo.refl)
    have hslot : (s.goTo t (.load k)).freeChannels k = none := hempty k (by omega)
    have hlt : k < (s.goTo t (.load k)).numChannels := hk
    rw [goTo_point_self, stepAt, if_pos hlt, hslot, goTo_goTo]

/-- The state after a client has obtained a channel. -/
def obtained (s : HostChannels ι) (t : ι) (c : Nat) : HostChannels ι :=
  { s with
    freeChannels := Function.update s.freeChannels c none
    interruptMask := s.interruptMask ||| 1#32 <<< c
    locked := c :: s.locked }.goTo t .idle

/-- The scan obtains the channel of a slot that it comes to. -/
theorem alone_obtained (hc : c < s.numChannels) (hslot : s.freeChannels c = some c) :
    Alone n t (s.goTo t (.load c)) (s.obtained t c) := by
  let s₁ : HostChannels ι := { s with freeChannels := Function.update s.freeChannels c none }
  have hload : (s.goTo t (.load c)).stepAt t (.load c) =
      some (s.goTo t (.compareExchange c c)) := by
    have hlt : c < (s.goTo t (.load c)).numChannels := hc
    have hfree : (s.goTo t (.load c)).freeChannels c = some c := hslot
    rw [stepAt, if_pos hlt, hfree]
    dsimp only
    rw [goTo_goTo]
  have hexchange : (s.goTo t (.compareExchange c c)).stepAt t (.compareExchange c c) =
      some (s₁.goTo t (.readMask c)) := by
    have hfree : (s.goTo t (.compareExchange c c)).freeChannels c = some c := hslot
    rw [stepAt, if_pos hfree]
    simp [goTo, s₁]
  have hread : (s₁.goTo t (.readMask c)).stepAt t (.readMask c) =
      some (s₁.goTo t (.writeMask c s.interruptMask)) := by
    rw [stepAt, goTo_goTo]
    rfl
  have hwrite : (s₁.goTo t (.writeMask c s.interruptMask)).stepAt t
      (.writeMask c s.interruptMask) = some (s.obtained t c) := by
    rw [stepAt]
    simp [goTo, s₁, obtained]
  refine Alone.step (by rw [goTo_point_self]; exact hload) ?_
  refine Alone.step (by rw [goTo_point_self]; exact hexchange) ?_
  refine Alone.step (by rw [goTo_point_self]; exact hread) ?_
  exact Alone.step (by rw [goTo_point_self]; exact hwrite) System.LeadsTo.refl

/-- A call of `GetChannel` obtains the channel of the first slot that is not empty. -/
theorem alone_getChannel (hidle : s.point t = .idle) (hempty : ∀ i < c, s.freeChannels i = none)
    (hc : c < s.numChannels) (hslot : s.freeChannels c = some c) :
    Alone n t s (s.obtained t c) := by
  have hcall : (channelSystem ι n).next s (.getChannel t) = some (s.goTo t (.load 0)) :=
    if_pos hidle
  exact System.LeadsTo.head (a := .getChannel t) rfl hcall
    (System.LeadsTo.trans (alone_scan hc.le hempty) (alone_obtained hc hslot))

/-- From a state whose first slots are empty, a client comes to every channel that stands in
its slot. -/
theorem alone_obtains_of_empty (hs : (channelSystem ι n).Reachable s) (hidle : s.point t = .idle)
    (hslot : s.freeChannels c = some c) (hempty : ∀ i < k, s.freeChannels i = none) (hk : k ≤ c) :
    ∃ s', Alone n t s s' ∧ s'.point t = .idle ∧ c ∈ s'.locked := by
  -- the induction is on the slots between those known to be empty and the slot of the channel
  obtain ⟨d, hd⟩ := Nat.exists_eq_add_of_le hk
  induction d generalizing s k with
  | zero =>
    obtain rfl : c = k := hd
    have hlt : c < s.numChannels := (exclusive_of_reachable hs).lt c .slot hslot
    exact ⟨s.obtained t c, alone_getChannel hidle hempty hlt hslot, goTo_point_self _ t .idle,
      List.mem_cons_self⟩
  | succ d ih =>
    cases hfirst : s.freeChannels k with
    | none =>
      refine ih hs hidle hslot (k := k + 1) ?_ (by omega) (by omega)
      intro i hi
      rcases Nat.lt_succ_iff_lt_or_eq.mp hi with hlt | rfl
      · exact hempty i hlt
      · exact hfirst
    | some j =>
      have hexclusive := exclusive_of_reachable hs
      obtain rfl : k = j := hexclusive.slot_eq k j hfirst
      have hlt : k < s.numChannels := hexclusive.lt k .slot hfirst
      have hobtained : Alone n t s (s.obtained t k) := alone_getChannel hidle hempty hlt hfirst
      have hne : c ≠ k := by omega
      have hslots : ∀ i, (s.obtained t k).freeChannels i =
          Function.update s.freeChannels k none i := fun _ => rfl
      obtain ⟨s', hrest, hdone, hmem⟩ := ih (s := s.obtained t k) (k := k + 1)
        (System.LeadsTo.reachable hobtained hs) (goTo_point_self _ t .idle)
        (by rw [hslots, Function.update_of_ne hne, hslot])
        (by
          intro i hi
          rw [hslots]
          rcases Nat.lt_succ_iff_lt_or_eq.mp hi with hlt' | rfl
          · rw [Function.update_of_ne hlt'.ne, hempty i hlt']
          · rw [Function.update_self])
        (by omega) (by omega)
      exact ⟨s', System.LeadsTo.trans hobtained hrest, hdone, hmem⟩

end Obtain

/-- What the slots and the locked channels promise in a state. -/
structure ChannelsKept (n : Nat) (s : HostChannels ι) : Prop where
  /-- Every channel is in its slot, locked once, or carried by one client. -/
  unique : ∀ c < usedChannels n, ∃! w, s.At c w
  nodup : s.locked.Nodup
  /-- No slot holds another channel. -/
  slot_eq : ∀ i c, s.freeChannels i = some c → i = c
  /-- A client can obtain every channel that is in its slot. -/
  obtainable : ∀ c t, s.freeChannels c = some c → s.point t = .idle →
    ∃ s', Alone n t s s' ∧ s'.point t = .idle ∧ c ∈ s'.locked

end HostChannels

open HostChannels

section Results

variable {n : Nat} {s : HostChannels ι}

/-- Channels are exclusive and never lost, for every number of clients and every interleaving. -/
theorem channels_kept (h : (channelSystem ι n).Reachable s) : ChannelsKept n s := by
  have hs : Exclusive s := exclusive_of_reachable h
  refine ⟨?_, hs.nodup, hs.slot_eq, ?_⟩
  · intro c hc
    rw [← numChannels_of_reachable h] at hc
    obtain ⟨w, hw⟩ := hs.unique c hc
    exact ⟨w, (hw w).mpr rfl, fun v hv => (hw v).mp hv⟩
  · intro c t hslot hidle
    exact alone_obtains_of_empty (k := 0) h hidle hslot (fun i hi => absurd hi (Nat.not_lt_zero i))
      (Nat.zero_le c)

/-- Two clients at work on a host of two channels: one carries a channel, the other has seen
the slot of it. -/
theorem channels_kept_two :
    ∃ s, (channelSystem Bool 2).Reachable s ∧ (s.point true).carried = some 0 ∧
      s.point false = .compareExchange 0 0 ∧ ChannelsKept 2 s := by
  have hmake : (channelSystem Bool 2).Reachable (make 2) := System.ReachableBy.initial rfl
  have hreachable : (channelSystem Bool 2).Reachable _ :=
    hmake.run [.getChannel true, .getChannel false, .step true, .step false, .step true] rfl
  exact ⟨_, hreachable, rfl, rfl, channels_kept hreachable⟩

end Results

end RPiKernel.Usb
