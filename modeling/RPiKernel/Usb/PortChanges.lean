import RPiKernel.Usb.HidPayloads

/-!
# The devices that port changes remove

`HubPortConnectionChanged` removes the device that a port has recorded if there is one, and also
if the port is neither connected nor enabled. No port has recorded a device that is not in use, so
the only call without a device is for a port without one that is neither connected nor enabled.

## Implementation notes

The removal of a device is a call of `UsbDeallocateDevice` and a store to the port. Where the
device is not found by its parent, the call leaves ports behind that lead to entries that have been
cleared; they are tracked as exceptions until the payload of their hub is cleared.
-/

namespace RPiKernel.Usb

open Transition

/-- The entry is in use. -/
def InUse (t : Tables) (c : Nat) : Prop := (t.deviceTable c).payLoadId ≠ .errorPayload

/-- A device is in one port at most. -/
def SlotUnique (t : Tables) : Prop :=
  ∀ n p m q c, (t.hubTable n).children p = some c → (t.hubTable m).children q = some c →
    n = m ∧ p = q

/-- Ports lead to entries that are not in use only as exceptions, by payload and entry. -/
def DanglesOnly (t : Tables) (E : Nat → Nat → Prop) : Prop :=
  ∀ n p c, (t.hubTable n).children p = some c → ¬ InUse t c → E n c

/-- What a removal does: entries are cleared or kept, ports lose devices, and ports that dangle
stay within exceptions. -/
structure Removal (t : Tables) (E F : Nat → Nat → Prop) (t' : Tables) : Prop where
  device : ∀ x, t'.deviceTable x = t.deviceTable x ∨ t'.deviceTable x = {}
  child : ∀ n p c, (t'.hubTable n).children p = some c → (t.hubTable n).children p = some c
  dangles : DanglesOnly t E → DanglesOnly t' F

section Removal

variable {t t₁ t₂ : Tables} {E F G : Nat → Nat → Prop} {c d m n p : Nat}

theorem SlotUnique.of_child (h : SlotUnique t)
    (hchild : ∀ n p c, (t₁.hubTable n).children p = some c → (t.hubTable n).children p = some c) :
    SlotUnique t₁ :=
  fun n p m q c hn hm => h n p m q c (hchild n p c hn) (hchild m q c hm)

theorem Removal.refl (t : Tables) (E : Nat → Nat → Prop) : Removal t E E t :=
  ⟨fun _ => Or.inl rfl, fun _ _ _ h => h, fun h => h⟩

theorem Removal.trans (h : Removal t E F t₁) (h' : Removal t₁ F G t₂) : Removal t E G t₂ where
  device x := by
    rcases h'.device x with heq | hclear
    · rw [heq]
      exact h.device x
    · exact Or.inr hclear
  child n p c hc := h.child n p c (h'.child n p c hc)
  dangles hE := h'.dangles (h.dangles hE)

/-- The exceptions of one device in a port of a payload are those of the payload. -/
theorem Removal.weaken (h : Removal t F (fun k b => F k b ∨ b = c) t₁) (hunique : SlotUnique t)
    (hc : (t.hubTable n).children p = some c) (hF : ∀ b, F n b) : Removal t F F t₁ where
  device := h.device
  child := h.child
  dangles hdangles k q b hb hfree := by
    obtain hold | rfl := h.dangles hdangles k q b hb hfree
    · exact hold
    · rw [(hunique k q n p b (h.child k q b hb) hc).1]
      exact hF b

/-- A device that has been removed cannot be removed again: its parent has no number. -/
theorem clearDevice_of_cleared (hd : t.deviceTable d = {}) :
    clearDevice t d = .error .outsideDeviceTable := by
  rw [clearDevice, clearParentSlot, hd]
  rfl

/-- What the end of `UsbDeallocateDevice` does. -/
theorem clearDevice_cases (h : clearDevice t d = .ok t₁) :
    (∀ x, x ≠ d → t₁.deviceTable x = t.deviceTable x) ∧ t₁.deviceTable d = {} ∧
      ∀ n p c, (t₁.hubTable n).children p = some c → (t.hubTable n).children p = some c := by
  obtain ⟨t', hclear, rfl⟩ := exists_clearParentSlot h
  have htrims := @clearParentSlot_trims t t' (fun _ => False) d hclear
  refine ⟨fun x hx => ?_, setDevice_self, htrims.child⟩
  rw [setDevice_of_ne hx]
  exact (htrims.device x).resolve_right fun hfalse => hfalse.1

/-- The end of `UsbDeallocateDevice` makes the ports of the device dangle. -/
theorem removal_clearDevice (h : clearDevice t d = .ok t₁) :
    Removal t E (fun k b => E k b ∨ b = d) t₁ := by
  obtain ⟨hkept, hcleared, hchild⟩ := clearDevice_cases h
  refine ⟨fun x => ?_, hchild, fun hdangles k q b hb hfree => ?_⟩
  · by_cases hx : x = d
    · exact Or.inr (hx ▸ hcleared)
    · exact Or.inl (hkept x hx)
  · by_cases hbd : b = d
    · exact Or.inr hbd
    · rw [InUse, hkept b hbd] at hfree
      exact Or.inl (hdangles k q b (hchild k q b hb) hfree)

/-- The specification of `UsbDeallocateDevice`: only the ports of the device itself may dangle. -/
def RemovesDevice (deallocate : Tables → Nat → Except TableFault Tables) : Prop :=
  ∀ t c t' E, SlotUnique t → deallocate t c = .ok t' →
    Removal t E (fun k b => E k b ∨ b = c) t'

variable {deallocate : Tables → Nat → Except TableFault Tables}

/-- The loop over the ports of a hub makes only these ports dangle. -/
theorem removal_deallocateChildren (hspec : RemovesDevice deallocate) (hF : ∀ b, F m b)
    (left : Nat) {i : Nat} (hunique : SlotUnique t)
    (hpayload : ∀ n, (t.deviceTable d).payload = some n → n = m)
    (h : deallocateChildren deallocate d left i t = .ok t₁) : Removal t F F t₁ := by
  induction left generalizing i t with
  | zero =>
      cases h
      exact Removal.refl _ F
  | succ left ih =>
      rw [deallocateChildren] at h
      split at h
      · cases h
      · next n hn =>
        obtain rfl := hpayload n hn
        split at h
        · split at h
          · next b hb =>
            split at h
            · next t' hcall =>
              have hfirst := (hspec t b t' F hunique hcall).weaken hunique hb hF
              refine hfirst.trans (ih (hunique.of_child hfirst.child) (fun k hk => ?_) h)
              obtain heq | hclear := hfirst.device d
              · exact hpayload k (heq ▸ hk)
              · rw [hclear] at hk
                cases hk
            · cases h
          · exact ih hunique hpayload h
        · cases h
          exact Removal.refl _ F

/-- `RemoveHubPayload` of a hub clears its payload behind the loop. -/
theorem removeHubPayload_cases (hspec : RemovesDevice deallocate) (hF : ∀ b, F m b)
    (hunique : SlotUnique t) (hhub : isHub (t.deviceTable d) = true)
    (hpayload : ∀ n, (t.deviceTable d).payload = some n → n = m)
    (h : removeHubPayload deallocate t d = .ok t₁) :
    ∃ t', Removal t F F t' ∧ t₁ = (t'.setHub m {}).setDevice d
      { t'.deviceTable d with payload := none, payLoadId := .noPayload } := by
  rw [removeHubPayload, if_pos hhub] at h
  split at h
  · cases h
  · next t' hloop =>
    have hremoval := removal_deallocateChildren hspec hF _ hunique hpayload hloop
    split at h
    · cases h
    · next n hn =>
      obtain rfl : n = m := by
        obtain heq | hclear := hremoval.device d
        · exact hpayload n (heq ▸ hn)
        · rw [hclear] at hn
          cases hn
      cases h
      exact ⟨t', hremoval, rfl⟩

/-- Once the payload is cleared, the ports that dangled are gone. -/
theorem removal_clearHub {device : UsbDevice} (hremoval : Removal t F F t₁)
    (hF : ∀ k b, F k b → E k b ∨ k = m) (hE : ∀ k b, E k b → F k b)
    (h : clearDevice ((t₁.setHub m {}).setDevice d device) d = .ok t₂) :
    Removal t E (fun k b => E k b ∨ b = d) t₂ := by
  obtain ⟨hkept, hcleared, hchild⟩ := clearDevice_cases h
  have hdevice : ∀ x, x ≠ d → t₂.deviceTable x = t₁.deviceTable x :=
    fun x hx => (hkept x hx).trans (setDevice_of_ne hx)
  have hslot : ∀ k q b, (t₂.hubTable k).children q = some b →
      k ≠ m ∧ (t₁.hubTable k).children q = some b := by
    intro k q b hb
    have hb' : ((t₁.setHub m {}).hubTable k).children q = some b := hchild k q b hb
    by_cases hk : k = m
    · rw [hk, setHub_self] at hb'
      cases hb'
    · rw [setHub_of_ne hk] at hb'
      exact ⟨hk, hb'⟩
  refine ⟨fun x => ?_, fun k q b hb => hremoval.child k q b (hslot k q b hb).2, ?_⟩
  · by_cases hx : x = d
    · exact Or.inr (hx ▸ hcleared)
    · rw [hdevice x hx]
      exact hremoval.device x
  · intro hdangles k q b hb hfree
    by_cases hbd : b = d
    · exact Or.inr hbd
    · rw [InUse, hdevice b hbd] at hfree
      obtain ⟨hk, hb'⟩ := hslot k q b hb
      have hmore : DanglesOnly t F := fun k q b hb hfree => hE k b (hdangles k q b hb hfree)
      exact Or.inl ((hF k b (hremoval.dangles hmore k q b hb' hfree)).resolve_right hk)

theorem usbDeallocateDevice_removes (fuel : Nat) : RemovesDevice (usbDeallocateDevice fuel) := by
  induction fuel with
  | zero =>
      intro t d t' E hunique h
      cases h
  | succ fuel ih =>
      intro t d t' E hunique h
      rw [usbDeallocateDevice] at h
      split at h
      · next hhub =>
        obtain ⟨-, m, hm⟩ := isHub_iff.mp hhub
        have hpayload : ∀ n, (t.deviceTable d).payload = some n → n = m :=
          fun n hn => Option.some.inj (hn.symm.trans hm)
        split at h
        · cases h
        · next t₁ hloop =>
          have hfirst := @removal_deallocateChildren t t₁ (fun k b => E k b ∨ k = m) d m _ ih
            (fun _ => Or.inr rfl) _ _ hunique hpayload hloop
          split at h
          · cases h
          · next t₂ hremove =>
            obtain hsame | hcleared := hfirst.device d
            · obtain ⟨t₃, hsecond, rfl⟩ := @removeHubPayload_cases t₁ t₂
                (fun k b => E k b ∨ k = m) d m _ ih (fun _ => Or.inr rfl)
                (hunique.of_child hfirst.child) (hsame.symm ▸ hhub) (hsame.symm ▸ hpayload) hremove
              exact removal_clearHub (hfirst.trans hsecond) (fun _ _ hF => hF)
                (fun _ _ hE => Or.inl hE) h
            · -- the hub has been removed with its children
              have hnot : ¬ isHub (t₁.deviceTable d) = true := by
                rw [hcleared]
                decide
              rw [removeHubPayload, if_neg hnot] at hremove
              cases hremove
              rw [clearDevice_of_cleared hcleared] at h
              cases h
      · exact removal_clearDevice h

end Removal

/-- Ports lead to entries of the table that are in use, each from one port. -/
structure Linked (t : Tables) : Prop where
  child : ∀ n p c, (t.hubTable n).children p = some c → c < maximumDevices ∧ InUse t c
  slot_unique : SlotUnique t

section Linked

variable {t t' : Tables} {c d n p port fuel : Nat} {device : UsbDevice} {answers : Answers}
  {result : Result}

/-- Ports may lose devices, and devices may change as long as they stay in use. -/
theorem Linked.mono (h : Linked t)
    (hchild : ∀ n p c, (t'.hubTable n).children p = some c → (t.hubTable n).children p = some c)
    (huse : ∀ c, InUse t c → InUse t' c) : Linked t' where
  child n p c hc := ⟨(h.child n p c (hchild n p c hc)).1,
    huse c (h.child n p c (hchild n p c hc)).2⟩
  slot_unique := h.slot_unique.of_child hchild

theorem inUse_setDevice (hnew : device.payLoadId ≠ .errorPayload) {x : Nat} (hx : InUse t x) :
    InUse (t.setDevice c device) x := by
  by_cases hxc : x = c
  · rw [InUse, hxc, setDevice_self]
    exact hnew
  · rw [InUse, setDevice_of_ne hxc]
    exact hx

theorem Linked.setDevice (h : Linked t) (hnew : device.payLoadId ≠ .errorPayload) :
    Linked (t.setDevice c device) :=
  h.mono (fun _ _ _ hc => hc) fun _ => inUse_setDevice hnew

/-- An entry that is not in use is attached to an empty port. -/
theorem Linked.attach (h : Linked t) (hempty : (t.hubTable n).children p = none)
    (hc : c < maximumDevices) (hfree : (t.deviceTable c).payLoadId = .errorPayload)
    (hnew : device.payLoadId ≠ .errorPayload) :
    Linked ((t.setDevice c device).setChild n p (some c)) := by
  have hslot : ∀ {m q b}, (((t.setDevice c device).setChild n p (some c)).hubTable m).children q =
      some b ↔ (t.hubTable m).children q = some b ∨ m = n ∧ q = p ∧ b = c :=
    @children_setChild_iff (t.setDevice c device) n p c hempty
  have hother : ∀ {m q}, (t.hubTable m).children q ≠ some c :=
    fun hm => (h.child _ _ c hm).2 hfree
  constructor
  case child =>
    intro m q b hb
    obtain hold | ⟨-, -, rfl⟩ := hslot.mp hb
    · exact ⟨(h.child m q b hold).1, inUse_setDevice hnew (h.child m q b hold).2⟩
    · refine ⟨hc, ?_⟩
      change ((t.setDevice b device).deviceTable b).payLoadId ≠ .errorPayload
      rw [setDevice_self]
      exact hnew
  case slot_unique =>
    intro m q m' q' b hb hb'
    obtain hold | ⟨rfl, rfl, rfl⟩ := hslot.mp hb
    · obtain hold' | ⟨-, -, rfl⟩ := hslot.mp hb'
      · exact h.slot_unique m q m' q' b hold hold'
      · exact absurd hold hother
    · obtain hold' | ⟨rfl, rfl, -⟩ := hslot.mp hb'
      · exact absurd hold' hother
      · exact ⟨rfl, rfl⟩

theorem Linked.enumerateHub (h : Linked t) : Linked (enumerateHub t c answers).2 := by
  have hwith : ∀ (n : Nat) (hub : HubDevice), (∀ q, hub.children q = none) →
      Linked (withHub t c n hub) := by
    intro n hub hempty
    refine h.mono (fun m q b hb => ?_) fun x hx => inUse_setDevice PayLoadType.noConfusion hx
    by_cases hm : m = n
    · rw [hm, withHub_hub_self, hempty] at hb
      cases hb
    · rwa [withHub_hub_of_ne hm] at hb
  rw [Usb.enumerateHub]
  cases hadd : addHubPayload t c with
  | error result => exact h
  | ok taken =>
      obtain ⟨n, t'⟩ := taken
      obtain ⟨-, -, -, rfl⟩ := addHubPayload_ok hadd
      dsimp only
      rw [setHub_withHub]
      cases answers.hubDescriptor with
      | none => exact hwith n _ fun _ => rfl
      | some portCount =>
          dsimp only
          split
          · exact hwith n _ fun _ => rfl
          · rw [setHub_withHub]
            exact hwith n _ fun _ => by rw [withHub_hub_self]

/-- The enumeration of a new device, which changes no payload in use. -/
theorem Linked.enumerateDevice (h : Linked t) (hno : (t.deviceTable c).payLoadId = .noPayload)
    (hs : enumerateDevice fuel t c answers = some (result, t')) :
    Linked t' ∧ ∀ m, (t.hubTable m).maxChildren ≠ 0 → t'.hubTable m = t.hubTable m := by
  obtain rfl | rfl | ⟨outcome, s, hread, hcase⟩ := enumerateDevice_cases hs
  · refine ⟨h.setDevice ?_, fun _ _ => rfl⟩
    rw [hno]
    exact PayLoadType.noConfusion
  · exact ⟨h, fun _ _ => rfl⟩
  · have hnew : s.device.payLoadId ≠ .errorPayload := by
      obtain ⟨hno', -, -⟩ | ⟨number, -, -, hid, -⟩ := (readConfiguration_keeps hno hread).payload
      · rw [hno']
        exact PayLoadType.noConfusion
      · rw [hid]
        exact PayLoadType.noConfusion
    have hset : Linked (t.setDevice c s.device) := h.setDevice hnew
    have hparsed : Linked { t.setDevice c s.device with hidTable := s.hidTable } :=
      ⟨hset.child, hset.slot_unique⟩
    obtain rfl | ⟨-, rfl⟩ := hcase
    · exact ⟨hparsed, fun _ _ => rfl⟩
    · exact ⟨hparsed.enumerateHub, fun m hm => enumerateHub_hubTable hm⟩

/-- What is left of the ports where one is given free. -/
theorem children_setChild_none {k q b : Nat}
    (hb : ((t.setChild n port none).hubTable k).children q = some b) :
    (t.hubTable k).children q = some b ∧ ¬ (k = n ∧ q = port) := by
  refine ⟨(@Trims.setChild t (fun _ => False) n port).child k q b hb, ?_⟩
  rintro ⟨rfl, rfl⟩
  rw [Tables.setChild, setHub_self] at hb
  dsimp only at hb
  rw [Function.update_self] at hb
  cases hb

/-- The removal of the device at a port. -/
theorem Linked.removeChild (h : Linked t) (hs : removeChild t n port = .ok t') : Linked t' := by
  rw [Usb.removeChild] at hs
  cases hc : (t.hubTable n).children port with
  | none =>
      rw [hc] at hs
      cases hs
  | some c =>
      rw [hc] at hs
      dsimp only at hs
      cases hcall : usbDeallocateDevice maximumDevices t c with
      | error fault =>
          rw [hcall] at hs
          cases hs
      | ok t₁ =>
          rw [hcall] at hs
          cases hs
          have hremoval := usbDeallocateDevice_removes maximumDevices t c t₁ (fun _ _ => False)
            h.slot_unique hcall
          have hdangles := hremoval.dangles fun k q b hb hfree => hfree (h.child k q b hb).2
          constructor
          case child =>
            intro k q b hb
            obtain ⟨hold, hport⟩ := children_setChild_none hb
            have hbefore := hremoval.child k q b hold
            refine ⟨(h.child k q b hbefore).1, fun hfree => ?_⟩
            obtain hfalse | rfl := hdangles k q b hold fun hlive => hlive hfree
            · exact hfalse
            · exact hport (h.slot_unique k q n port b hbefore hc)
          case slot_unique =>
            refine h.slot_unique.of_child fun k q b hb => ?_
            exact hremoval.child k q b (children_setChild_none hb).1

/-- The guard of the callers, for the device in use. -/
theorem inUse_of_hubOn (hon : HubOn t d n) : InUse t d := by
  rw [InUse, hon.1]
  exact PayLoadType.noConfusion

end Linked

/-- The argument of the call of `UsbDeallocateDevice` that a step makes, if it makes one; a null
pointer is `none`. -/
def UsbState.deallocated (s : UsbState) : UsbAction → Option (Option Nat)
  | .disconnect d port connected enabled =>
      match s.failed, hubPort s.tables d port with
      | none, some n =>
          if (!connected && !enabled) || ((s.tables.hubTable n).children port).isSome then
            some ((s.tables.hubTable n).children port)
          else
            none
      | _, _ => none
  | .connect _ _ _ _ _ _ => none
  | .disable => s.failed.map fun (n, port) => (s.tables.hubTable n).children port

/-- If a step removes a device, it is one in use. -/
def DeallocatesInUse (s : UsbState) (a : UsbAction) : Prop :=
  ∀ argument, s.deallocated a = some argument →
    ∃ c < maximumDevices, argument = some c ∧ InUse s.tables c

/-- A change at a port that has recorded no device finds the port connected or enabled. -/
def RecordsDevice (s : UsbState) : UsbAction → Prop
  | .disconnect d port connected enabled =>
      match s.failed, hubPort s.tables d port with
      | none, some n =>
          ((s.tables.hubTable n).children port).isSome ∨ connected = true ∨ enabled = true
      | _, _ => True
  | .connect _ _ _ _ _ _ => True
  | .disable => True

/-- Ports lead to devices in use, and a port whose enumeration has failed has a device. -/
structure UsbState.Linked (s : UsbState) : Prop where
  tables : Usb.Linked s.tables
  failed : ∀ n p, s.failed = some (n, p) → ∃ c, (s.tables.hubTable n).children p = some c

section Steps

variable {s s' : UsbState} {d n port fuel : Nat} {reset status : Result} {answers : Answers}

/-- A change at an empty port. -/
theorem UsbState.Linked.connectPort (h : s.Linked) (hfailed : s.failed = none)
    (hon : HubOn s.tables d n) (hport : port < (s.tables.hubTable n).maxChildren)
    (hempty : (s.tables.hubTable n).children port = none)
    (hs : connectPort s d n port fuel reset status answers = some s') : s'.Linked := by
  have hnone : ∀ {tables : Tables}, ∀ m q, s.failed = some (m, q) →
      ∃ c, (tables.hubTable m).children q = some c := by
    intro tables m q heq
    rw [hfailed] at heq
    cases heq
  obtain rfl | ⟨c, hc, hfree, hcase⟩ := connectPort_cases hs
  · exact h
  obtain rfl | ⟨-, -, result, tables, henumerate, rfl⟩ := hcase
  · exact ⟨h.tables.attach hempty hc hfree PayLoadType.noConfusion, hnone⟩
  · have hdc : d ≠ c := by
      rintro rfl
      exact inUse_of_hubOn hon hfree
    rw [setParent_eq hdc] at henumerate
    have hattached := @Usb.Linked.attach s.tables c n port
      { allocatedDevice (s.tables.deviceTable c) c with
        parentHub := ⟨(s.tables.deviceTable d).number, port⟩ } h.tables hempty hc hfree
      PayLoadType.noConfusion
    obtain ⟨hlinked, hkept⟩ := hattached.enumerateDevice
      (congrArg UsbDevice.payLoadId setDevice_self) henumerate
    refine ⟨hlinked, fun m q heq => ?_⟩
    dsimp only at heq
    split at heq
    · cases heq
    · cases heq
      exact ⟨c, child_of_attached hport hkept⟩

/-- A step that calls `UsbDeallocateDevice` removes the device at a port. -/
theorem effect_of_deallocated {a : UsbAction} {argument : Option Nat}
    (h : s.deallocated a = some argument) :
    ∃ n port, argument = (s.tables.hubTable n).children port ∧
      s.effect a = some ((removeChild s.tables n port).map fun tables => { tables }) := by
  obtain ⟨t, failed⟩ := s
  cases a with
  | disconnect d port connected enabled =>
    rw [UsbState.deallocated] at h
    rw [UsbState.effect]
    cases failed with
    | some failed => cases h
    | none =>
      cases hport : hubPort t d port with
      | none =>
        rw [hport] at h
        cases h
      | some n =>
        rw [hport] at h
        dsimp only at h ⊢
        split at h
        · next hremoves =>
          cases h
          exact ⟨n, port, rfl, if_pos hremoves⟩
        · cases h
  | connect d port fuel reset status answers => cases h
  | disable =>
    rw [UsbState.deallocated] at h
    rw [UsbState.effect]
    obtain ⟨⟨n, port⟩, rfl, rfl⟩ := Option.map_eq_some_iff.mp h
    exact ⟨n, port, rfl, rfl⟩

/-- Every step keeps the ports linked to devices in use. -/
theorem UsbState.Linked.next (h : s.Linked) {a : UsbAction} (hnext : s.next a = some s') :
    s'.Linked := by
  have heffect : s.effect a = some (.ok s') := by
    rw [UsbState.next] at hnext
    split at hnext
    · next heffect =>
      cases hnext
      exact heffect
    · cases hnext
  cases hcall : s.deallocated a with
  | some argument =>
    obtain ⟨n, port, -, hremoves⟩ := effect_of_deallocated hcall
    rw [hremoves] at heffect
    obtain ⟨tables, hremove, rfl⟩ := map_eq_ok (Option.some.inj heffect)
    exact ⟨h.tables.removeChild hremove, fun m q heq => by cases heq⟩
  | none =>
    cases a with
    | disconnect d port connected enabled =>
      rw [UsbState.deallocated] at hcall
      rw [UsbState.effect] at heffect
      split at heffect
      · next n hfailed hport =>
        rw [hfailed, hport] at hcall
        dsimp only at hcall
        split at heffect
        · next hremoves =>
          rw [if_pos hremoves] at hcall
          cases hcall
        · cases heffect
          exact h
      · cases heffect
    | connect d port fuel reset status answers =>
      rw [UsbState.effect] at heffect
      split at heffect
      · next n hfailed hport =>
        obtain ⟨hon, hlt⟩ := hubPort_some hport
        split at heffect
        · cases heffect
        · next hnone =>
          obtain ⟨s₁, hs₁, heq⟩ := Option.map_eq_some_iff.mp heffect
          cases heq
          exact h.connectPort hfailed hon hlt (Option.not_isSome_iff_eq_none.mp hnone) hs₁
      · cases heffect
    | disable =>
      rw [UsbState.deallocated] at hcall
      rw [UsbState.effect, Option.map_eq_none_iff.mp hcall] at heffect
      cases heffect

theorem linked_of_initial (h : usbSystem.Initial s) : s.Linked := by
  obtain ⟨root, maxChildren, -, -, -, -, -, rfl⟩ := h
  have hnone : ∀ n p c, ((rootTables root maxChildren).hubTable n).children p ≠ some c := by
    intro n p c hc
    by_cases hn : n = 0
    · rw [hn] at hc
      cases hc
    · rw [rootTables] at hc
      dsimp only at hc
      rw [Function.update_of_ne hn] at hc
      cases hc
  exact ⟨⟨fun n p c hc => absurd hc (hnone n p c), fun n p m q c hc => absurd hc (hnone n p c)⟩,
    fun n p heq => by cases heq⟩

theorem linked_of_reachable (h : usbSystem.Reachable s) : s.Linked :=
  h.invariant (fun _ => linked_of_initial) fun _ _ _ hs hnext => hs.next hnext

/-- A step removes a device in use exactly if the port has recorded one, or is connected or
enabled. -/
theorem UsbState.Linked.deallocatesInUse_iff (h : s.Linked) (a : UsbAction) :
    DeallocatesInUse s a ↔ RecordsDevice s a := by
  cases a with
  | disconnect d port connected enabled =>
    rw [DeallocatesInUse, UsbState.deallocated, RecordsDevice]
    split
    · next n hfailed hport =>
      cases hc : (s.tables.hubTable n).children port with
      | some c =>
        refine iff_of_true (fun argument hargument => ?_) (Or.inl rfl)
        rw [if_pos (by simp)] at hargument
        cases hargument
        obtain ⟨hlt, huse⟩ := h.tables.child n port c hc
        exact ⟨c, hlt, rfl, huse⟩
      | none =>
        constructor
        · intro hcalls
          refine or_iff_not_imp_left.mpr fun _ => ?_
          by_contra hneither
          obtain ⟨c, -, hnull, -⟩ := hcalls none (if_pos (by simpa using hneither))
          cases hnull
        · intro hrecords argument hargument
          have hkeeps : ¬ ((!connected && !enabled) || (none : Option Nat).isSome) = true := by
            obtain hnone | hpresent | hpresent := hrecords
            · cases hnone
            · simp [hpresent]
            · simp [hpresent]
          rw [if_neg hkeeps] at hargument
          cases hargument
    · exact iff_of_true (fun _ hargument => by cases hargument) trivial
  | connect d port fuel reset status answers =>
    exact iff_of_true (fun _ hargument => by cases hargument) trivial
  | disable =>
    refine iff_of_true (fun argument hargument => ?_) trivial
    obtain ⟨⟨n, port⟩, hfailed, rfl⟩ := Option.map_eq_some_iff.mp hargument
    obtain ⟨c, hc⟩ := h.failed n port hfailed
    obtain ⟨hlt, huse⟩ := h.tables.child n port c hc
    exact ⟨c, hlt, hc, huse⟩

end Steps

/-- The removals of a run are all of devices in use exactly if no change at a port that has
recorded no device finds the port neither connected nor enabled. -/
theorem portChanges_inUse_iff {s : UsbState} (h : usbSystem.Reachable s)
    (actions : List UsbAction) :
    usbSystem.StepsMeet DeallocatesInUse s actions ↔
      usbSystem.StepsMeet RecordsDevice s actions :=
  System.stepsMeet_congr_of_keeps (fun _ _ _ hs _ hnext => hs.next hnext)
    (fun _ a hs => hs.deallocatesInUse_iff a) (linked_of_reachable h) actions

/-- A hub is plugged into the first port of the root hub and then unplugged. -/
theorem portChanges_inUse_hub :
    usbSystem.StepsMeet DeallocatesInUse rootState
      [plugHub 4, .disconnect 0 0 false false] := by
  refine (portChanges_inUse_iff (System.ReachableBy.initial initial_rootState) _).mpr ?_
  refine (System.stepsMeet_cons (next_getD (by decide +kernel)) _).mpr ⟨trivial, ?_, ?_⟩
  · exact Or.inl (by decide +kernel)
  · split
    · trivial
    · trivial

/-- A device that is plugged in and unplugged again before its port is checked. -/
theorem not_portChanges_inUse :
    ¬ ∀ s, usbSystem.Reachable s → ∀ actions, usbSystem.StepsMeet DeallocatesInUse s actions := by
  intro hholds
  have hmeet := hholds rootState (System.ReachableBy.initial initial_rootState)
    [.disconnect 0 0 false false]
  obtain ⟨c, -, hnull, -⟩ := hmeet.1 none rfl
  cases hnull

end RPiKernel.Usb
