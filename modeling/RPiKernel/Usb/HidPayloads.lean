import Mathlib.Data.Finset.Card
import RPiKernel.Usb.TreeRuns
import RPiKernel.Usb.DescriptorBlock

/-!
# The HID payloads over connection changes

The parsing of a configuration takes a HID payload for the device, and nothing that
the removal of a device does gives it back: `UsbDeallocateDevice` clears the entry of
the device, and with it the only pointer to the payload. As long as no device with a
HID payload is removed, the payloads in use are those of the devices.
-/

namespace RPiKernel.Usb

open Relation Forest Transition

/-- A device that carries a HID payload. -/
def HidOn (t : Tables) (x n : Nat) : Prop :=
  (t.deviceTable x).payLoadId = .hidPayload ∧ (t.deviceTable x).payload = some n

/-- The HID payloads in use are those of the devices, each of one device. -/
structure HidSound (t : Tables) : Prop where
  payload : ∀ x, (t.deviceTable x).payLoadId = .hidPayload → ∃ n, HidOn t x n
  entry : ∀ x n, HidOn t x n → x < maximumDevices ∧ n < maximumHids ∧ (t.hidTable n).maxHID ≠ 0
  owner_unique : ∀ x y n, HidOn t x n → HidOn t y n → x = y
  used : ∀ n < maximumHids, (t.hidTable n).maxHID ≠ 0 → ∃ x, HidOn t x n

/-- What the removal of a device can change: devices of a set lose their payload, and
pointers to children are cleared. -/
structure Trims (t : Tables) (S : Nat → Prop) (t' : Tables) : Prop where
  hidTable_eq : t'.hidTable = t.hidTable
  device : ∀ x, t'.deviceTable x = t.deviceTable x ∨
    S x ∧ (t'.deviceTable x).payLoadId ≠ .hidPayload ∧ (t'.deviceTable x).payLoadId ≠ .hubPayload ∧
      (t'.deviceTable x).payload = none
  child : ∀ n p c, (t'.hubTable n).children p = some c → (t.hubTable n).children p = some c

section Trim

variable {t t₁ t₂ : Tables} {S S' : Nat → Prop} {c d : Nat}

theorem Trims.refl (t : Tables) (S : Nat → Prop) : Trims t S t :=
  ⟨rfl, fun _ => Or.inl rfl, fun _ _ _ h => h⟩

theorem Trims.trans (h : Trims t S t₁) (h' : Trims t₁ S' t₂) (hS : ∀ x, S' x → S x) :
    Trims t S t₂ where
  hidTable_eq := h'.hidTable_eq.trans h.hidTable_eq
  device x := by
    rcases h'.device x with heq | ⟨hx, hrest⟩
    · rcases h.device x with heq' | hrest
      · exact Or.inl (heq.trans heq')
      · exact Or.inr (heq.symm ▸ hrest)
    · exact Or.inr ⟨hS x hx, hrest⟩
  child n p c hc := h.child n p c (h'.child n p c hc)

theorem Trims.trans_self (h : Trims t S t₁) (h' : Trims t₁ S t₂) : Trims t S t₂ :=
  h.trans h' fun _ hx => hx

/-- After a removal, less is below a device. -/
theorem Trims.below (h : Trims t S t₁) {x : Nat} (hx : Below t₁ c x) : Below t c x := by
  refine ReflTransGen.mono (fun a b hab => ?_) _ _ hx
  obtain ⟨n, p, ⟨hid, hpayload⟩, hchild⟩ := hab
  refine ⟨n, p, ?_, h.child n p b hchild⟩
  rcases h.device a with heq | ⟨-, -, hnot, -⟩
  · rw [heq] at hid hpayload
    exact ⟨hid, hpayload⟩
  · exact absurd hid hnot

/-- A device of the set is cleared. -/
theorem Trims.setDevice {device : UsbDevice} (hd : S d) (hid : device.payLoadId ≠ .hidPayload)
    (hub : device.payLoadId ≠ .hubPayload) (hnone : device.payload = none) :
    Trims t S (t.setDevice d device) where
  hidTable_eq := rfl
  device x := by
    by_cases hx : x = d
    · rw [hx, setDevice_self]
      exact Or.inr ⟨hd, hid, hub, hnone⟩
    · exact Or.inl (setDevice_of_ne hx)
  child _ _ _ h := h

/-- A hub payload loses children. -/
theorem Trims.setHub {n : Nat} {hub : HubDevice}
    (hchild : ∀ p c, hub.children p = some c → (t.hubTable n).children p = some c) :
    Trims t S (t.setHub n hub) where
  hidTable_eq := rfl
  device _ := Or.inl rfl
  child m p c hc := by
    by_cases hm : m = n
    · rw [hm, setHub_self] at hc
      exact hm ▸ hchild p c hc
    · rw [setHub_of_ne hm] at hc
      exact hc

theorem Trims.setChild {n port : Nat} : Trims t S (t.setChild n port none) := by
  refine Trims.setHub fun p c hc => ?_
  dsimp only at hc
  by_cases hp : p = port
  · rw [hp, Function.update_self] at hc
    cases hc
  · rw [Function.update_of_ne hp] at hc
    exact hc

theorem clearParentSlot_trims (h : clearParentSlot t d = .ok t₁) : Trims t S t₁ := by
  rw [clearParentSlot] at h
  dsimp only at h
  split at h
  · split at h
    · cases h
    · split at h
      · cases h
        exact Trims.refl t S
      · split at h
        · cases h
          exact Trims.setChild
        · cases h
          exact Trims.refl t S
  · cases h
    exact Trims.refl t S

theorem clearDevice_trims (hd : S d) (h : clearDevice t d = .ok t₁) : Trims t S t₁ := by
  obtain ⟨t', hclear, rfl⟩ := exists_clearParentSlot h
  exact (clearParentSlot_trims hclear).trans_self
    (Trims.setDevice hd PayLoadType.noConfusion PayLoadType.noConfusion rfl)

/-- The removal of a device trims what is below it. -/
def TrimsBelow (deallocate : Tables → Nat → Except TableFault Tables) : Prop :=
  ∀ t b t', deallocate t b = .ok t' → Trims t (Below t b) t'

variable {deallocate : Tables → Nat → Except TableFault Tables}

theorem deallocateChildren_trims (hspec : TrimsBelow deallocate) (left : Nat) {i : Nat}
    (hhub : ∀ n, (t.deviceTable d).payload = some n →
      (t.deviceTable d).payLoadId = .hubPayload)
    (h : deallocateChildren deallocate d left i t = .ok t₁) : Trims t (Below t d) t₁ := by
  induction left generalizing i t with
  | zero =>
      cases h
      exact Trims.refl _ _
  | succ left ih =>
      rw [deallocateChildren] at h
      split at h
      · cases h
      · next n hpayload =>
        split at h
        · split at h
          · next b hb =>
            split at h
            · next t' hcall =>
              have hfirst : Trims t (Below t d) t' := by
                refine Trims.trans (Trims.refl t _) (hspec t b t' hcall) fun x hx => ?_
                exact hx.head ⟨n, i, ⟨hhub n hpayload, hpayload⟩, hb⟩
              have hrest := ih (fun m hm => by
                rcases hfirst.device d with heq | ⟨-, -, -, hnone⟩
                · rw [heq] at hm ⊢
                  exact hhub m hm
                · rw [hnone] at hm
                  cases hm) h
              exact hfirst.trans hrest fun x hx => hfirst.below hx
            · cases h
          · exact ih hhub h
        · cases h
          exact Trims.refl _ _

theorem isHub_imp (h : isHub (t.deviceTable d) = true) (n : Nat)
    (_ : (t.deviceTable d).payload = some n) : (t.deviceTable d).payLoadId = .hubPayload :=
  (isHub_iff.mp h).1

theorem removeHubPayload_trims (hspec : TrimsBelow deallocate)
    (h : removeHubPayload deallocate t d = .ok t₁) : Trims t (Below t d) t₁ := by
  rw [removeHubPayload] at h
  split at h
  · next hhub =>
    split at h
    · cases h
    · next t' hloop =>
      have hfirst := deallocateChildren_trims hspec _ (isHub_imp hhub) hloop
      split at h
      · cases h
      · next n _ =>
        cases h
        have hcleared : Trims t' (Below t d) (t'.setHub n {}) :=
          Trims.setHub fun p c hc => by cases hc
        refine (hfirst.trans_self hcleared).trans_self ?_
        exact Trims.setDevice ReflTransGen.refl PayLoadType.noConfusion PayLoadType.noConfusion rfl
  · cases h
    exact Trims.refl _ _

theorem usbDeallocateDevice_trims (fuel : Nat) : TrimsBelow (usbDeallocateDevice fuel) := by
  induction fuel with
  | zero =>
      intro t d t' h
      cases h
  | succ fuel ih =>
      intro t d t' h
      rw [usbDeallocateDevice] at h
      split at h
      · next hhub =>
        split at h
        · cases h
        · next t₁ hloop =>
          have hfirst := deallocateChildren_trims ih _ (isHub_imp hhub) hloop
          split at h
          · cases h
          · next t₂ hremove =>
            have hsecond := removeHubPayload_trims ih hremove
            refine (hfirst.trans hsecond fun x hx => hfirst.below hx).trans_self ?_
            exact clearDevice_trims ReflTransGen.refl h
      · exact clearDevice_trims ReflTransGen.refl h

theorem removeChild_trims {n port : Nat} (hc : (t.hubTable n).children port = some c)
    (h : removeChild t n port = .ok t₁) : Trims t (Below t c) t₁ := by
  rw [removeChild, hc] at h
  dsimp only at h
  cases hcall : usbDeallocateDevice maximumDevices t c with
  | error fault =>
      rw [hcall] at h
      cases h
  | ok t' =>
      rw [hcall] at h
      cases h
      exact (usbDeallocateDevice_trims maximumDevices t c t' hcall).trans_self Trims.setChild

end Trim

/-- The HID payloads are the same, of the same devices. -/
structure SameHids (t t' : Tables) : Prop where
  hidTable_eq : t'.hidTable = t.hidTable
  device : ∀ x,
    ((t'.deviceTable x).payLoadId = .hidPayload ↔ (t.deviceTable x).payLoadId = .hidPayload) ∧
      ((t.deviceTable x).payLoadId = .hidPayload →
        (t'.deviceTable x).payload = (t.deviceTable x).payload)

section Same

variable {t t₁ t₂ : Tables} {S : Nat → Prop} {c n : Nat} {device : UsbDevice} {answers : Answers}

theorem SameHids.trans (h : SameHids t t₁) (h' : SameHids t₁ t₂) : SameHids t t₂ where
  hidTable_eq := h'.hidTable_eq.trans h.hidTable_eq
  device x := by
    obtain ⟨hiff, hpayload⟩ := h.device x
    obtain ⟨hiff', hpayload'⟩ := h'.device x
    exact ⟨hiff'.trans hiff, fun hid => (hpayload' (hiff.mpr hid)).trans (hpayload hid)⟩

/-- A change of the hub payloads only. -/
theorem SameHids.of_eq (hhids : t₁.hidTable = t.hidTable)
    (hdevice : t₁.deviceTable = t.deviceTable) : SameHids t t₁ where
  hidTable_eq := hhids
  device x := by
    rw [hdevice]
    exact ⟨Iff.rfl, fun _ => rfl⟩

/-- A device without a HID payload becomes another one. -/
theorem SameHids.setDevice (hold : (t.deviceTable c).payLoadId ≠ .hidPayload)
    (hnew : device.payLoadId ≠ .hidPayload) : SameHids t (t.setDevice c device) where
  hidTable_eq := rfl
  device x := by
    by_cases hx : x = c
    · rw [hx, setDevice_self]
      exact ⟨⟨fun hid => absurd hid hnew, fun hid => absurd hid hold⟩, fun hid => absurd hid hold⟩
    · rw [setDevice_of_ne hx]
      exact ⟨Iff.rfl, fun _ => rfl⟩

/-- A removal that does not reach a device with a HID payload. -/
theorem Trims.sameHids (h : Trims t S t₁)
    (hno : ∀ x, S x → (t.deviceTable x).payLoadId ≠ .hidPayload) : SameHids t t₁ where
  hidTable_eq := h.hidTable_eq
  device x := by
    rcases h.device x with heq | ⟨hx, hnot, -, -⟩
    · rw [heq]
      exact ⟨Iff.rfl, fun _ => rfl⟩
    · have hold := hno x hx
      exact ⟨⟨fun hid => absurd hid hnot, fun hid => absurd hid hold⟩, fun hid => absurd hid hold⟩

theorem enumerateHub_sameHids : SameHids t (enumerateHub t c answers).2 := by
  rw [enumerateHub]
  cases hadd : addHubPayload t c with
  | error result => exact SameHids.of_eq rfl rfl
  | ok taken =>
      obtain ⟨n, t'⟩ := taken
      obtain ⟨hno, -, -, rfl⟩ := addHubPayload_ok hadd
      have htaken : SameHids t (t.setDevice c
          { t.deviceTable c with payload := some n, payLoadId := .hubPayload }) :=
        SameHids.setDevice (by simp [hno]) PayLoadType.noConfusion
      dsimp only [withHub]
      cases answers.hubDescriptor with
      | none => exact htaken.trans (SameHids.of_eq rfl rfl)
      | some portCount =>
          dsimp only
          split
          · exact htaken.trans (SameHids.of_eq rfl rfl)
          · exact htaken.trans (SameHids.of_eq rfl rfl)

theorem SameHids.hidOn_iff (h : SameHids t t₁) {x n : Nat} : HidOn t₁ x n ↔ HidOn t x n := by
  obtain ⟨hiff, hpayload⟩ := h.device x
  constructor
  · rintro ⟨hid, hn⟩
    exact ⟨hiff.mp hid, (hpayload (hiff.mp hid)).symm.trans hn⟩
  · rintro ⟨hid, hn⟩
    exact ⟨hiff.mpr hid, (hpayload hid).trans hn⟩

theorem HidSound.of_same (h : HidSound t) (hsame : SameHids t t₁) : HidSound t₁ := by
  have hon : ∀ {x n}, HidOn t₁ x n ↔ HidOn t x n := hsame.hidOn_iff
  constructor
  · intro x hid
    obtain ⟨n, hn⟩ := h.payload x ((hsame.device x).1.mp hid)
    exact ⟨n, hon.mpr hn⟩
  · intro x n hx
    rw [hsame.hidTable_eq]
    exact h.entry x n (hon.mp hx)
  · exact fun x y n hx hy => h.owner_unique x y n (hon.mp hx) (hon.mp hy)
  · intro n hn hmax
    rw [hsame.hidTable_eq] at hmax
    obtain ⟨x, hx⟩ := h.used n hn hmax
    exact ⟨x, hon.mpr hx⟩

/-- The parsing of the configuration takes a free payload or none. -/
theorem HidSound.parsed (h : HidSound t) (hc : c < maximumDevices)
    (hno : (t.deviceTable c).payLoadId = .noPayload) {s : ParseState}
    (hkeeps : KeepsPayloads (t.deviceTable c) t.hidTable s) :
    HidSound { t.setDevice c s.device with hidTable := s.hidTable } := by
  rcases hkeeps.payload with ⟨hid, -, htable⟩ | ⟨number, hlt, hfree, hid, hpayload, hmax, hothers⟩
  · have hsame : SameHids t (t.setDevice c s.device) :=
      SameHids.setDevice (by simp [hno]) (by simp [hid])
    refine h.of_same (hsame.trans ⟨htable, fun x => ⟨Iff.rfl, fun _ => rfl⟩⟩)
  · have hself : HidOn { t.setDevice c s.device with hidTable := s.hidTable } c number := by
      rw [HidOn, setDevice_self]
      exact ⟨hid, hpayload⟩
    have hother : ∀ {x n}, x ≠ c →
        (HidOn { t.setDevice c s.device with hidTable := s.hidTable } x n ↔ HidOn t x n) := by
      intro x n hx
      rw [HidOn, HidOn, setDevice_of_ne hx]
    have hnumber : ∀ {n}, HidOn { t.setDevice c s.device with hidTable := s.hidTable } c n →
        n = number := by
      intro n hn
      exact Option.some.inj (hn.2.symm.trans hself.2)
    have hunowned : ∀ x, ¬ HidOn t x number := fun x hx => (h.entry x number hx).2.2 hfree
    have hmaxHID : ∀ {m}, m ≠ number → (s.hidTable m).maxHID = (t.hidTable m).maxHID := by
      intro m hm
      rw [hothers m hm]
    constructor
    · intro x hx
      by_cases hxc : x = c
      · exact ⟨number, hxc ▸ hself⟩
      · rw [setDevice_of_ne hxc] at hx
        obtain ⟨n, hn⟩ := h.payload x hx
        exact ⟨n, (hother hxc).mpr hn⟩
    · intro x n hx
      by_cases hxc : x = c
      · rw [hxc] at hx ⊢
        rw [hnumber hx]
        exact ⟨hc, hlt, hmax⟩
      · have hn := (hother hxc).mp hx
        obtain ⟨hbounded, hentry, hused⟩ := h.entry x n hn
        refine ⟨hbounded, hentry, ?_⟩
        dsimp only
        rw [hmaxHID fun heq => hunowned x (heq ▸ hn)]
        exact hused
    · intro x y n hx hy
      by_cases hxc : x = c
      · by_cases hyc : y = c
        · rw [hxc, hyc]
        · rw [hxc] at hx
          exact absurd (hnumber hx ▸ (hother hyc).mp hy) (hunowned y)
      · by_cases hyc : y = c
        · rw [hyc] at hy
          exact absurd (hnumber hy ▸ (hother hxc).mp hx) (hunowned x)
        · exact h.owner_unique x y n ((hother hxc).mp hx) ((hother hyc).mp hy)
    · intro n hn hused
      by_cases heq : n = number
      · exact ⟨c, heq ▸ hself⟩
      · dsimp only at hused
        rw [hmaxHID heq] at hused
        obtain ⟨x, hx⟩ := h.used n hn hused
        have hxc : x ≠ c := by
          rintro rfl
          rw [HidOn, hno] at hx
          cases hx.1
        exact ⟨x, (hother hxc).mpr hx⟩

/-- The enumeration of a new device, also where it fails. -/
theorem HidSound.enumerateDevice (h : HidSound t) (hc : c < maximumDevices)
    (hno : (t.deviceTable c).payLoadId = .noPayload) {fuel : Nat} {result : Result}
    (hs : enumerateDevice fuel t c answers = some (result, t₁)) : HidSound t₁ := by
  obtain rfl | rfl | ⟨outcome, s, hread, hcase⟩ := enumerateDevice_cases hs
  · exact h.of_same (SameHids.setDevice (by simp [hno]) (by simp [hno]))
  · exact h
  · have hparsed := h.parsed hc hno (readConfiguration_keeps hno hread)
    obtain rfl | ⟨-, rfl⟩ := hcase
    · exact hparsed
    · exact hparsed.of_same enumerateHub_sameHids

end Same

section Run

variable {s s' : UsbState}

/-- No device that is removed, and no device below it, carries a HID payload. -/
def KeepsHids (s : UsbState) (a : UsbAction) : Prop :=
  ∀ c, s.removed a = some c → ∀ x, Below s.tables c x →
    (s.tables.deviceTable x).payLoadId ≠ .hidPayload

/-- A removal that keeps the HID payloads. -/
theorem HidSound.removeChild {t t' : Tables} {n port : Nat} (h : HidSound t)
    (hkeeps : ∀ c, (t.hubTable n).children port = some c → ∀ x, Below t c x →
      (t.deviceTable x).payLoadId ≠ .hidPayload)
    (hremove : removeChild t n port = .ok t') : HidSound t' := by
  cases hc : (t.hubTable n).children port with
  | none =>
      rw [Usb.removeChild, hc] at hremove
      cases hremove
  | some c => exact h.of_same ((removeChild_trims hc hremove).sameHids (hkeeps c hc))

theorem HidSound.connectPort {d n port fuel : Nat} {reset status : Result} {answers : Answers}
    (h : HidSound s.tables) (hs : connectPort s d n port fuel reset status answers = some s') :
    HidSound s'.tables := by
  obtain rfl | ⟨c, hc, hfree, hcase⟩ := connectPort_cases hs
  · exact h
  have hallocated : SameHids s.tables (s.tables.setDevice c
      (allocatedDevice (s.tables.deviceTable c) c)) :=
    SameHids.setDevice (by simp [hfree]) PayLoadType.noConfusion
  have hported : HidSound ((s.tables.setDevice c
      (allocatedDevice (s.tables.deviceTable c) c)).setChild n port (some c)) :=
    (h.of_same hallocated).of_same (SameHids.of_eq rfl rfl)
  obtain rfl | ⟨-, -, result, tables, henumerate, rfl⟩ := hcase
  · exact hported
  · have hchild : (((s.tables.setDevice c (allocatedDevice (s.tables.deviceTable c) c)).setChild n
        port (some c)).deviceTable c).payLoadId = .noPayload :=
      congrArg UsbDevice.payLoadId setDevice_self
    refine HidSound.enumerateDevice (hported.of_same ?_) hc ?_ henumerate
    · refine SameHids.setDevice ?_ ?_
      · exact fun hid => PayLoadType.noConfusion (hchild.symm.trans hid)
      · exact fun hid => PayLoadType.noConfusion (hchild.symm.trans hid)
    · rw [setParent, setDevice_self]
      exact hchild

theorem HidSound.step {a : UsbAction} (h : HidSound s.tables) (ha : KeepsHids s a)
    (hs : s.next a = some s') : HidSound s'.tables := by
  rw [UsbState.next] at hs
  split at hs
  swap
  · cases hs
  · next heffect =>
    cases hs
    cases a with
    | disconnect d port connected enabled =>
        rw [UsbState.effect] at heffect
        rw [KeepsHids, UsbState.removed] at ha
        split at heffect
        · next hfailed hport =>
          rw [hfailed, hport] at ha
          split at heffect
          · obtain ⟨t, hremove, rfl⟩ := map_eq_ok (Option.some.inj heffect)
            exact h.removeChild ha hremove
          · cases heffect
            exact h
        · cases heffect
    | connect d port fuel reset status answers =>
        rw [UsbState.effect] at heffect
        split at heffect
        · split at heffect
          · cases heffect
          · obtain ⟨s₁, hs₁, heq⟩ := Option.map_eq_some_iff.mp heffect
            cases heq
            exact h.connectPort hs₁
        · cases heffect
    | disable =>
        rw [UsbState.effect] at heffect
        rw [KeepsHids, UsbState.removed] at ha
        split at heffect
        · cases heffect
        · next n port hfailed =>
          rw [hfailed] at ha
          obtain ⟨t, hremove, rfl⟩ := map_eq_ok (Option.some.inj heffect)
          exact h.removeChild ha hremove

theorem hidSound_of_initial (h : usbSystem.Initial s) : HidSound s.tables := by
  obtain ⟨root, maxChildren, -, hid, -, -, -, rfl⟩ := h
  have hnot : ∀ x, ((rootTables root maxChildren).deviceTable x).payLoadId ≠ .hidPayload := by
    intro x
    by_cases hx : x = 0
    · simp [rootTables, hx, hid]
    · simp [rootTables, hx]
  constructor
  · exact fun x hx => absurd hx (hnot x)
  · exact fun x n hx => absurd hx.1 (hnot x)
  · exact fun x y n hx => absurd hx.1 (hnot x)
  · exact fun n _ hused => absurd rfl hused

/-- Every run that removes no HID payload keeps them those of the devices. -/
theorem hidSound_of_keepsHids (h : usbSystem.ReachableBy KeepsHids s) : HidSound s.tables :=
  h.invariant (fun _ hs => hidSound_of_initial hs) fun _ _ _ hs ha hnext => hs.step ha hnext

/-- The HID payloads that are free. -/
def freeHids (t : Tables) : Finset Nat :=
  (Finset.range maximumHids).filter fun n => (t.hidTable n).maxHID = 0

/-- The devices that carry a HID payload. -/
def hidDevices (t : Tables) : Finset Nat :=
  (Finset.range maximumDevices).filter fun x => (t.deviceTable x).payLoadId = .hidPayload

/-- Each HID payload is free or belongs to one device. -/
theorem HidSound.card {t : Tables} (h : HidSound t) :
    (freeHids t).card + (hidDevices t).card = maximumHids := by
  have hused : (hidDevices t).card =
      ((Finset.range maximumHids).filter fun n => ¬ (t.hidTable n).maxHID = 0).card := by
    refine Finset.card_nbij (fun x => ((t.deviceTable x).payload).getD 0) ?_ ?_ ?_
    · intro x hx
      obtain ⟨n, hn⟩ := h.payload x (Finset.mem_filter.mp hx).2
      obtain ⟨-, hlt, hmax⟩ := h.entry x n hn
      simp only [hn.2, Option.getD_some]
      exact Finset.mem_coe.mpr (Finset.mem_filter.mpr ⟨Finset.mem_range.mpr hlt, hmax⟩)
    · intro x hx y hy heq
      obtain ⟨n, hn⟩ := h.payload x (Finset.mem_filter.mp hx).2
      obtain ⟨m, hm⟩ := h.payload y (Finset.mem_filter.mp hy).2
      simp only [hn.2, hm.2, Option.getD_some] at heq
      exact h.owner_unique x y n hn (heq ▸ hm)
    · intro n hn
      obtain ⟨hlt, hmax⟩ := Finset.mem_filter.mp (Finset.mem_coe.mp hn)
      obtain ⟨x, hx⟩ := h.used n (Finset.mem_range.mp hlt) hmax
      refine ⟨x, Finset.mem_coe.mpr (Finset.mem_filter.mpr ⟨?_, hx.1⟩), ?_⟩
      · exact Finset.mem_range.mpr (h.entry x n hx).1
      · simp only [hx.2, Option.getD_some]
  calc
    (freeHids t).card + (hidDevices t).card = (Finset.range maximumHids).card := by
      rw [hused, freeHids]
      exact Finset.card_filter_add_card_filter_not _
    _ = maximumHids := Finset.card_range _

/-- In every run that removes no device with a HID payload, a payload is in use exactly
when one device in use points to it, and the free payloads are as many as the table has
more than there are such devices. -/
theorem hid_payloads_owned (h : usbSystem.ReachableBy KeepsHids s) :
    (∀ n < maximumHids, (s.tables.hidTable n).maxHID ≠ 0 ↔
        ∃! x, x < maximumDevices ∧ HidOn s.tables x n) ∧
      (freeHids s.tables).card + (hidDevices s.tables).card = maximumHids := by
  have hsound := hidSound_of_keepsHids h
  refine ⟨fun n hn => ⟨fun hused => ?_, ?_⟩, hsound.card⟩
  · obtain ⟨x, hx⟩ := hsound.used n hn hused
    exact ⟨x, ⟨(hsound.entry x n hx).1, hx⟩, fun y hy => hsound.owner_unique y x n hy.2 hx⟩
  · rintro ⟨x, ⟨-, hx⟩, -⟩
    exact (hsound.entry x n hx).2.2

end Run

/-- A mouse is plugged into the first port of the root hub. -/
def plugMouse : UsbAction :=
  .connect 0 0 8 .ok .ok { wTotalLength := 34, received := mouseBlock.flatten }

def mousePlugged : UsbState := (rootState.next plugMouse).getD rootState

theorem next_plugMouse : usbSystem.next rootState plugMouse = some mousePlugged :=
  next_getD (by decide +kernel)

theorem hid_payloads_owned_mouse :
    (mousePlugged.tables.hidTable 0).maxHID ≠ 0 ↔
      ∃! x, x < maximumDevices ∧ HidOn mousePlugged.tables x 0 :=
  (hid_payloads_owned (System.ReachableBy.next plugMouse
    (System.ReachableBy.initial initial_rootState) (fun c hc => (by cases hc)) next_plugMouse)).1 0
      (by decide)

/-- The mouse is unplugged. -/
def unplugMouse : UsbAction := .disconnect 0 0 false false

def mouseUnplugged : UsbState := (mousePlugged.next unplugMouse).getD mousePlugged

theorem next_unplugMouse : usbSystem.next mousePlugged unplugMouse = some mouseUnplugged :=
  next_getD (by decide +kernel)

/-- The payload of a mouse stays in use after the mouse is gone. -/
theorem not_hid_payloads_owned : ¬ ∀ s, usbSystem.Reachable s → ∀ n < maximumHids,
    (s.tables.hidTable n).maxHID ≠ 0 ↔ ∃! x, x < maximumDevices ∧ HidOn s.tables x n := by
  intro hall
  have hreach : usbSystem.Reachable mouseUnplugged :=
    System.ReachableBy.next unplugMouse (System.ReachableBy.next plugMouse
      (System.ReachableBy.initial initial_rootState) trivial next_plugMouse) trivial
        next_unplugMouse
  have hused : (mouseUnplugged.tables.hidTable 0).maxHID ≠ 0 := by decide +kernel
  have hnone : ∀ x < maximumDevices,
      (mouseUnplugged.tables.deviceTable x).payLoadId ≠ .hidPayload := by decide +kernel
  obtain ⟨x, ⟨hx, hon⟩, -⟩ := (hall _ hreach 0 (by decide)).mp hused
  exact hnone x hx hon.1

end RPiKernel.Usb
