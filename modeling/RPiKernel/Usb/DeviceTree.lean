import RPiKernel.Forest.Descendants
import RPiKernel.Usb.Tables

/-!
# Removing a device

`UsbDeallocateDevice` removes the children of a hub, clears its payload with
`RemoveHubPayload`, which walks over the children again, takes the device out of
the port of its parent and clears its entry. In a tree of devices whose parents can
be found by their numbers, this prunes exactly what is below the device.

## Implementation notes

The two functions call each other; the recursion is as deep as its fuel, for which
the number of device entries is enough in a tree.
-/

namespace RPiKernel.Usb

open Relation Forest

/-- An access outside of `DeviceTable`, through a null device, or a recursion deeper than
the table. -/
inductive TableFault where
  | outsideDeviceTable
  | nullDevice
  | recursion
  deriving DecidableEq

namespace Tables

def setDevice (t : Tables) (d : Nat) (device : UsbDevice) : Tables :=
  { t with deviceTable := Function.update t.deviceTable d device }

def setHub (t : Tables) (n : Nat) (hub : HubDevice) : Tables :=
  { t with hubTable := Function.update t.hubTable n hub }

/-- Store to a port of a hub payload. -/
def setChild (t : Tables) (n port : Nat) (child : Option Nat) : Tables :=
  t.setHub n { t.hubTable n with
    children := Function.update (t.hubTable n).children port child }

end Tables

/-- The end of `UsbDeallocateDevice` for the parent: it is found by its number less one. -/
def clearParentSlot (t : Tables) (d : Nat) : Except TableFault Tables :=
  let device := t.deviceTable d
  if device.parentHub.number < maximumDevices then
    if device.parentHub.number = 0 then
      .error .outsideDeviceTable
    else
      let parent := t.deviceTable (device.parentHub.number - 1)
      match parent.payload with
      | none => .ok t
      | some n =>
          if parent.payLoadId = .hubPayload ∧
              device.parentHub.portNumber < (t.hubTable n).maxChildren ∧
              (t.hubTable n).children device.parentHub.portNumber = some d then
            .ok (t.setChild n device.parentHub.portNumber none)
          else
            .ok t
  else
    .ok t

/-- The loop over the children of a hub; `left` iterations are left. -/
def deallocateChildren (deallocate : Tables → Nat → Except TableFault Tables) (d : Nat) :
    Nat → Nat → Tables → Except TableFault Tables
  | 0, _, t => .ok t
  | left + 1, i, t =>
      match (t.deviceTable d).payload with
      | none => .error .nullDevice
      | some n =>
          if i < (t.hubTable n).maxChildren then
            match (t.hubTable n).children i with
            | some child =>
                match deallocate t child with
                | .ok t => deallocateChildren deallocate d left (i + 1) t
                | .error fault => .error fault
            | none => deallocateChildren deallocate d left (i + 1) t
          else
            .ok t

/-- `RemoveHubPayload`. -/
def removeHubPayload (deallocate : Tables → Nat → Except TableFault Tables) (t : Tables) (d : Nat) :
    Except TableFault Tables :=
  if isHub (t.deviceTable d) then
    match deallocateChildren deallocate d (maxChildrenPerDevice + 1) 0 t with
    | .error fault => .error fault
    | .ok t =>
        match (t.deviceTable d).payload with
        | none => .error .nullDevice
        | some n => .ok ((t.setHub n {}).setDevice d
            { t.deviceTable d with payload := none, payLoadId := .noPayload })
  else
    .ok t

/-- The end of `UsbDeallocateDevice`. -/
def clearDevice (t : Tables) (d : Nat) : Except TableFault Tables :=
  (clearParentSlot t d).map fun t => t.setDevice d {}

theorem exists_clearParentSlot {t t₁ : Tables} {d : Nat} (h : clearDevice t d = .ok t₁) :
    ∃ t', clearParentSlot t d = .ok t' ∧ t₁ = t'.setDevice d {} := by
  rw [clearDevice] at h
  cases hclear : clearParentSlot t d with
  | error fault =>
      rw [hclear] at h
      cases h
  | ok t' =>
      rw [hclear] at h
      exact ⟨t', rfl, (Except.ok.inj h).symm⟩

/-- `UsbDeallocateDevice`. -/
def usbDeallocateDevice : Nat → Tables → Nat → Except TableFault Tables
  | 0, _, _ => .error .recursion
  | fuel + 1, t, d =>
      if isHub (t.deviceTable d) then
        match deallocateChildren (usbDeallocateDevice fuel) d (maxChildrenPerDevice + 1) 0 t with
        | .error fault => .error fault
        | .ok t =>
            match removeHubPayload (usbDeallocateDevice fuel) t d with
            | .error fault => .error fault
            | .ok t => clearDevice t d
      else
        clearDevice t d

/-- A device that carries a hub payload. -/
def HubOn (t : Tables) (x n : Nat) : Prop :=
  (t.deviceTable x).payLoadId = .hubPayload ∧ (t.deviceTable x).payload = some n

/-- A device in a port of a hub. -/
def IsChild (t : Tables) (x c : Nat) : Prop :=
  ∃ n p, HubOn t x n ∧ (t.hubTable n).children p = some c

/-- A device and all devices that hang from it. -/
def Below (t : Tables) (d x : Nat) : Prop := ReflTransGen (IsChild t) d x

open Classical in
/-- The tables without a set of devices, their hub payloads and all pointers to them. -/
noncomputable def prune (t : Tables) (S : Nat → Prop) : Tables where
  deviceTable x := if S x then {} else t.deviceTable x
  hubTable n := if ∃ x, S x ∧ HubOn t x n then {} else
    { t.hubTable n with children := fun p =>
        ((t.hubTable n).children p).filter fun c => decide (¬ S c) }
  hidTable := t.hidTable

/-- The devices and hub payloads form a tree. -/
structure Tree (t : Tables) : Prop where
  forest : IsForest (IsChild t)
  hub : ∀ x, (t.deviceTable x).payLoadId = .hubPayload →
    ∃ n < maximumHubs, (t.deviceTable x).payload = some n
  owner_unique : ∀ x y n, HubOn t x n → HubOn t y n → x = y
  used : ∀ n, (t.hubTable n).maxChildren ≠ 0 → ∃ x, HubOn t x n
  owned : ∀ x n, HubOn t x n → (t.hubTable n).maxChildren ≠ 0
  maxChildren_le : ∀ n, (t.hubTable n).maxChildren ≤ maxChildrenPerDevice
  child : ∀ n p c, (t.hubTable n).children p = some c →
    p < (t.hubTable n).maxChildren ∧ (t.deviceTable c).payLoadId ≠ .errorPayload ∧ c ≠ 0
  slot_unique : ∀ n p m q c, (t.hubTable n).children p = some c →
    (t.hubTable m).children q = some c → n = m ∧ p = q
  link : ∀ x n p c, HubOn t x n → (t.hubTable n).children p = some c →
    (t.deviceTable c).parentHub = ⟨0xFF, 0⟩ ∨ (t.deviceTable c).parentHub = ⟨x + 1, p⟩
  number : ∀ x n, HubOn t x n → (t.deviceTable x).number = x + 1
  attached : ∀ x, (t.deviceTable x).payLoadId ≠ .errorPayload → x ≠ 0 → ∃ y, IsChild t y x
  bounded : ∀ x, (t.deviceTable x).payLoadId ≠ .errorPayload → x < maximumDevices
  root : (t.deviceTable 0).payLoadId = .hubPayload

section Prune

variable {t : Tables} {S : Nat → Prop} {x n p c : Nat}

theorem prune_device_of (h : S x) : (prune t S).deviceTable x = {} := if_pos h

theorem prune_device_of_not (h : ¬ S x) : (prune t S).deviceTable x = t.deviceTable x := if_neg h

theorem hubOn_prune_iff : HubOn (prune t S) x n ↔ HubOn t x n ∧ ¬ S x := by
  by_cases hx : S x
  · simp [HubOn, prune_device_of hx, hx]
  · simp [HubOn, prune_device_of_not hx, hx]

open Classical in
theorem prune_hub_of_not (h : ¬ ∃ x, S x ∧ HubOn t x n) : (prune t S).hubTable n =
    { t.hubTable n with children := fun p =>
        ((t.hubTable n).children p).filter fun c => decide (¬ S c) } := if_neg h

theorem prune_hub_of (h : ∃ x, S x ∧ HubOn t x n) : (prune t S).hubTable n = {} := if_pos h

theorem children_prune_iff : ((prune t S).hubTable n).children p = some c ↔
    (¬ ∃ x, S x ∧ HubOn t x n) ∧ (t.hubTable n).children p = some c ∧ ¬ S c := by
  by_cases hn : ∃ x, S x ∧ HubOn t x n
  · simp [prune_hub_of hn, hn]
  · rw [prune_hub_of_not hn]
    simp only [Option.filter_eq_some_iff, decide_eq_true_eq]
    exact ⟨fun h => ⟨hn, h⟩, fun h => h.2⟩

/-- Pruning twice prunes both sets. -/
theorem prune_prune (t : Tables) (S S' : Nat → Prop) :
    prune (prune t S) S' = prune t fun x => S x ∨ S' x := by
  have hdevice : (prune (prune t S) S').deviceTable =
      (prune t fun x => S x ∨ S' x).deviceTable := by
    funext x
    by_cases hx' : S' x
    · rw [prune_device_of hx', prune_device_of (Or.inr hx')]
    · rw [prune_device_of_not hx']
      by_cases hx : S x
      · rw [prune_device_of hx, prune_device_of (Or.inl hx)]
      · rw [prune_device_of_not hx, prune_device_of_not (not_or.mpr ⟨hx, hx'⟩)]
  have hhub : (prune (prune t S) S').hubTable = (prune t fun x => S x ∨ S' x).hubTable := by
    funext n
    by_cases hn : ∃ x, S x ∧ HubOn t x n
    · have hboth : ∃ x, (S x ∨ S' x) ∧ HubOn t x n := by
        obtain ⟨x, hx, hon⟩ := hn
        exact ⟨x, Or.inl hx, hon⟩
      rw [prune_hub_of hboth]
      by_cases hn' : ∃ x, S' x ∧ HubOn (prune t S) x n
      · rw [prune_hub_of hn']
      · rw [prune_hub_of_not hn', prune_hub_of hn]
        rfl
    · by_cases hn' : ∃ x, S' x ∧ HubOn (prune t S) x n
      · have hboth : ∃ x, (S x ∨ S' x) ∧ HubOn t x n := by
          obtain ⟨x, hx, hon⟩ := hn'
          exact ⟨x, Or.inr hx, (hubOn_prune_iff.mp hon).1⟩
        rw [prune_hub_of hn', prune_hub_of hboth]
      · have hboth : ¬ ∃ x, (S x ∨ S' x) ∧ HubOn t x n := by
          rintro ⟨x, hx | hx, hon⟩
          · exact hn ⟨x, hx, hon⟩
          · by_cases hold : S x
            · exact hn ⟨x, hold, hon⟩
            · exact hn' ⟨x, hx, hubOn_prune_iff.mpr ⟨hon, hold⟩⟩
        rw [prune_hub_of_not hn', prune_hub_of_not hn, prune_hub_of_not hboth]
        simp only [Option.filter_filter, HubDevice.mk.injEq, true_and]
        funext p
        congr 1
        funext c
        by_cases hc : S c
        · simp [hc]
        · simp [hc]
  exact Tables.ext hdevice hhub rfl

/-- Pruning a closed set cuts the children in it off. -/
theorem isChild_prune (h : Tree t) (hS : Closed (IsChild t) S) :
    IsChild (prune t S) = cut (IsChild t) S := by
  funext x c
  refine propext ⟨?_, ?_⟩
  · rintro ⟨n, p, hon, hchild⟩
    obtain ⟨-, hchild, hc⟩ := children_prune_iff.mp hchild
    exact ⟨⟨n, p, (hubOn_prune_iff.mp hon).1, hchild⟩, hc⟩
  · rintro ⟨⟨n, p, hon, hchild⟩, hc⟩
    have hx : ¬ S x := fun hx => hc (hS x c ⟨n, p, hon, hchild⟩ hx)
    refine ⟨n, p, hubOn_prune_iff.mpr ⟨hon, hx⟩, children_prune_iff.mpr ⟨?_, hchild, hc⟩⟩
    rintro ⟨y, hy, hony⟩
    exact hx (h.owner_unique y x n hony hon ▸ hy)

/-- What is below a device that is left. -/
theorem below_prune_iff (h : Tree t) (hS : Closed (IsChild t) S) (hc : ¬ S c) :
    Below (prune t S) c x ↔ Below t c x ∧ ¬ S x := by
  rw [Below, isChild_prune h hS, below_cut_iff hS hc, Below]

/-- A tree stays a tree when a closed set without the root is pruned. -/
theorem Tree.prune (h : Tree t) (hS : Closed (IsChild t) S) (hroot : ¬ S 0) : Tree (prune t S) := by
  have hleft : ∀ {x}, ((Usb.prune t S).deviceTable x).payLoadId ≠ .errorPayload → ¬ S x := by
    intro x hlive hx
    rw [prune_device_of hx] at hlive
    exact hlive rfl
  constructor
  case forest =>
    rw [isChild_prune h hS]
    exact h.forest.cut S
  case hub =>
    intro x hx
    have hnot := hleft (by rw [hx]; exact PayLoadType.noConfusion)
    rw [prune_device_of_not hnot] at hx ⊢
    exact h.hub x hx
  case owner_unique =>
    exact fun x y n hx hy => h.owner_unique x y n (hubOn_prune_iff.mp hx).1 (hubOn_prune_iff.mp hy).1
  case used =>
    intro n hn
    by_cases hcleared : ∃ x, S x ∧ HubOn t x n
    · rw [prune_hub_of hcleared] at hn
      exact absurd rfl hn
    · rw [prune_hub_of_not hcleared] at hn
      obtain ⟨x, hon⟩ := h.used n hn
      exact ⟨x, hubOn_prune_iff.mpr ⟨hon, fun hx => hcleared ⟨x, hx, hon⟩⟩⟩
  case owned =>
    intro x n hon
    obtain ⟨hon, hx⟩ := hubOn_prune_iff.mp hon
    have hkept : ¬ ∃ y, S y ∧ HubOn t y n := by
      rintro ⟨y, hy, hony⟩
      exact hx (h.owner_unique y x n hony hon ▸ hy)
    rw [prune_hub_of_not hkept]
    exact h.owned x n hon
  case maxChildren_le =>
    intro n
    by_cases hcleared : ∃ x, S x ∧ HubOn t x n
    · rw [prune_hub_of hcleared]
      exact Nat.zero_le _
    · rw [prune_hub_of_not hcleared]
      exact h.maxChildren_le n
  case child =>
    intro n p c hchild
    obtain ⟨hkept, hchild, hc⟩ := children_prune_iff.mp hchild
    rw [prune_hub_of_not hkept, prune_device_of_not hc]
    exact h.child n p c hchild
  case slot_unique =>
    intro n p m q c hn hm
    exact h.slot_unique n p m q c (children_prune_iff.mp hn).2.1 (children_prune_iff.mp hm).2.1
  case link =>
    intro x n p c hon hchild
    obtain ⟨-, hchild, hc⟩ := children_prune_iff.mp hchild
    rw [prune_device_of_not hc]
    exact h.link x n p c (hubOn_prune_iff.mp hon).1 hchild
  case number =>
    intro x n hon
    obtain ⟨hon, hx⟩ := hubOn_prune_iff.mp hon
    rw [prune_device_of_not hx]
    exact h.number x n hon
  case attached =>
    intro x hlive hx
    have hnot := hleft hlive
    rw [prune_device_of_not hnot] at hlive
    obtain ⟨y, hy⟩ := h.attached x hlive hx
    refine ⟨y, ?_⟩
    rw [isChild_prune h hS]
    exact ⟨hy, hnot⟩
  case bounded =>
    intro x hlive
    have hnot := hleft hlive
    rw [prune_device_of_not hnot] at hlive
    exact h.bounded x hlive
  case root =>
    rw [prune_device_of_not hroot]
    exact h.root

end Prune

section Deallocate

variable {t : Tables} {x n p c : Nat}

theorem isHub_iff {device : UsbDevice} :
    isHub device = true ↔ device.payLoadId = .hubPayload ∧ ∃ n, device.payload = some n := by
  simp [isHub, Option.isSome_iff_exists]

/-- The parent and the port of an attached device. -/
theorem Tree.parent (h : Tree t) (hlive : (t.deviceTable c).payLoadId ≠ .errorPayload)
    (hroot : c ≠ 0) (hnumber : (t.deviceTable c).parentHub.number < maximumDevices) :
    ∃ x n p, HubOn t x n ∧ (t.hubTable n).children p = some c ∧
      (t.deviceTable c).parentHub = ⟨x + 1, p⟩ := by
  obtain ⟨x, n, p, hon, hchild⟩ := h.attached c hlive hroot
  refine ⟨x, n, p, hon, hchild, ?_⟩
  rcases h.link x n p c hon hchild with hnone | hlink
  · rw [hnone] at hnumber
    exact absurd hnumber (by decide)
  · exact hlink

/-- The parent of an attached device gives the port free. -/
theorem clearParentSlot_ok (hon : HubOn t x n) (hchild : (t.hubTable n).children p = some c)
    (hport : p < (t.hubTable n).maxChildren) (hlink : (t.deviceTable c).parentHub = ⟨x + 1, p⟩)
    (hnumber : (t.deviceTable c).parentHub.number < maximumDevices) :
    clearParentSlot t c = .ok (t.setChild n p none) := by
  rw [clearParentSlot]
  dsimp only
  rw [if_pos hnumber, hlink, if_neg (Nat.succ_ne_zero x), Nat.add_sub_cancel, hon.2]
  dsimp only
  rw [if_pos ⟨hon.1, hport, hchild⟩]

/-- Pruning one device clears its port and nothing else of the payloads of other hubs. -/
theorem Tree.prune_single_hub (h : Tree t) (hchild : (t.hubTable n).children p = some c) {m : Nat}
    (hm : ¬ HubOn t c m) :
    (Usb.prune t fun x => x = c).hubTable m = (t.setChild n p none).hubTable m := by
  have hkept : ¬ ∃ x, x = c ∧ HubOn t x m := by
    rintro ⟨x, rfl, hon⟩
    exact hm hon
  rw [prune_hub_of_not hkept, Tables.setChild, Tables.setHub]
  dsimp only
  by_cases heq : m = n
  · subst heq
    rw [Function.update_self]
    refine HubDevice.ext rfl (funext fun q => ?_)
    change Option.filter _ ((t.hubTable m).children q) =
      Function.update (t.hubTable m).children p none q
    by_cases hq : q = p
    · rw [hq, Function.update_self, hchild]
      simp
    · rw [Function.update_of_ne hq]
      cases hcq : (t.hubTable m).children q with
      | none => rfl
      | some c' =>
          have hne : c' ≠ c := fun hcc => hq (h.slot_unique m q m p c (hcc ▸ hcq) hchild).2
          simp [hne]
  · rw [Function.update_of_ne heq]
    refine HubDevice.ext rfl (funext fun q => ?_)
    change Option.filter _ ((t.hubTable m).children q) = _
    cases hcq : (t.hubTable m).children q with
    | none => rfl
    | some c' =>
        have hne : c' ≠ c := fun hcc => heq (h.slot_unique m q n p c (hcc ▸ hcq) hchild).1
        simp [hne]

/-- Removing a device that is no hub. -/
theorem Tree.clearDevice (h : Tree t) (hleaf : (t.deviceTable c).payLoadId ≠ .hubPayload)
    (hlive : (t.deviceTable c).payLoadId ≠ .errorPayload) (hroot : c ≠ 0)
    (hnumber : (t.deviceTable c).parentHub.number < maximumDevices) :
    Usb.clearDevice t c = .ok (Usb.prune t fun x => x = c) := by
  obtain ⟨x, n, p, hon, hchild, hlink⟩ := h.parent hlive hroot hnumber
  rw [Usb.clearDevice, clearParentSlot_ok hon hchild (h.child n p c hchild).1 hlink hnumber]
  refine congrArg Except.ok (Tables.ext ?_ ?_ rfl)
  · funext y
    by_cases hy : y = c
    · rw [hy, prune_device_of (S := fun x => x = c) rfl]
      exact Function.update_self ..
    · rw [prune_device_of_not (S := fun x => x = c) hy]
      exact Function.update_of_ne hy ..
  · funext m
    exact (h.prune_single_hub hchild fun hon' => hleaf hon'.1).symm

/-- Removing a hub whose ports are empty, once its payload has been cleared. -/
theorem Tree.clearHub (h : Tree t) {m : Nat} (hm : HubOn t c m) (hempty : ∀ b, ¬ IsChild t c b)
    (hroot : c ≠ 0) (hnumber : (t.deviceTable c).parentHub.number < maximumDevices) :
    Usb.clearDevice ((t.setHub m {}).setDevice c
        { t.deviceTable c with payload := none, payLoadId := .noPayload }) c =
      .ok (Usb.prune t fun x => x = c) := by
  have hlive : (t.deviceTable c).payLoadId ≠ .errorPayload := by
    rw [hm.1]
    exact PayLoadType.noConfusion
  obtain ⟨x, n, p, hon, hchild, hlink⟩ := h.parent hlive hroot hnumber
  have hx : x ≠ c := by
    rintro rfl
    exact hempty x ⟨n, p, hon, hchild⟩
  have hne : n ≠ m := by
    rintro rfl
    exact hx (h.owner_unique x c n hon hm)
  have hclear : clearParentSlot ((t.setHub m {}).setDevice c
      { t.deviceTable c with payload := none, payLoadId := .noPayload }) c =
        .ok (((t.setHub m {}).setDevice c
          { t.deviceTable c with payload := none, payLoadId := .noPayload }).setChild n p none) := by
    apply clearParentSlot_ok (x := x)
    · simpa [HubOn, Tables.setDevice, Tables.setHub, Function.update_of_ne hx] using hon
    · simpa [Tables.setDevice, Tables.setHub, Function.update_of_ne hne] using hchild
    · simpa [Tables.setDevice, Tables.setHub, Function.update_of_ne hne] using
        (h.child n p c hchild).1
    · simpa [Tables.setDevice, Tables.setHub] using hlink
    · simpa [Tables.setDevice, Tables.setHub] using hnumber
  rw [Usb.clearDevice, hclear]
  refine congrArg Except.ok (Tables.ext ?_ ?_ rfl)
  · funext y
    by_cases hy : y = c
    · rw [hy, prune_device_of (S := fun x => x = c) rfl]
      exact Function.update_self ..
    · rw [prune_device_of_not (S := fun x => x = c) hy]
      simp [Tables.setDevice, Tables.setChild, Tables.setHub, Function.update_of_ne hy]
  · funext k
    by_cases hk : k = m
    · subst hk
      rw [prune_hub_of (S := fun x => x = c) ⟨c, rfl, hm⟩]
      simp [Tables.setDevice, Tables.setChild, Tables.setHub, Function.update_of_ne hne.symm]
    · have hnot : ¬ HubOn t c k := fun hon' => hk (Option.some.inj (hon'.2.symm.trans hm.2))
      rw [h.prune_single_hub hchild hnot]
      by_cases hkn : k = n
      · subst hkn
        simp [Tables.setDevice, Tables.setChild, Tables.setHub, Function.update_of_ne hk]
      · simp [Tables.setDevice, Tables.setChild, Tables.setHub, Function.update_of_ne hk,
          Function.update_of_ne hkn]

/-- The devices below the ports of a hub payload before a port. -/
def belowPorts (t : Tables) (m i x : Nat) : Prop :=
  ∃ p < i, ∃ b, (t.hubTable m).children p = some b ∧ Below t b x

variable {m : Nat}

theorem closed_belowPorts (t : Tables) (m i : Nat) : Closed (IsChild t) (belowPorts t m i) := by
  rintro a b hab ⟨p, hp, d, hd, hbelow⟩
  exact ⟨p, hp, d, hd, closed_below d a b hab hbelow⟩

theorem Tree.not_belowPorts_self (h : Tree t) (hm : HubOn t c m) (i : Nat) :
    ¬ belowPorts t m i c := by
  rintro ⟨p, -, b, hb, hbelow⟩
  exact h.forest.not_below_of_child ⟨m, p, hm, hb⟩ hbelow

/-- The root is below no other device. -/
theorem Tree.not_below_root (h : Tree t) (hc : c ≠ 0) : ¬ Below t c 0 := by
  intro hbelow
  rcases ReflTransGen.cases_tail hbelow with heq | ⟨d, -, n, p, -, hchild⟩
  · exact hc heq.symm
  · exact (h.child n p 0 hchild).2.2 rfl

theorem Tree.not_belowPorts_root (h : Tree t) (i : Nat) : ¬ belowPorts t m i 0 := by
  rintro ⟨p, -, b, hb, hbelow⟩
  exact h.not_below_root (h.child m p b hb).2.2 hbelow

/-- Pruning nothing changes nothing. -/
theorem prune_of_forall_not {S : Nat → Prop} (h : ∀ x, ¬ S x) : Usb.prune t S = t := by
  refine Tables.ext ?_ ?_ rfl
  · funext x
    exact prune_device_of_not (h x)
  · funext n
    rw [prune_hub_of_not fun hex => h _ hex.choose_spec.1]
    refine HubDevice.ext rfl (funext fun p => ?_)
    change Option.filter _ ((t.hubTable n).children p) = _
    cases (t.hubTable n).children p with
    | none => rfl
    | some c => simp [h c]

/-- The specification of `UsbDeallocateDevice` for devices with little enough below them. -/
def PrunesBelow (fuel : Nat) (deallocate : Tables → Nat → Except TableFault Tables) : Prop :=
  ∀ t b, Tree t → (t.deviceTable b).payLoadId ≠ .errorPayload → b ≠ 0 →
    (∀ x, Below t b x → (t.deviceTable x).parentHub.number < maximumDevices) →
    IsForest.size (IsChild t) (Finset.range maximumDevices) b ≤ fuel →
    deallocate t b = .ok (prune t (Below t b))

/-- The loop over the children of a hub prunes what is below its ports. -/
theorem Tree.deallocateChildren_ok (h : Tree t) {fuel : Nat}
    {deallocate : Tables → Nat → Except TableFault Tables} (hspec : PrunesBelow fuel deallocate)
    (hm : HubOn t c m)
    (hnumber : ∀ x, Below t c x → (t.deviceTable x).parentHub.number < maximumDevices)
    (hsize : IsForest.size (IsChild t) (Finset.range maximumDevices) c ≤ fuel + 1)
    (left : Nat) {i : Nat} (hi : i + left = maxChildrenPerDevice + 1) :
    deallocateChildren deallocate c left i (Usb.prune t (belowPorts t m i)) =
      .ok (Usb.prune t (belowPorts t m (maxChildrenPerDevice + 1))) := by
  induction left generalizing i with
  | zero =>
      rw [deallocateChildren, ← hi]
      rfl
  | succ left ih =>
      have hself := h.not_belowPorts_self hm i
      have hclosed := closed_belowPorts t m i
      have htree := h.prune hclosed (h.not_belowPorts_root i)
      have hkept : ¬ ∃ x, belowPorts t m i x ∧ HubOn t x m := by
        rintro ⟨x, hx, hon⟩
        exact hself (h.owner_unique x c m hon hm ▸ hx)
      have hlive : ∀ {b p}, (t.hubTable m).children p = some b →
          (t.deviceTable b).payLoadId ≠ .errorPayload := fun hb => (h.child m _ _ hb).2.1
      rw [deallocateChildren, prune_device_of_not hself, hm.2]
      dsimp only
      rw [prune_hub_of_not hkept]
      dsimp only
      by_cases hport : i < (t.hubTable m).maxChildren
      · rw [if_pos hport]
        cases hb : (t.hubTable m).children i with
        | none =>
            -- an empty port adds nothing
            have hsame : belowPorts t m (i + 1) = belowPorts t m i := by
              funext x
              refine propext ⟨?_, ?_⟩
              · rintro ⟨p, hp, b, hpb, hbelow⟩
                rcases Nat.lt_or_eq_of_le (Nat.le_of_lt_succ hp) with hlt | rfl
                · exact ⟨p, hlt, b, hpb, hbelow⟩
                · rw [hb] at hpb
                  cases hpb
              · rintro ⟨p, hp, b, hpb, hbelow⟩
                exact ⟨p, Nat.lt_succ_of_lt hp, b, hpb, hbelow⟩
            have hrest := ih (i := i + 1) (by omega)
            rw [hsame] at hrest
            exact hrest
        | some b =>
            have hchild : IsChild t c b := ⟨m, i, hm, hb⟩
            have hout : ¬ belowPorts t m i b := by
              rintro ⟨p, hp, d, hd, hbelow⟩
              have hne : d ≠ b := by
                rintro rfl
                exact Nat.ne_of_lt hp (h.slot_unique m p m i d hd hb).2
              exact h.forest.disjoint_children ⟨m, p, hm, hd⟩ hchild hne hbelow ReflTransGen.refl
            have hbelow : ∀ {x}, Below (Usb.prune t (belowPorts t m i)) b x ↔
                Below t b x ∧ ¬ belowPorts t m i x := below_prune_iff h hclosed hout
            have hcall := hspec (Usb.prune t (belowPorts t m i)) b htree
              (by rw [prune_device_of_not hout]; exact hlive hb) (h.child m i b hb).2.2
              (fun x hx => by
                obtain ⟨hx, hnot⟩ := hbelow.mp hx
                rw [prune_device_of_not hnot]
                exact hnumber x (hx.head hchild))
              (by
                rw [isChild_prune h hclosed]
                have hmem : c ∈ Finset.range maximumDevices :=
                  Finset.mem_range.mpr (h.bounded c (by rw [hm.1]; exact PayLoadType.noConfusion))
                have hless := h.forest.size_lt hmem hchild
                exact Nat.le_trans (IsForest.size_cut_le _ _ _) (by omega))
            have hsets : (fun x => belowPorts t m i x ∨ Below (Usb.prune t (belowPorts t m i)) b x) =
                belowPorts t m (i + 1) := by
              funext x
              refine propext ⟨?_, ?_⟩
              · rintro (⟨p, hp, d, hd, hx⟩ | hx)
                · exact ⟨p, Nat.lt_succ_of_lt hp, d, hd, hx⟩
                · exact ⟨i, Nat.lt_succ_self i, b, hb, (hbelow.mp hx).1⟩
              · rintro ⟨p, hp, d, hd, hx⟩
                by_cases hold : belowPorts t m i x
                · exact Or.inl hold
                · rcases Nat.lt_or_eq_of_le (Nat.le_of_lt_succ hp) with hlt | rfl
                  · exact absurd ⟨p, hlt, d, hd, hx⟩ hold
                  · rw [hb] at hd
                    cases hd
                    exact Or.inr (hbelow.mpr ⟨hx, hold⟩)
            rw [Option.filter_some, if_pos (by simpa using hout)]
            dsimp only
            rw [hcall, prune_prune, hsets]
            exact ih (by omega)
      · rw [if_neg hport]
        have hsame : belowPorts t m (maxChildrenPerDevice + 1) = belowPorts t m i := by
          have hle := h.maxChildren_le m
          funext x
          refine propext ⟨?_, ?_⟩
          · rintro ⟨p, -, b, hpb, hx⟩
            have hp := (h.child m p b hpb).1
            exact ⟨p, by omega, b, hpb, hx⟩
          · rintro ⟨p, hp, b, hpb, hx⟩
            exact ⟨p, by omega, b, hpb, hx⟩
        rw [hsame]

/-- After the loop, the ports of the hub are empty. -/
theorem Tree.children_pruned (h : Tree t) (p : Nat) :
    ((Usb.prune t (belowPorts t m (maxChildrenPerDevice + 1))).hubTable m).children p = none := by
  rw [Option.eq_none_iff_forall_ne_some]
  intro b hb
  obtain ⟨-, hb, hout⟩ := children_prune_iff.mp hb
  have hp := (h.child m p b hb).1
  have hle := h.maxChildren_le m
  exact hout ⟨p, by omega, b, hb, ReflTransGen.refl⟩

theorem not_isChild_of_empty (hm : HubOn t c m)
    (hempty : ∀ p, (t.hubTable m).children p = none) (b : Nat) : ¬ IsChild t c b := by
  rintro ⟨n, p, hon, hchild⟩
  rw [Option.some.inj (hon.2.symm.trans hm.2), hempty] at hchild
  cases hchild

/-- The second walk over the children finds none, and the payload is cleared. -/
theorem removeHubPayload_ok (hm : HubOn t c m)
    (hempty : ∀ p, (t.hubTable m).children p = none) {fuel : Nat} :
    removeHubPayload (usbDeallocateDevice fuel) t c = .ok ((t.setHub m {}).setDevice c
      { t.deviceTable c with payload := none, payLoadId := .noPayload }) := by
  have hloop : ∀ left i, deallocateChildren (usbDeallocateDevice fuel) c left i t = .ok t := by
    intro left
    induction left with
    | zero => exact fun i => rfl
    | succ left ih =>
        intro i
        rw [deallocateChildren, hm.2]
        dsimp only
        rw [hempty]
        split
        · exact ih (i + 1)
        · rfl
  rw [removeHubPayload, if_pos (isHub_iff.mpr ⟨hm.1, m, hm.2⟩), hloop]
  dsimp only
  rw [hm.2]

/-- What is below a hub is the hub and what is below its ports. -/
theorem Tree.below_eq (h : Tree t) (hm : HubOn t c m) :
    (fun x => belowPorts t m (maxChildrenPerDevice + 1) x ∨ x = c) = Below t c := by
  funext x
  refine propext ⟨?_, ?_⟩
  · rintro (⟨p, -, b, hb, hx⟩ | rfl)
    · exact hx.head ⟨m, p, hm, hb⟩
    · exact ReflTransGen.refl
  · intro hx
    rcases ReflTransGen.cases_head hx with heq | ⟨b, ⟨n, p, hon, hchild⟩, hbelow⟩
    · exact Or.inr heq.symm
    · rw [Option.some.inj (hon.2.symm.trans hm.2)] at hchild
      have hp := (h.child m p b hchild).1
      have hle := h.maxChildren_le m
      exact Or.inl ⟨p, by omega, b, hchild, hbelow⟩

/-- In a tree, `UsbDeallocateDevice` prunes exactly what is below the device. -/
theorem usbDeallocateDevice_ok (fuel : Nat) : PrunesBelow fuel (usbDeallocateDevice fuel) := by
  induction fuel with
  | zero =>
      intro t c h hlive hroot hnumber hsize
      have hpos : 0 < IsForest.size (IsChild t) (Finset.range maximumDevices) c := by
        classical
        exact Finset.card_pos.mpr ⟨c, Finset.mem_filter.mpr
          ⟨Finset.mem_range.mpr (h.bounded c hlive), ReflTransGen.refl⟩⟩
      omega
  | succ fuel ih =>
      intro t c h hlive hroot hnumber hsize
      rw [usbDeallocateDevice]
      by_cases hub : (t.deviceTable c).payLoadId = .hubPayload
      · obtain ⟨m, -, hpayload⟩ := h.hub c hub
        have hm : HubOn t c m := ⟨hub, hpayload⟩
        have hstart : Usb.prune t (belowPorts t m 0) = t :=
          prune_of_forall_not fun x hx => Nat.not_lt_zero _ hx.choose_spec.1
        have hloop := h.deallocateChildren_ok ih hm hnumber hsize _ (Nat.zero_add _)
        rw [hstart] at hloop
        rw [if_pos (isHub_iff.mpr ⟨hub, m, hpayload⟩), hloop]
        dsimp only
        have hself := h.not_belowPorts_self hm (maxChildrenPerDevice + 1)
        have hclosed := closed_belowPorts t m (maxChildrenPerDevice + 1)
        have htree := h.prune hclosed (h.not_belowPorts_root _)
        have hm' : HubOn (Usb.prune t (belowPorts t m (maxChildrenPerDevice + 1))) c m :=
          hubOn_prune_iff.mpr ⟨hm, hself⟩
        have hempty := h.children_pruned (m := m)
        rw [removeHubPayload_ok hm' hempty]
        dsimp only
        rw [htree.clearHub hm' (not_isChild_of_empty hm' hempty) hroot
          (by rw [prune_device_of_not hself]; exact hnumber c ReflTransGen.refl), prune_prune,
          h.below_eq hm]
      · rw [if_neg fun hhub => hub (isHub_iff.mp hhub).1,
          h.clearDevice hub hlive hroot (hnumber c ReflTransGen.refl)]
        congr 1
        have hset : (fun x => x = c) = Below t c := by
          funext x
          refine propext ⟨fun hx => hx ▸ ReflTransGen.refl, fun hx => ?_⟩
          rcases ReflTransGen.cases_head hx with heq | ⟨d, ⟨n, p, hon, -⟩, -⟩
          · exact heq.symm
          · exact absurd hon.1 hub
        rw [hset]

end Deallocate

end RPiKernel.Usb
