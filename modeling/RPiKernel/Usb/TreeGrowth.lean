import RPiKernel.Usb.ConnectionChange

/-!
# Growth of the device tree

What a connection change does to the tables, one operation at a time: a device is
attached to a port, changes, becomes a hub, or is removed with all below it. Each
operation keeps the tree.
-/

namespace RPiKernel.Usb

open Relation Forest

section Grow

variable {t : Tables} {d n p c : Nat} {device : UsbDevice}

@[simp] theorem setDevice_self : (t.setDevice c device).deviceTable c = device :=
  Function.update_self ..

theorem setDevice_of_ne {x : Nat} (hx : x ≠ c) :
    (t.setDevice c device).deviceTable x = t.deviceTable x := Function.update_of_ne hx ..

@[simp] theorem setHub_self {hub : HubDevice} : (t.setHub n hub).hubTable n = hub :=
  Function.update_self ..

theorem setHub_of_ne {hub : HubDevice} {m : Nat} (hm : m ≠ n) :
    (t.setHub n hub).hubTable m = t.hubTable m := Function.update_of_ne hm ..

/-- A device that is no hub, before and after a change, leaves the payloads as they are. -/
theorem hubOn_setDevice_iff (hold : (t.deviceTable c).payLoadId ≠ .hubPayload)
    (hnew : device.payLoadId ≠ .hubPayload) {x m : Nat} :
    HubOn (t.setDevice c device) x m ↔ HubOn t x m := by
  by_cases hx : x = c
  · rw [hx, HubOn, HubOn, setDevice_self]
    exact ⟨fun hon => absurd hon.1 hnew, fun hon => absurd hon.1 hold⟩
  · rw [HubOn, HubOn, setDevice_of_ne hx]

theorem isChild_setDevice (hold : (t.deviceTable c).payLoadId ≠ .hubPayload)
    (hnew : device.payLoadId ≠ .hubPayload) : IsChild (t.setDevice c device) = IsChild t := by
  ext x b
  exact exists_congr fun m => exists_congr fun q => and_congr_left fun _ =>
    hubOn_setDevice_iff hold hnew

/-- The ports after a child has been attached to an empty one. -/
theorem children_setChild_iff (hempty : (t.hubTable n).children p = none) {m q b : Nat} :
    ((t.setChild n p (some c)).hubTable m).children q = some b ↔
      (t.hubTable m).children q = some b ∨ m = n ∧ q = p ∧ b = c := by
  rw [Tables.setChild]
  by_cases hm : m = n
  · subst hm
    rw [setHub_self]
    dsimp only
    by_cases hq : q = p
    · subst hq
      rw [Function.update_self, hempty]
      simp [eq_comm]
    · rw [Function.update_of_ne hq]
      simp [hq]
  · rw [setHub_of_ne hm]
    simp [hm]

theorem maxChildren_setChild (child : Option Nat) (m : Nat) :
    ((t.setChild n p child).hubTable m).maxChildren = (t.hubTable m).maxChildren := by
  rw [Tables.setChild]
  by_cases hm : m = n
  · rw [hm, setHub_self]
  · rw [setHub_of_ne hm]

/-- A child in a port of a hub is a child of the device with this hub. -/
theorem isChild_setChild (hempty : (t.hubTable n).children p = none) (hd : HubOn t d n)
    (hunique : ∀ x, HubOn t x n → x = d) :
    IsChild (t.setChild n p (some c)) = fun a b => IsChild t a b ∨ a = d ∧ b = c := by
  ext a b
  constructor
  · rintro ⟨m, q, ha, hb⟩
    rcases (children_setChild_iff hempty).mp hb with hb | ⟨rfl, rfl, rfl⟩
    · exact Or.inl ⟨m, q, ha, hb⟩
    · exact Or.inr ⟨hunique a ha, rfl⟩
  · rintro (⟨m, q, ha, hb⟩ | ⟨rfl, rfl⟩)
    · exact ⟨m, q, ha, (children_setChild_iff hempty).mpr (Or.inl hb)⟩
    · exact ⟨n, p, hd, (children_setChild_iff hempty).mpr (Or.inr ⟨rfl, rfl, rfl⟩)⟩

/-- The tree does not depend on the HID payloads. -/
theorem Tree.withHidTable (h : Tree t) (hidTable : Nat → HidDevice) :
    Tree { t with hidTable } :=
  ⟨h.forest, h.hub, h.owner_unique, h.used, h.owned, h.maxChildren_le, h.child, h.slot_unique,
    h.link, h.number, h.attached, h.bounded, h.root⟩

/-- A change of a device that is no hub. -/
theorem Tree.setDevice (h : Tree t) (hold : (t.deviceTable c).payLoadId ≠ .hubPayload)
    (hlive : (t.deviceTable c).payLoadId ≠ .errorPayload)
    (hnew : device.payLoadId ≠ .hubPayload) (hnewLive : device.payLoadId ≠ .errorPayload)
    (hparent : device.parentHub = (t.deviceTable c).parentHub) : Tree (t.setDevice c device) := by
  have hon : ∀ {x m}, HubOn (t.setDevice c device) x m ↔ HubOn t x m :=
    hubOn_setDevice_iff hold hnew
  have hchild : IsChild (t.setDevice c device) = IsChild t := isChild_setDevice hold hnew
  have hdevice : ∀ x, x = c ∨ (t.setDevice c device).deviceTable x = t.deviceTable x := by
    intro x
    by_cases hx : x = c
    · exact Or.inl hx
    · exact Or.inr (setDevice_of_ne hx)
  constructor
  case forest =>
    rw [hchild]
    exact h.forest
  case hub =>
    intro x hx
    rcases hdevice x with rfl | heq
    · rw [setDevice_self] at hx
      exact absurd hx hnew
    · rw [heq] at hx ⊢
      exact h.hub x hx
  case owner_unique => exact fun x y m hx hy => h.owner_unique x y m (hon.mp hx) (hon.mp hy)
  case used => exact fun m hm => (h.used m hm).imp fun x hx => hon.mpr hx
  case owned => exact fun x m hx => h.owned x m (hon.mp hx)
  case maxChildren_le => exact h.maxChildren_le
  case child =>
    intro m q b hb
    obtain ⟨hq, hblive, hb0⟩ := h.child m q b hb
    refine ⟨hq, ?_, hb0⟩
    rcases hdevice b with rfl | heq
    · rw [setDevice_self]
      exact hnewLive
    · rw [heq]
      exact hblive
  case slot_unique => exact h.slot_unique
  case link =>
    intro x m q b hx hb
    have hlink := h.link x m q b (hon.mp hx) hb
    rcases hdevice b with rfl | heq
    · rw [setDevice_self, hparent]
      exact hlink
    · rw [heq]
      exact hlink
  case number =>
    intro x m hx
    have hne : x ≠ c := by
      rintro rfl
      exact hold (hon.mp hx).1
    rw [setDevice_of_ne hne]
    exact h.number x m (hon.mp hx)
  case attached =>
    intro x hx hx0
    rw [hchild]
    rcases hdevice x with rfl | heq
    · exact h.attached x hlive hx0
    · rw [heq] at hx
      exact h.attached x hx hx0
  case bounded =>
    intro x hx
    rcases hdevice x with rfl | heq
    · exact h.bounded x hlive
    · rw [heq] at hx
      exact h.bounded x hx
  case root =>
    rcases hdevice 0 with heq | heq
    · exact absurd h.root (heq ▸ hold)
    · rw [heq]
      exact h.root

/-- A free entry is no hub, and no child. -/
theorem Tree.not_child_of_free (h : Tree t) (hfree : (t.deviceTable c).payLoadId = .errorPayload)
    (m q : Nat) : (t.hubTable m).children q ≠ some c := fun hc =>
  (h.child m q c hc).2.1 hfree

/-- A free entry is attached to an empty port. -/
theorem Tree.attach (h : Tree t) (device : UsbDevice) (hd : HubOn t d n)
    (hp : p < (t.hubTable n).maxChildren) (hempty : (t.hubTable n).children p = none)
    (hc : c < maximumDevices)
    (hfree : (t.deviceTable c).payLoadId = .errorPayload) (hnew : device.payLoadId = .noPayload)
    (hparent : device.parentHub = ⟨0xFF, 0⟩ ∨ device.parentHub = ⟨d + 1, p⟩) :
    Tree ((t.setDevice c device).setChild n p (some c)) := by
  have hdc : d ≠ c := by
    rintro rfl
    rw [hd.1] at hfree
    cases hfree
  have hc0 : c ≠ 0 := by
    rintro rfl
    rw [h.root] at hfree
    cases hfree
  have hold : (t.deviceTable c).payLoadId ≠ .hubPayload := by simp [hfree]
  have hnewHub : device.payLoadId ≠ .hubPayload := by simp [hnew]
  have hon : ∀ {x m}, HubOn ((t.setDevice c device).setChild n p (some c)) x m ↔ HubOn t x m :=
    hubOn_setDevice_iff hold hnewHub
  have hslot : ∀ {m q b}, (((t.setDevice c device).setChild n p (some c)).hubTable m).children q =
      some b ↔ (t.hubTable m).children q = some b ∨ m = n ∧ q = p ∧ b = c :=
    children_setChild_iff (t := t.setDevice c device) hempty
  have hmax : ∀ m, (((t.setDevice c device).setChild n p (some c)).hubTable m).maxChildren =
      (t.hubTable m).maxChildren := maxChildren_setChild (t := t.setDevice c device) (some c)
  have hdevice : ∀ {x}, x ≠ c →
      ((t.setDevice c device).setChild n p (some c)).deviceTable x = t.deviceTable x :=
    fun hx => setDevice_of_ne hx
  have hself : ((t.setDevice c device).setChild n p (some c)).deviceTable c = device :=
    setDevice_self
  have hchild : IsChild ((t.setDevice c device).setChild n p (some c)) =
      fun a b => IsChild t a b ∨ a = d ∧ b = c := by
    rw [isChild_setChild (t := t.setDevice c device) hempty (hon.mpr hd)
      fun x hx => h.owner_unique x d n (hon.mp hx) hd, isChild_setDevice hold hnewHub]
  have hne : ∀ {m q b}, (t.hubTable m).children q = some b → b ≠ c := by
    rintro m q b hb rfl
    exact h.not_child_of_free hfree m q hb
  constructor
  case forest =>
    rw [hchild]
    refine h.forest.addLeaf ?_ ?_ hdc
    · rintro a ⟨m, q, -, hb⟩
      exact hne hb rfl
    · rintro b ⟨m, q, ha, -⟩
      exact hold ha.1
  case hub =>
    intro x hx
    by_cases hxc : x = c
    · rw [hxc, hself, hnew] at hx
      cases hx
    · rw [hdevice hxc] at hx ⊢
      exact h.hub x hx
  case owner_unique => exact fun x y m hx hy => h.owner_unique x y m (hon.mp hx) (hon.mp hy)
  case used =>
    intro m hm
    rw [hmax] at hm
    exact (h.used m hm).imp fun x hx => hon.mpr hx
  case owned =>
    intro x m hx
    rw [hmax]
    exact h.owned x m (hon.mp hx)
  case maxChildren_le =>
    intro m
    rw [hmax]
    exact h.maxChildren_le m
  case child =>
    intro m q b hb
    rw [hmax]
    rcases hslot.mp hb with hb | ⟨rfl, rfl, rfl⟩
    · rw [hdevice (hne hb)]
      exact h.child m q b hb
    · refine ⟨hp, ?_, hc0⟩
      rw [hself, hnew]
      exact PayLoadType.noConfusion
  case slot_unique =>
    intro m q m' q' b hb hb'
    rcases hslot.mp hb with hfrom | ⟨rfl, rfl, rfl⟩
    · rcases hslot.mp hb' with hfrom' | ⟨-, -, rfl⟩
      · exact h.slot_unique m q m' q' b hfrom hfrom'
      · exact absurd rfl (hne hfrom)
    · rcases hslot.mp hb' with hfrom' | ⟨rfl, rfl, -⟩
      · exact absurd rfl (hne hfrom')
      · exact ⟨rfl, rfl⟩
  case link =>
    intro x m q b hx hb
    rcases hslot.mp hb with hb | ⟨rfl, rfl, rfl⟩
    · rw [hdevice (hne hb)]
      exact h.link x m q b (hon.mp hx) hb
    · rw [hself, h.owner_unique x d m (hon.mp hx) hd]
      exact hparent
  case number =>
    intro x m hx
    have hxc : x ≠ c := by
      rintro rfl
      exact hold (hon.mp hx).1
    rw [hdevice hxc]
    exact h.number x m (hon.mp hx)
  case attached =>
    intro x hx hx0
    rw [hchild]
    by_cases hxc : x = c
    · exact ⟨d, Or.inr ⟨rfl, hxc⟩⟩
    · rw [hdevice hxc] at hx
      exact (h.attached x hx hx0).imp fun y hy => Or.inl hy
  case bounded =>
    intro x hx
    by_cases hxc : x = c
    · exact hxc ▸ hc
    · rw [hdevice hxc] at hx
      exact h.bounded x hx
  case root =>
    rw [hdevice hc0.symm]
    exact h.root

/-- The tables after a device has got a hub payload. -/
def withHub (t : Tables) (c n : Nat) (hub : HubDevice) : Tables :=
  (t.setDevice c { t.deviceTable c with payload := some n, payLoadId := .hubPayload }).setHub n hub

theorem withHub_device_self {hub : HubDevice} : (withHub t c n hub).deviceTable c =
    { t.deviceTable c with payload := some n, payLoadId := .hubPayload } := setDevice_self

theorem withHub_device_of_ne {hub : HubDevice} {x : Nat} (hx : x ≠ c) :
    (withHub t c n hub).deviceTable x = t.deviceTable x := setDevice_of_ne hx

theorem withHub_hub_self {hub : HubDevice} : (withHub t c n hub).hubTable n = hub := setHub_self

theorem withHub_hub_of_ne {hub : HubDevice} {m : Nat} (hm : m ≠ n) :
    (withHub t c n hub).hubTable m = t.hubTable m := setHub_of_ne hm

theorem setHub_withHub {hub hub' : HubDevice} :
    (withHub t c n hub).setHub n hub' = withHub t c n hub' :=
  Tables.ext rfl (Function.update_idem ..) rfl

theorem hubOn_withHub_iff {hub : HubDevice} (hno : (t.deviceTable c).payLoadId = .noPayload)
    {x m : Nat} : HubOn (withHub t c n hub) x m ↔ HubOn t x m ∨ x = c ∧ m = n := by
  by_cases hx : x = c
  · rw [hx, HubOn, withHub_device_self, HubOn, hno]
    simp [eq_comm]
  · rw [HubOn, withHub_device_of_ne hx, HubOn]
    simp [hx]

/-- The ports of the new hub are empty, as those of the free payload were. -/
theorem children_withHub_iff {hub : HubDevice} (hempty : ∀ q, hub.children q = none)
    (hfree : ∀ q, (t.hubTable n).children q = none) {m q b : Nat} :
    ((withHub t c n hub).hubTable m).children q = some b ↔ (t.hubTable m).children q = some b := by
  by_cases hm : m = n
  · rw [hm, withHub_hub_self, hempty, hfree]
  · rw [withHub_hub_of_ne hm]

theorem isChild_withHub {hub : HubDevice} (hno : (t.deviceTable c).payLoadId = .noPayload)
    (hempty : ∀ q, hub.children q = none) (hfree : ∀ q, (t.hubTable n).children q = none) :
    IsChild (withHub t c n hub) = IsChild t := by
  ext x b
  constructor
  · rintro ⟨m, q, hx, hb⟩
    have hold := (children_withHub_iff hempty hfree).mp hb
    rcases (hubOn_withHub_iff hno).mp hx with hx | ⟨-, rfl⟩
    · exact ⟨m, q, hx, hold⟩
    · rw [hfree] at hold
      cases hold
  · rintro ⟨m, q, hx, hb⟩
    exact ⟨m, q, (hubOn_withHub_iff hno).mpr (Or.inl hx),
      (children_withHub_iff hempty hfree).mpr hb⟩

/-- The ports of a free payload are empty. -/
theorem Tree.children_of_free (h : Tree t) (hfree : (t.hubTable n).maxChildren = 0) (q : Nat) :
    (t.hubTable n).children q = none := by
  rw [Option.eq_none_iff_forall_ne_some]
  intro b hb
  have hlt := (h.child n q b hb).1
  omega

/-- A device gets a free hub payload. -/
theorem Tree.addHub (h : Tree t) (hub : HubDevice)
    (hno : (t.deviceTable c).payLoadId = .noPayload)
    (hnumber : (t.deviceTable c).number = c + 1) (hn : n < maximumHubs)
    (hfree : (t.hubTable n).maxChildren = 0) (hpos : hub.maxChildren ≠ 0)
    (hle : hub.maxChildren ≤ maxChildrenPerDevice) (hempty : ∀ q, hub.children q = none) :
    Tree (withHub t c n hub) := by
  have hunowned : ∀ x, ¬ HubOn t x n := fun x hon => h.owned x n hon hfree
  have hnochild : ∀ q, (t.hubTable n).children q = none := h.children_of_free hfree
  have hc0 : c ≠ 0 := by
    rintro rfl
    rw [h.root] at hno
    cases hno
  have hlive : (t.deviceTable c).payLoadId ≠ .errorPayload := by simp [hno]
  have hself : (withHub t c n hub).deviceTable c =
      { t.deviceTable c with payload := some n, payLoadId := .hubPayload } := withHub_device_self
  have hdevice : ∀ {x}, x ≠ c → (withHub t c n hub).deviceTable x = t.deviceTable x :=
    withHub_device_of_ne
  have hhub : ∀ {m}, m ≠ n → (withHub t c n hub).hubTable m = t.hubTable m := withHub_hub_of_ne
  have hslot : ∀ {m q b}, ((withHub t c n hub).hubTable m).children q = some b ↔
      (t.hubTable m).children q = some b := children_withHub_iff hempty hnochild
  have hon : ∀ {x m}, HubOn (withHub t c n hub) x m ↔ HubOn t x m ∨ x = c ∧ m = n :=
    hubOn_withHub_iff hno
  have hchild : IsChild (withHub t c n hub) = IsChild t := isChild_withHub hno hempty hnochild
  constructor
  case forest =>
    rw [hchild]
    exact h.forest
  case hub =>
    intro x hx
    by_cases hxc : x = c
    · rw [hxc, hself]
      exact ⟨n, hn, rfl⟩
    · rw [hdevice hxc] at hx ⊢
      exact h.hub x hx
  case owner_unique =>
    intro x y m hx hy
    rcases hon.mp hx with hxold | ⟨rfl, rfl⟩
    · rcases hon.mp hy with hyold | ⟨-, rfl⟩
      · exact h.owner_unique x y m hxold hyold
      · exact absurd hxold (hunowned x)
    · rcases hon.mp hy with hyold | ⟨rfl, -⟩
      · exact absurd hyold (hunowned y)
      · rfl
  case used =>
    intro m hm
    by_cases hmn : m = n
    · exact ⟨c, hon.mpr (Or.inr ⟨rfl, hmn⟩)⟩
    · rw [hhub hmn] at hm
      exact (h.used m hm).imp fun x hx => hon.mpr (Or.inl hx)
  case owned =>
    intro x m hx
    by_cases hmn : m = n
    · rw [hmn, withHub_hub_self]
      exact hpos
    · rw [hhub hmn]
      rcases hon.mp hx with hx | ⟨-, rfl⟩
      · exact h.owned x m hx
      · exact absurd rfl hmn
  case maxChildren_le =>
    intro m
    by_cases hmn : m = n
    · rw [hmn, withHub_hub_self]
      exact hle
    · rw [hhub hmn]
      exact h.maxChildren_le m
  case child =>
    intro m q b hnew
    have hb := hslot.mp hnew
    have hmn : m ≠ n := by
      intro heq
      rw [heq, hnochild] at hb
      cases hb
    obtain ⟨hq, hblive, hb0⟩ := h.child m q b hb
    rw [hhub hmn]
    refine ⟨hq, ?_, hb0⟩
    by_cases hbc : b = c
    · rw [hbc, hself]
      exact PayLoadType.noConfusion
    · rw [hdevice hbc]
      exact hblive
  case slot_unique =>
    exact fun m q m' q' b hb hb' => h.slot_unique m q m' q' b (hslot.mp hb) (hslot.mp hb')
  case link =>
    intro x m q b hx hnew
    have hb := hslot.mp hnew
    rcases hon.mp hx with hxold | ⟨-, hmn⟩
    · have hlink := h.link x m q b hxold hb
      by_cases hbc : b = c
      · rw [hbc, hself]
        exact hbc ▸ hlink
      · rw [hdevice hbc]
        exact hlink
    · rw [hmn, hnochild] at hb
      cases hb
  case number =>
    intro x m hx
    by_cases hxc : x = c
    · rw [hxc, hself]
      exact hnumber
    · rw [hdevice hxc]
      rcases hon.mp hx with hx | ⟨rfl, -⟩
      · exact h.number x m hx
      · exact absurd rfl hxc
  case attached =>
    intro x hx hx0
    rw [hchild]
    by_cases hxc : x = c
    · exact hxc ▸ h.attached c hlive hc0
    · rw [hdevice hxc] at hx
      exact h.attached x hx hx0
  case bounded =>
    intro x hx
    by_cases hxc : x = c
    · exact hxc ▸ h.bounded c hlive
    · rw [hdevice hxc] at hx
      exact h.bounded x hx
  case root =>
    rw [hdevice hc0.symm]
    exact h.root

/-- A port that is empty is given free without effect. -/
theorem setChild_none (h : (t.hubTable n).children p = none) : t.setChild n p none = t := by
  refine Tables.ext rfl ?_ rfl
  rw [Tables.setChild, Tables.setHub]
  dsimp only
  rw [← h, Function.update_eq_self]
  exact Function.update_eq_self ..

variable {answers : Answers} {result : Result} {t' : Tables} {fuel : Nat}

/-- What `AddHubPayload` does where it succeeds. -/
theorem addHubPayload_ok (h : addHubPayload t c = .ok (n, t')) :
    (t.deviceTable c).payLoadId = .noPayload ∧ n < maximumHubs ∧ (t.hubTable n).maxChildren = 0 ∧
      t' = withHub t c n { t.hubTable n with maxChildren := maxChildrenPerDevice } := by
  rw [addHubPayload] at h
  split at h
  · next hno =>
    split at h
    · next hfree =>
      obtain ⟨hlt, hzero, -⟩ := firstFree_eq_some.mp hfree
      cases h
      exact ⟨hno, hlt, by simpa using hzero, rfl⟩
    · cases h
  · cases h

/-- Enumerating a hub that does not report zero ports. -/
theorem Tree.enumerateHub (h : Tree t) (hnumber : (t.deviceTable c).number = c + 1)
    (hports : answers.hubDescriptor ≠ some 0) : Tree (enumerateHub t c answers).2 := by
  rw [Usb.enumerateHub]
  cases hadd : addHubPayload t c with
  | error result => exact h
  | ok taken =>
      obtain ⟨n, t'⟩ := taken
      obtain ⟨hno, hn, hfree, rfl⟩ := addHubPayload_ok hadd
      dsimp only
      rw [setHub_withHub, withHub_hub_self]
      have hfull := h.addHub { maxChildren := maxChildrenPerDevice } hno hnumber hn hfree
        (by decide) (Nat.le_refl _) fun _ => rfl
      cases hports' : answers.hubDescriptor with
      | none => exact hfull
      | some portCount =>
          dsimp only
          split
          · exact hfull
          · next hle =>
            rw [setHub_withHub, withHub_hub_self]
            refine h.addHub _ hno hnumber hn hfree ?_ (Nat.not_lt.mp hle) fun _ => rfl
            rintro rfl
            exact hports hports'

/-- Enumerating a hub leaves the payloads in use as they are. -/
theorem enumerateHub_hubTable {m : Nat} (hm : (t.hubTable m).maxChildren ≠ 0) :
    (enumerateHub t c answers).2.hubTable m = t.hubTable m := by
  rw [enumerateHub]
  cases hadd : addHubPayload t c with
  | error result => rfl
  | ok taken =>
      obtain ⟨n, t'⟩ := taken
      obtain ⟨-, -, hfree, rfl⟩ := addHubPayload_ok hadd
      have hne : m ≠ n := by
        rintro rfl
        exact hm hfree
      dsimp only
      rw [setHub_withHub]
      cases answers.hubDescriptor with
      | none => exact withHub_hub_of_ne hne
      | some portCount =>
          dsimp only
          split
          · exact withHub_hub_of_ne hne
          · rw [setHub_withHub]
            exact withHub_hub_of_ne hne

/-- The number is restored after the first transfer. -/
theorem setNumber_restored (t : Tables) (c k : Nat) :
    (t.setNumber c k).setNumber c (t.deviceTable c).number = t := by
  refine Tables.ext ?_ rfl rfl
  simp only [Tables.setNumber, Tables.setDevice, Function.update_self, Function.update_idem]
  exact Function.update_eq_self c t.deviceTable

/-- What the enumeration of a device can do: it fails before the configuration is read,
reads it, or goes on to enumerate a hub. -/
theorem enumerateDevice_cases (hs : enumerateDevice fuel t c answers = some (result, t')) :
    t' = t.setNumber c 0 ∨ t' = t ∨
      ∃ outcome s, readConfiguration fuel answers.wTotalLength answers.received answers.stack
          (t.deviceTable c) t.hidTable = some (.ok (outcome, s)) ∧
        (t' = { t.setDevice c s.device with hidTable := s.hidTable } ∨
          answers.ReachHub ∧
            t' = (enumerateHub { t.setDevice c s.device with hidTable := s.hidTable } c
              answers).2) := by
  rw [enumerateDevice] at hs
  dsimp only at hs
  rw [setNumber_restored] at hs
  by_cases hfirst : answers.firstBytes = .ok
  swap
  · rw [if_pos hfirst] at hs
    cases hs
    exact Or.inl rfl
  rw [if_neg (not_not.mpr hfirst)] at hs
  by_cases hreset : answers.portReset = .ok
  swap
  · rw [if_pos hreset] at hs
    cases hs
    exact Or.inr (Or.inl rfl)
  rw [if_neg (not_not.mpr hreset)] at hs
  by_cases haddress : answers.setAddress = .ok
  swap
  · rw [if_pos haddress] at hs
    cases hs
    exact Or.inr (Or.inl rfl)
  rw [if_neg (not_not.mpr haddress)] at hs
  by_cases hdescriptor : answers.deviceDescriptor = .ok
  swap
  · rw [if_pos hdescriptor] at hs
    cases hs
    exact Or.inr (Or.inl rfl)
  rw [if_neg (not_not.mpr hdescriptor)] at hs
  by_cases hconfig : answers.configDescriptor = .ok
  swap
  · rw [if_pos hconfig] at hs
    cases hs
    exact Or.inr (Or.inl rfl)
  rw [if_neg (not_not.mpr hconfig)] at hs
  split at hs
  · cases hs
  · cases hs
  · next outcome s hread =>
    refine Or.inr (Or.inr ⟨outcome, s, hread, ?_⟩)
    split at hs
    · cases hs
      exact Or.inl rfl
    by_cases hset : answers.setConfiguration = .ok
    swap
    · rw [if_pos hset] at hs
      cases hs
      exact Or.inl rfl
    rw [if_neg (not_not.mpr hset)] at hs
    split at hs
    · next hclass =>
      exact Or.inr ⟨⟨hfirst, hreset, haddress, hdescriptor, hconfig, hset, hclass⟩,
        (congrArg Prod.snd (Option.some.inj hs)).symm⟩
    · cases hs
      exact Or.inl rfl

/-- Enumerating a new device. -/
theorem Tree.enumerateDevice (h : Tree t) (hno : (t.deviceTable c).payLoadId = .noPayload)
    (hnumber : (t.deviceTable c).number = c + 1)
    (hports : answers.ReachHub → answers.hubDescriptor ≠ some 0)
    (hs : enumerateDevice fuel t c answers = some (result, t')) :
    Tree t' ∧ ∀ m, (t.hubTable m).maxChildren ≠ 0 → t'.hubTable m = t.hubTable m := by
  obtain rfl | rfl | ⟨outcome, s, hread, hcase⟩ := enumerateDevice_cases hs
  · exact ⟨h.setDevice (by simp [hno]) (by simp [hno]) (by simp [hno]) (by simp [hno]) rfl,
      fun _ _ => rfl⟩
  · exact ⟨h, fun _ _ => rfl⟩
  · have hkeeps := readConfiguration_keeps hno hread
    have hpayload : s.device.payLoadId ≠ .hubPayload ∧ s.device.payLoadId ≠ .errorPayload := by
      rcases hkeeps.payload with ⟨hno', -, -⟩ | ⟨number, -, -, hid, -⟩
      · simp [hno']
      · simp [hid]
    have hparsed : Tree { t.setDevice c s.device with hidTable := s.hidTable } :=
      (h.setDevice (by simp [hno]) (by simp [hno]) hpayload.1 hpayload.2
        hkeeps.parentHub_eq).withHidTable s.hidTable
    obtain rfl | ⟨hreach, rfl⟩ := hcase
    · exact ⟨hparsed, fun _ _ => rfl⟩
    · refine ⟨hparsed.enumerateHub ?_ (hports hreach), fun m hm => enumerateHub_hubTable hm⟩
      exact setDevice_self.symm ▸ hkeeps.number_eq.trans hnumber

/-- Removing the device at a port prunes what is below it. -/
theorem Tree.removeChild (h : Tree t) (hc : (t.hubTable n).children p = some c)
    (hfind : Findable t c) :
    usbDeallocateDevice maximumDevices t c = .ok (Usb.prune t (Below t c)) ∧
      removeChild t n p = .ok (Usb.prune t (Below t c)) ∧ Tree (Usb.prune t (Below t c)) := by
  obtain ⟨hp, hlive, hc0⟩ := h.child n p c hc
  have hcall := usbDeallocateDevice_ok maximumDevices t c h hlive hc0 hfind
    (Nat.le_trans (IsForest.size_le _ _ _) (Nat.le_of_eq (Finset.card_range _)))
  refine ⟨hcall, ?_, h.prune (closed_below c) (h.not_below_root hc0)⟩
  rw [Usb.removeChild, hc]
  dsimp only
  rw [hcall]
  exact congrArg Except.ok (setChild_none ((h.freesSubtree c).slot n p hc))

/-- The guard of the callers. -/
theorem hubPort_some (h : hubPort t d p = some n) :
    HubOn t d n ∧ p < (t.hubTable n).maxChildren := by
  rw [hubPort] at h
  split at h
  · cases h
  · next m hpayload =>
    split at h
    · next hand =>
      cases h
      exact ⟨⟨hand.1, hpayload⟩, hand.2⟩
    · cases h

/-- The new device in its port, with its parent. -/
theorem setParent_eq {port : Nat} (hdc : d ≠ c) :
    setParent ((t.setDevice c device).setChild n port (some c)) d port c =
      (t.setDevice c { device with parentHub := ⟨(t.deviceTable d).number, port⟩ }).setChild n port
        (some c) := by
  refine Tables.ext ?_ rfl rfl
  rw [setParent, Tables.setDevice]
  simp only [Tables.setChild, Tables.setHub, Tables.setDevice, Function.update_self,
    Function.update_of_ne hdc, Function.update_idem]

/-- What a change at an empty port can do: nothing, attach a device to no parent, or attach it to
the hub and enumerate it. -/
theorem connectPort_cases {s s' : UsbState} {port : Nat} {reset status : Result}
    (hs : connectPort s d n port fuel reset status answers = some s') :
    s' = s ∨ ∃ c < maximumDevices, (s.tables.deviceTable c).payLoadId = .errorPayload ∧
      (s' = { s with tables := (s.tables.setDevice c
          (allocatedDevice (s.tables.deviceTable c) c)).setChild n port (some c) } ∨
        reset = .ok ∧ status = .ok ∧ ∃ result tables,
          enumerateDevice fuel (setParent ((s.tables.setDevice c
            (allocatedDevice (s.tables.deviceTable c) c)).setChild n port (some c)) d port c) c
              answers = some (result, tables) ∧
          s' = { tables, failed := if result = .ok then none else some (n, port) }) := by
  rw [connectPort] at hs
  by_cases hreset : reset = .ok
  swap
  · rw [if_pos hreset] at hs
    cases hs
    exact Or.inl rfl
  rw [if_neg (not_not.mpr hreset)] at hs
  split at hs
  · cases hs
    exact Or.inl rfl
  · next c deviceTable halloc =>
    obtain ⟨hc, hfree, rfl⟩ := usbAllocateDevice_some halloc
    refine Or.inr ⟨c, hc, hfree, ?_⟩
    by_cases hstatus : status = .ok
    swap
    · rw [if_pos hstatus] at hs
      cases hs
      exact Or.inl rfl
    rw [if_neg (not_not.mpr hstatus)] at hs
    dsimp only at hs
    split at hs
    · cases hs
    · next result tables henumerate =>
      cases hs
      exact Or.inr ⟨hreset, hstatus, result, tables, henumerate, rfl⟩

/-- The port of a new device leads to it as long as its payload stays as it is. -/
theorem child_of_attached {t' : Tables} {port : Nat}
    (hport : port < (t.hubTable n).maxChildren)
    (hkept : ∀ m, (((t.setDevice c device).setChild n port (some c)).hubTable m).maxChildren ≠ 0 →
      t'.hubTable m = ((t.setDevice c device).setChild n port (some c)).hubTable m) :
    (t'.hubTable n).children port = some c := by
  rw [hkept n]
  · simp [Tables.setChild]
  · rw [Tables.setChild, setHub_self]
    exact Nat.ne_of_gt (Nat.zero_lt_of_lt hport)

/-- A change at an empty port keeps the tree; where it fails, the port has a device. -/
theorem Tree.connectPort {s s' : UsbState} {port : Nat} {reset status : Result}
    (h : Tree s.tables) (hfailed : s.failed = none) (hon : HubOn s.tables d n)
    (hport : port < (s.tables.hubTable n).maxChildren)
    (hempty : (s.tables.hubTable n).children port = none)
    (hports : reset = .ok → status = .ok → answers.ReachHub → answers.hubDescriptor ≠ some 0)
    (hs : connectPort s d n port fuel reset status answers = some s') :
    Tree s'.tables ∧ ∀ m q, s'.failed = some (m, q) →
      ∃ c, (s'.tables.hubTable m).children q = some c := by
  have hnone : ∀ {tables : Tables}, ∀ m q, s.failed = some (m, q) →
      ∃ c, (tables.hubTable m).children q = some c := by
    intro tables m q heq
    rw [hfailed] at heq
    cases heq
  obtain rfl | ⟨c, hc, hfree, hcase⟩ := connectPort_cases hs
  · exact ⟨h, hnone⟩
  obtain rfl | ⟨hreset, hstatus, result, tables, henumerate, rfl⟩ := hcase
  · -- the port keeps a device that is attached to no parent
    exact ⟨h.attach _ hon hport hempty hc hfree rfl (Or.inl rfl), hnone⟩
  · have hdc : d ≠ c := by
      rintro rfl
      rw [hon.1] at hfree
      cases hfree
    rw [setParent_eq hdc, h.number d n hon] at henumerate
    have hattached := h.attach { allocatedDevice (s.tables.deviceTable c) c with
      parentHub := ⟨d + 1, port⟩ } hon hport hempty hc hfree rfl (Or.inr rfl)
    obtain ⟨htree, hkept⟩ := hattached.enumerateDevice
      (congrArg UsbDevice.payLoadId setDevice_self) (congrArg UsbDevice.number setDevice_self)
      (hports hreset hstatus) henumerate
    refine ⟨htree, fun m q heq => ?_⟩
    dsimp only at heq
    split at heq
    · cases heq
    · cases heq
      exact ⟨c, child_of_attached hport hkept⟩

end Grow

end RPiKernel.Usb
