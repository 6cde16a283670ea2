import Mathlib.Data.List.GetD
import RPiKernel.Usb.Configuration

/-!
# Parsing a well-formed block of descriptors

A block is the concatenation of its descriptors. `interfaces`, `endpointsOf` and
`hids` say what the tables of the device should hold, in terms of the list of
descriptors alone; `Parsed` relates them, for the descriptors passed so far, to the
state of the loop.
-/

namespace RPiKernel.Usb

/-- The kind of a descriptor, from its second byte. -/
def kindOf (d : List UInt8) : DescriptorKind := descriptorKind (d.getD 1 0)

/-- The interface descriptors of a block. -/
def interfaces (ds : List (List UInt8)) : List (List UInt8) :=
  ds.filter fun d => kindOf d = .interface

/-- The descriptors of a block, each with the number of interface descriptors before it. -/
def numberedFrom : Nat → List (List UInt8) → List (List UInt8 × Nat)
  | _, [] => []
  | n, d :: ds => (d, n) :: numberedFrom (if kindOf d = .interface then n + 1 else n) ds

/-- The first seven bytes of the endpoint descriptors that follow interface `k`, up to the
next interface: `k + 1` interfaces are before them. -/
def endpointsOf (ds : List (List UInt8)) (k : Nat) : List (List UInt8) :=
  ((numberedFrom 0 ds).filter fun p => kindOf p.1 = .endpoint ∧ p.2 = k + 1).map fun p =>
    p.1.take 7

/-- The HID descriptors, each with the index of the interface that it follows. -/
def hids (ds : List (List UInt8)) : List (List UInt8 × Nat) :=
  ((numberedFrom 0 ds).filter fun p => kindOf p.1 = .hid).map fun p => (p.1, p.2 - 1)

/-- The blocks whose descriptors have their lengths, and fit the tables. -/
structure WellFormedBlock (ds : List (List UInt8)) : Prop where
  length_eq : ∀ d ∈ ds, 2 ≤ d.length ∧ (d.getD 0 0).toNat = d.length
  total_le : ds.flatten.length ≤ configBufferSize
  interface_length : ∀ d ∈ ds, kindOf d = .interface → d.length = 9
  endpoint_length : ∀ d ∈ ds, kindOf d = .endpoint → 7 ≤ d.length
  hid_length : ∀ d ∈ ds, kindOf d = .hid → d.length = 9
  interface_first : ∀ p ∈ numberedFrom 0 ds, kindOf p.1 = .endpoint ∨ kindOf p.1 = .hid → 0 < p.2
  interfaces_le : (interfaces ds).length ≤ maxInterfacesPerDevice
  endpoints_le : ∀ k, (endpointsOf ds k).length ≤ maxEndpointsPerDevice
  hids_le : (hids ds).length ≤ maxHIDPerDevice

/-- A device entry as allocated from a cleared one. -/
structure Fresh (device : UsbDevice) : Prop where
  payLoadId_eq : device.payLoadId = .noPayload
  maxInterface_eq : device.maxInterface = 0
  interfaces_eq : device.interfaces = fun _ => List.replicate 9 0
  endpoints_eq : device.endpoints = fun _ _ => List.replicate 7 0

/-- `UsbAllocateDevice` makes a cleared entry fresh. -/
theorem fresh_of_usbAllocateDevice {deviceTable deviceTable' : Nat → UsbDevice} {number : Nat}
    (h : usbAllocateDevice deviceTable = some (number, deviceTable'))
    (hcleared : deviceTable number = {}) : Fresh (deviceTable' number) := by
  obtain ⟨-, -, rfl⟩ := usbAllocateDevice_some h
  rw [Function.update_self, hcleared]
  exact ⟨rfl, rfl, rfl, rfl⟩

/-- A HID payload holds a list of descriptors and interfaces. -/
structure HoldsHids (hidDevice : HidDevice) (l : List (List UInt8 × Nat)) : Prop where
  maxHID_eq : hidDevice.maxHID = l.length
  entry : ∀ j p, l[j]? = some p → hidDevice.descriptor j = p.1 ∧ hidDevice.hidInterface j = p.2

/-- The tables of the device hold the block. -/
structure Exact (ds : List (List UInt8)) (s : ParseState) : Prop where
  maxInterface_eq : s.device.maxInterface = (interfaces ds).length
  interfaces_eq : ∀ k d, (interfaces ds)[k]? = some d → s.device.interfaces k = d
  endpoints_eq : ∀ k < (interfaces ds).length, ∀ e < maxEndpointsPerDevice,
    s.device.endpoints k e = (endpointsOf ds k).getD e (List.replicate 7 0)
  noPayload : hids ds = [] → s.device.payLoadId = .noPayload
  hidPayload : hids ds ≠ [] → ∃ number, s.device.payLoadId = .hidPayload ∧
    s.device.payload = some number ∧ HoldsHids (s.hidTable number) (hids ds)

section Descriptors

variable {pre : List (List UInt8)} {d : List UInt8}

theorem numberedFrom_append (n : Nat) (more : List (List UInt8)) : numberedFrom n (pre ++ more) =
    numberedFrom n pre ++ numberedFrom (n + (interfaces pre).length) more := by
  induction pre generalizing n with
  | nil => rfl
  | cons c pre ih =>
      rw [List.cons_append, numberedFrom, numberedFrom, ih, List.cons_append]
      by_cases hc : kindOf c = .interface
      · simp only [interfaces, List.filter_cons, hc, decide_true, if_true, List.length_cons,
          Nat.add_assoc, Nat.add_comm 1]
      · simp [interfaces, hc]

theorem interfaces_length_le (pre more : List (List UInt8)) :
    (interfaces pre).length ≤ (interfaces (pre ++ more)).length := by
  simp [interfaces]

theorem endpointsOf_length_le (pre more : List (List UInt8)) (k : Nat) :
    (endpointsOf pre k).length ≤ (endpointsOf (pre ++ more) k).length := by
  simp [endpointsOf, numberedFrom_append]

theorem hids_length_le (pre more : List (List UInt8)) :
    (hids pre).length ≤ (hids (pre ++ more)).length := by
  simp [hids, numberedFrom_append]

theorem interfaces_concat : interfaces (pre ++ [d]) =
    if kindOf d = .interface then interfaces pre ++ [d] else interfaces pre := by
  by_cases hd : kindOf d = .interface
  · simp [interfaces, hd]
  · simp [interfaces, hd]

theorem endpointsOf_concat (k : Nat) : endpointsOf (pre ++ [d]) k =
    if kindOf d = .endpoint ∧ (interfaces pre).length = k + 1 then
      endpointsOf pre k ++ [d.take 7]
    else
      endpointsOf pre k := by
  by_cases hd : kindOf d = .endpoint ∧ (interfaces pre).length = k + 1
  · simp [endpointsOf, numberedFrom_append, numberedFrom, hd]
  · rw [if_neg hd]
    simp [endpointsOf, numberedFrom_append, numberedFrom, hd]

theorem hids_concat : hids (pre ++ [d]) =
    if kindOf d = .hid then hids pre ++ [(d, (interfaces pre).length - 1)] else hids pre := by
  by_cases hd : kindOf d = .hid
  · simp [hids, numberedFrom_append, numberedFrom, hd]
  · simp [hids, numberedFrom_append, numberedFrom, hd]

theorem interfaces_concat_of_ne (hd : kindOf d ≠ .interface) :
    interfaces (pre ++ [d]) = interfaces pre := by
  rw [interfaces_concat, if_neg hd]

theorem endpointsOf_concat_of_ne (hd : kindOf d ≠ .endpoint) (k : Nat) :
    endpointsOf (pre ++ [d]) k = endpointsOf pre k := by
  rw [endpointsOf_concat, if_neg fun hand => hd hand.1]

theorem hids_concat_of_ne (hd : kindOf d ≠ .hid) : hids (pre ++ [d]) = hids pre := by
  rw [hids_concat, if_neg hd]

theorem numberedFrom_le {n : Nat} {ds : List (List UInt8)} {p : List UInt8 × Nat}
    (hp : p ∈ numberedFrom n ds) : p.2 ≤ n + (interfaces ds).length := by
  induction ds generalizing n with
  | nil => cases hp
  | cons c ds ih =>
      rw [numberedFrom] at hp
      have hlen : (interfaces (c :: ds)).length =
          (interfaces ds).length + if kindOf c = .interface then 1 else 0 := by
        by_cases hc : kindOf c = .interface
        · simp [interfaces, hc]
        · simp [interfaces, hc]
      rcases List.mem_cons.mp hp with rfl | hp
      · exact Nat.le_add_right _ _
      · have hle := ih hp
        split at hle
        · next hc =>
          rw [if_pos hc] at hlen
          omega
        · omega

/-- Behind the interfaces passed there are no endpoints yet. -/
theorem endpointsOf_eq_nil {ds : List (List UInt8)} {k : Nat} (hk : (interfaces ds).length ≤ k) :
    endpointsOf ds k = [] := by
  rw [endpointsOf, List.map_eq_nil_iff, List.filter_eq_nil_iff]
  intro p hp
  have hle := numberedFrom_le hp
  simp only [decide_eq_true_eq, not_and]
  omega

end Descriptors

/-- The state of the loop after the descriptors passed; `number` is the first free HID
payload, and `hidTable` the table before. -/
structure Parsed (number : Nat) (hidTable : Nat → HidDevice) (pre : List (List UInt8))
    (s : ParseState) : Prop where
  i_eq : s.i = pre.flatten.length
  endPtCnt_eq : s.endPtCnt = (endpointsOf pre ((interfaces pre).length - 1)).length
  hidCount_eq : s.hidCount = (hids pre).length
  maxInterface_eq : s.device.maxInterface = (interfaces pre).length
  interfaces_eq : ∀ k d, (interfaces pre)[k]? = some d → s.device.interfaces k = d
  endpoints_eq : ∀ k e, s.device.endpoints k e =
    (endpointsOf pre k).getD e (List.replicate 7 0)
  noPayload : hids pre = [] → s.device.payLoadId = .noPayload ∧ s.hidTable = hidTable
  hidPayload : hids pre ≠ [] → s.device.payLoadId = .hidPayload ∧
    s.device.payload = some number ∧ HoldsHids (s.hidTable number) (hids pre)

section Loop

variable {ds pre post : List (List UInt8)} {d : List UInt8} {stack : Nat → UInt8}

/-- The bytes of a descriptor stand where the block has them. -/
theorem configBuffer_block (hds : ds = pre ++ d :: post) {k : Nat} (hk : k < d.length) :
    configBuffer ds.flatten stack (pre.flatten.length + k) = d.getD k 0 := by
  have hflatten : ds.flatten = pre.flatten ++ (d ++ post.flatten) := by
    rw [hds, List.flatten_append, List.flatten_cons]
  rw [configBuffer, hflatten, List.getD_append_right _ _ _ _ (Nat.le_add_right _ _),
    Nat.add_sub_cancel_left, List.getD_append _ _ _ _ hk, List.getD_eq_getElem _ _ hk,
    List.getD_eq_getElem _ _ hk]

/-- What is copied from a descriptor is its first bytes. -/
theorem copyFrom_block (h : WellFormedBlock ds) (hds : ds = pre ++ d :: post) {size : Nat}
    (hsize : size ≤ d.length) :
    copyFrom (configBuffer ds.flatten stack) pre.flatten.length size = .ok (d.take size) := by
  have htotal := h.total_le
  have hflatten : ds.flatten.length =
      pre.flatten.length + (d.length + post.flatten.length) := by
    rw [hds, List.flatten_append, List.flatten_cons, List.length_append, List.length_append]
  rw [copyFrom_ok (by omega)]
  congr 1
  apply List.ext_getElem
  · simp [hsize]
  · intro k hk hk'
    rw [List.length_map, List.length_range] at hk
    have hlt : k < d.length := Nat.lt_of_lt_of_le hk hsize
    rw [List.getElem_map, List.getElem_range, configBuffer_block hds hlt, List.getElem_take,
      List.getD_eq_getElem _ _ hlt]

variable {number : Nat} {hidTable : Nat → HidDevice} {s : ParseState}

theorem getElem?_concat {α : Type} {l : List α} {a b : α} {k : Nat}
    (h : (l ++ [a])[k]? = some b) : l[k]? = some b ∨ k = l.length ∧ b = a := by
  rw [List.getElem?_append] at h
  split at h
  · exact Or.inl h
  · next hk =>
    rw [List.getElem?_singleton] at h
    split at h
    · next hzero =>
      cases h
      exact Or.inr ⟨by omega, rfl⟩
    · cases h

theorem Parsed.addInterface (h : WellFormedBlock ds) (hds : ds = pre ++ d :: post)
    (hd : kindOf d = .interface) (hp : Parsed number hidTable pre s) :
    ∃ s', s.addInterface (configBuffer ds.flatten stack) = .ok s' ∧ s'.i = s.i ∧
      Parsed number hidTable (pre ++ [d]) { s' with i := s.i + d.length } := by
  have hmem : d ∈ ds := by simp [hds]
  have hlength := h.interface_length d hmem hd
  have hcount : (interfaces pre).length + 1 ≤ maxInterfacesPerDevice := by
    have hle := interfaces_length_le (pre ++ [d]) post
    rw [interfaces_concat, if_pos hd, List.length_append] at hle
    exact Nat.le_trans hle (by simpa [hds] using h.interfaces_le)
  have hcopy : copyFrom (configBuffer ds.flatten stack) s.i 9 = .ok d := by
    rw [hp.i_eq, copyFrom_block h hds (Nat.le_of_eq hlength.symm), ← hlength, List.take_length]
  rw [ParseState.addInterface, if_pos (by rw [hp.maxInterface_eq]; exact hcount), hcopy]
  refine ⟨_, rfl, rfl, ?_⟩
  have hhids : hids (pre ++ [d]) = hids pre := hids_concat_of_ne (by simp [hd])
  have hendpoints : ∀ k, endpointsOf (pre ++ [d]) k = endpointsOf pre k :=
    endpointsOf_concat_of_ne (by simp [hd])
  have hinterfaces : interfaces (pre ++ [d]) = interfaces pre ++ [d] := by
    rw [interfaces_concat, if_pos hd]
  constructor
  case i_eq => simp [hp.i_eq]
  case endPtCnt_eq =>
    rw [hinterfaces, hendpoints, List.length_append, endpointsOf_eq_nil (by simp)]
    rfl
  case hidCount_eq =>
    rw [hhids]
    exact hp.hidCount_eq
  case maxInterface_eq =>
    rw [hinterfaces, List.length_append, ← hp.maxInterface_eq]
    rfl
  case interfaces_eq =>
    intro k c hk
    rw [hinterfaces] at hk
    dsimp only
    rcases getElem?_concat hk with hold | ⟨rfl, rfl⟩
    · have hlt : k < (interfaces pre).length := (List.getElem?_eq_some_iff.mp hold).1
      rw [Function.update_of_ne (by rw [hp.maxInterface_eq]; omega)]
      exact hp.interfaces_eq k c hold
    · rw [← hp.maxInterface_eq, Function.update_self]
  case endpoints_eq =>
    intro k e
    rw [hendpoints]
    exact hp.endpoints_eq k e
  case noPayload =>
    rw [hhids]
    exact hp.noPayload
  case hidPayload =>
    rw [hhids]
    exact hp.hidPayload

/-- The interfaces passed before an endpoint or a HID descriptor. -/
theorem interfaces_pos (h : WellFormedBlock ds) (hds : ds = pre ++ d :: post)
    (hd : kindOf d = .endpoint ∨ kindOf d = .hid) :
    1 ≤ (interfaces pre).length ∧ (interfaces pre).length ≤ maxInterfacesPerDevice := by
  constructor
  · have hmem : (d, (interfaces pre).length) ∈ numberedFrom 0 ds := by
      simp [hds, numberedFrom_append, numberedFrom]
    exact h.interface_first _ hmem hd
  · exact Nat.le_trans (interfaces_length_le pre (d :: post)) (hds ▸ h.interfaces_le)

theorem Parsed.addEndpoint (h : WellFormedBlock ds) (hds : ds = pre ++ d :: post)
    (hd : kindOf d = .endpoint) (hp : Parsed number hidTable pre s) :
    ∃ s', s.addEndpoint (configBuffer ds.flatten stack) = .ok s' ∧ s'.i = s.i ∧
      Parsed number hidTable (pre ++ [d]) { s' with i := s.i + d.length } := by
  have hmem : d ∈ ds := by simp [hds]
  obtain ⟨hpos, hle⟩ := interfaces_pos h hds (Or.inl hd)
  have hinterfaces : interfaces (pre ++ [d]) = interfaces pre :=
    interfaces_concat_of_ne (by simp [hd])
  have hhids : hids (pre ++ [d]) = hids pre := hids_concat_of_ne (by simp [hd])
  have hendpoints : ∀ k, endpointsOf (pre ++ [d]) k =
      if k = (interfaces pre).length - 1 then endpointsOf pre k ++ [d.take 7]
      else endpointsOf pre k := by
    intro k
    rw [endpointsOf_concat]
    exact if_congr ⟨fun hand => by omega, fun hk => ⟨hd, by omega⟩⟩ rfl rfl
  have hcount : s.endPtCnt < maxEndpointsPerDevice := by
    have hall := endpointsOf_length_le (pre ++ [d]) post ((interfaces pre).length - 1)
    have hlimit := h.endpoints_le ((interfaces pre).length - 1)
    rw [hendpoints, if_pos rfl, List.length_append, ← hp.endPtCnt_eq, List.append_assoc,
      List.singleton_append, ← hds] at hall
    exact Nat.le_trans hall hlimit
  have hcopy : copyFrom (configBuffer ds.flatten stack) s.i 7 = .ok (d.take 7) := by
    rw [hp.i_eq, copyFrom_block h hds (h.endpoint_length d hmem hd)]
  rw [ParseState.addEndpoint, if_pos ⟨by rw [hp.maxInterface_eq]; exact hpos,
    by rw [hp.maxInterface_eq]; exact hle, hcount⟩, hcopy]
  refine ⟨_, rfl, rfl, ?_⟩
  constructor
  case i_eq => simp [hp.i_eq]
  case endPtCnt_eq =>
    rw [hinterfaces, hendpoints, if_pos rfl, List.length_append, ← hp.endPtCnt_eq]
    rfl
  case hidCount_eq =>
    rw [hhids]
    exact hp.hidCount_eq
  case maxInterface_eq =>
    rw [hinterfaces]
    exact hp.maxInterface_eq
  case interfaces_eq =>
    rw [hinterfaces]
    exact hp.interfaces_eq
  case endpoints_eq =>
    intro k e
    dsimp only
    rw [hendpoints, hp.maxInterface_eq]
    by_cases hk : k = (interfaces pre).length - 1
    · rw [hk, if_pos rfl, Function.update_self, hp.endPtCnt_eq]
      by_cases he : e = (endpointsOf pre ((interfaces pre).length - 1)).length
      · rw [he, Function.update_self, List.getD_append_right _ _ _ _ (Nat.le_refl _), Nat.sub_self]
        rfl
      · rw [Function.update_of_ne he, hp.endpoints_eq]
        rcases Nat.lt_or_gt_of_ne he with hlt | hgt
        · rw [List.getD_append _ _ _ _ hlt]
        · rw [List.getD_eq_default _ _ (Nat.le_of_lt hgt), List.getD_eq_default]
          rw [List.length_append]
          exact hgt
    · rw [if_neg hk, Function.update_of_ne hk]
      exact hp.endpoints_eq k e
  case noPayload =>
    rw [hhids]
    exact hp.noPayload
  case hidPayload =>
    rw [hhids]
    exact hp.hidPayload

/-- The payload after one more descriptor. -/
theorem HoldsHids.concat {hidDevice : HidDevice} {l : List (List UInt8 × Nat)} {interface : Nat}
    (hentry : ∀ j p, l[j]? = some p →
      hidDevice.descriptor j = p.1 ∧ hidDevice.hidInterface j = p.2) :
    HoldsHids
      { descriptor := Function.update hidDevice.descriptor l.length d
        hidInterface := Function.update hidDevice.hidInterface l.length interface
        maxHID := l.length + 1 } (l ++ [(d, interface)]) := by
  constructor
  · simp
  · intro j p hj
    dsimp only
    rcases getElem?_concat hj with hold | ⟨rfl, rfl⟩
    · have hlt : j < l.length := (List.getElem?_eq_some_iff.mp hold).1
      rw [Function.update_of_ne (Nat.ne_of_lt hlt), Function.update_of_ne (Nat.ne_of_lt hlt)]
      exact hentry j p hold
    · exact ⟨Function.update_self .., Function.update_self ..⟩

/-- A HID descriptor whose payload is there. -/
theorem setHidDescriptor_block (h : WellFormedBlock ds) (hds : ds = pre ++ d :: post)
    (hd : kindOf d = .hid) {hidDevice : HidDevice} {interface : Nat}
    (hmax : hidDevice.maxHID < maxHIDPerDevice → hidDevice.maxHID = (hids pre).length)
    (hi : s.i = pre.flatten.length) :
    setHidDescriptor hidDevice (hids pre).length interface (configBuffer ds.flatten stack) s.i
        (configBuffer ds.flatten stack s.i).toNat =
      .ok (true,
        { descriptor := Function.update hidDevice.descriptor (hids pre).length d
          hidInterface := Function.update hidDevice.hidInterface (hids pre).length interface
          maxHID := (hids pre).length + 1 }) := by
  have hmem : d ∈ ds := by simp [hds]
  have hlength := h.hid_length d hmem hd
  have hcount : (hids pre).length < maxHIDPerDevice := by
    have hle := hids_length_le (pre ++ [d]) post
    rw [hids_concat, if_pos hd, List.length_append] at hle
    exact Nat.le_trans hle (by simpa [hds] using h.hids_le)
  have hsize : (configBuffer ds.flatten stack s.i).toNat = 9 := by
    have hbyte : configBuffer ds.flatten stack (pre.flatten.length + 0) = d.getD 0 0 :=
      configBuffer_block hds (by omega)
    rw [hi, ← Nat.add_zero pre.flatten.length, hbyte, (h.length_eq d hmem).2, hlength]
  have hcopy : copyFrom (configBuffer ds.flatten stack) s.i 9 = .ok d := by
    rw [hi, copyFrom_block h hds (Nat.le_of_eq hlength.symm), ← hlength, List.take_length]
  rw [setHidDescriptor_eq hmax, if_pos ⟨hsize, hcount⟩, hcopy]
  rfl

/-- A state whose payload holds the HID descriptors passed, with one more. -/
theorem Parsed.withHid (hd : kindOf d = .hid) (hp : Parsed number hidTable pre s)
    {device : UsbDevice} {hidTable' : Nat → HidDevice}
    (hdevice : device = { s.device with payLoadId := .hidPayload, payload := some number })
    (hholds : HoldsHids (hidTable' number) (hids (pre ++ [d]))) :
    Parsed number hidTable (pre ++ [d]) { s with
      i := s.i + d.length
      device
      hidTable := hidTable'
      hidCount := s.hidCount + 1 } := by
  have hinterfaces : interfaces (pre ++ [d]) = interfaces pre :=
    interfaces_concat_of_ne (by simp [hd])
  have hendpoints : ∀ k, endpointsOf (pre ++ [d]) k = endpointsOf pre k :=
    endpointsOf_concat_of_ne (by simp [hd])
  have hhids : hids (pre ++ [d]) = hids pre ++ [(d, (interfaces pre).length - 1)] := by
    rw [hids_concat, if_pos hd]
  subst hdevice
  constructor
  case i_eq => simp [hp.i_eq]
  case endPtCnt_eq =>
    rw [hinterfaces, hendpoints]
    exact hp.endPtCnt_eq
  case hidCount_eq =>
    rw [hhids, List.length_append, hp.hidCount_eq]
    rfl
  case maxInterface_eq =>
    rw [hinterfaces]
    exact hp.maxInterface_eq
  case interfaces_eq =>
    rw [hinterfaces]
    exact hp.interfaces_eq
  case endpoints_eq =>
    intro k e
    rw [hendpoints]
    exact hp.endpoints_eq k e
  case noPayload =>
    intro hnil
    rw [hhids] at hnil
    simp at hnil
  case hidPayload => exact fun _ => ⟨rfl, rfl, hholds⟩

theorem Parsed.addHid (h : WellFormedBlock ds) (hds : ds = pre ++ d :: post)
    (hfree : firstFree maximumHids (fun k => (hidTable k).maxHID == 0) = some number)
    (hd : kindOf d = .hid) (hp : Parsed number hidTable pre s) :
    ∃ s', s.addHid (configBuffer ds.flatten stack) = .ok (none, s') ∧ s'.i = s.i ∧
      Parsed number hidTable (pre ++ [d]) { s' with i := s.i + d.length } := by
  obtain ⟨hpos, hle⟩ := interfaces_pos h hds (Or.inr hd)
  have htag : (s.device.maxInterface + 255) % 256 = (interfaces pre).length - 1 := by
    rw [hp.maxInterface_eq]
    rw [maxInterfacesPerDevice] at hle
    omega
  have hhids : hids (pre ++ [d]) = hids pre ++ [(d, (interfaces pre).length - 1)] := by
    rw [hids_concat, if_pos hd]
  by_cases hnil : hids pre = []
  · -- the first HID descriptor adds the payload, which is marked as full
    obtain ⟨hid, htable⟩ := hp.noPayload hnil
    have hzero : s.hidCount = 0 := by rw [hp.hidCount_eq, hnil, List.length_nil]
    have hfree' : firstFree maximumHids (fun k => (s.hidTable k).maxHID == 0) = some number := by
      rw [htable]
      exact hfree
    have hadd := addHidPayload_ok hid hfree'
    rw [ParseState.addHid_ok ((if_pos hzero).trans hadd), ParseState.setHid_eq rfl]
    dsimp only
    rw [Function.update_self, hp.hidCount_eq,
      setHidDescriptor_block h hds hd (fun hlt => absurd hlt (Nat.lt_irrefl _)) hp.i_eq]
    refine ⟨_, rfl, rfl, ?_⟩
    rw [← hp.hidCount_eq]
    refine hp.withHid hd rfl ?_
    dsimp only
    rw [Function.update_self, hhids, hp.hidCount_eq, htag]
    refine HoldsHids.concat fun j p hj => ?_
    rw [hnil] at hj
    cases hj
  · obtain ⟨hid, hpayload, hholds⟩ := hp.hidPayload hnil
    have hne : s.hidCount ≠ 0 := by
      rw [hp.hidCount_eq]
      exact fun hzero => hnil (List.length_eq_zero_iff.mp hzero)
    rw [ParseState.addHid_ok (if_neg hne), ParseState.setHid_eq hpayload, hp.hidCount_eq,
      setHidDescriptor_block h hds hd (fun _ => hholds.maxHID_eq) hp.i_eq]
    refine ⟨_, rfl, rfl, ?_⟩
    rw [← hp.hidCount_eq]
    refine hp.withHid hd (by rw [← hid, ← hpayload]) ?_
    dsimp only
    rw [Function.update_self, hhids, hp.hidCount_eq, htag]
    exact HoldsHids.concat hholds.entry

/-- One iteration passes one descriptor. -/
theorem Parsed.parseDescriptor (stack : Nat → UInt8) (h : WellFormedBlock ds)
    (hds : ds = pre ++ d :: post)
    (hfree : firstFree maximumHids (fun k => (hidTable k).maxHID == 0) = some number)
    (hp : Parsed number hidTable pre s) :
    ∃ s', s.parseDescriptor (configBuffer ds.flatten stack) = .ok (none, s') ∧
      Parsed number hidTable (pre ++ [d]) s' := by
  have hmem : d ∈ ds := by simp [hds]
  obtain ⟨hlength, hsize⟩ := h.length_eq d hmem
  have htotal := h.total_le
  have hflatten : ds.flatten.length =
      pre.flatten.length + (d.length + post.flatten.length) := by
    rw [hds, List.flatten_append, List.flatten_cons, List.length_append, List.length_append]
  have hbyte : (configBuffer ds.flatten stack s.i).toNat = d.length := by
    rw [hp.i_eq, ← Nat.add_zero pre.flatten.length, configBuffer_block hds (by omega), hsize]
  have hkind : descriptorKind (configBuffer ds.flatten stack (s.i + 1)) = kindOf d := by
    rw [hp.i_eq, configBuffer_block hds (by omega), kindOf]
  have hadd : ∃ s', s.addDescriptor (configBuffer ds.flatten stack) = .ok (none, s') ∧
      s'.i = s.i ∧ Parsed number hidTable (pre ++ [d]) { s' with i := s.i + d.length } := by
    rw [ParseState.addDescriptor, hkind]
    cases hd : kindOf d with
    | interface =>
        obtain ⟨s', hs', hi, hp'⟩ := hp.addInterface h hds hd
        exact ⟨s', by rw [hs']; rfl, hi, hp'⟩
    | endpoint =>
        obtain ⟨s', hs', hi, hp'⟩ := hp.addEndpoint h hds hd
        exact ⟨s', by rw [hs']; rfl, hi, hp'⟩
    | hid => exact hp.addHid h hds hfree hd
    | other =>
        refine ⟨s, rfl, rfl, ?_⟩
        have hinterfaces : interfaces (pre ++ [d]) = interfaces pre :=
          interfaces_concat_of_ne (by simp [hd])
        have hendpoints : ∀ k, endpointsOf (pre ++ [d]) k = endpointsOf pre k :=
          endpointsOf_concat_of_ne (by simp [hd])
        have hhids : hids (pre ++ [d]) = hids pre := hids_concat_of_ne (by simp [hd])
        constructor
        case i_eq => simp [hp.i_eq]
        case endPtCnt_eq =>
          rw [hinterfaces, hendpoints]
          exact hp.endPtCnt_eq
        case hidCount_eq =>
          rw [hhids]
          exact hp.hidCount_eq
        case maxInterface_eq =>
          rw [hinterfaces]
          exact hp.maxInterface_eq
        case interfaces_eq =>
          rw [hinterfaces]
          exact hp.interfaces_eq
        case endpoints_eq =>
          intro k e
          rw [hendpoints]
          exact hp.endpoints_eq k e
        case noPayload =>
          rw [hhids]
          exact hp.noPayload
        case hidPayload =>
          rw [hhids]
          exact hp.hidPayload
  obtain ⟨s', hs', hi, hp'⟩ := hadd
  refine ⟨{ s' with i := s.i + d.length }, ?_, hp'⟩
  rw [ParseState.parseDescriptor_ok (by rw [hp.i_eq, configBufferSize] at *; omega) hs', hbyte]

/-- The loop passes the descriptors that are left. -/
theorem Parsed.parseLoop (stack : Nat → UInt8) (h : WellFormedBlock ds)
    (hfree : firstFree maximumHids (fun k => (hidTable k).maxHID == 0) = some number)
    (post : List (List UInt8)) (hds : ds = pre ++ post) (hp : Parsed number hidTable pre s) :
    ∃ s', Usb.parseLoop (configBuffer ds.flatten stack) (ds.flatten.length - 1) (post.length + 1) s =
        some (.ok (none, s')) ∧
      Parsed number hidTable ds s' := by
  induction post generalizing pre s with
  | nil =>
      rw [List.append_nil] at hds
      refine ⟨s, parseLoop_end ?_, hds ▸ hp⟩
      rw [hp.i_eq, hds]
      exact Nat.sub_le _ _
  | cons d post ih =>
      have hlength := (h.length_eq d (by simp [hds])).1
      have hflatten : ds.flatten.length =
          pre.flatten.length + (d.length + post.flatten.length) := by
        rw [hds, List.flatten_append, List.flatten_cons, List.length_append, List.length_append]
      obtain ⟨s₁, hstep, hp₁⟩ := hp.parseDescriptor stack h hds hfree
      obtain ⟨s', hloop, hp'⟩ := ih (by rw [hds, List.append_assoc, List.singleton_append]) hp₁
      refine ⟨s', ?_, hp'⟩
      rw [List.length_cons, parseLoop_next (by rw [hp.i_eq]; omega) hstep]
      exact hloop

theorem Parsed.initial {device : UsbDevice} (hdevice : Fresh device) :
    Parsed number hidTable [] { device, hidTable } where
  i_eq := rfl
  endPtCnt_eq := rfl
  hidCount_eq := rfl
  maxInterface_eq := hdevice.maxInterface_eq
  interfaces_eq k d hk := by cases hk
  endpoints_eq k e := by
    rw [hdevice.endpoints_eq]
    rfl
  noPayload _ := ⟨hdevice.payLoadId_eq, rfl⟩
  hidPayload hne := absurd rfl hne

theorem Parsed.exact (hp : Parsed number hidTable ds s) : Exact ds s where
  maxInterface_eq := hp.maxInterface_eq
  interfaces_eq := hp.interfaces_eq
  endpoints_eq k _ e _ := hp.endpoints_eq k e
  noPayload hnil := (hp.noPayload hnil).1
  hidPayload hne := ⟨number, hp.hidPayload hne⟩

end Loop

/-- The parsing of an empty block does not end: its loop runs up to the largest bound. -/
theorem readConfiguration_nil_ne (fuel : Nat) (stack : Nat → UInt8) (device : UsbDevice)
    (hidTable : Nat → HidDevice) (s : ParseState) :
    readConfiguration fuel 0 [] stack device hidTable ≠ some (.ok (none, s)) := by
  intro hs
  rw [readConfiguration, if_neg (by decide), if_neg (by decide), parseBound_zero] at hs
  have hfar : 2 ^ 32 - 1 ≤ 0 := parseLoop_far (by decide) fuel hs
  omega

/-- The parsing of a well-formed block ends with the tables of the device holding the
block, if and only if the block is not empty. -/
theorem configuration_exact_iff {ds : List (List UInt8)} (h : WellFormedBlock ds)
    {device : UsbDevice} (hdevice : Fresh device) {hidTable : Nat → HidDevice}
    (hfree : ∃ k < maximumHids, (hidTable k).maxHID = 0) (stack : Nat → UInt8) :
    (∃ fuel s, readConfiguration fuel ds.flatten.length ds.flatten stack device hidTable =
        some (.ok (none, s)) ∧ Exact ds s) ↔
      ds ≠ [] := by
  have htotal := h.total_le
  have hread : ∀ fuel, readConfiguration fuel ds.flatten.length ds.flatten stack device hidTable =
      parseLoop (configBuffer ds.flatten stack) (parseBound ds.flatten.length) fuel
        { device, hidTable } := fun fuel => by
    rw [readConfiguration, if_neg (Nat.not_lt.mpr htotal), if_neg (not_not.mpr rfl)]
  constructor
  · rintro ⟨fuel, s, hs, -⟩ rfl
    exact readConfiguration_nil_ne fuel stack device hidTable s hs
  · intro hne
    obtain ⟨d, post, rfl⟩ := List.exists_cons_of_ne_nil hne
    have hlength := (h.length_eq d (List.mem_cons_self ..)).1
    have hpos : 0 < (d :: post).flatten.length := by
      rw [List.flatten_cons, List.length_append]
      omega
    rw [configBufferSize] at htotal
    cases hnumber : firstFree maximumHids (fun k => (hidTable k).maxHID == 0) with
    | none =>
        obtain ⟨k, hk, hzero⟩ := hfree
        have hnone := firstFree_eq_none.mp hnumber k hk
        simp [hzero] at hnone
    | some number =>
        have hinitial : Parsed number hidTable [] { device, hidTable } := Parsed.initial hdevice
        obtain ⟨s, hloop, hp⟩ := hinitial.parseLoop stack h hnumber (d :: post) rfl
        refine ⟨(d :: post).length + 1, s, ?_, hp.exact⟩
        rw [hread, parseBound_pos hpos (by omega)]
        exact hloop

/-- The configuration of a mouse: one interface with a HID descriptor and an endpoint. -/
def mouseBlock : List (List UInt8) :=
  [[9, 2, 34, 0, 1, 1, 0, 160, 50], [9, 4, 0, 0, 1, 3, 1, 2, 0], [9, 33, 17, 1, 0, 1, 34, 52, 0],
    [7, 5, 129, 3, 4, 0, 10]]

theorem wellFormed_mouseBlock : WellFormedBlock mouseBlock where
  length_eq := by decide
  total_le := by decide
  interface_length := by decide
  endpoint_length := by decide
  hid_length := by decide
  interface_first := by decide
  interfaces_le := by decide
  endpoints_le k := by
    rw [endpointsOf, List.length_map]
    exact Nat.le_trans (List.length_filter_le _ _) (by decide)
  hids_le := by decide

theorem configuration_exact_iff_mouse : ∃ fuel s,
    readConfiguration fuel mouseBlock.flatten.length mouseBlock.flatten (fun _ => 0)
        { payLoadId := .noPayload } (fun _ => {}) = some (.ok (none, s)) ∧ Exact mouseBlock s :=
  (configuration_exact_iff wellFormed_mouseBlock ⟨rfl, rfl, rfl, rfl⟩ ⟨0, by decide, rfl⟩ _).mpr
    (by decide)

theorem wellFormed_nil : WellFormedBlock [] where
  length_eq := by simp
  total_le := by decide
  interface_length := by simp
  endpoint_length := by simp
  hid_length := by simp
  interface_first := by decide
  interfaces_le := by decide
  endpoints_le _ := Nat.zero_le _
  hids_le := by decide

/-- A device whose total length is zero is not parsed as the empty block. -/
theorem not_configuration_exact : ¬ ∀ ds, WellFormedBlock ds → ∀ device, Fresh device →
    ∀ hidTable, (∃ k < maximumHids, (hidTable k).maxHID = 0) → ∀ stack, ∃ fuel s,
      readConfiguration fuel ds.flatten.length ds.flatten stack device hidTable =
        some (.ok (none, s)) ∧ Exact ds s := by
  intro hall
  obtain ⟨fuel, s, hs, -⟩ := hall [] wellFormed_nil { payLoadId := .noPayload } ⟨rfl, rfl, rfl, rfl⟩
    (fun _ => {}) ⟨0, by decide, rfl⟩ fun _ => 0
  exact readConfiguration_nil_ne fuel _ _ _ s hs

end RPiKernel.Usb
