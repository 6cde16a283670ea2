import RPiKernel.Usb.DescriptorBlock

/-!
# Parsing an arbitrary configuration

Whatever a device returns, the walk over the buffer is determined by the bytes: each
descriptor starts where the length of the one before leads. `Admissible` says, of the
descriptors of this walk, when the loop stays within its arrays and comes to an end.
-/

namespace RPiKernel.Usb

section Walk

variable (buffer : Nat → UInt8)

/-- The offset of a descriptor. -/
def offset : Nat → Nat
  | 0 => 0
  | k + 1 => offset k + (buffer (offset k)).toNat

def lengthAt (k : Nat) : Nat := (buffer (offset buffer k)).toNat

def kindAt (k : Nat) : DescriptorKind := descriptorKind (buffer (offset buffer k + 1))

/-- The number of interface descriptors before a descriptor. -/
def interfacesBefore : Nat → Nat
  | 0 => 0
  | k + 1 => interfacesBefore k + if kindAt buffer k = .interface then 1 else 0

/-- The number of endpoint descriptors since the last interface descriptor. -/
def endpointsSince : Nat → Nat
  | 0 => 0
  | k + 1 =>
      match kindAt buffer k with
      | .interface => 0
      | .endpoint => endpointsSince k + 1
      | .hid => endpointsSince k
      | .other => endpointsSince k

/-- The number of HID descriptors before a descriptor. -/
def hidsBefore : Nat → Nat
  | 0 => 0
  | k + 1 => hidsBefore k + if kindAt buffer k = .hid then 1 else 0

/-- The number of HID descriptors before a descriptor that have the length of one. -/
def wholeHidsBefore : Nat → Nat
  | 0 => 0
  | k + 1 => wholeHidsBefore k + if kindAt buffer k = .hid ∧ lengthAt buffer k = 9 then 1 else 0

/-- No payload can be added for a HID descriptor: none is free, or the device has one
already, from a HID descriptor of another length. -/
def Refused (free : Bool) (k : Nat) : Prop :=
  kindAt buffer k = .hid ∧ wholeHidsBefore buffer k = 0 ∧
    (free = false ∨ 0 < hidsBefore buffer k)

/-- The accesses for a descriptor lie within their arrays. -/
structure Fits (k : Nat) : Prop where
  interface : kindAt buffer k = .interface →
    interfacesBefore buffer k < maxInterfacesPerDevice ∧ offset buffer k + 9 ≤ configBufferSize
  endpoint : kindAt buffer k = .endpoint →
    0 < interfacesBefore buffer k ∧ endpointsSince buffer k < maxEndpointsPerDevice ∧
      offset buffer k + 7 ≤ configBufferSize
  hid : kindAt buffer k = .hid → lengthAt buffer k = 9 →
    wholeHidsBefore buffer k < maxHIDPerDevice → offset buffer k + 9 ≤ configBufferSize

/-- The loop comes to a descriptor: it lies before the bound, as do all before it, and
none of them is refused. -/
def ComesTo (free : Bool) (bound k : Nat) : Prop :=
  (∀ j ≤ k, offset buffer j < bound) ∧ ∀ j < k, ¬ Refused buffer free j

/-- Every descriptor that the loop comes to has its header in the buffer, and is either
refused or fits; it has length zero only if it is a HID descriptor before any whole one. -/
def Admissible (free : Bool) (bound : Nat) : Prop :=
  ∀ k, ComesTo buffer free bound k →
    offset buffer k + 1 < configBufferSize ∧
      (¬ Refused buffer free k → Fits buffer k ∧
        (lengthAt buffer k = 0 → kindAt buffer k = .hid ∧ wholeHidsBefore buffer k = 0))

end Walk

/-- A HID payload is free. -/
def hasFreeHid (hidTable : Nat → HidDevice) : Bool :=
  (firstFree maximumHids fun number => (hidTable number).maxHID == 0).isSome

/-- The state of the loop when it comes to a descriptor. -/
structure Walked (buffer : Nat → UInt8) (hidTable : Nat → HidDevice) (k : Nat) (s : ParseState) :
    Prop where
  i_eq : s.i = offset buffer k
  endPtCnt_eq : s.endPtCnt = endpointsSince buffer k
  maxInterface_eq : s.device.maxInterface = interfacesBefore buffer k
  maxInterface_le : interfacesBefore buffer k ≤ maxInterfacesPerDevice
  hidCount_eq : s.hidCount = min maxHIDPerDevice (wholeHidsBefore buffer k)
  noPayload : hidsBefore buffer k = 0 → s.device.payLoadId = .noPayload ∧ s.hidTable = hidTable
  hidPayload : 0 < hidsBefore buffer k → s.device.payLoadId = .hidPayload ∧
    ∃ number, s.device.payload = some number ∧
      (s.hidTable number).maxHID =
        if s.hidCount = 0 then maxHIDPerDevice else s.hidCount

section Step

variable {buffer : Nat → UInt8} {hidTable : Nat → HidDevice} {k : Nat} {s : ParseState}

theorem offset_succ (buffer : Nat → UInt8) (k : Nat) :
    offset buffer (k + 1) = offset buffer k + lengthAt buffer k := rfl

/-- Whole HID descriptors are HID descriptors. -/
theorem wholeHidsBefore_le (buffer : Nat → UInt8) (k : Nat) :
    wholeHidsBefore buffer k ≤ hidsBefore buffer k := by
  induction k with
  | zero => exact Nat.le_refl 0
  | succ k ih =>
      rw [wholeHidsBefore, hidsBefore]
      by_cases hhid : kindAt buffer k = .hid
      · by_cases hlength : lengthAt buffer k = 9
        · rw [if_pos ⟨hhid, hlength⟩, if_pos hhid]
          exact Nat.add_le_add_right ih 1
        · rw [if_neg fun hand => hlength hand.2]
          exact Nat.le_trans ih (Nat.le_add_right _ _)
      · rw [if_neg fun hand => hhid hand.1, if_neg hhid]
        exact ih

theorem hidCount_eq_zero (h : Walked buffer hidTable k s) :
    s.hidCount = 0 ↔ wholeHidsBefore buffer k = 0 := by
  rw [h.hidCount_eq, maxHIDPerDevice]
  omega

theorem Walked.kind_eq (h : Walked buffer hidTable k s) :
    descriptorKind (buffer (s.i + 1)) = kindAt buffer k := by
  rw [h.i_eq, kindAt]

theorem Walked.length_eq (h : Walked buffer hidTable k s) :
    (buffer s.i).toNat = lengthAt buffer k := by
  rw [h.i_eq, lengthAt]

/-- A refused HID descriptor ends the enumeration. -/
theorem Walked.refused (h : Walked buffer hidTable k s)
    (hrefused : Refused buffer (hasFreeHid hidTable) k) :
    ∃ result s', s.addDescriptor buffer = .ok (some result, s') := by
  obtain ⟨hkind, hwhole, hwhy⟩ := hrefused
  have hzero := (hidCount_eq_zero h).mpr hwhole
  have hadd : ∃ result device hidTable', result ≠ .ok ∧
      s.withHidPayload = (result, device, hidTable') := by
    rw [ParseState.withHidPayload, if_pos hzero]
    rcases addHidPayload_cases s.device s.hidTable with ⟨-, hadd⟩ | ⟨-, -, hadd⟩ |
      ⟨number, hid, hlt, hfree, -⟩
    · exact ⟨_, _, _, by simp, hadd⟩
    · exact ⟨_, _, _, by simp, hadd⟩
    · exfalso
      by_cases hhids : hidsBefore buffer k = 0
      · obtain ⟨-, htable⟩ := h.noPayload hhids
        rcases hwhy with hnone | hpos
        · rw [hasFreeHid, Option.isSome_eq_false_iff, Option.isNone_iff_eq_none] at hnone
          have hfull := firstFree_eq_none.mp hnone number hlt
          rw [← htable, hfree] at hfull
          cases hfull
        · omega
      · rw [(h.hidPayload (Nat.pos_of_ne_zero hhids)).1] at hid
        cases hid
  obtain ⟨result, device, hidTable', hne, hadd⟩ := hadd
  refine ⟨result, { s with device, hidTable := hidTable' }, ?_⟩
  rw [ParseState.addDescriptor, h.kind_eq, hkind]
  exact ParseState.addHid_refused hne hadd

/-- A HID descriptor that is not refused has a payload, which is full or expects it. -/
theorem Walked.withHidPayload (h : Walked buffer hidTable k s) (hkind : kindAt buffer k = .hid)
    (hnot : ¬ Refused buffer (hasFreeHid hidTable) k) :
    ∃ number hidTable', s.withHidPayload =
        (.ok, { s.device with payload := some number, payLoadId := .hidPayload }, hidTable') ∧
      (hidTable' number).maxHID = if s.hidCount = 0 then maxHIDPerDevice else s.hidCount := by
  by_cases hzero : s.hidCount = 0
  · have hwhole := (hidCount_eq_zero h).mp hzero
    rw [Refused, not_and, not_and, not_or, Bool.not_eq_false, Nat.not_lt,
      Nat.le_zero_eq] at hnot
    obtain ⟨hfree, hhids⟩ := hnot hkind hwhole
    obtain ⟨hid, htable⟩ := h.noPayload hhids
    obtain ⟨number, hnumber⟩ := Option.isSome_iff_exists.mp hfree
    rw [ParseState.withHidPayload, if_pos hzero]
    refine ⟨number, _, addHidPayload_ok hid (by rw [htable]; exact hnumber), ?_⟩
    rw [Function.update_self, if_pos hzero]
  · have hwhole : wholeHidsBefore buffer k ≠ 0 := fun hwhole =>
      hzero ((hidCount_eq_zero h).mpr hwhole)
    have hhids := wholeHidsBefore_le buffer k
    obtain ⟨hid, number, hpayload, hmax⟩ := h.hidPayload (by omega)
    refine ⟨number, s.hidTable, ?_, hmax⟩
    rw [ParseState.withHidPayload, if_neg hzero, ← hid, ← hpayload]

/-- What a HID descriptor that is not refused does. -/
theorem Walked.addHid (h : Walked buffer hidTable k s) (hkind : kindAt buffer k = .hid)
    (hnot : ¬ Refused buffer (hasFreeHid hidTable) k) :
    ∃ number hidTable', (hidTable' number).maxHID =
        (if s.hidCount = 0 then maxHIDPerDevice else s.hidCount) ∧
      s.addDescriptor buffer =
        (if lengthAt buffer k = 9 ∧ s.hidCount < maxHIDPerDevice then
          (copyFrom buffer s.i 9).map fun descriptor => (true,
            { descriptor := Function.update (hidTable' number).descriptor s.hidCount descriptor
              hidInterface := Function.update (hidTable' number).hidInterface s.hidCount
                ((s.device.maxInterface + 255) % 256)
              maxHID := s.hidCount + 1 })
        else
          .ok (false, hidTable' number)).map fun result =>
            (none, { s with
              device := { s.device with payload := some number, payLoadId := .hidPayload }
              hidTable := Function.update hidTable' number result.2
              hidCount := if result.1 then s.hidCount + 1 else s.hidCount }) := by
  obtain ⟨number, hidTable', hadd, hmax⟩ := h.withHidPayload hkind hnot
  refine ⟨number, hidTable', hmax, ?_⟩
  have hexpected : (hidTable' number).maxHID < maxHIDPerDevice →
      (hidTable' number).maxHID = s.hidCount := by
    intro hlt
    by_cases hzero : s.hidCount = 0
    · rw [hmax, if_pos hzero] at hlt
      omega
    · rw [hmax, if_neg hzero]
  rw [ParseState.addDescriptor, h.kind_eq, hkind]
  dsimp only
  rw [ParseState.addHid_ok hadd, ParseState.setHid_eq rfl, setHidDescriptor_eq hexpected,
    h.length_eq]
  split
  · cases copyFrom buffer s.i 9 with
    | error fault => rfl
    | ok descriptor => rfl
  · rfl

/-- Where the switch stays within its arrays, the descriptor fits. -/
theorem Walked.fits (h : Walked buffer hidTable k s)
    (hnot : ¬ Refused buffer (hasFreeHid hidTable) k) {outcome : Option Result × ParseState}
    (hok : s.addDescriptor buffer = .ok outcome) : Fits buffer k := by
  constructor
  · intro hkind
    rw [ParseState.addDescriptor, h.kind_eq, hkind] at hok
    obtain ⟨s₁, hs₁, -⟩ := map_eq_ok hok
    rw [ParseState.addInterface] at hs₁
    split at hs₁
    · next hlt =>
      obtain ⟨bytes, hcopy, -⟩ := map_eq_ok hs₁
      exact ⟨h.maxInterface_eq ▸ hlt, h.i_eq ▸ copyFrom_isOk hcopy⟩
    · cases hs₁
  · intro hkind
    rw [ParseState.addDescriptor, h.kind_eq, hkind] at hok
    obtain ⟨s₁, hs₁, -⟩ := map_eq_ok hok
    rw [ParseState.addEndpoint] at hs₁
    split at hs₁
    · next hin =>
      obtain ⟨bytes, hcopy, -⟩ := map_eq_ok hs₁
      exact ⟨h.maxInterface_eq ▸ hin.1, h.endPtCnt_eq ▸ hin.2.2, h.i_eq ▸ copyFrom_isOk hcopy⟩
    · cases hs₁
  · intro hkind hlength hwhole
    have hcount : s.hidCount < maxHIDPerDevice := by
      rw [h.hidCount_eq]
      exact Nat.lt_of_le_of_lt (Nat.min_le_right _ _) hwhole
    obtain ⟨number, hidTable', -, hadd⟩ := h.addHid hkind hnot
    rw [hadd, if_pos ⟨hlength, hcount⟩] at hok
    obtain ⟨stored, hstored, -⟩ := map_eq_ok hok
    obtain ⟨bytes, hcopy, -⟩ := map_eq_ok hstored
    exact h.i_eq ▸ copyFrom_isOk hcopy

/-- Past a descriptor of another kind, the HID descriptors are as before. -/
theorem Walked.of_notHid (h : Walked buffer hidTable k s) (hkind : kindAt buffer k ≠ .hid)
    {s' : ParseState} (hi : s'.i = offset buffer (k + 1))
    (hendpoints : s'.endPtCnt = endpointsSince buffer (k + 1))
    (hinterfaces : s'.device.maxInterface = interfacesBefore buffer (k + 1))
    (hle : interfacesBefore buffer (k + 1) ≤ maxInterfacesPerDevice)
    (hcount : s'.hidCount = s.hidCount) (hid : s'.device.payLoadId = s.device.payLoadId)
    (hpayload : s'.device.payload = s.device.payload) (htable : s'.hidTable = s.hidTable) :
    Walked buffer hidTable (k + 1) s' := by
  have hhids : hidsBefore buffer (k + 1) = hidsBefore buffer k := by
    rw [hidsBefore, if_neg hkind, Nat.add_zero]
  have hwhole : wholeHidsBefore buffer (k + 1) = wholeHidsBefore buffer k := by
    rw [wholeHidsBefore, if_neg fun hand => hkind hand.1, Nat.add_zero]
  constructor
  case i_eq => exact hi
  case endPtCnt_eq => exact hendpoints
  case maxInterface_eq => exact hinterfaces
  case maxInterface_le => exact hle
  case hidCount_eq =>
    rw [hcount, hwhole]
    exact h.hidCount_eq
  case noPayload =>
    rw [hhids, hid, htable]
    exact h.noPayload
  case hidPayload =>
    rw [hhids, hid, hpayload, htable, hcount]
    exact h.hidPayload

/-- Past a HID descriptor, the interfaces and endpoints are as before. -/
theorem Walked.of_hid (h : Walked buffer hidTable k s) (hkind : kindAt buffer k = .hid)
    {s' : ParseState} (hi : s'.i = offset buffer (k + 1)) (hendpoints : s'.endPtCnt = s.endPtCnt)
    (hinterfaces : s'.device.maxInterface = s.device.maxInterface)
    (hcount : s'.hidCount = min maxHIDPerDevice (wholeHidsBefore buffer (k + 1)))
    (hid : s'.device.payLoadId = .hidPayload) {number : Nat}
    (hpayload : s'.device.payload = some number)
    (hmax : (s'.hidTable number).maxHID =
      if s'.hidCount = 0 then maxHIDPerDevice else s'.hidCount) :
    Walked buffer hidTable (k + 1) s' := by
  have hsame : interfacesBefore buffer (k + 1) = interfacesBefore buffer k := by
    rw [interfacesBefore, if_neg (by simp [hkind]), Nat.add_zero]
  constructor
  case i_eq => exact hi
  case endPtCnt_eq =>
    rw [hendpoints, endpointsSince, hkind]
    exact h.endPtCnt_eq
  case maxInterface_eq =>
    rw [hinterfaces, hsame]
    exact h.maxInterface_eq
  case maxInterface_le =>
    rw [hsame]
    exact h.maxInterface_le
  case hidCount_eq => exact hcount
  case noPayload =>
    rw [hidsBefore, if_pos hkind]
    exact fun hzero => absurd hzero (Nat.succ_ne_zero _)
  case hidPayload => exact fun _ => ⟨hid, number, hpayload, hmax⟩

/-- A descriptor that fits is passed. -/
theorem Walked.next (h : Walked buffer hidTable k s)
    (hnot : ¬ Refused buffer (hasFreeHid hidTable) k) (hfits : Fits buffer k) :
    ∃ s', s.addDescriptor buffer = .ok (none, s') ∧
      Walked buffer hidTable (k + 1) { s' with i := s.i + (buffer s.i).toNat } := by
  have hoffset : s.i + (buffer s.i).toNat = offset buffer (k + 1) := by
    rw [h.length_eq, h.i_eq, offset_succ]
  cases hkind : kindAt buffer k with
  | interface =>
      obtain ⟨hlt, hcopy⟩ := hfits.interface hkind
      rw [ParseState.addDescriptor, h.kind_eq, hkind]
      dsimp only
      rw [ParseState.addInterface, if_pos (by rw [h.maxInterface_eq]; exact hlt),
        copyFrom_ok (by rw [h.i_eq]; exact hcopy)]
      refine ⟨_, rfl, h.of_notHid (by simp [hkind]) hoffset ?_ ?_ ?_ rfl rfl rfl rfl⟩
      · rw [endpointsSince, hkind]
      · rw [interfacesBefore, if_pos hkind, ← h.maxInterface_eq]
      · rw [interfacesBefore, if_pos hkind]
        exact hlt
  | endpoint =>
      obtain ⟨hpos, hlt, hcopy⟩ := hfits.endpoint hkind
      rw [ParseState.addDescriptor, h.kind_eq, hkind]
      dsimp only
      rw [ParseState.addEndpoint, if_pos ⟨by rw [h.maxInterface_eq]; exact hpos,
          by rw [h.maxInterface_eq]; exact h.maxInterface_le, by rw [h.endPtCnt_eq]; exact hlt⟩,
        copyFrom_ok (by rw [h.i_eq]; exact hcopy)]
      refine ⟨_, rfl, h.of_notHid (by simp [hkind]) hoffset ?_ ?_ ?_ rfl rfl rfl rfl⟩
      · rw [endpointsSince, hkind, ← h.endPtCnt_eq]
      · rw [interfacesBefore, if_neg (by simp [hkind])]
        exact h.maxInterface_eq
      · rw [interfacesBefore, if_neg (by simp [hkind])]
        exact h.maxInterface_le
  | hid =>
      obtain ⟨number, hidTable', hmax, hadd⟩ := h.addHid hkind hnot
      rw [hadd]
      by_cases hstored : lengthAt buffer k = 9 ∧ s.hidCount < maxHIDPerDevice
      · have hcount := h.hidCount_eq
        rw [hcount, maxHIDPerDevice] at hstored
        rw [if_pos (by rw [hcount, maxHIDPerDevice]; exact hstored),
          copyFrom_ok (by
            rw [h.i_eq]
            exact hfits.hid hkind hstored.1 (by rw [maxHIDPerDevice]; omega))]
        refine ⟨_, rfl, h.of_hid hkind hoffset rfl rfl ?_ rfl rfl ?_⟩
        · change s.hidCount + 1 = min _ (wholeHidsBefore buffer (k + 1))
          rw [wholeHidsBefore, if_pos ⟨hkind, hstored.1⟩, hcount, maxHIDPerDevice]
          omega
        · dsimp only
          rw [Function.update_self]
          exact (if_neg (Nat.succ_ne_zero _)).symm
      · rw [if_neg hstored]
        refine ⟨_, rfl, h.of_hid hkind hoffset rfl rfl ?_ rfl rfl ?_⟩
        · change s.hidCount = _
          rw [h.hidCount_eq] at hstored ⊢
          rw [wholeHidsBefore]
          by_cases hlength : lengthAt buffer k = 9
          · rw [if_pos ⟨hkind, hlength⟩]
            have hfull : ¬ min maxHIDPerDevice (wholeHidsBefore buffer k) < maxHIDPerDevice :=
              fun hlt => hstored ⟨hlength, hlt⟩
            rw [maxHIDPerDevice] at hfull ⊢
            omega
          · rw [if_neg fun hand => hlength hand.2, Nat.add_zero]
        · dsimp only
          rw [Function.update_self]
          exact hmax
  | other =>
      rw [ParseState.addDescriptor, h.kind_eq, hkind]
      refine ⟨s, rfl, h.of_notHid (by simp [hkind]) hoffset ?_ ?_ ?_ rfl rfl rfl rfl⟩
      · rw [endpointsSince, hkind]
        exact h.endPtCnt_eq
      · rw [interfacesBefore, if_neg (by simp [hkind])]
        exact h.maxInterface_eq
      · rw [interfacesBefore, if_neg (by simp [hkind])]
        exact h.maxInterface_le

/-- The condition on one descriptor that the loop comes to. -/
theorem Walked.clause (h : Walked buffer hidTable k s) {outcome : Option Result × ParseState}
    (hok : s.parseDescriptor buffer = .ok outcome) :
    offset buffer k + 1 < configBufferSize ∧
      (¬ Refused buffer (hasFreeHid hidTable) k → Fits buffer k) := by
  obtain ⟨hi, result, hadd⟩ := ParseState.parseDescriptor_isOk hok
  exact ⟨h.i_eq ▸ hi, fun hnot => h.fits hnot hadd⟩

/-- At a descriptor of length zero that is no HID descriptor before a whole one, the loop
stays for ever. -/
theorem parseLoop_stuck {bound : Nat} (fuel : Nat) (h : Walked buffer hidTable k s)
    (hbound : offset buffer k < bound) (hlength : lengthAt buffer k = 0)
    (hstuck : kindAt buffer k = .hid → wholeHidsBefore buffer k ≠ 0)
    (outcome : Option Result × ParseState) :
    parseLoop buffer bound fuel s ≠ some (.ok outcome) := by
  induction fuel generalizing k s with
  | zero => exact fun hloop => by cases hloop
  | succ fuel ih =>
      intro hloop
      have hnot : ¬ Refused buffer (hasFreeHid hidTable) k := fun hrefused =>
        hstuck hrefused.1 hrefused.2.1
      rw [parseLoop, if_pos (by rw [h.i_eq]; exact hbound)] at hloop
      cases hstep : s.parseDescriptor buffer with
      | error fault =>
          rw [hstep] at hloop
          cases hloop
      | ok first =>
          obtain ⟨hi, hfits⟩ := h.clause hstep
          obtain ⟨s', hadd, hnext⟩ := h.next hnot (hfits hnot)
          rw [ParseState.parseDescriptor_ok (by rw [h.i_eq]; exact hi) hadd] at hloop
          have hoffset : offset buffer (k + 1) = offset buffer k := by
            rw [offset_succ, hlength, Nat.add_zero]
          refine ih hnext (by rw [hoffset]; exact hbound) (by rw [lengthAt, hoffset]; exact hlength)
            (fun hkind => ?_) hloop
          have hwhole := hstuck (by rw [kindAt, hoffset] at hkind; exact hkind)
          rw [wholeHidsBefore]
          omega

/-- A loop that stays within its arrays and ends meets the condition on every descriptor
that it comes to. -/
theorem Walked.admissible {bound : Nat} (fuel : Nat) (h : Walked buffer hidTable k s)
    {outcome : Option Result × ParseState}
    (hloop : parseLoop buffer bound fuel s = some (.ok outcome)) (m : Nat)
    (hcomes : ∀ j, k ≤ j → j ≤ k + m → offset buffer j < bound)
    (hnot : ∀ j, k ≤ j → j < k + m → ¬ Refused buffer (hasFreeHid hidTable) j) :
    offset buffer (k + m) + 1 < configBufferSize ∧
      (¬ Refused buffer (hasFreeHid hidTable) (k + m) → Fits buffer (k + m) ∧
        (lengthAt buffer (k + m) = 0 →
          kindAt buffer (k + m) = .hid ∧ wholeHidsBefore buffer (k + m) = 0)) := by
  induction fuel generalizing k s m with
  | zero => cases hloop
  | succ fuel ih =>
      have hbound := hcomes k (Nat.le_refl k) (Nat.le_add_right k m)
      cases hstep : s.parseDescriptor buffer with
      | error fault =>
          rw [parseLoop, if_pos (by rw [h.i_eq]; exact hbound), hstep] at hloop
          cases hloop
      | ok first =>
          obtain ⟨hi, hfits⟩ := h.clause hstep
          cases m with
          | zero =>
              refine ⟨hi, fun hgo => ⟨hfits hgo, fun hlength => ?_⟩⟩
              by_contra hcontra
              refine parseLoop_stuck (fuel + 1) h hbound hlength (fun hkind hwhole => ?_) outcome
                hloop
              exact hcontra ⟨hkind, hwhole⟩
          | succ m =>
              have hgo := hnot k (Nat.le_refl k) (by omega)
              obtain ⟨s', hadd, hnext⟩ := h.next hgo (hfits hgo)
              rw [parseLoop_next (by rw [h.i_eq]; exact hbound)
                (ParseState.parseDescriptor_ok (by rw [h.i_eq]; exact hi) hadd)] at hloop
              have hrest := ih hnext hloop m (fun j hj hj' => hcomes j (by omega) (by omega))
                fun j hj hj' => hnot j (by omega) (by omega)
              rw [Nat.add_right_comm, Nat.add_assoc k m 1] at hrest
              exact hrest

/-- A refused descriptor is the last one. -/
theorem Walked.ends_refused {bound : Nat} (h : Walked buffer hidTable k s)
    (hbound : offset buffer k < bound) (hi : offset buffer k + 1 < configBufferSize)
    (hrefused : Refused buffer (hasFreeHid hidTable) k) :
    ∃ outcome, parseLoop buffer bound 1 s = some (.ok outcome) := by
  obtain ⟨result, s', hadd⟩ := h.refused hrefused
  refine ⟨(some result, s'), ?_⟩
  rw [parseLoop, if_pos (by rw [h.i_eq]; exact hbound), ParseState.parseDescriptor,
    if_pos (by rw [h.i_eq]; exact hi), hadd]
  rfl

/-- Where every descriptor meets the condition, the loop ends; `room` bounds the offsets
that are left. -/
theorem Walked.ends {bound : Nat} (hadmissible : Admissible buffer (hasFreeHid hidTable) bound)
    (room : Nat) (hroom : configBufferSize ≤ offset buffer k + room)
    (h : Walked buffer hidTable k s) (hcomes : ∀ j < k, offset buffer j < bound)
    (hnot : ∀ j < k, ¬ Refused buffer (hasFreeHid hidTable) j) :
    ∃ fuel outcome, parseLoop buffer bound fuel s = some (.ok outcome) := by
  induction room generalizing k s with
  | zero =>
      by_cases hbound : offset buffer k < bound
      · have hcomesTo : ComesTo buffer (hasFreeHid hidTable) bound k :=
          ⟨fun j hj => (Nat.lt_or_eq_of_le hj).elim (hcomes j) fun heq => heq ▸ hbound, hnot⟩
        have hi := (hadmissible k hcomesTo).1
        omega
      · exact ⟨1, _, parseLoop_end (by rw [h.i_eq]; exact Nat.not_lt.mp hbound)⟩
  | succ room ih =>
      by_cases hbound : offset buffer k < bound
      · have hcomesTo : ComesTo buffer (hasFreeHid hidTable) bound k :=
          ⟨fun j hj => (Nat.lt_or_eq_of_le hj).elim (hcomes j) fun heq => heq ▸ hbound, hnot⟩
        obtain ⟨hi, hclause⟩ := hadmissible k hcomesTo
        by_cases hrefused : Refused buffer (hasFreeHid hidTable) k
        · exact ⟨1, h.ends_refused hbound hi hrefused⟩
        · obtain ⟨hfits, hzero⟩ := hclause hrefused
          obtain ⟨s', hadd, hnext⟩ := h.next hrefused hfits
          have hstep := ParseState.parseDescriptor_ok (by rw [h.i_eq]; exact hi) hadd
          by_cases hlength : lengthAt buffer k = 0
          · -- the same HID descriptor comes again, and is refused
            obtain ⟨hkind, hwhole⟩ := hzero hlength
            have hoffset : offset buffer (k + 1) = offset buffer k := by
              rw [offset_succ, hlength, Nat.add_zero]
            have hagain : Refused buffer (hasFreeHid hidTable) (k + 1) := by
              refine ⟨by rw [kindAt, hoffset]; exact hkind, ?_, Or.inr ?_⟩
              · rw [wholeHidsBefore, if_neg (by rw [hlength]; simp), hwhole]
              · rw [hidsBefore, if_pos hkind]
                exact Nat.succ_pos _
            obtain ⟨outcome, hloop⟩ := hnext.ends_refused (by rw [hoffset]; exact hbound)
              (by rw [hoffset]; exact hi) hagain
            exact ⟨2, outcome, (parseLoop_next (by rw [h.i_eq]; exact hbound) hstep).trans hloop⟩
          · obtain ⟨fuel, outcome, hloop⟩ := ih (by rw [offset_succ]; omega) hnext
              (fun j hj => (Nat.lt_or_eq_of_le (Nat.le_of_lt_succ hj)).elim (hcomes j)
                fun heq => heq ▸ hbound)
              fun j hj => (Nat.lt_or_eq_of_le (Nat.le_of_lt_succ hj)).elim (hnot j)
                fun heq => heq ▸ hrefused
            exact ⟨fuel + 1, outcome,
              (parseLoop_next (by rw [h.i_eq]; exact hbound) hstep).trans hloop⟩
      · exact ⟨1, _, parseLoop_end (by rw [h.i_eq]; exact Nat.not_lt.mp hbound)⟩

theorem Walked.initial {device : UsbDevice} (hdevice : Fresh device) :
    Walked buffer hidTable 0 { device, hidTable } where
  i_eq := rfl
  endPtCnt_eq := rfl
  maxInterface_eq := hdevice.maxInterface_eq
  maxInterface_le := Nat.zero_le _
  hidCount_eq := rfl
  noPayload _ := ⟨hdevice.payLoadId_eq, rfl⟩
  hidPayload hpos := absurd hpos (Nat.lt_irrefl 0)

/-- The loop stays within its arrays and ends exactly on an admissible buffer. -/
theorem parseLoop_safe_iff (buffer : Nat → UInt8) (hidTable : Nat → HidDevice)
    {device : UsbDevice} (hdevice : Fresh device) (bound : Nat) :
    (∃ fuel outcome, parseLoop buffer bound fuel { device, hidTable } = some (.ok outcome)) ↔
      Admissible buffer (hasFreeHid hidTable) bound := by
  have hinitial : Walked buffer hidTable 0 { device, hidTable } := Walked.initial hdevice
  constructor
  · rintro ⟨fuel, outcome, hloop⟩ k hcomes
    have hclause := hinitial.admissible fuel hloop k (fun j _ hj => hcomes.1 j (by omega))
      fun j _ hj => hcomes.2 j (by omega)
    rw [Nat.zero_add] at hclause
    exact hclause
  · intro hadmissible
    exact Walked.ends hadmissible configBufferSize (Nat.le_add_left _ _) hinitial
      (fun j hj => absurd hj (Nat.not_lt_zero j)) fun j hj => absurd hj (Nat.not_lt_zero j)

end Step

end RPiKernel.Usb
