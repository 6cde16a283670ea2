import Mathlib.Data.FinEnum
import RPiKernel.Linked.Chain
import RPiKernel.Machine.BitFields
import RPiKernel.Pcie.BarPlacement

/-!
# The capability list

A device that announces capabilities stores at 0x34 where the first of them is; each of them has
the place of the next one behind its identifier. `enumerate_capabilities` takes 0x34 itself for the
first of them and follows the list from there.

## Implementation notes

The walk ends only where a pointer is zero, so that it runs with fuel. The registers that it reads
are counted.
-/

namespace RPiKernel.Pcie

open Linked Machine

/-- The bytes of the configuration space of a device. -/
abbrev ConfigSpace := Nat → UInt8

def vendorIdOffset : Nat := 0x00

def statusOffset : Nat := 0x06

def capabilitiesOffset : UInt8 := 0x34

/-- `read_register` of a number of bytes. -/
def readRegister (bytes : Nat) (config : ConfigSpace) (offset : Nat) : Nat :=
  if offset + bytes > configSpaceSize then
    0xFFFFFFFF % 2 ^ (8 * bytes)
  else
    let value := pack ((List.range bytes).map fun k => (8, (config (offset + k)).toNat))
    if offset = vendorIdOffset ∧ value = 0 then 0xFFFF % 2 ^ (8 * bytes) else value

/-- `read_register<uint8_t>`. -/
def readByte (config : ConfigSpace) (offset : Nat) : UInt8 :=
  UInt8.ofNat (readRegister 1 config offset)

/-- `status`. -/
def status (config : ConfigSpace) : Nat := readRegister 2 config statusOffset

/-- The data of a capability is never filled in. -/
structure Capability where
  id : UInt8
  nextOffset : UInt8
  deriving DecidableEq

/-- What an enumeration has found, and how many registers it has read. -/
structure Enumeration where
  capabilities : List Capability
  reads : Nat

/-- The loop of `enumerate_capabilities`. -/
def capabilityLoop (config : ConfigSpace) : Nat → UInt8 → Enumeration → Option Enumeration
  | 0, _, _ => none
  | fuel + 1, capabilityPointer, found =>
      if capabilityPointer ≠ 0 then
        let cap : Capability :=
          { id := readByte config capabilityPointer.toNat
            nextOffset := readByte config (capabilityPointer.toNat + 1) }
        capabilityLoop config fuel cap.nextOffset
          { capabilities := found.capabilities ++ [cap], reads := found.reads + 2 }
      else
        some found

/-- `enumerate_capabilities`. -/
def enumerateCapabilities (config : ConfigSpace) (fuel : Nat) : Option Enumeration :=
  if status config = 0xFFFF ∨ status config &&& 0x10 = 0 then
    some { capabilities := [], reads := 1 }
  else
    capabilityLoop config fuel capabilitiesOffset { capabilities := [], reads := 1 }

/-- `find_capability`. -/
def findCapability (config : ConfigSpace) (fuel : Nat) (capId : UInt8) :
    Option (Option Capability) :=
  (enumerateCapabilities config fuel).map fun found =>
    found.capabilities.find? fun cap => cap.id == capId

/-- The place of the capability behind another one. -/
def nextCapability (config : ConfigSpace) (place : UInt8) : UInt8 := config (place.toNat + 1)

/-- The capability at a place. -/
def capabilityAt (config : ConfigSpace) (place : UInt8) : Capability :=
  ⟨config place.toNat, nextCapability config place⟩

/-- The list that starts at a place of the configuration space. -/
abbrev CapabilityList (config : ConfigSpace) : UInt8 → List UInt8 → Prop :=
  Chain (nextCapability config) 0

/-- The place of the first capability, which is stored at 0x34. -/
def firstCapability (config : ConfigSpace) : UInt8 := config capabilitiesOffset.toNat

/-- The status announces a capability list. -/
def Announces (config : ConfigSpace) : Prop := status config &&& 0x10 ≠ 0

instance (config : ConfigSpace) : Decidable (Announces config) :=
  inferInstanceAs (Decidable (_ ≠ _))

/-- The enumeration ends with the capabilities at the given places, and finds just those. -/
def Enumerates (config : ConfigSpace) (places : List UInt8) : Prop :=
  ∃ fuel found, enumerateCapabilities config fuel = some found ∧
    found.capabilities = places.map (capabilityAt config) ∧
      ∀ id, (∃ cap, findCapability config fuel id = some (some cap)) ↔
        ∃ place ∈ places, config place.toNat = id

/-- The enumeration ends, and has read no more than a number of registers. -/
def EndsWithin (config : ConfigSpace) (bound : Nat) : Prop :=
  ∃ fuel found, enumerateCapabilities config fuel = some found ∧ found.reads ≤ bound

/-- What a walk over the capabilities at the given places adds. -/
def Enumeration.withList (found : Enumeration) (config : ConfigSpace) (places : List UInt8) :
    Enumeration :=
  ⟨found.capabilities ++ places.map (capabilityAt config), found.reads + 2 * places.length⟩

section Walk

variable {config : ConfigSpace} {place : UInt8} {places : List UInt8} {fuel : Nat}
  {found found' : Enumeration}

theorem readByte_eq {offset : Nat} (hoffset : 0 < offset) (hsize : offset < configSpaceSize) :
    readByte config offset = config offset := by
  rw [readByte, readRegister, if_neg (by omega)]
  simp only [List.range_one, List.map_cons, List.map_nil, Nat.add_zero]
  rw [if_neg (by rintro ⟨h, -⟩; exact absurd h (Nat.ne_of_gt hoffset))]
  simp [pack]

theorem readByte_place (hplace : place ≠ 0) :
    readByte config place.toNat = config place.toNat := by
  refine readByte_eq (Nat.pos_of_ne_zero fun h => hplace (UInt8.toNat_inj.mp h)) ?_
  rw [configSpaceSize]
  exact Nat.lt_trans place.toNat_lt (by decide)

theorem readByte_next : readByte config (place.toNat + 1) = nextCapability config place := by
  refine readByte_eq (Nat.succ_pos _) ?_
  have hlt : place.toNat < 256 := place.toNat_lt
  rw [configSpaceSize]
  omega

theorem withList_nil : found.withList config [] = found := by
  rw [Enumeration.withList, List.map_nil, List.append_nil, List.length_nil, Nat.mul_zero,
    Nat.add_zero]

theorem withList_cons :
    found.withList config (place :: places) =
      Enumeration.withList ⟨found.capabilities ++ [capabilityAt config place], found.reads + 2⟩
        config places := by
  rw [Enumeration.withList, Enumeration.withList, List.map_cons, List.length_cons,
    List.append_assoc, List.singleton_append, Nat.mul_succ, Nat.add_assoc, Nat.add_comm 2]

theorem capabilityLoop_of_ne (hplace : place ≠ 0) :
    capabilityLoop config (fuel + 1) place found =
      capabilityLoop config fuel (nextCapability config place)
        ⟨found.capabilities ++ [capabilityAt config place], found.reads + 2⟩ := by
  rw [capabilityLoop, if_pos hplace]
  simp only [readByte_place hplace, readByte_next]
  rfl

/-- The loop ends just where the list from the pointer on is finite, with all of the list. -/
theorem exists_capabilityLoop_iff :
    (∃ fuel, capabilityLoop config fuel place found = some found') ↔
      ∃ places, CapabilityList config place places ∧ found' = found.withList config places := by
  constructor
  · rintro ⟨fuel, hloop⟩
    induction fuel generalizing place found with
    | zero => cases hloop
    | succ fuel ih =>
      by_cases hplace : place = 0
      · rw [capabilityLoop, if_neg (not_not.mpr hplace)] at hloop
        injection hloop with hfound
        exact ⟨[], hplace ▸ .done, by rw [withList_nil, hfound]⟩
      · rw [capabilityLoop_of_ne hplace] at hloop
        obtain ⟨places, hlist, hfound⟩ := ih hloop
        exact ⟨place :: places, .link hplace hlist, by rw [withList_cons, hfound]⟩
  · rintro ⟨places, hlist, rfl⟩
    induction hlist generalizing found with
    | done => exact ⟨1, by rw [withList_nil]; rfl⟩
    | link hplace _ ih =>
      obtain ⟨fuel, hloop⟩ := @ih ⟨found.capabilities ++ [capabilityAt config _], found.reads + 2⟩
      exact ⟨fuel + 1, by rw [capabilityLoop_of_ne hplace, hloop, withList_cons]⟩

theorem enumerate_of_skip (h : status config = 0xFFFF ∨ ¬ Announces config) :
    enumerateCapabilities config fuel = some ⟨[], 1⟩ := by
  rw [enumerateCapabilities, if_pos (h.imp_right fun hno => not_not.mp hno)]

/-- Where the status asks for it, the enumeration ends with the list that starts at 0x34. -/
theorem exists_enumerate_iff (hpresent : status config ≠ 0xFFFF) (hlist : Announces config) :
    (∃ fuel, enumerateCapabilities config fuel = some found) ↔
      ∃ places, CapabilityList config (nextCapability config capabilitiesOffset) places ∧
        found = Enumeration.withList ⟨[], 1⟩ config (capabilitiesOffset :: places) := by
  have hwalk : ¬ (status config = 0xFFFF ∨ status config &&& 0x10 = 0) :=
    not_or.mpr ⟨hpresent, hlist⟩
  simp only [enumerateCapabilities, if_neg hwalk]
  rw [exists_capabilityLoop_iff]
  constructor
  · rintro ⟨places, hchain, rfl⟩
    obtain ⟨rest, rfl, hrest⟩ := (Chain.cons_iff (by decide)).mp hchain
    exact ⟨rest, hrest, rfl⟩
  · rintro ⟨rest, hrest, rfl⟩
    exact ⟨capabilitiesOffset :: rest, .link (by decide) hrest, rfl⟩

/-- A list of capabilities has at most 255 of them. -/
theorem length_le_of_list (h : CapabilityList config place places) : places.length ≤ 255 := by
  have hcard : Fintype.card UInt8 = 256 :=
    FinEnum.card_eq_fintypeCard.symm.trans FinEnum.card_UInt8
  have hlt := h.length_lt
  omega

/-- The enumeration ends just where the status keeps it from the list, or the list that the byte
at 0x35 leads on to is finite; it has then read at most 511 registers. -/
theorem endsWithin_iff :
    ((∃ bound, EndsWithin config bound) ↔ EndsWithin config 511) ∧
      (EndsWithin config 511 ↔ status config = 0xFFFF ∨ ¬ Announces config ∨
        ∃ places, CapabilityList config (nextCapability config capabilitiesOffset) places) := by
  have hends : (∃ bound, EndsWithin config bound) →
      status config = 0xFFFF ∨ ¬ Announces config ∨
        ∃ places, CapabilityList config (nextCapability config capabilitiesOffset) places := by
    rintro ⟨-, fuel, found, hrun, -⟩
    by_cases hpresent : status config = 0xFFFF
    · exact Or.inl hpresent
    · by_cases hlist : Announces config
      · obtain ⟨places, hrest, -⟩ := (exists_enumerate_iff hpresent hlist).mp ⟨fuel, hrun⟩
        exact Or.inr (Or.inr ⟨places, hrest⟩)
      · exact Or.inr (Or.inl hlist)
  have hbound : (status config = 0xFFFF ∨ ¬ Announces config ∨
      ∃ places, CapabilityList config (nextCapability config capabilitiesOffset) places) →
        EndsWithin config 511 := by
    intro h
    by_cases hskip : status config = 0xFFFF ∨ ¬ Announces config
    · exact ⟨0, _, enumerate_of_skip hskip, by decide⟩
    · obtain ⟨places, hrest⟩ := (or_assoc.mpr h).resolve_left hskip
      obtain ⟨hpresent, hlist⟩ := not_or.mp hskip
      obtain ⟨fuel, hrun⟩ :=
        (exists_enumerate_iff hpresent (not_not.mp hlist)).mpr ⟨places, hrest, rfl⟩
      have hlength := length_le_of_list (.link (a := capabilitiesOffset) (by decide) hrest)
      refine ⟨fuel, _, hrun, ?_⟩
      simp only [Enumeration.withList]
      omega
  exact ⟨⟨fun h => hbound (hends h), fun h => ⟨511, h⟩⟩, fun h => hends ⟨511, h⟩, hbound⟩

/-- What is found among the capabilities of a list. -/
theorem findCapability_iff {id : UInt8} (hrun : enumerateCapabilities config fuel = some found)
    (hfound : found.capabilities = places.map (capabilityAt config)) :
    (∃ cap, findCapability config fuel id = some (some cap)) ↔
      ∃ place ∈ places, config place.toNat = id := by
  rw [findCapability, hrun, Option.map_some, hfound]
  simp only [Option.some_inj]
  rw [← Option.isSome_iff_exists, List.find?_isSome]
  simp only [List.mem_map, beq_iff_eq, exists_exists_and_eq_and]
  rfl

/-- The register at 0x34, taken for a capability, is the first one of the list. -/
def HeadIsEntry (config : ConfigSpace) : Prop :=
  firstCapability config ≠ 0 ∧
    capabilityAt config capabilitiesOffset = capabilityAt config (firstCapability config)

/-- A finite list is enumerated just where the status reads as all ones and it is empty, or where
it does not and the register at 0x34 looks like the first capability. -/
theorem enumerates_iff (hlist : Announces config)
    (hplaces : CapabilityList config (firstCapability config) places) :
    Enumerates config places ↔
      if status config = 0xFFFF then places = [] else HeadIsEntry config := by
  have hfinds : Enumerates config places ↔
      ∃ found, (∃ fuel, enumerateCapabilities config fuel = some found) ∧
        found.capabilities = places.map (capabilityAt config) := by
    constructor
    · rintro ⟨fuel, found, hrun, hfound, -⟩
      exact ⟨found, ⟨fuel, hrun⟩, hfound⟩
    · rintro ⟨found, ⟨fuel, hrun⟩, hfound⟩
      exact ⟨fuel, found, hrun, hfound, fun _ => findCapability_iff hrun hfound⟩
  rw [hfinds]
  split
  · next habsent =>
    simp only [enumerate_of_skip (Or.inl habsent), exists_const, Option.some_inj,
      exists_eq_left', eq_comm (a := ([] : List Capability)), List.map_eq_nil_iff]
  · next hpresent =>
    simp only [exists_enumerate_iff hpresent hlist]
    constructor
    · rintro ⟨_, ⟨rest, -, rfl⟩, hfound⟩
      -- What is found begins at 0x34, so that the list is not empty.
      have hne : firstCapability config ≠ 0 := by
        rw [Ne, ← hplaces.nil_iff]
        rintro rfl
        cases hfound
      obtain ⟨rest', rfl, -⟩ := (Chain.cons_iff hne).mp hplaces
      injection hfound with hhead _
      exact ⟨hne, hhead⟩
    · rintro ⟨hne, hhead⟩
      obtain ⟨rest, rfl, hrest⟩ := (Chain.cons_iff hne).mp hplaces
      have hnext : nextCapability config capabilitiesOffset =
          nextCapability config (firstCapability config) :=
        congrArg Capability.nextOffset hhead
      refine ⟨_, ⟨rest, hnext ▸ hrest, rfl⟩, ?_⟩
      simp only [Enumeration.withList, List.nil_append, List.map_cons, hhead]

end Walk

/-- A device whose first capability stands at 0x40, with nothing behind it. -/
def oneCapability : ConfigSpace := fun offset =>
  if offset = 0x06 then 0x10 else if offset = 0x34 then 0x40 else if offset = 0x40 then 0x05 else 0

theorem oneCapability_list : CapabilityList oneCapability (firstCapability oneCapability) [0x40] :=
  .link (by decide) .done

theorem enumerates_iff_oneCapability :
    Enumerates oneCapability [0x40] ↔
      if status oneCapability = 0xFFFF then [(0x40 : UInt8)] = [] else HeadIsEntry oneCapability :=
  enumerates_iff (by decide) oneCapability_list

/-- The one capability, of the identifier 5, is reported with the identifier 0x40. -/
theorem oneCapability_not_enumerated :
    Announces oneCapability ∧
      CapabilityList oneCapability (firstCapability oneCapability) [0x40] ∧
        (enumerateCapabilities oneCapability 2).map Enumeration.capabilities =
          some [⟨0x40, 0x00⟩] ∧
        ¬ Enumerates oneCapability [0x40] := by
  refine ⟨by decide, oneCapability_list, by decide, ?_⟩
  rintro ⟨fuel, found, hrun, hfound, -⟩
  obtain ⟨rest, -, rfl⟩ := (exists_enumerate_iff (by decide) (by decide)).mp ⟨fuel, hrun⟩
  injection hfound with hhead _
  exact absurd hhead (by decide)

/-- A device whose first capability, at 0x40, has itself behind it. -/
def cyclicCapability : ConfigSpace := fun offset =>
  if offset = 0x06 then 0x10
  else if offset = 0x34 ∨ offset = 0x35 ∨ offset = 0x41 then 0x40 else 0

/-- The enumeration of a list that leads back to itself does not end. -/
theorem cyclicCapability_not_endsWithin : ¬ ∃ bound, EndsWithin cyclicCapability bound := by
  rintro ⟨-, fuel, found, hrun, -⟩
  obtain ⟨rest, hrest, -⟩ := (exists_enumerate_iff (by decide) (by decide)).mp ⟨fuel, hrun⟩
  exact hrest.next_ne (by decide) rfl

end RPiKernel.Pcie
