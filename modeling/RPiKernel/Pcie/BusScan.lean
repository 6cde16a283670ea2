import RPiKernel.Pcie.Capabilities
import RPiKernel.Transition.System

/-!
# The scan of the bus

The devices behind the bridge share one window for their configuration spaces. The constructor of a
`Configuration` selects what the window shows, so that a `Configuration` reaches its own device
exactly as long as none has been made for another one (`reaches_iff`). `initialize` uses each
`Configuration` in front of the next one, and lists the functions that answer, each with its own
identifiers (`devices_listed`).

## Implementation notes

A device address is the word that the register `CFG_INDEX` takes. Whether the bridge has been set
up is an argument of a call of `initialize`. `Driver.made` is not part of the program: it has the
`Configuration`s that have been made, the latest one first.
-/

namespace RPiKernel.Pcie

open Machine Transition

abbrev DeviceAddress := BitVec 32

def invalidDeviceAddress : DeviceAddress := 0xFFFFFFFF

/-- The address of a function. -/
def deviceAddress (bus device function : Nat) : DeviceAddress :=
  BitVec.ofNat 32 (pack [(12, 0), (3, function), (5, device), (8, bus), (4, 0)])

/-- Where the registers of a `Configuration` are. -/
inductive RegistersBase where
  | null
  | bridge
  | window
  deriving DecidableEq, Repr

structure Configuration where
  address : DeviceAddress
  registersBase : RegistersBase
  deriving DecidableEq, Repr

structure DeviceInfo where
  address : DeviceAddress
  vendorId : Nat
  deviceId : Nat
  classCode : Nat
  deriving DecidableEq, Repr

/-- The window and the list of the devices. `lastAddress` is the static variable of the
constructor. -/
structure Driver where
  cfgIndex : DeviceAddress
  lastAddress : DeviceAddress := 0
  devices : List DeviceInfo := []
  initialized : Bool := false
  made : List Configuration := []
  deriving DecidableEq, Repr

/-- The configuration spaces of the bridge and of what is behind it. -/
structure Hierarchy where
  bridge : ConfigSpace
  behind : DeviceAddress → ConfigSpace

/-- The constructor of `Configuration`. -/
def Driver.configuration (s : Driver) (addr : DeviceAddress) : Configuration × Driver :=
  if addr = invalidDeviceAddress then
    (⟨addr, .null⟩, { s with made := ⟨addr, .null⟩ :: s.made })
  else if addr = 0 then
    (⟨addr, .bridge⟩, { s with made := ⟨addr, .bridge⟩ :: s.made })
  else if s.lastAddress ≠ addr then
    (⟨addr, .window⟩,
      { s with lastAddress := addr, cfgIndex := addr, made := ⟨addr, .window⟩ :: s.made })
  else
    (⟨addr, .window⟩, { s with made := ⟨addr, .window⟩ :: s.made })

/-- The registers that a `Configuration` reaches. Nothing answers at the null pointer. -/
def Configuration.reached (hierarchy : Hierarchy) (s : Driver) (config : Configuration) :
    ConfigSpace :=
  match config.registersBase with
  | .null => fun _ => 0xFF
  | .bridge => hierarchy.bridge
  | .window => hierarchy.behind s.cfgIndex

def invalidVendorId : Nat := 0xFFFF

def reservedVendorId : Nat := 0

def maxFunctionsPerDevice : Nat := 8

/-- `vendor_id`. -/
def vendorId (config : ConfigSpace) : Nat := readRegister 2 config vendorIdOffset

/-- `device_id`. -/
def deviceId (config : ConfigSpace) : Nat := readRegister 2 config 0x02

/-- `class_code`. -/
def classCode (config : ConfigSpace) : Nat :=
  let result := readRegister 4 config 0x08
  if result = 0 then 0 else result >>> 8

def headerType (config : ConfigSpace) : Nat := readRegister 1 config 0x0E

/-- What is listed about a device. -/
def deviceInfo (addr : DeviceAddress) (config : ConfigSpace) : DeviceInfo where
  address := addr
  vendorId := vendorId config
  deviceId := deviceId config
  classCode := classCode config

/-- `devices_.push_back`. -/
def Driver.push (s : Driver) (info : DeviceInfo) : Driver :=
  { s with devices := s.devices ++ [info] }

/-- The loop over the functions of a device, from `function` on, with `left` of them left. -/
def scanFunctions (hierarchy : Hierarchy) (bus device : Nat) : Nat → Nat → Driver → Driver
  | 0, _, s => s
  | left + 1, function, s =>
      let addr := deviceAddress bus device function
      let made := s.configuration addr
      let registers := made.1.reached hierarchy made.2
      if vendorId registers = invalidVendorId ∨ vendorId registers = reservedVendorId then
        -- without function 0 there is no device
        if function = 0 then made.2
        else scanFunctions hierarchy bus device left (function + 1) made.2
      else
        let found := made.2.push (deviceInfo addr registers)
        if function = 0 ∧ headerType registers &&& 0x80 = 0 then found
        else scanFunctions hierarchy bus device left (function + 1) found

inductive PCIeError where
  | success
  | deviceNotFound
  | hardwareError
  deriving DecidableEq, Repr

/-- `initialize`. -/
def initializeBus (hierarchy : Hierarchy) (ready : Bool) (s : Driver) : PCIeError × Driver :=
  if s.initialized then
    (.success, s)
  else if !ready then
    (.hardwareError, s)
  else
    let root := s.configuration 0
    if vendorId (root.1.reached hierarchy root.2) = invalidVendorId then
      (.deviceNotFound, root.2)
    else
      let root := root.2.configuration 0
      let registers := root.1.reached hierarchy root.2
      let s :=
        if vendorId registers ≠ invalidVendorId then root.2.push (deviceInfo 0 registers)
        else root.2
      let s := scanFunctions hierarchy 1 0 maxFunctionsPerDevice 0 s
      (.success, { s with initialized := true })

/-- `find_devices`. -/
def Driver.findDevices (s : Driver) (vendor : Nat) (device : Option Nat) : List DeviceInfo :=
  s.devices.filter fun info => info.vendorId == vendor && device.all (info.deviceId == ·)

inductive BusAction where
  | configuration (addr : DeviceAddress)
  | initializeBus (ready : Bool)
  deriving DecidableEq, Repr

/-- The driver of a bus; what the window shows first is arbitrary. -/
def busSystem (hierarchy : Hierarchy) : System Driver BusAction where
  Initial s := ∃ cfgIndex, s = { cfgIndex }
  next s
    | .configuration addr => some (s.configuration addr).2
    | .initializeBus ready => some (initializeBus hierarchy ready s).2

section Window

variable {hierarchy : Hierarchy} {s : Driver} {addr : DeviceAddress} {config : Configuration}

/-- The address of a device behind the bridge. -/
def Behind (addr : DeviceAddress) : Prop := addr ≠ invalidDeviceAddress ∧ addr ≠ 0

instance (addr : DeviceAddress) : Decidable (Behind addr) := inferInstanceAs (Decidable (_ ∧ _))

/-- The registers of the device at an address. -/
def Hierarchy.space (hierarchy : Hierarchy) (addr : DeviceAddress) : ConfigSpace :=
  if addr = invalidDeviceAddress then fun _ => 0xFF
  else if addr = 0 then hierarchy.bridge
  else hierarchy.behind addr

/-- What is read and written through a `Configuration` are the registers of its own device,
whatever the devices are. -/
def Configuration.Reaches (config : Configuration) (s : Driver) : Prop :=
  ∀ hierarchy : Hierarchy, config.reached hierarchy s = hierarchy.space config.address

/-- The latest `Configuration` of a device behind the bridge. -/
def Driver.latest (s : Driver) : Option Configuration :=
  s.made.find? fun config => Behind config.address

/-- The `Configuration` that the constructor makes. -/
def configurationOf (addr : DeviceAddress) : Configuration where
  address := addr
  registersBase :=
    if addr = invalidDeviceAddress then .null
    else if addr = 0 then .bridge
    else .window

/-- What the constructor makes, and what it leaves of the window. -/
theorem configuration_eq (s : Driver) (addr : DeviceAddress) :
    s.configuration addr = (configurationOf addr,
      { s with
        lastAddress := if Behind addr then addr else s.lastAddress
        cfgIndex := if Behind addr ∧ s.lastAddress ≠ addr then addr else s.cfgIndex
        made := configurationOf addr :: s.made }) := by
  rw [Driver.configuration, configurationOf]
  by_cases hinvalid : addr = invalidDeviceAddress
  · have hbehind : ¬ Behind addr := fun h => h.1 hinvalid
    rw [if_pos hinvalid, if_pos hinvalid, if_neg hbehind, if_neg fun h => hbehind h.1]
  · rw [if_neg hinvalid, if_neg hinvalid]
    by_cases hroot : addr = 0
    · have hbehind : ¬ Behind addr := fun h => h.2 hroot
      rw [if_pos hroot, if_pos hroot, if_neg hbehind, if_neg fun h => hbehind h.1]
    · have hbehind : Behind addr := ⟨hinvalid, hroot⟩
      rw [if_neg hroot, if_neg hroot, if_pos hbehind]
      by_cases hlast : s.lastAddress ≠ addr
      · rw [if_pos hlast, if_pos ⟨hbehind, hlast⟩]
      · rw [if_neg hlast, if_neg fun h => hlast h.2, ← not_not.mp hlast]

theorem configuration_fst (s : Driver) (addr : DeviceAddress) :
    (s.configuration addr).1 = configurationOf addr := by
  rw [configuration_eq]

theorem configuration_made (s : Driver) (addr : DeviceAddress) :
    (s.configuration addr).2.made = configurationOf addr :: s.made := by
  rw [configuration_eq]

@[simp] theorem configuration_devices (s : Driver) (addr : DeviceAddress) :
    (s.configuration addr).2.devices = s.devices := by
  rw [configuration_eq]

@[simp] theorem configuration_initialized (s : Driver) (addr : DeviceAddress) :
    (s.configuration addr).2.initialized = s.initialized := by
  rw [configuration_eq]

theorem configuration_latest (s : Driver) (addr : DeviceAddress) :
    (s.configuration addr).2.latest =
      if Behind addr then some (configurationOf addr) else s.latest := by
  rw [Driver.latest, configuration_made, List.find?_cons]
  by_cases hbehind : Behind addr
  · rw [if_pos hbehind, decide_eq_true (show Behind (configurationOf addr).address from hbehind)]
  · rw [if_neg hbehind, decide_eq_false (show ¬ Behind (configurationOf addr).address from hbehind)]
    rfl

/-- The static variable and the register follow the latest `Configuration`. -/
structure Driver.Follows (s : Driver) : Prop where
  formed : ∀ config ∈ s.made, config = configurationOf config.address
  lastAddress : s.lastAddress = (s.latest.map Configuration.address).getD 0
  cfgIndex : ∀ config ∈ s.latest, s.cfgIndex = config.address

/-- The window shows the device that the static variable names. -/
theorem Driver.Follows.shows (h : s.Follows) (hlast : s.lastAddress = addr)
    (hbehind : Behind addr) : s.cfgIndex = addr := by
  have haddr := h.lastAddress
  cases hlatest : s.latest with
  | none =>
      rw [hlatest, hlast] at haddr
      exact absurd haddr hbehind.2
  | some config =>
      rw [hlatest, hlast] at haddr
      exact (h.cfgIndex config hlatest).trans haddr.symm

theorem Driver.Follows.configuration (h : s.Follows) (addr : DeviceAddress) :
    (s.configuration addr).2.Follows := by
  have hlatest := configuration_latest s addr
  have hmade := configuration_made s addr
  constructor
  case formed =>
    intro config hconfig
    rw [hmade] at hconfig
    rcases List.mem_cons.mp hconfig with rfl | hconfig
    · rfl
    · exact h.formed config hconfig
  case lastAddress =>
    rw [hlatest, configuration_eq]
    by_cases hbehind : Behind addr
    · rw [if_pos hbehind, if_pos hbehind]
      rfl
    · rw [if_neg hbehind, if_neg hbehind]
      exact h.lastAddress
  case cfgIndex =>
    intro config hconfig
    rw [hlatest] at hconfig
    rw [configuration_eq]
    by_cases hbehind : Behind addr
    · rw [if_pos hbehind] at hconfig
      obtain rfl : configurationOf addr = config := Option.some.inj hconfig
      change (if Behind addr ∧ s.lastAddress ≠ addr then addr else s.cfgIndex) = addr
      split
      · rfl
      · next hsame =>
        have hlast : s.lastAddress = addr := by
          by_contra hne
          exact hsame ⟨hbehind, hne⟩
        exact h.shows hlast hbehind
    · rw [if_neg hbehind] at hconfig
      change (if Behind addr ∧ s.lastAddress ≠ addr then addr else s.cfgIndex) = config.address
      rw [if_neg fun hboth => hbehind hboth.1]
      exact h.cfgIndex config hconfig

/-- The latest `Configuration` of a device behind the bridge reaches its device, and so do those of
no such device. -/
theorem Driver.Follows.reached (h : s.Follows)
    (hlatest : ¬ Behind addr ∨ s.latest = some (configurationOf addr)) :
    (configurationOf addr).reached hierarchy s = hierarchy.space addr := by
  rw [Configuration.reached, configurationOf, Hierarchy.space]
  by_cases hinvalid : addr = invalidDeviceAddress
  · simp only [if_pos hinvalid]
  · by_cases hroot : addr = 0
    · simp only [if_neg hinvalid, if_pos hroot]
    · have hindex : s.cfgIndex = addr :=
        h.cfgIndex _ (hlatest.resolve_left (not_not_intro ⟨hinvalid, hroot⟩))
      simp only [if_neg hinvalid, if_neg hroot, hindex]

/-- A new `Configuration` reaches its device. -/
theorem Driver.Follows.reached_configuration (h : s.Follows) (addr : DeviceAddress) :
    (s.configuration addr).1.reached hierarchy (s.configuration addr).2 = hierarchy.space addr := by
  rw [configuration_fst]
  refine (h.configuration addr).reached ?_
  rw [configuration_latest]
  by_cases hbehind : Behind addr
  · exact Or.inr (if_pos hbehind)
  · exact Or.inl hbehind

/-- If a `Configuration` of a device behind the bridge reaches its device, the window shows it. -/
theorem Configuration.Reaches.cfgIndex_eq (h : (configurationOf addr).Reaches s)
    (hbehind : Behind addr) : s.cfgIndex = addr := by
  by_contra hne
  let marked : Hierarchy := ⟨fun _ => 0, fun a _ => if a = addr then 1 else 0⟩
  have hreached := congrFun (h marked) 0
  rw [Configuration.reached, configurationOf, Hierarchy.space] at hreached
  simp only [if_neg hbehind.1, if_neg hbehind.2] at hreached
  have hleft : marked.behind s.cfgIndex 0 = 0 := if_neg hne
  have hright : marked.behind addr 0 = 1 := if_pos rfl
  rw [hleft, hright] at hreached
  exact absurd hreached (by decide)

end Window

section Scan

variable {hierarchy : Hierarchy} {s : Driver} {bus device left function : Nat}

/-- There is something at an address. -/
def Hierarchy.Answers (hierarchy : Hierarchy) (addr : DeviceAddress) : Prop :=
  vendorId (hierarchy.space addr) ≠ invalidVendorId

instance (addr : DeviceAddress) : Decidable (hierarchy.Answers addr) :=
  inferInstanceAs (Decidable (_ ≠ _))

/-- The functions of a device: a device that has more than one says so in the header type of the
first one. -/
def Hierarchy.functions (hierarchy : Hierarchy) (bus device : Nat) : List Nat :=
  if ¬ hierarchy.Answers (deviceAddress bus device 0) then
    []
  else if headerType (hierarchy.space (deviceAddress bus device 0)) &&& 0x80 = 0 then
    [0]
  else
    (List.range maxFunctionsPerDevice).filter fun function =>
      hierarchy.Answers (deviceAddress bus device function)

/-- What there is to know about a function. -/
def Hierarchy.infoAt (hierarchy : Hierarchy) (bus device function : Nat) : DeviceInfo :=
  deviceInfo (deviceAddress bus device function)
    (hierarchy.space (deviceAddress bus device function))

/-- The bridge, and the functions of the one device behind it. -/
def Hierarchy.listed (hierarchy : Hierarchy) : List DeviceInfo :=
  deviceInfo 0 (hierarchy.space 0) :: (hierarchy.functions 1 0).map (hierarchy.infoAt 1 0)

theorem lt_of_mem_functions (h : function ∈ hierarchy.functions bus device) :
    function < maxFunctionsPerDevice := by
  rw [Hierarchy.functions] at h
  split at h
  · exact absurd h List.not_mem_nil
  · split at h
    · rw [List.mem_singleton.mp h]
      decide
    · exact List.mem_range.mp (List.mem_filter.mp h).1

theorem nodup_functions (hierarchy : Hierarchy) (bus device : Nat) :
    (hierarchy.functions bus device).Nodup := by
  rw [Hierarchy.functions]
  split
  · exact List.nodup_nil
  · split
    · exact List.nodup_singleton 0
    · exact List.nodup_range.filter _

theorem deviceAddress_inj : ∀ f < maxFunctionsPerDevice, ∀ g < maxFunctionsPerDevice,
    deviceAddress 1 0 f = deviceAddress 1 0 g → f = g := by decide

theorem deviceAddress_ne_zero : ∀ f < maxFunctionsPerDevice, deviceAddress 1 0 f ≠ 0 := by decide

/-- No address is listed twice. -/
theorem nodup_listed (hierarchy : Hierarchy) :
    (hierarchy.listed.map DeviceInfo.address).Nodup := by
  have haddresses : hierarchy.listed.map DeviceInfo.address =
      0 :: (hierarchy.functions 1 0).map (deviceAddress 1 0) := by
    rw [Hierarchy.listed, List.map_cons, List.map_map]
    rfl
  rw [haddresses, List.nodup_cons]
  constructor
  · intro hzero
    obtain ⟨function, hfunction, heq⟩ := List.mem_map.mp hzero
    exact deviceAddress_ne_zero function (lt_of_mem_functions hfunction) heq
  · refine (nodup_functions hierarchy 1 0).map_on fun f hf g hg heq => ?_
    exact deviceAddress_inj f (lt_of_mem_functions hf) g (lt_of_mem_functions hg) heq

/-- A vendor that reads as zero is reported as none. -/
theorem vendorId_ne_reserved (config : ConfigSpace) : vendorId config ≠ reservedVendorId := by
  have hinside : ¬ vendorIdOffset + 2 > configSpaceSize := by decide
  rw [vendorId, readRegister, if_neg hinside]
  simp only
  split
  · decide
  · next hvalue => exact fun hzero => hvalue ⟨trivial, hzero⟩

@[simp] theorem push_devices (s : Driver) (info : DeviceInfo) :
    (s.push info).devices = s.devices ++ [info] := rfl

theorem Driver.Follows.push (h : s.Follows) (info : DeviceInfo) : (s.push info).Follows :=
  ⟨h.formed, h.lastAddress, h.cfgIndex⟩

/-- A round of the loop, in terms of the function's own registers. -/
theorem scanFunctions_succ (hierarchy : Hierarchy) (bus device left function : Nat)
    (h : s.Follows) :
    scanFunctions hierarchy bus device (left + 1) function s =
      if hierarchy.Answers (deviceAddress bus device function) then
        if function = 0 ∧
            headerType (hierarchy.space (deviceAddress bus device function)) &&& 0x80 = 0 then
          (s.configuration (deviceAddress bus device function)).2.push
            (hierarchy.infoAt bus device function)
        else
          scanFunctions hierarchy bus device left (function + 1)
            ((s.configuration (deviceAddress bus device function)).2.push
              (hierarchy.infoAt bus device function))
      else if function = 0 then
        (s.configuration (deviceAddress bus device function)).2
      else
        scanFunctions hierarchy bus device left (function + 1)
          (s.configuration (deviceAddress bus device function)).2 := by
  rw [scanFunctions]
  simp only [h.reached_configuration, or_iff_left (vendorId_ne_reserved _)]
  by_cases hanswers : hierarchy.Answers (deviceAddress bus device function)
  · rw [if_pos hanswers, if_neg hanswers]
    rfl
  · rw [if_neg hanswers, if_pos (not_not.mp hanswers)]

theorem scanFunctions_follows (hierarchy : Hierarchy) (bus device left function : Nat)
    (h : s.Follows) :
    (scanFunctions hierarchy bus device left function s).Follows := by
  induction left generalizing function s with
  | zero => exact h
  | succ left ih =>
      have hmade := h.configuration (deviceAddress bus device function)
      rw [scanFunctions_succ hierarchy bus device left function h]
      split
      · split
        · exact hmade.push _
        · exact ih (function + 1) (hmade.push _)
      · split
        · exact hmade
        · exact ih (function + 1) hmade

/-- Behind function 0 the loop lists every function that answers. -/
theorem scanFunctions_devices (h : s.Follows) (hfunction : function ≠ 0) :
    (scanFunctions hierarchy bus device left function s).devices =
      s.devices ++ ((List.range' function left).filter fun function =>
        hierarchy.Answers (deviceAddress bus device function)).map
          (hierarchy.infoAt bus device) := by
  induction left generalizing function s with
  | zero => exact (List.append_nil _).symm
  | succ left ih =>
      have hmade := h.configuration (deviceAddress bus device function)
      rw [scanFunctions_succ hierarchy bus device left function h, List.range'_succ]
      by_cases hanswers : hierarchy.Answers (deviceAddress bus device function)
      · rw [if_pos hanswers, if_neg (fun hzero => hfunction hzero.1),
          ih (hmade.push _) (Nat.succ_ne_zero function),
          List.filter_cons, if_pos (decide_eq_true hanswers), List.map_cons, push_devices,
          configuration_devices, List.append_assoc]
        rfl
      · rw [if_neg hanswers, if_neg hfunction, ih hmade (Nat.succ_ne_zero function),
          List.filter_cons, if_neg (fun htrue => hanswers (of_decide_eq_true htrue)),
          configuration_devices]

/-- The loop lists the functions of the device. -/
theorem scanFunctions_functions (h : s.Follows) :
    (scanFunctions hierarchy bus device maxFunctionsPerDevice 0 s).devices =
      s.devices ++ (hierarchy.functions bus device).map (hierarchy.infoAt bus device) := by
  have hmade := h.configuration (deviceAddress bus device 0)
  change (scanFunctions hierarchy bus device (7 + 1) 0 s).devices = _
  rw [scanFunctions_succ hierarchy bus device 7 0 h, Hierarchy.functions]
  by_cases hanswers : hierarchy.Answers (deviceAddress bus device 0)
  · rw [if_pos hanswers, if_neg (not_not_intro hanswers)]
    by_cases hsingle : headerType (hierarchy.space (deviceAddress bus device 0)) &&& 0x80 = 0
    · rw [if_pos ⟨rfl, hsingle⟩, if_pos hsingle, push_devices, configuration_devices]
      rfl
    · rw [if_neg (fun hzero => hsingle hzero.2), if_neg hsingle,
        scanFunctions_devices (hmade.push _) Nat.one_ne_zero, push_devices, configuration_devices]
      have hrange : List.range maxFunctionsPerDevice = 0 :: List.range' 1 7 := rfl
      rw [hrange, List.filter_cons, if_pos (decide_eq_true hanswers), List.map_cons,
        List.append_assoc]
      rfl
  · rw [if_neg hanswers, if_pos rfl, if_pos hanswers, configuration_devices]
    exact (List.append_nil _).symm

end Scan

section Initialization

variable {hierarchy : Hierarchy} {s : Driver} {ready : Bool}

/-- What a call of `initialize` does. -/
theorem initializeBus_cases (hierarchy : Hierarchy) (h : s.Follows) (ready : Bool) :
    (s.initialized = true ∧ initializeBus hierarchy ready s = (.success, s)) ∨
    (s.initialized = false ∧ ready = false ∧
      initializeBus hierarchy ready s = (.hardwareError, s)) ∨
    (s.initialized = false ∧ ready = true ∧ ¬ hierarchy.Answers 0 ∧
      initializeBus hierarchy ready s = (.deviceNotFound, (s.configuration 0).2)) ∨
    (s.initialized = false ∧ ready = true ∧ hierarchy.Answers 0 ∧
      initializeBus hierarchy ready s =
        (.success,
          { scanFunctions hierarchy 1 0 maxFunctionsPerDevice 0
              (((s.configuration 0).2.configuration 0).2.push
                (deviceInfo 0 (hierarchy.space 0))) with initialized := true })) := by
  have hroot := h.configuration 0
  cases hinitialized : s.initialized with
  | true => exact Or.inl ⟨rfl, by rw [initializeBus, if_pos hinitialized]⟩
  | false =>
      refine Or.inr ?_
      have hfresh : ¬ s.initialized = true := by rw [hinitialized]; exact Bool.false_ne_true
      cases ready with
      | false => exact Or.inl ⟨rfl, rfl, by rw [initializeBus, if_neg hfresh]; rfl⟩
      | true =>
          refine Or.inr ?_
          by_cases hanswers : hierarchy.Answers 0
          · have hvendor : vendorId (hierarchy.space 0) ≠ invalidVendorId := hanswers
            refine Or.inr ⟨rfl, rfl, hanswers, ?_⟩
            simp only [initializeBus, if_neg hfresh, Bool.not_true, Bool.false_eq_true, if_false,
              h.reached_configuration, hroot.reached_configuration]
            rw [if_neg hvendor, if_pos hvendor]
          · refine Or.inl ⟨rfl, rfl, hanswers, ?_⟩
            simp only [initializeBus, if_neg hfresh, Bool.not_true, Bool.false_eq_true, if_false,
              h.reached_configuration]
            rw [if_pos (not_not.mp hanswers)]

/-- The list is empty up to the initialization, and complete from then on. -/
structure Driver.Sound (hierarchy : Hierarchy) (s : Driver) : Prop where
  follows : s.Follows
  devices : s.devices = if s.initialized then hierarchy.listed else []

/-- The first call with the bridge set up and answering lists the devices. -/
theorem devices_of_scan (h : s.Sound hierarchy) (hinitialized : s.initialized = false) :
    (scanFunctions hierarchy 1 0 maxFunctionsPerDevice 0
      (((s.configuration 0).2.configuration 0).2.push
        (deviceInfo 0 (hierarchy.space 0)))).devices = hierarchy.listed := by
  have hempty : s.devices = [] := by
    rw [h.devices, hinitialized]
    rfl
  rw [scanFunctions_functions (((h.follows.configuration 0).configuration 0).push _), push_devices,
    configuration_devices, configuration_devices, hempty]
  rfl

theorem Driver.Sound.initializeBus (h : s.Sound hierarchy) (ready : Bool) :
    (initializeBus hierarchy ready s).2.Sound hierarchy := by
  have hroot := h.follows.configuration 0
  obtain ⟨-, heq⟩ | ⟨-, -, heq⟩ | ⟨hinitialized, -, -, heq⟩ | ⟨hinitialized, -, -, heq⟩ :=
    initializeBus_cases hierarchy h.follows ready
  · rw [heq]
    exact h
  · rw [heq]
    exact h
  · rw [heq]
    exact ⟨hroot, by rw [configuration_devices, configuration_initialized, h.devices]⟩
  · have hscan := scanFunctions_follows hierarchy 1 0 maxFunctionsPerDevice 0
      ((hroot.configuration 0).push (deviceInfo 0 (hierarchy.space 0)))
    rw [heq]
    exact ⟨⟨hscan.formed, hscan.lastAddress, hscan.cfgIndex⟩, devices_of_scan h hinitialized⟩

end Initialization

section Runs

variable {hierarchy : Hierarchy} {s : Driver}

theorem sound_of_initial (h : (busSystem hierarchy).Initial s) : s.Sound hierarchy := by
  obtain ⟨cfgIndex, rfl⟩ := h
  constructor
  case follows =>
    constructor
    case formed => exact fun config hconfig => absurd hconfig List.not_mem_nil
    case lastAddress => rfl
    case cfgIndex =>
      intro config hconfig
      cases hconfig
  case devices => rfl

theorem Driver.Sound.next {s' : Driver} {action : BusAction} (h : s.Sound hierarchy)
    (hstep : (busSystem hierarchy).next s action = some s') : s'.Sound hierarchy := by
  cases action with
  | configuration addr =>
      obtain rfl := Option.some.inj hstep
      constructor
      case follows => exact h.follows.configuration addr
      case devices => rw [configuration_devices, configuration_initialized, h.devices]
  | initializeBus ready =>
      obtain rfl := Option.some.inj hstep
      exact h.initializeBus ready

theorem sound_of_reachable (h : (busSystem hierarchy).Reachable s) : s.Sound hierarchy :=
  h.invariant (fun _ => sound_of_initial) fun _ _ _ hs hstep => hs.next hstep

/-- In every run, a `Configuration` of a device behind the bridge reaches its device exactly if none
has been made for another such device since. -/
theorem reaches_iff (h : (busSystem hierarchy).Reachable s) {config : Configuration}
    (hmade : config ∈ s.made) :
    config.Reaches s ↔ ¬ Behind config.address ∨ s.latest = some config := by
  have hfollows := (sound_of_reachable h).follows
  obtain ⟨addr, rfl⟩ : ∃ addr, config = configurationOf addr := ⟨_, hfollows.formed config hmade⟩
  constructor
  · intro hreaches
    by_cases hbehind : Behind addr
    · refine Or.inr ?_
      have hindex := hreaches.cfgIndex_eq hbehind
      cases hlatest : s.latest with
      | none =>
          have hnone := List.find?_eq_none.mp hlatest _ hmade
          exact absurd (decide_eq_true hbehind) hnone
      | some latest =>
          have hmem : latest ∈ s.made := List.mem_of_find?_eq_some hlatest
          have haddr : latest.address = addr := (hfollows.cfgIndex latest hlatest).symm.trans hindex
          rw [hfollows.formed latest hmem, haddr]
    · exact Or.inl hbehind
  · intro hlatest hierarchy
    exact hfollows.reached hlatest

/-- What a call of `initialize` comes to. -/
structure Driver.Initializes (hierarchy : Hierarchy) (s : Driver) (ready : Bool) : Prop where
  success : (initializeBus hierarchy ready s).1 = .success ↔
    s.initialized = true ∨ ready = true ∧ hierarchy.Answers 0
  initialized : (initializeBus hierarchy ready s).2.initialized = true ↔
    (initializeBus hierarchy ready s).1 = .success

theorem hardwareError_ne : PCIeError.hardwareError ≠ .success := by decide

theorem deviceNotFound_ne : PCIeError.deviceNotFound ≠ .success := by decide

theorem Driver.Follows.initializes (h : s.Follows) (ready : Bool) :
    s.Initializes hierarchy ready := by
  obtain ⟨hinitialized, heq⟩ | ⟨hinitialized, hready, heq⟩ |
      ⟨hinitialized, -, hanswers, heq⟩ | ⟨-, hready, hanswers, heq⟩ :=
    initializeBus_cases hierarchy h ready
  · constructor
    case success =>
      rw [heq]
      exact iff_of_true rfl (Or.inl hinitialized)
    case initialized =>
      rw [heq]
      exact iff_of_true hinitialized rfl
  · have hfresh : ¬ s.initialized = true := ne_true_of_eq_false hinitialized
    constructor
    case success =>
      rw [heq]
      refine iff_of_false hardwareError_ne (not_or_intro hfresh ?_)
      exact fun hboth => ne_true_of_eq_false hready hboth.1
    case initialized =>
      rw [heq]
      exact iff_of_false hfresh hardwareError_ne
  · have hfresh : ¬ s.initialized = true := ne_true_of_eq_false hinitialized
    constructor
    case success =>
      rw [heq]
      exact iff_of_false deviceNotFound_ne (not_or_intro hfresh fun hboth => hanswers hboth.2)
    case initialized =>
      rw [heq, configuration_initialized]
      exact iff_of_false hfresh deviceNotFound_ne
  · constructor
    case success =>
      rw [heq]
      exact iff_of_true rfl (Or.inr ⟨hready, hanswers⟩)
    case initialized =>
      rw [heq]
      exact iff_of_true rfl rfl

/-- In every run, the list has the bridge and the functions that answer, each once and with its own
identifiers, from the first successful call of `initialize` on, and nothing before. -/
theorem devices_listed (h : (busSystem hierarchy).Reachable s) :
    s.devices = (if s.initialized then hierarchy.listed else []) ∧
      (s.devices.map DeviceInfo.address).Nodup ∧ ∀ ready, s.Initializes hierarchy ready := by
  have hsound := sound_of_reachable h
  refine ⟨hsound.devices, ?_, hsound.follows.initializes⟩
  rw [hsound.devices]
  split
  · exact nodup_listed hierarchy
  · exact List.nodup_nil

theorem mem_findDevices (h : (busSystem hierarchy).Reachable s) (hinitialized : s.initialized = true)
    {vendor : Nat} {device : Option Nat} {info : DeviceInfo} :
    info ∈ s.findDevices vendor device ↔
      info ∈ hierarchy.listed ∧ info.vendorId = vendor ∧ ∀ id ∈ device, info.deviceId = id := by
  have hdevices := (sound_of_reachable h).devices
  rw [hinitialized, if_pos rfl] at hdevices
  rw [Driver.findDevices, List.mem_filter, hdevices, Bool.and_eq_true, beq_iff_eq]
  cases device with
  | none => simp
  | some id => simp

/-- A bridge with a USB controller behind it. -/
def usbHierarchy : Hierarchy where
  bridge k := [0xE4, 0x14, 0x11, 0x27].getD k 0
  behind addr :=
    if addr = deviceAddress 1 0 0 then fun k => [0x06, 0x11, 0x83, 0x34].getD k 0
    else fun _ => 0xFF

/-- The driver after its initialization. -/
def scanned : Driver := (initializeBus usbHierarchy true { cfgIndex := 0 }).2

theorem reachable_scanned : (busSystem usbHierarchy).Reachable scanned :=
  System.Reachable.step (System.ReachableBy.initial ⟨0, rfl⟩) (.initializeBus true) rfl

theorem reaches_iff_scanned :
    (configurationOf (deviceAddress 1 0 0)).Reaches scanned ↔
      ¬ Behind (deviceAddress 1 0 0) ∨
        scanned.latest = some (configurationOf (deviceAddress 1 0 0)) :=
  reaches_iff reachable_scanned (by decide)

theorem devices_listed_scanned :
    (scanned.devices = (if scanned.initialized then usbHierarchy.listed else []) ∧
      (scanned.devices.map DeviceInfo.address).Nodup ∧
      ∀ ready, scanned.Initializes usbHierarchy ready) ∧
    scanned.devices.map DeviceInfo.vendorId = [0x14E4, 0x1106] :=
  ⟨devices_listed reachable_scanned, by decide⟩

end Runs

end RPiKernel.Pcie
