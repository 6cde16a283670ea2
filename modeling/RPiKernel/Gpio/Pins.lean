import RPiKernel.Machine.PackedFields

/-!
# Functions, edges and resistors of the pins

Each pin has a field of three bits for its function and a bit for the detection of a high level. Its
resistor is a field of two bits on the Raspberry Pi 4; on the Raspberry Pi 3 it is set by a clock
register: the pins whose bits are written there take over what the control register says.

## Implementation notes

Registers are at their offsets from the GPIO block. The waits between the writes are left out, and
so is `InitRpi3` and `InitRpi4`, which are declared only. `State.pull` is what the hardware of the
Raspberry Pi 3 keeps for each pin and no register shows.
-/

namespace RPiKernel.Gpio

open Machine

inductive Board where
  | rpi3
  | rpi4
  deriving DecidableEq

inductive PullUpDown where
  | none
  | pullDown
  | pullUp
  | reserved

/-- The value of the enumeration. -/
def PullUpDown.value : PullUpDown → BitVec 2
  | .none => 0b00
  | .pullDown => 0b01
  | .pullUp => 0b10
  | .reserved => 0b11

inductive Function where
  | input
  | output
  | alt0
  | alt1
  | alt2
  | alt3
  | alt4
  | alt5

/-- The value of the enumeration. -/
def Function.value : Function → BitVec 3
  | .input => 0b000
  | .output => 0b001
  | .alt0 => 0b100
  | .alt1 => 0b101
  | .alt2 => 0b110
  | .alt3 => 0b111
  | .alt4 => 0b011
  | .alt5 => 0b010

structure State where
  registers : Nat → BitVec 32
  pull : Nat → BitVec 2

def GPFSEL : Nat := 0x00

def GPHEN : Nat := 0x64

def GPPUD : Nat := 0x94

def GPPUDCLK : Nat := 0x98

def GPIO_PUP_PDN_CNTRL_REG : Nat := 0xE4

/-- A write to a register. On the Raspberry Pi 3 one to a clock register sets resistors. -/
def State.store (board : Board) (offset : Nat) (v : BitVec 32) (s : State) : State where
  registers := Function.update s.registers offset v
  pull := fun pin =>
    if board = .rpi3 ∧ offset = GPPUDCLK + 4 * (pin / 32) ∧ v.getLsbD (pin % 32) then
      (s.registers GPPUD).setWidth 2
    else s.pull pin

/-- Reads a register, and writes what a function makes of it. -/
def State.modify (board : Board) (offset : Nat) (f : BitVec 32 → BitVec 32) (s : State) : State :=
  s.store board offset (f (s.registers offset))

/-- `SetFunction` -/
def setFunction (board : Board) (pin : Nat) (func : Function) (s : State) : State :=
  let shift := pin % 10 * 3
  s.modify board (GPFSEL + 4 * (pin / 10)) fun reg =>
    reg &&& ~~~((0b111 : BitVec 32) <<< shift) ||| func.value.setWidth 32 <<< shift

/-- `SetHighDetectEnable` -/
def setHighDetectEnable (board : Board) (pin : Nat) (enable : Bool) (s : State) : State :=
  let shift := pin % 32
  s.modify board (GPHEN + 4 * (pin / 32)) fun reg =>
    if enable then reg ||| (1 : BitVec 32) <<< shift else reg &&& ~~~((1 : BitVec 32) <<< shift)

/-- `SetPullUpDown` -/
def setPullUpDown (board : Board) (pin : Nat) (pud : PullUpDown) (s : State) : State :=
  match board with
  | .rpi4 =>
      let shift := pin % 16 * 2
      s.modify board (GPIO_PUP_PDN_CNTRL_REG + 4 * (pin / 16)) fun reg =>
        reg &&& ~~~((0b11 : BitVec 32) <<< shift) ||| pud.value.setWidth 32 <<< shift
  | .rpi3 =>
      let shift := pin % 32
      let clkreg := GPPUDCLK + 4 * (pin / 32)
      let s := s.store board GPPUD (pud.value.setWidth 32)
      let s := s.store board clkreg (BitVec.ofNat 32 pin <<< shift)
      let s := if pud.value.setWidth 32 ≠ (0 : BitVec 32) then s.store board GPPUD 0 else s
      s.store board clkreg 0

inductive Call where
  | setFunction (pin : Nat) (func : Function)
  | setPullUpDown (pin : Nat) (pud : PullUpDown)
  | setHighDetectEnable (pin : Nat) (enable : Bool)

def Call.pin : Call → Nat
  | .setFunction pin _ => pin
  | .setPullUpDown pin _ => pin
  | .setHighDetectEnable pin _ => pin

def perform (board : Board) (s : State) : Call → State
  | .setFunction pin func => setFunction board pin func s
  | .setPullUpDown pin pud => setPullUpDown board pin pud s
  | .setHighDetectEnable pin enable => setHighDetectEnable board pin enable s

/-- The state after calls. -/
def performAll (board : Board) (s : State) (calls : List Call) : State :=
  calls.foldl (perform board) s

theorem functions_pos : 0 < 10 := by decide

theorem functions_fit : 10 * 3 ≤ 32 := by decide

theorem detects_pos : 0 < 32 := by decide

theorem detects_fit : 32 * 1 ≤ 32 := by decide

theorem resistors_pos : 0 < 16 := by decide

theorem resistors_fit : 16 * 2 ≤ 32 := by decide

/-- The fields of `GPFSEL`. -/
def functions : FieldArray := ⟨GPFSEL, 3, 10, functions_pos, functions_fit⟩

/-- The bits of `GPHEN`. -/
def detects : FieldArray := ⟨GPHEN, 1, 32, detects_pos, detects_fit⟩

/-- The fields of `GPIO_PUP_PDN_CNTRL_REG`. -/
def resistors : FieldArray := ⟨GPIO_PUP_PDN_CNTRL_REG, 2, 16, resistors_pos, resistors_fit⟩

/-- The function of a pin. -/
def State.function (s : State) (pin : Nat) : BitVec 3 := functions.read s.registers pin

/-- Whether a high level is detected at a pin. -/
def State.detect (s : State) (pin : Nat) : BitVec 1 := detects.read s.registers pin

/-- The resistor of a pin. -/
def State.resistor (board : Board) (s : State) (pin : Nat) : BitVec 2 :=
  match board with
  | .rpi3 => s.pull pin
  | .rpi4 => resistors.read s.registers pin

/-- Whether `SetPullUpDown` for one pin sets the resistor of another one. -/
def Reaches (board : Board) (pin other : Nat) : Prop :=
  match board with
  | .rpi3 => other / 32 = pin / 32 ∧ (BitVec.ofNat 32 pin <<< (pin % 32)).getLsbD (other % 32)
  | .rpi4 => other = pin

instance (board : Board) (pin other : Nat) : Decidable (Reaches board pin other) :=
  match board with
  | .rpi3 => inferInstanceAs (Decidable (_ ∧ _))
  | .rpi4 => inferInstanceAs (Decidable (_ = _))

/-- The function that a call gives to a pin. -/
def Call.function? (pin : Nat) : Call → Option (BitVec 3)
  | .setFunction pin' func => if pin = pin' then some func.value else none
  | .setPullUpDown .. => none
  | .setHighDetectEnable .. => none

/-- What a call says about the detection of a high level at a pin. -/
def Call.detect? (pin : Nat) : Call → Option (BitVec 1)
  | .setFunction .. => none
  | .setPullUpDown .. => none
  | .setHighDetectEnable pin' enable => if pin = pin' then some (BitVec.ofBool enable) else none

/-- The resistor that a call gives to a pin. -/
def Call.resistor? (board : Board) (pin : Nat) : Call → Option (BitVec 2)
  | .setFunction .. => none
  | .setPullUpDown pin' pud => if Reaches board pin' pin then some pud.value else none
  | .setHighDetectEnable .. => none

section Stores

variable {board : Board} {s : State} {a : FieldArray} {offset pin p : Nat} {v : BitVec 32}

theorem store_pull_of_lt (h : offset < GPPUDCLK) : (s.store board offset v).pull = s.pull := by
  funext p
  refine if_neg ?_
  rintro ⟨-, hclk, -⟩
  omega

theorem read_store_of_ne (h : a.offset p ≠ offset) :
    a.read (s.store board offset v).registers p = a.read s.registers p :=
  a.read_update_of_ne h v

theorem store_registers_self : (s.store board offset v).registers offset = v :=
  Function.update_self ..

theorem store_zero_pull : (s.store board offset 0).pull = s.pull := by
  funext p
  refine if_neg ?_
  rintro ⟨-, -, hbit⟩
  exact absurd hbit (by simp)

end Stores

section Calls

variable {board : Board} {s : State} {a : FieldArray} {pin p : Nat}

theorem setFunction_registers (func : Function) :
    (setFunction board pin func s).registers = functions.write s.registers pin func.value := rfl

/-- Setting or clearing one bit is writing a field of one bit. -/
theorem putField_ofBool (enable : Bool) (shift : Nat) (reg : BitVec 32) :
    putField shift (BitVec.ofBool enable) reg =
      if enable then reg ||| (1 : BitVec 32) <<< shift
      else reg &&& ~~~((1 : BitVec 32) <<< shift) := by
  have hmask : fieldMask 32 1 shift = (1 : BitVec 32) <<< shift := rfl
  rw [putField, hmask]
  cases enable with
  | false =>
      have hzero : (BitVec.ofBool false).setWidth 32 <<< shift = (0 : BitVec 32) :=
        BitVec.zero_shiftLeft shift
      rw [hzero]
      exact BitVec.or_zero
  | true =>
      have hone : (BitVec.ofBool true).setWidth 32 <<< shift = (1 : BitVec 32) <<< shift := rfl
      rw [hone]
      generalize (1 : BitVec 32) <<< shift = mask
      ext i hi
      rw [if_pos rfl, BitVec.getElem_or, BitVec.getElem_and, BitVec.getElem_not,
        BitVec.getElem_or]
      cases mask[i] <;> simp

theorem setHighDetectEnable_registers (enable : Bool) :
    (setHighDetectEnable board pin enable s).registers =
      detects.write s.registers pin (BitVec.ofBool enable) := by
  have hshift : detects.shift pin = pin % 32 := Nat.mul_one _
  have hput : (fun reg : BitVec 32 => if enable then reg ||| (1 : BitVec 32) <<< (pin % 32)
      else reg &&& ~~~((1 : BitVec 32) <<< (pin % 32))) (s.registers (detects.offset pin)) =
      putField (detects.shift pin) (BitVec.ofBool enable) (s.registers (detects.offset pin)) := by
    rw [hshift, putField_ofBool]
  exact congrArg (Function.update s.registers (detects.offset pin)) hput

theorem setPullUpDown_registers (pud : PullUpDown) :
    (setPullUpDown .rpi4 pin pud s).registers = resistors.write s.registers pin pud.value := rfl

/-- Setting a resistor changes no register below those that it is about. -/
theorem read_setPullUpDown (h : a.offset p < GPPUD) (pud : PullUpDown) :
    a.read (setPullUpDown board pin pud s).registers p = a.read s.registers p := by
  have hcontrol : a.offset p ≠ GPPUD := Nat.ne_of_lt h
  have hclock : a.offset p ≠ GPPUDCLK + 4 * (pin / 32) :=
    Nat.ne_of_lt (Nat.lt_add_right _ (Nat.lt_trans h (by decide)))
  cases board with
  | rpi3 =>
      rw [setPullUpDown, read_store_of_ne hclock]
      split
      · rw [read_store_of_ne hcontrol, read_store_of_ne hclock, read_store_of_ne hcontrol]
      · rw [read_store_of_ne hclock, read_store_of_ne hcontrol]
  | rpi4 => exact read_store_of_ne (Nat.ne_of_lt (Nat.lt_add_right _ (Nat.lt_trans h (by decide))))

/-- On the Raspberry Pi 3 the pins that are clocked take over the resistor. -/
theorem pull_setPullUpDown (pud : PullUpDown) :
    (setPullUpDown .rpi3 pin pud s).pull p =
      if Reaches .rpi3 pin p then pud.value else s.pull p := by
  have hGPPUD : GPPUD < GPPUDCLK := by decide
  have hclocked : ((s.store .rpi3 GPPUD (pud.value.setWidth 32)).store .rpi3
      (GPPUDCLK + 4 * (pin / 32)) (BitVec.ofNat 32 pin <<< (pin % 32))).pull p =
      if Reaches .rpi3 pin p then pud.value else s.pull p := by
    have hcontrol : ((s.store .rpi3 GPPUD (pud.value.setWidth 32)).registers GPPUD).setWidth 2 =
        pud.value := by
      have hself : (s.store .rpi3 GPPUD (pud.value.setWidth 32)).registers GPPUD =
          pud.value.setWidth 32 := store_registers_self
      rw [hself, BitVec.setWidth_setWidth_of_le _ (by decide), BitVec.setWidth_eq]
    have hsame : (Board.rpi3 = .rpi3 ∧ GPPUDCLK + 4 * (pin / 32) = GPPUDCLK + 4 * (p / 32) ∧
        (BitVec.ofNat 32 pin <<< (pin % 32)).getLsbD (p % 32) = true) ↔ Reaches .rpi3 pin p := by
      refine ⟨fun h => ⟨by omega, h.2.2⟩, fun h => ⟨rfl, ?_, h.2⟩⟩
      rw [h.1]
    rw [State.store]
    refine (if_congr hsame hcontrol ?_)
    rw [store_pull_of_lt hGPPUD]
  rw [setPullUpDown, store_zero_pull]
  split
  · rw [store_pull_of_lt hGPPUD]
    exact hclocked
  · exact hclocked

end Calls

section Views

variable {board : Board} {s : State} {c : Call} {p : Nat}

theorem functions_offset_lt (h : p < 58) : functions.offset p < 0x18 :=
  functions.offset_lt (m := 6) (Nat.lt_trans h (by decide))

theorem detects_offset_lt (h : p < 58) : detects.offset p < 0x6C :=
  detects.offset_lt (m := 2) (Nat.lt_trans h (by decide))

theorem le_detects_offset (p : Nat) : 0x64 ≤ detects.offset p := detects.le_offset p

theorem le_resistors_offset (p : Nat) : 0xE4 ≤ resistors.offset p := resistors.le_offset p

/-- What a call does to the function of a pin. -/
theorem function_perform (hp : p < 58) :
    (perform board s c).function p = (c.function? p).getD (s.function p) := by
  have hlow := functions_offset_lt hp
  cases c with
  | setFunction pin func =>
      have hset : functions.read (functions.write s.registers pin func.value) p =
          if p = pin then func.value else s.function p := functions.read_write _
      rw [perform, State.function, setFunction_registers, hset, Call.function?]
      split <;> rfl
  | setPullUpDown pin pud => exact read_setPullUpDown (Nat.lt_trans hlow (by decide)) pud
  | setHighDetectEnable pin enable =>
      have hhigh := le_detects_offset pin
      have hne : functions.offset p ≠ detects.offset pin := by omega
      rw [perform, State.function, setHighDetectEnable_registers]
      exact functions.read_update_of_ne hne _

/-- What a call does to the detection of a high level at a pin. -/
theorem detect_perform (hc : c.pin < 58) (hp : p < 58) :
    (perform board s c).detect p = (c.detect? p).getD (s.detect p) := by
  have hlow := detects_offset_lt hp
  cases c with
  | setFunction pin func =>
      have hpin : functions.offset pin < 0x18 := functions_offset_lt hc
      have hhigh := le_detects_offset p
      have hne : detects.offset p ≠ functions.offset pin := by omega
      rw [perform, State.detect, setFunction_registers]
      exact detects.read_update_of_ne hne _
  | setPullUpDown pin pud => exact read_setPullUpDown (Nat.lt_trans hlow (by decide)) pud
  | setHighDetectEnable pin enable =>
      have hset : detects.read (detects.write s.registers pin (BitVec.ofBool enable)) p =
          if p = pin then BitVec.ofBool enable else s.detect p := detects.read_write _
      rw [perform, State.detect, setHighDetectEnable_registers, hset, Call.detect?]
      split <;> rfl

/-- What a call does to the resistor of a pin. -/
theorem resistor_perform (hc : c.pin < 58) :
    (perform board s c).resistor board p = (c.resistor? board p).getD (s.resistor board p) := by
  cases c with
  | setFunction pin func =>
      have hpin : functions.offset pin < 0x18 := functions_offset_lt hc
      cases board with
      | rpi3 => exact congrFun (store_pull_of_lt (Nat.lt_trans hpin (by decide))) p
      | rpi4 =>
          have hhigh := le_resistors_offset p
          have hne : resistors.offset p ≠ functions.offset pin := by omega
          rw [perform, State.resistor, setFunction_registers]
          exact resistors.read_update_of_ne hne _
  | setPullUpDown pin pud =>
      cases board with
      | rpi3 =>
          rw [perform, State.resistor, pull_setPullUpDown, Call.resistor?]
          split <;> rfl
      | rpi4 =>
          have hset : resistors.read (resistors.write s.registers pin pud.value) p =
              if Reaches .rpi4 pin p then pud.value else s.resistor .rpi4 p :=
            resistors.read_write _
          rw [perform, State.resistor, setPullUpDown_registers, hset, Call.resistor?]
          split <;> rfl
  | setHighDetectEnable pin enable =>
      have hpin : detects.offset pin < 0x6C := detects_offset_lt hc
      cases board with
      | rpi3 => exact congrFun (store_pull_of_lt (Nat.lt_trans hpin (by decide))) p
      | rpi4 =>
          have hhigh := le_resistors_offset p
          have hne : resistors.offset p ≠ detects.offset pin := by omega
          rw [perform, State.resistor, setHighDetectEnable_registers]
          exact resistors.read_update_of_ne hne _

/-- What a pin is set to after calls, in terms of the last call that is about it. -/
structure Last (board : Board) (s : State) (calls : List Call) (p : Nat) : Prop where
  function : (performAll board s calls).function p =
    (calls.filterMap (Call.function? p)).getLast?.getD (s.function p)
  detect : (performAll board s calls).detect p =
    (calls.filterMap (Call.detect? p)).getLast?.getD (s.detect p)
  resistor : (performAll board s calls).resistor board p =
    (calls.filterMap (Call.resistor? board p)).getLast?.getD (s.resistor board p)

/-- On the Raspberry Pi 3 a call sets the resistor of its own pin exactly if the number of the pin
is odd, and no other one besides exactly for two pins. -/
theorem reaches_rpi3 {pin : Nat} (h : pin < 58) :
    (Reaches .rpi3 pin pin ↔ pin % 2 = 1) ∧
    ((∀ p < 64, Reaches .rpi3 pin p ↔ p = pin) ↔ pin = 1 ∨ pin = 31) := by
  revert pin
  decide +kernel

theorem last_of_lt {calls : List Call} (hcalls : ∀ c ∈ calls, c.pin < 58) (hp : p < 58) :
    Last board s calls p where
  function := view_foldl (fun s => s.function p)
    (fun s c _ => function_perform (s := s) (c := c) hp) s
  detect := view_foldl (fun s => s.detect p)
    (fun s c hc => detect_perform (s := s) (hcalls c hc) hp) s
  resistor := view_foldl (fun s => s.resistor board p)
    (fun s c hc => resistor_perform (s := s) (hcalls c hc)) s

/-- Each pin is left with the function, the detection and the resistor of the last call that is
about it; but on the Raspberry Pi 3 the call for a resistor is about other pins as well, and about
its own one only if its number is odd. -/
theorem performAll_last {calls : List Call} (hcalls : ∀ c ∈ calls, c.pin < 58) (hp : p < 58) :
    Last board s calls p ∧ (Reaches .rpi3 p p ↔ p % 2 = 1) ∧
      ((∀ p' < 64, Reaches .rpi3 p p' ↔ p' = p) ↔ p = 1 ∨ p = 31) :=
  ⟨last_of_lt hcalls hp, reaches_rpi3 hp⟩

/-- What the serial line is set up with. -/
def uartCalls : List Call :=
  [.setFunction 14 .alt0, .setFunction 15 .alt0, .setPullUpDown 14 .none, .setPullUpDown 15 .none]

theorem uartCalls_lt : ∀ c ∈ uartCalls, c.pin < 58 := by
  simp [uartCalls, Call.pin]

def reset : State := ⟨fun _ => 0, fun _ => 0⟩

/-- The call for the resistor of pin 14 leaves it as it is. -/
theorem performAll_last_uart : Last .rpi3 reset uartCalls 14 ∧ ¬Reaches .rpi3 14 14 := by
  have hpin : 14 < 58 := by decide
  obtain ⟨hlast, hreaches, -⟩ := performAll_last uartCalls_lt hpin
  exact ⟨hlast, fun h => absurd (hreaches.mp h) (by decide)⟩

end Views

end RPiKernel.Gpio
