import RPiKernel.Machine.Polling

/-!
# Commands to the EMMC controller

The controller answers every read of a register with any value, so that what it returns is a
function of the number of the read and of the register. Every wait of `sd_status`, `sd_int` and
`sd_clk` counts down, and so each of them and `sd_cmd` reads no more than a fixed number of
registers.

## Implementation notes

The delays and the messages to the UART are left out. `sd_cmd` calls itself once, for the prefix of
an application command, whose code is not one itself: `sendCommand` is the part behind the call.
-/

namespace RPiKernel.SdCard

open Machine

/-- The registers of the controller. -/
inductive Register where
  | ARG2 | BLKSIZECNT | ARG1 | CMDTM | RESP0 | RESP1 | RESP2 | RESP3 | DATA | STATUS
  | CONTROL0 | CONTROL1 | INTERRUPT | INT_MASK | INT_EN | CONTROL2 | SLOTISR_VER
  deriving DecidableEq, Repr

/-- Why a call does not return: a loop has gone through more rounds than it may, or a signed
counter has overflowed, which is undefined. -/
inductive Stuck where
  | endless
  | signedOverflow
  deriving DecidableEq, Repr

/-- The variables of the driver, how many registers it has read, what it has written to them, and
the words that it has put into the buffer. -/
structure Driver where
  sdScr : Fin 2 → BitVec 64 := fun _ => 0
  sdRca : BitVec 64 := 0
  sdErr : BitVec 64 := 0
  sdHv : BitVec 64 := 0
  reads : Nat := 0
  writes : List (Register × BitVec 32) := []
  buffer : List (BitVec 32) := []

/-- What the controller returns for the read of a register with a number. -/
abbrev Answers := Nat → Register → BitVec 32

abbrev DriverM := EStateM Stuck Driver

def sdOk : BitVec 32 := 0

def sdTimeout : BitVec 32 := -1

def sdError : BitVec 32 := -2

def cmdNeedApp : BitVec 32 := 0x80000000

def cmdRspns48 : BitVec 32 := 0x00020000

def cmdErrorsMask : BitVec 32 := 0xfff9c004

def cmdRcaMask : BitVec 32 := 0xffff0000

def cmdGoIdle : BitVec 32 := 0x00000000

def cmdAllSendCid : BitVec 32 := 0x02010000

def cmdSendRelAddr : BitVec 32 := 0x03020000

def cmdCardSelect : BitVec 32 := 0x07030000

def cmdSendIfCond : BitVec 32 := 0x08020000

def cmdStopTrans : BitVec 32 := 0x0C030000

def cmdReadSingle : BitVec 32 := 0x11220010

def cmdReadMulti : BitVec 32 := 0x12220032

def cmdSetBlockcnt : BitVec 32 := 0x17020000

def cmdAppCmd : BitVec 32 := 0x37000000

def cmdSetBusWidth : BitVec 32 := 0x06020000 ||| cmdNeedApp

def cmdSendOpCond : BitVec 32 := 0x29020000 ||| cmdNeedApp

def cmdSendScr : BitVec 32 := 0x33220010 ||| cmdNeedApp

def srReadAvailable : BitVec 32 := 0x00000800

def srDatInhibit : BitVec 32 := 0x00000002

def srCmdInhibit : BitVec 32 := 0x00000001

def srAppCmd : BitVec 32 := 0x00000020

def intDataTimeout : BitVec 32 := 0x00100000

def intCmdTimeout : BitVec 32 := 0x00010000

def intReadRdy : BitVec 32 := 0x00000020

def intCmdDone : BitVec 32 := 0x00000001

def intErrorMask : BitVec 32 := 0x017E8000

def c0HctlDwitdh : BitVec 32 := 0x00000002

def c1SrstHc : BitVec 32 := 0x01000000

def c1TounitMax : BitVec 32 := 0x000e0000

def c1ClkEn : BitVec 32 := 0x00000004

def c1ClkStable : BitVec 32 := 0x00000002

def c1ClkIntlen : BitVec 32 := 0x00000001

def hostSpecNum : BitVec 32 := 0x00ff0000

def hostSpecV2 : BitVec 64 := 1

section Commands

variable (answers : Answers)

/-- `get` of a register. -/
def read (register : Register) : DriverM (BitVec 32) := fun s =>
  .ok (answers s.reads register) { s with reads := s.reads + 1 }

/-- `set` of a register. -/
def write (register : Register) (value : BitVec 32) : DriverM Unit :=
  modify fun s => { s with writes := s.writes ++ [(register, value)] }

/-- An assignment to `sd_err`, which extends the sign of the value. -/
def setErr (value : BitVec 32) : DriverM Unit :=
  modify fun s => { s with sdErr := value.signExtend 64 }

/-- `sd_status`. -/
def sdStatus (mask : BitVec 32) : DriverM (BitVec 32) := do
  let cnt ← pollWhile (do
    if (← read answers .STATUS) &&& mask ≠ 0 then
      return (← read answers .INTERRUPT) &&& intErrorMask = 0
    else
      return false) 500000
  if cnt ≤ 0 then
    return sdError
  if (← read answers .INTERRUPT) &&& intErrorMask ≠ 0 then
    return sdError
  return sdOk

/-- `sd_int`. -/
def sdInt (mask : BitVec 32) : DriverM (BitVec 32) := do
  let m := mask ||| intErrorMask
  let cnt ← pollWhile (do return (← read answers .INTERRUPT) &&& m = 0) 1000000
  let r ← read answers .INTERRUPT
  if cnt ≤ 0 ∨ r &&& intCmdTimeout ≠ 0 ∨ r &&& intDataTimeout ≠ 0 then
    write .INTERRUPT r
    return sdTimeout
  else if r &&& intErrorMask ≠ 0 then
    write .INTERRUPT r
    return sdError
  write .INTERRUPT mask
  return 0

/-- `sd_cmd`, from the wait for the controller on. -/
def sendCommand (code arg : BitVec 32) : DriverM (BitVec 32) := do
  if (← sdStatus answers srCmdInhibit) ≠ 0 then
    setErr sdTimeout
    return 0
  write .INTERRUPT (← read answers .INTERRUPT)
  write .ARG1 arg
  write .CMDTM code
  let r ← sdInt answers intCmdDone
  if r ≠ 0 then
    setErr r
    return 0
  let r ← read answers .RESP0
  if code = cmdGoIdle ∨ code = cmdAppCmd then
    return 0
  else if code = cmdAppCmd ||| cmdRspns48 then
    return r &&& srAppCmd
  else if code = cmdSendOpCond then
    return r
  else if code = cmdSendIfCond then
    return if r = arg then sdOk else sdError
  else if code = cmdAllSendCid then
    let r := r ||| (← read answers .RESP3)
    let r := r ||| (← read answers .RESP2)
    let r := r ||| (← read answers .RESP1)
    return r
  else if code = cmdSendRelAddr then
    let err := ((r &&& 0x1fff) ||| ((r &&& 0x2000) <<< 6) ||| ((r &&& 0x4000) <<< 8) |||
      ((r &&& 0x8000) <<< 8)) &&& cmdErrorsMask
    modify fun s => { s with sdErr := err.setWidth 64 }
    return r &&& cmdRcaMask
  else
    return r &&& cmdErrorsMask

/-- `sd_cmd`. -/
def sdCmd (code arg : BitVec 32) : DriverM (BitVec 32) := do
  setErr sdOk
  if code &&& cmdNeedApp ≠ 0 then
    let rca := (← get).sdRca
    let r ← sendCommand answers (cmdAppCmd ||| if rca ≠ 0 then cmdRspns48 else 0)
      (rca.setWidth 32)
    if (← get).sdRca ≠ 0 ∧ r = 0 then
      setErr sdError
      return 0
    sendCommand answers (code &&& ~~~cmdNeedApp) arg
  else
    sendCommand answers code arg

/-- The shift that brings the highest one of a number to the top, subtracted from 32. -/
def clockShift (x : BitVec 32) : Nat :=
  let s := 32
  let (x, s) := if x &&& 0xffff0000 = 0 then (x <<< 16, s - 16) else (x, s)
  let (x, s) := if x &&& 0xff000000 = 0 then (x <<< 8, s - 8) else (x, s)
  let (x, s) := if x &&& 0xf0000000 = 0 then (x <<< 4, s - 4) else (x, s)
  let (x, s) := if x &&& 0xc0000000 = 0 then (x <<< 2, s - 2) else (x, s)
  let s := if x &&& 0x80000000 = 0 then s - 1 else s
  let s := if s > 0 then s - 1 else s
  if s > 7 then 7 else s

/-- The divisor of the clock as `CONTROL1` takes it. -/
def clockDivisor (f : BitVec 32) (sdHv : BitVec 64) : BitVec 32 :=
  let c : BitVec 32 := 500000000 / (f * 6)
  let x := c - 1
  let s := if x = 0 then 0 else clockShift x
  let d : BitVec 32 := if sdHv > hostSpecV2 then c else 1 <<< s
  let d := if d ≤ 2 then 2 else d
  let h := if sdHv > hostSpecV2 then (d &&& 0x300) >>> 2 else 0
  ((d &&& 0x0ff) <<< 8) ||| h

/-- `sd_clk`. -/
def sdClk (f : BitVec 32) : DriverM (BitVec 32) := do
  let cnt ← pollWhile
    (do return (← read answers .STATUS) &&& (srCmdInhibit ||| srDatInhibit) ≠ 0) 100000
  if cnt ≤ 0 then
    return sdError
  write .CONTROL1 ((← read answers .CONTROL1) &&& ~~~c1ClkEn)
  let d := clockDivisor f (← get).sdHv
  write .CONTROL1 (((← read answers .CONTROL1) &&& 0xffff003f) ||| d)
  write .CONTROL1 ((← read answers .CONTROL1) ||| c1ClkEn)
  let cnt ← pollWhile (do return (← read answers .CONTROL1) &&& c1ClkStable = 0) 10000
  if cnt ≤ 0 then
    return sdError
  return sdOk

end Commands

/-- The reads of `sd_status`: two in every round of its loop, and one behind it. -/
def statusReads : Nat := (500000 + 1) * 2 + 1

/-- The reads of `sd_int`. -/
def intReads : Nat := (1000000 + 1) * 1 + 1

def sendReads : Nat := statusReads + (1 + (intReads + (1 + 3)))

/-- The reads of `sd_cmd`, for an application command with its prefix. -/
def cmdReads : Nat := sendReads + sendReads

/-- The reads of `sd_clk`: those of its two loops, and the three of `CONTROL1` between. -/
def clkReads : Nat := (100000 + 1) * 1 + (1 + (1 + (1 + (10000 + 1) * 1)))

section Bounds

variable {answers : Answers} {n : Nat} {α : Type}

/-- The computation reads no more than a number of registers, and returns. -/
abbrev ReadsWithin (n : Nat) (m : DriverM α) : Prop := Within Driver.reads n m

theorem within_read (register : Register) : ReadsWithin 1 (read answers register) :=
  fun _ => ⟨_, _, rfl, Nat.le_refl _⟩

theorem within_write (register : Register) (value : BitVec 32) :
    ReadsWithin 0 (write register value) :=
  fun _ => ⟨_, _, rfl, Nat.le_refl _⟩

theorem within_setErr (value : BitVec 32) : ReadsWithin 0 (setErr value) :=
  fun _ => ⟨_, _, rfl, Nat.le_refl _⟩

theorem within_get : ReadsWithin 0 (get : DriverM Driver) :=
  fun _ => ⟨_, _, rfl, Nat.le_refl _⟩

/-- A computation that reads one register and goes on without reading. -/
theorem within_read_pure (register : Register) (f : BitVec 32 → α) :
    ReadsWithin 1 (do return f (← read answers register)) :=
  (within_read register).bind_last fun _ => Within.pure _

theorem within_sdStatus (mask : BitVec 32) : ReadsWithin statusReads (sdStatus answers mask) := by
  have hguard : ReadsWithin (1 + 1) (do
      if (← read answers .STATUS) &&& mask ≠ 0 then
        return decide ((← read answers .INTERRUPT) &&& intErrorMask = 0)
      else
        return false) := by
    refine (within_read .STATUS).bind fun status => ?_
    exact Within.ite (within_read_pure .INTERRUPT _) (Within.pure _)
  refine (within_pollWhile hguard 500000).bind fun cnt => ?_
  refine Within.ite (Within.pure _) ?_
  refine (within_read .INTERRUPT).bind_last fun r => ?_
  exact Within.ite (Within.pure _) (Within.pure _)

theorem within_sdInt (mask : BitVec 32) : ReadsWithin intReads (sdInt answers mask) := by
  refine (within_pollWhile (within_read_pure .INTERRUPT _) 1000000).bind fun cnt => ?_
  refine (within_read .INTERRUPT).bind_last fun r => ?_
  have hwrite : ∀ value result, ReadsWithin 0 (do
      write .INTERRUPT value
      return (result : BitVec 32)) :=
    fun value _ => (within_write .INTERRUPT value).bind_free fun _ => Within.pure _
  exact Within.ite (hwrite _ _) (Within.ite (hwrite _ _) (hwrite _ _))

theorem within_sendCommand (code arg : BitVec 32) :
    ReadsWithin sendReads (sendCommand answers code arg) := by
  have hstop : ∀ err, ∀ n, ReadsWithin n (do
      setErr err
      return (0 : BitVec 32)) :=
    fun err _ => (within_setErr err).bind_free fun _ => Within.pure _
  refine (within_sdStatus _).bind fun busy => ?_
  refine Within.ite (hstop _ _) ?_
  refine (within_read .INTERRUPT).bind fun interrupt => ?_
  refine (within_write _ _).bind_free fun _ => ?_
  refine (within_write _ _).bind_free fun _ => ?_
  refine (within_write _ _).bind_free fun _ => ?_
  refine (within_sdInt _).bind fun r => ?_
  refine Within.ite (hstop _ _) ?_
  refine (within_read .RESP0).bind fun r => ?_
  refine Within.ite (Within.pure _) (Within.ite (Within.pure _) (Within.ite (Within.pure _)
    (Within.ite (Within.pure _) (Within.ite ?_ (Within.ite ?_ (Within.pure _))))))
  · have hthree : ReadsWithin (1 + (1 + 1)) (do
        let r := r ||| (← read answers .RESP3)
        let r := r ||| (← read answers .RESP2)
        let r := r ||| (← read answers .RESP1)
        return r) :=
      (within_read .RESP3).bind fun _ => (within_read .RESP2).bind fun _ =>
        (within_read .RESP1).bind_last fun _ => Within.pure _
    exact hthree
  · exact fun _ => ⟨_, _, rfl, Nat.le_add_right _ _⟩

theorem within_sdCmd (code arg : BitVec 32) : ReadsWithin cmdReads (sdCmd answers code arg) := by
  refine (within_setErr _).bind_free fun _ => Within.ite ?_ ?_
  · refine within_get.bind_free fun s => ?_
    refine (within_sendCommand _ _).bind fun r => within_get.bind_free fun s' => ?_
    refine Within.ite ?_ (within_sendCommand _ _)
    exact (within_setErr _).bind_free fun _ => Within.pure _
  · exact (within_sendCommand code arg).mono (Nat.le_add_right _ _)

theorem within_sdClk (f : BitVec 32) : ReadsWithin clkReads (sdClk answers f) := by
  refine (within_pollWhile (within_read_pure .STATUS _) 100000).bind fun cnt => ?_
  refine Within.ite (Within.pure _) ?_
  refine (within_read .CONTROL1).bind fun _ => (within_write _ _).bind_free fun _ => ?_
  refine within_get.bind_free fun s => ?_
  refine (within_read .CONTROL1).bind fun _ => (within_write _ _).bind_free fun _ => ?_
  refine (within_read .CONTROL1).bind fun _ => (within_write _ _).bind_free fun _ => ?_
  refine (within_pollWhile (within_read_pure .CONTROL1 _) 10000).bind_last fun cnt => ?_
  exact Within.ite (Within.pure _) (Within.pure _)

end Bounds

end RPiKernel.SdCard
