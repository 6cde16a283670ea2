import Mathlib.Logic.Function.Basic
import RPiKernel.SdCard.Commands

/-!
# Initialising the card and reading blocks

`SdCard::Init` tests the counter of its last loop, over the two words of the SCR, but does not count
it down: it returns exactly if the controller makes both words available. `SdCard::ReadBlock` counts
blocks in a signed variable, which overflows if 2 ^ 31 blocks are asked for and all of them come.
Otherwise both read a bounded number of registers and return.

## Implementation notes

`init` runs the loop over the SCR with a number of rounds and stops when they are used up. What
`Init` does to the pins and to the registers of other devices is left out.
-/

namespace RPiKernel.SdCard

open Machine

def scrSdBusWidth4 : BitVec 64 := 0x00000400

def scrSuppSetBlkcnt : BitVec 64 := 0x02000000

def scrSuppCcs : BitVec 64 := 0x00000001

def acmd41Voltage : BitVec 64 := 0x00ff8000

def acmd41CmdComplete : BitVec 64 := 0x80000000

def acmd41CmdCcs : BitVec 64 := 0x40000000

def acmd41ArgHc : BitVec 32 := 0x51ff8000

section Operations

variable (answers : Answers)

/-- The loop of `Init` over `CMD_SEND_OP_COND`, with the counter that it leaves; none where `Init`
has returned false. -/
def operatingConditions : Nat → BitVec 64 → DriverM (Option (BitVec 64 × Int))
  | 0, result =>
      if result &&& acmd41CmdComplete = 0 then return some (result, -1)
      else return some (result, 0)
  | cnt + 1, result => do
      if result &&& acmd41CmdComplete = 0 then
        let r ← sdCmd answers cmdSendOpCond acmd41ArgHc
        let err := (← get).sdErr
        if err ≠ sdTimeout.signExtend 64 ∧ err ≠ sdOk.signExtend 64 then
          return none
        operatingConditions cnt (r.signExtend 64)
      else
        return some (result, Int.ofNat (cnt + 1))

/-- `Init`, from the reset of the controller to the answer to `CMD_SEND_IF_COND`. The flag says
that it goes on. -/
def resetCard : DriverM Bool := do
  let version ← read answers .SLOTISR_VER
  modify fun s => { s with sdHv := ((version &&& hostSpecNum) >>> 16).setWidth 64 }
  write .CONTROL0 0
  write .CONTROL1 ((← read answers .CONTROL1) ||| c1SrstHc)
  -- a controller that stays in reset is reported, and taken as it is
  let _ ← pollWhile (do return (← read answers .CONTROL1) &&& c1SrstHc ≠ 0) 10000
  write .CONTROL1 ((← read answers .CONTROL1) ||| (c1ClkIntlen ||| c1TounitMax))
  if (← sdClk answers 400000) ≠ 0 then
    return false
  write .INT_EN 0xffffffff
  write .INT_MASK 0xffffffff
  modify fun s => { s with sdScr := fun _ => 0, sdRca := 0, sdErr := 0 }
  let _ ← sdCmd answers cmdGoIdle 0
  if (← get).sdErr ≠ 0 then
    return false
  let _ ← sdCmd answers cmdSendIfCond 0x000001AA
  if (← get).sdErr ≠ 0 then
    return false
  return true

/-- `Init`, from the identification of the card to the wait for its SCR. -/
def selectCard : DriverM Bool := do
  let _ ← sdCmd answers cmdAllSendCid 0
  let rca ← sdCmd answers cmdSendRelAddr 0
  modify fun s => { s with sdRca := rca.signExtend 64 }
  if (← get).sdErr ≠ 0 then
    return false
  if (← sdClk answers 25000000) ≠ 0 then
    return false
  let _ ← sdCmd answers cmdCardSelect ((← get).sdRca.setWidth 32)
  if (← get).sdErr ≠ 0 then
    return false
  if (← sdStatus answers srDatInhibit) ≠ 0 then
    return false
  write .BLKSIZECNT ((1 <<< 16) ||| 8)
  let _ ← sdCmd answers cmdSendScr 0
  if (← get).sdErr ≠ 0 then
    return false
  if (← sdInt answers intReadRdy) ≠ 0 then
    return false
  return true

/-- `Init`, up to the loop over the SCR, with the flag of a high capacity; none where it has
returned false. -/
def beforeScr : DriverM (Option (BitVec 64)) := do
  if !(← resetCard answers) then
    return none
  match ← operatingConditions answers 6 0 with
  | none => return none
  | some (result, cnt) =>
      if result &&& acmd41CmdComplete = 0 ∨ cnt = 0 then
        return none
      if result &&& acmd41Voltage = 0 then
        return none
      let ccs := if result &&& acmd41CmdCcs ≠ 0 then scrSuppCcs else 0
      if !(← selectCard answers) then
        return none
      return some ccs

/-- The loop of `Init` over the SCR, with the number of words that it has read. The counter is
tested and stays as it is. -/
def readScr (cnt : Nat) : Nat → Nat → DriverM Nat
  | rounds, r => do
      if r < 2 ∧ cnt ≠ 0 then
        match rounds with
        | 0 => throw .endless
        | rounds + 1 =>
            if (← read answers .STATUS) &&& srReadAvailable ≠ 0 then
              let word ← read answers .DATA
              modify fun s =>
                { s with sdScr := Function.update s.sdScr (Fin.ofNat 2 r) (word.setWidth 64) }
              readScr cnt rounds (r + 1)
            else
              readScr cnt rounds r
      else
        return r

/-- `Init`, behind the loop over the SCR. -/
def afterScr (ccs : BitVec 64) : DriverM Bool := do
  if (← get).sdScr 0 &&& scrSdBusWidth4 ≠ 0 then
    let _ ← sdCmd answers cmdSetBusWidth (((← get).sdRca ||| 2).setWidth 32)
    if (← get).sdErr ≠ 0 then
      return false
    write .CONTROL0 ((← read answers .CONTROL0) ||| c0HctlDwitdh)
  modify fun s => { s with
    sdScr := Function.update s.sdScr 0 ((s.sdScr 0 &&& ~~~scrSuppCcs) ||| ccs) }
  return true

/-- `Init`, with a number of rounds of its loop over the SCR. -/
def init (rounds : Nat) : DriverM Bool := do
  match ← beforeScr answers with
  | none => return false
  | some ccs =>
      let r ← readScr answers 100000 rounds 0
      if r ≠ 2 then
        return false
      afterScr answers ccs

/-- The loop over the words of a block. -/
def readData : Nat → DriverM Unit
  | 0 => return
  | n + 1 => do
      let word ← read answers .DATA
      modify fun s => { s with buffer := s.buffer ++ [word] }
      readData n

/-- One round of the loop of `ReadBlock`. The flag says that the block has been read. -/
def readOneBlock (lba : BitVec 32) (c : Nat) : DriverM Bool := do
  if (← get).sdScr 0 &&& scrSuppCcs = 0 then
    let _ ← sdCmd answers cmdReadSingle ((lba + BitVec.ofNat 32 c) * 512)
    if (← get).sdErr ≠ 0 then
      return false
  let r ← sdInt answers intReadRdy
  if r ≠ 0 then
    setErr r
    return false
  readData answers 128
  return true

/-- The loop of `ReadBlock` over a number of blocks, with the count that it leaves; none where
`ReadBlock` has returned false. The count is a signed one. -/
def readBlocks (lba : BitVec 32) : Nat → Nat → DriverM (Option Nat)
  | 0, c => return some c
  | n + 1, c => do
      if ← readOneBlock answers lba c then
        if c = 2147483647 then
          throw .signedOverflow
        readBlocks lba n (c + 1)
      else
        return none

/-- `ReadBlock`, up to its loop. The flag says that it goes on. -/
def beforeBlocks (lba count : BitVec 32) : DriverM Bool := do
  if (← sdStatus answers srDatInhibit) ≠ 0 then
    setErr sdTimeout
    return false
  if (← get).sdScr 0 &&& scrSuppCcs ≠ 0 then
    if count > 1 ∧ (← get).sdScr 0 &&& scrSuppSetBlkcnt ≠ 0 then
      let _ ← sdCmd answers cmdSetBlockcnt count
      if (← get).sdErr ≠ 0 then
        return false
    write .BLKSIZECNT ((count <<< 16) ||| 512)
    let _ ← sdCmd answers (if count = 1 then cmdReadSingle else cmdReadMulti) lba
    if (← get).sdErr ≠ 0 then
      return false
    return true
  else
    write .BLKSIZECNT ((1 <<< 16) ||| 512)
    return true

/-- `ReadBlock`, for a count that is not zero. -/
def readBlockCount (lba count : BitVec 32) : DriverM Bool := do
  if !(← beforeBlocks answers lba count) then
    return false
  match ← readBlocks answers lba count.toNat 0 with
  | none => return false
  | some c =>
      let scr := (← get).sdScr 0
      if count > 1 ∧ scr &&& scrSuppSetBlkcnt = 0 ∧ scr &&& scrSuppCcs ≠ 0 then
        let _ ← sdCmd answers cmdStopTrans 0
      return (← get).sdErr = 0 ∧ c = count.toNat

/-- At least one block is read. -/
def blockCount (count : BitVec 32) : BitVec 32 := if count < 1 then 1 else count

/-- `ReadBlock`. -/
def readBlock (lba count : BitVec 32) : DriverM Bool :=
  readBlockCount answers lba (blockCount count)

end Operations

/-- The reads of `resetCard`. -/
def resetReads : Nat :=
  1 + (1 + ((10000 + 1) * 1 + (1 + (clkReads + (cmdReads + cmdReads)))))

/-- The reads of `selectCard`. -/
def selectReads : Nat :=
  cmdReads + (cmdReads + (clkReads + (cmdReads + (statusReads + (cmdReads + intReads)))))

/-- The reads of `Init` up to its loop over the SCR. -/
def beforeScrReads : Nat := resetReads + (6 * cmdReads + selectReads)

/-- The reads of `Init`, with a number of rounds of its loop over the SCR. -/
def initReads (rounds : Nat) : Nat := beforeScrReads + ((rounds + 2) + (cmdReads + 1))

/-- The reads for a block. -/
def blockReads : Nat := cmdReads + (intReads + 128)

/-- The reads of `ReadBlock` for a number of blocks. -/
def readBlockReads (count : Nat) : Nat :=
  (statusReads + (cmdReads + cmdReads)) + (count * blockReads + cmdReads)

section Bounds

variable {answers : Answers}

/-- An assignment to the variables of the driver. -/
theorem within_modify {n : Nat} (f : Driver → Driver) (h : ∀ s, (f s).reads = s.reads) :
    ReadsWithin n (modify f : DriverM Unit) :=
  fun s => ⟨(), f s, rfl, by rw [h s]; exact Nat.le_add_right _ _⟩

theorem within_operatingConditions (cnt : Nat) (result : BitVec 64) :
    ReadsWithin (cnt * cmdReads) (operatingConditions answers cnt result) := by
  induction cnt generalizing result with
  | zero => exact Within.ite (Within.pure _) (Within.pure _)
  | succ cnt ih =>
      rw [Nat.succ_mul, Nat.add_comm]
      refine Within.ite ?_ (Within.pure _)
      refine (within_sdCmd _ _).bind fun r => within_get.bind_free fun s => ?_
      exact Within.ite (Within.pure _) (ih _)

/-- A command, and the test for its error. -/
theorem within_command {n : Nat} {α : Type} (code arg : BitVec 32) {other : α} {m : DriverM α}
    (h : ReadsWithin n m) :
    ReadsWithin (cmdReads + n) (do
      let _ ← sdCmd answers code arg
      if (← get).sdErr ≠ 0 then
        return other
      m) := by
  refine (within_sdCmd code arg).bind fun _ => within_get.bind_free fun s => ?_
  exact Within.ite (Within.pure _) h

theorem within_command_last {α : Type} (code arg : BitVec 32) {other a : α} :
    ReadsWithin cmdReads (do
      let _ ← sdCmd answers code arg
      if (← get).sdErr ≠ 0 then
        return other
      return a) :=
  within_command code arg (n := 0) (Within.pure a)

theorem within_resetCard : ReadsWithin resetReads (resetCard answers) := by
  refine (within_read _).bind fun version => ?_
  refine (within_modify _ (by intro s; rfl)).bind_free fun _ => ?_
  refine (within_write _ _).bind_free fun _ => ?_
  refine (within_read _).bind fun _ => (within_write _ _).bind_free fun _ => ?_
  refine (within_pollWhile (within_read_pure .CONTROL1 _) 10000).bind fun _ => ?_
  refine (within_read _).bind fun _ => (within_write _ _).bind_free fun _ => ?_
  refine (within_sdClk _).bind fun r => Within.ite (Within.pure _) ?_
  refine (within_write _ _).bind_free fun _ => (within_write _ _).bind_free fun _ => ?_
  refine (within_modify _ (by intro s; rfl)).bind_free fun _ => ?_
  exact within_command _ _ (within_command_last _ _)

theorem within_selectCard : ReadsWithin selectReads (selectCard answers) := by
  refine (within_sdCmd _ _).bind fun _ => (within_sdCmd _ _).bind fun rca => ?_
  refine (within_modify _ (by intro s; rfl)).bind_free fun _ => within_get.bind_free fun s => ?_
  refine Within.ite (Within.pure _) ?_
  refine (within_sdClk _).bind fun r => Within.ite (Within.pure _) ?_
  refine within_get.bind_free fun s => within_command _ _ ?_
  refine (within_sdStatus _).bind fun busy => Within.ite (Within.pure _) ?_
  refine (within_write _ _).bind_free fun _ => within_command _ _ ?_
  refine (within_sdInt _).bind_last fun r => ?_
  exact Within.ite (Within.pure _) (Within.pure _)

theorem within_beforeScr : ReadsWithin beforeScrReads (beforeScr answers) := by
  refine within_resetCard.bind fun ready => Within.ite (Within.pure _) ?_
  refine (within_operatingConditions 6 0).bind fun found => ?_
  cases found with
  | none => exact Within.pure _
  | some found =>
      refine Within.ite (Within.pure _) (Within.ite (Within.pure _) ?_)
      refine within_selectCard.bind_last fun selected => ?_
      exact Within.ite (Within.pure _) (Within.pure _)

theorem within_afterScr (ccs : BitVec 64) :
    ReadsWithin (cmdReads + 1) (afterScr answers ccs) := by
  have hflag : ∀ n, ReadsWithin n (do
      modify fun s => { s with
        sdScr := Function.update s.sdScr 0 ((s.sdScr 0 &&& ~~~scrSuppCcs) ||| ccs) }
      return true) :=
    fun n => (within_modify _ (by intro s; rfl)).bind_free fun _ => Within.pure _
  refine within_get.bind_free fun s => Within.ite ?_ (hflag _)
  refine within_get.bind_free fun s => within_command _ _ ?_
  refine (within_read _).bind_last fun _ => (within_write _ _).bind_free fun _ => hflag 0

theorem within_readData (n : Nat) : ReadsWithin n (readData answers n) := by
  induction n with
  | zero => exact Within.pure _
  | succ n ih =>
      refine Within.mono (n := 1 + n) ?_ (Nat.le_of_eq (Nat.add_comm 1 n))
      refine (within_read _).bind fun _ => ?_
      exact (within_modify _ (by intro s; rfl)).bind_free fun _ => ih

theorem within_readOneBlock (lba : BitVec 32) (c : Nat) :
    ReadsWithin blockReads (readOneBlock answers lba c) := by
  have hdata : ReadsWithin (intReads + 128) (do
      let r ← sdInt answers intReadRdy
      if r ≠ 0 then
        setErr r
        return false
      readData answers 128
      return true) := by
    refine (within_sdInt _).bind fun r => Within.ite ?_ ?_
    · exact (within_setErr _).bind_free fun _ => Within.pure _
    · exact (within_readData 128).bind_last fun _ => Within.pure _
  refine within_get.bind_free fun s => Within.ite ?_ ?_
  · exact within_command _ _ hdata
  · exact hdata.mono (Nat.le_add_left _ _)

theorem within_beforeBlocks (lba count : BitVec 32) :
    ReadsWithin (statusReads + (cmdReads + cmdReads)) (beforeBlocks answers lba count) := by
  have hread : ReadsWithin cmdReads (do
      write .BLKSIZECNT ((count <<< 16) ||| 512)
      let _ ← sdCmd answers (if count = 1 then cmdReadSingle else cmdReadMulti) lba
      if (← get).sdErr ≠ 0 then
        return false
      return true) :=
    (within_write _ _).bind_free fun _ => within_command_last _ _
  refine (within_sdStatus _).bind fun busy => Within.ite ?_ ?_
  · exact (within_setErr _).bind_free fun _ => Within.pure _
  · refine within_get.bind_free fun s => Within.ite ?_ ?_
    · refine within_get.bind_free fun s => Within.ite ?_ ?_
      · exact within_command _ _ hread
      · exact hread.mono (Nat.le_add_left _ _)
    · exact (within_write _ _).bind_free fun _ => Within.pure _

end Bounds

section Returning

variable (answers : Answers)

/-- Where the read with this number is one of the status, it announces a word of data. -/
def ReadAvailable (i : Nat) : Prop := answers i .STATUS &&& srReadAvailable ≠ 0

/-- From the read with a number on, two words are announced within as many rounds. The read behind
the first announcement is that of the word. -/
def ScrArrives (rounds n : Nat) : Prop :=
  ∃ i j, n ≤ i ∧ i + 2 ≤ j ∧ j ≤ n + rounds ∧ ReadAvailable answers i ∧ ReadAvailable answers j

/-- If `Init` comes to its loop over the SCR, both words are announced within the rounds. -/
def InitEnds (rounds : Nat) (s : Driver) : Prop :=
  ∀ ccs s₁, (beforeScr answers).run s = .ok (some ccs) s₁ → ScrArrives answers rounds s₁.reads

/-- The blocks from the one with a number on are all read. -/
def AllRead (lba : BitVec 32) : Nat → Nat → Driver → Prop
  | 0, _, _ => True
  | n + 1, c, s =>
      ∃ s₁, (readOneBlock answers lba c).run s = .ok true s₁ ∧ AllRead lba n (c + 1) s₁

/-- Fewer than 2 ^ 31 blocks are asked for, or one of the first 2 ^ 31 is not read. -/
def CountFits (lba count : BitVec 32) (s : Driver) : Prop :=
  count.toNat ≤ 2147483647 ∨
    ∀ s₁, (beforeBlocks answers lba count).run s = .ok true s₁ →
      ¬ AllRead answers lba 2147483648 0 s₁

variable {answers}

theorem run_read (register : Register) (s : Driver) :
    (read answers register).run s =
      .ok (answers s.reads register) { s with reads := s.reads + 1 } :=
  rfl

section Scr

variable {cnt r : Nat} {s : Driver}

theorem readScr_two (cnt rounds : Nat) (s : Driver) :
    (readScr answers cnt rounds 2).run s = .ok 2 s := by
  have hguard : ¬ (2 < 2 ∧ cnt ≠ 0) := fun h => absurd h.1 (Nat.lt_irrefl 2)
  cases rounds with
  | zero =>
      rw [readScr, if_neg hguard]
      rfl
  | succ rounds =>
      rw [readScr, if_neg hguard]
      rfl

/-- A loop over the SCR without rounds stops. -/
theorem readScr_zero (hr : r < 2) (hcnt : cnt ≠ 0) :
    (readScr answers cnt 0 r).run s = .error .endless s := by
  rw [readScr, if_pos ⟨hr, hcnt⟩]
  rfl

/-- A round of the loop over the SCR in which a word is announced. -/
theorem readScr_ready (rounds : Nat) (hr : r < 2) (hcnt : cnt ≠ 0)
    (h : ReadAvailable answers s.reads) :
    ∃ s₁, s₁.reads = s.reads + 2 ∧
      (readScr answers cnt (rounds + 1) r).run s = (readScr answers cnt rounds (r + 1)).run s₁ := by
  refine ⟨{ s with
    reads := s.reads + 2
    sdScr := Function.update s.sdScr (Fin.ofNat 2 r)
      ((answers (s.reads + 1) .DATA).setWidth 64) }, rfl, ?_⟩
  rw [readScr, if_pos ⟨hr, hcnt⟩, run_bind_ok (run_read .STATUS s)]
  simp only [show answers s.reads .STATUS &&& srReadAvailable ≠ 0 from h, ne_eq, not_false_iff,
    if_true]
  rfl

/-- A round of the loop over the SCR in which none is. -/
theorem readScr_waiting (rounds : Nat) (hr : r < 2) (hcnt : cnt ≠ 0)
    (h : ¬ ReadAvailable answers s.reads) :
    ∃ s₁, s₁.reads = s.reads + 1 ∧
      (readScr answers cnt (rounds + 1) r).run s = (readScr answers cnt rounds r).run s₁ := by
  refine ⟨{ s with reads := s.reads + 1 }, rfl, ?_⟩
  rw [readScr, if_pos ⟨hr, hcnt⟩, run_bind_ok (run_read .STATUS s)]
  simp only [show ¬ answers s.reads .STATUS &&& srReadAvailable ≠ 0 from h, if_false]

/-- With its first word, the loop over the SCR returns exactly if the second one is announced. -/
theorem readScr_one (hcnt : cnt ≠ 0) (rounds : Nat) (s : Driver) :
    ReturnsIf Driver.reads (rounds + 1)
      (∃ j, s.reads ≤ j ∧ j < s.reads + rounds ∧ ReadAvailable answers j)
      (readScr answers cnt rounds 1) s := by
  induction rounds generalizing s with
  | zero =>
      refine Or.inr ⟨?_, .endless, s, readScr_zero (by decide) hcnt⟩
      rintro ⟨j, hj, hj', -⟩
      omega
  | succ rounds ih =>
      by_cases hready : ReadAvailable answers s.reads
      · obtain ⟨s₁, hreads, hrun⟩ := readScr_ready rounds Nat.one_lt_two hcnt hready
        refine ReturnsIf.of_within ⟨2, s₁, hrun.trans (readScr_two cnt rounds s₁), by omega⟩ ?_
        exact ⟨s.reads, Nat.le_refl _, by omega, hready⟩
      · obtain ⟨s₁, hreads, hrun⟩ := readScr_waiting rounds Nat.one_lt_two hcnt hready
        have hsum : rounds + 1 + 1 = 1 + (rounds + 1) := by omega
        rw [hsum]
        refine ReturnsIf.of_run_eq hrun (Nat.le_of_eq hreads) ((ih s₁).congr ⟨?_, ?_⟩)
        · rintro ⟨j, hj, hj', hj''⟩
          exact ⟨j, by omega, by omega, hj''⟩
        · rintro ⟨j, hj, hj', hj''⟩
          have hne : j ≠ s.reads := by
            rintro rfl
            exact hready hj''
          exact ⟨j, by omega, by omega, hj''⟩

/-- The loop over the SCR returns exactly if both words are announced. -/
theorem readScr_returns (hcnt : cnt ≠ 0) (rounds : Nat) (s : Driver) :
    ReturnsIf Driver.reads (rounds + 2) (ScrArrives answers rounds s.reads)
      (readScr answers cnt rounds 0) s := by
  induction rounds generalizing s with
  | zero =>
      refine Or.inr ⟨?_, .endless, s, readScr_zero (by decide) hcnt⟩
      rintro ⟨i, j, hi, hj, hj', -⟩
      omega
  | succ rounds ih =>
      by_cases hready : ReadAvailable answers s.reads
      · obtain ⟨s₁, hreads, hrun⟩ := readScr_ready rounds Nat.zero_lt_two hcnt hready
        have hsum : rounds + 1 + 2 = 2 + (rounds + 1) := by omega
        rw [hsum]
        refine ReturnsIf.of_run_eq hrun (Nat.le_of_eq hreads)
          ((readScr_one hcnt rounds s₁).congr ⟨?_, ?_⟩)
        · rintro ⟨j, hj, hj', hj''⟩
          exact ⟨s.reads, j, Nat.le_refl _, by omega, by omega, hready, hj''⟩
        · rintro ⟨i, j, hi, hj, hj', -, hj''⟩
          exact ⟨j, by omega, by omega, hj''⟩
      · obtain ⟨s₁, hreads, hrun⟩ := readScr_waiting rounds Nat.zero_lt_two hcnt hready
        have hsum : rounds + 1 + 2 = 1 + (rounds + 2) := by omega
        rw [hsum]
        refine ReturnsIf.of_run_eq hrun (Nat.le_of_eq hreads) ((ih s₁).congr ⟨?_, ?_⟩)
        · rintro ⟨i, j, hi, hj, hj', hi', hj''⟩
          exact ⟨i, j, by omega, hj, by omega, hi', hj''⟩
        · rintro ⟨i, j, hi, hj, hj', hi', hj''⟩
          have hne : i ≠ s.reads := by
            rintro rfl
            exact hready hi'
          exact ⟨i, j, by omega, hj, by omega, hi', hj''⟩

end Scr

/-- `Init` returns exactly if its loop over the SCR does, where it comes to it. -/
theorem init_returns (answers : Answers) (rounds : Nat) (s : Driver) :
    ReturnsIf Driver.reads (initReads rounds) (InitEnds answers rounds s)
      (init answers rounds) s := by
  obtain ⟨found, s₁, hrun, hreads⟩ := @within_beforeScr answers s
  refine ReturnsIf.of_run hrun hreads ?_
  cases found with
  | none =>
      refine ReturnsIf.of_within (Within.pure false s₁) fun ccs s₂ hsome => ?_
      rw [hrun] at hsome
      cases hsome
  | some ccs =>
      have hends : ScrArrives answers rounds s₁.reads ↔ InitEnds answers rounds s := by
        constructor
        · intro harrives ccs' s₂ hsome
          rw [hrun] at hsome
          cases hsome
          exact harrives
        · exact fun hends => hends ccs s₁ hrun
      refine ((readScr_returns (by decide) rounds s₁).bind fun r => ?_).congr hends
      exact Within.ite (Within.pure _) (within_afterScr ccs)

/-- The loop over the blocks returns exactly if its count does not overflow. -/
theorem readBlocks_returns (answers : Answers) (lba : BitVec 32) (n : Nat) {c : Nat} (s : Driver)
    (hc : c ≤ 2147483647) :
    ReturnsIf Driver.reads (n * blockReads)
      (c + n ≤ 2147483647 ∨ ¬ AllRead answers lba (2147483648 - c) c s)
      (readBlocks answers lba n c) s := by
  induction n generalizing c s with
  | zero => exact ReturnsIf.of_within (Within.pure (some c) s) (Or.inl hc)
  | succ n ih =>
      obtain ⟨ok, s₁, hrun, hreads⟩ := @within_readOneBlock answers lba c s
      have hleft : 2147483648 - c = (2147483647 - c) + 1 := by omega
      have hsum : (n + 1) * blockReads = blockReads + n * blockReads := by
        rw [Nat.succ_mul, Nat.add_comm]
      have hread : AllRead answers lba (2147483648 - c) c s ↔
          ok = true ∧ AllRead answers lba (2147483647 - c) (c + 1) s₁ := by
        rw [hleft, AllRead, hrun]
        constructor
        · rintro ⟨s₂, hok, hrest⟩
          cases hok
          exact ⟨rfl, hrest⟩
        · rintro ⟨rfl, hrest⟩
          exact ⟨s₁, rfl, hrest⟩
      rw [hread, hsum, readBlocks]
      refine ReturnsIf.of_run hrun hreads ?_
      cases ok with
      | false => exact ReturnsIf.of_within (Within.pure none s₁) (Or.inr fun h => by cases h.1)
      | true =>
          by_cases hlast : c = 2147483647
          · subst hlast
            refine Or.inr ⟨?_, .signedOverflow, s₁, rfl⟩
            rintro (hfits | hnot)
            · omega
            · exact hnot ⟨rfl, trivial⟩
          · have hnext : 2147483648 - (c + 1) = 2147483647 - c := by omega
            rw [if_pos rfl, if_neg hlast]
            refine (ih s₁ (by omega)).congr ?_
            rw [hnext]
            simp only [true_and]
            exact or_congr (by omega) Iff.rfl

/-- `ReadBlock` of some blocks returns exactly if its count does not overflow. -/
theorem readBlockCount_returns (answers : Answers) (lba count : BitVec 32) (s : Driver) :
    ReturnsIf Driver.reads (readBlockReads count.toNat) (CountFits answers lba count s)
      (readBlockCount answers lba count) s := by
  obtain ⟨goes, s₁, hrun, hreads⟩ := @within_beforeBlocks answers lba count s
  refine ReturnsIf.of_run hrun hreads ?_
  cases goes with
  | false =>
      refine ReturnsIf.of_within (Within.pure false s₁) (Or.inr fun s₂ hgoes => ?_)
      rw [hrun] at hgoes
      cases hgoes
  | true =>
      have hfits : (0 + count.toNat ≤ 2147483647 ∨
          ¬ AllRead answers lba (2147483648 - 0) 0 s₁) ↔ CountFits answers lba count s := by
        rw [Nat.zero_add]
        refine or_congr Iff.rfl ⟨fun hnot s₂ hgoes => ?_, fun hall => hall s₁ hrun⟩
        rw [hrun] at hgoes
        cases hgoes
        exact hnot
      have hloop := readBlocks_returns answers lba count.toNat (c := 0) s₁ (by decide)
      refine (hloop.bind fun found => ?_).congr hfits
      cases found with
      | none => exact Within.pure _
      | some c =>
          refine within_get.bind_free fun s => Within.ite ?_ ?_
          · refine (within_sdCmd _ _).bind_last fun _ => ?_
            exact within_get.bind_free fun s => Within.pure _
          · exact within_get.bind_free fun s => Within.pure _

/-- `Init` and `ReadBlock` read no more registers than the counters of their loops allow, and
return. -/
structure Bounded : Prop where
  init : ∃ bound, ∀ answers s, ∃ rounds, ReturnsWithin Driver.reads bound (init answers rounds) s
  readBlock : ∀ count, ∃ bound, ∀ answers lba s,
    ReturnsWithin Driver.reads bound (readBlock answers lba count) s

/-- `Init` returns within the bound of its counters exactly if the two words of the SCR are
announced where it waits for them, and `ReadBlock` exactly if its count does not overflow. -/
theorem operations_bounded_iff (answers : Answers) (s : Driver) :
    (∀ rounds, ReturnsWithin Driver.reads (initReads rounds) (init answers rounds) s ↔
      InitEnds answers rounds s) ∧
    ∀ lba count, ReturnsWithin Driver.reads (readBlockReads (blockCount count).toNat)
        (readBlock answers lba count) s ↔
      CountFits answers lba (blockCount count) s :=
  ⟨fun rounds => (init_returns answers rounds s).iff, fun lba count =>
    (readBlockCount_returns answers lba (blockCount count) s).iff⟩

/-- A card that answers every command, and never has data. -/
def silentCard : Answers := fun _ register =>
  match register with
  | .INTERRUPT => 0x00000021
  | .CONTROL1 => 0x00000002
  | .RESP0 => 0x80ff0020
  | _ => 0

theorem silentCard_beforeScr : ∃ ccs s₁, (beforeScr silentCard).run {} = .ok (some ccs) s₁ := by
  have hcomes : (match (beforeScr silentCard).run {} with
      | .ok (some _) _ => true
      | _ => false) = true := by decide +kernel
  split at hcomes
  · next ccs s₁ hrun => exact ⟨ccs, s₁, hrun⟩
  · cases hcomes

/-- With a card that never has data, `Init` does not return. -/
theorem not_bounded : ¬ Bounded := by
  intro h
  obtain ⟨bound, hbound⟩ := h.init
  obtain ⟨rounds, ok, s', hrun, -⟩ := hbound silentCard {}
  obtain ⟨ccs, s₁, hcomes⟩ := silentCard_beforeScr
  rcases init_returns silentCard rounds {} with ⟨hends, -⟩ | ⟨-, e, s₂, hstops⟩
  · obtain ⟨i, -, -, -, -, hready, -⟩ := hends ccs s₁ hcomes
    exact hready (by decide : (0 : BitVec 32) &&& srReadAvailable = 0)
  · rw [hrun] at hstops
    cases hstops

end Returning

end RPiKernel.SdCard
