import Mathlib.Data.List.GetD
import RPiKernel.Machine.ByteMemory
import RPiKernel.Stdio.Doprnt

/-!
# Printing into a buffer

`sprintf` and `snprintf` run the same formatter on the same sink, which drops what comes behind its
end. No character makes `prn_to_buf` return `EOF`, so that the formatter does not notice, and a
shorter buffer gets the first characters of a longer one.
-/

namespace RPiKernel.Stdio

open Machine

/-- The memory, and where the next character goes. -/
structure BufferState where
  m : Memory
  s : BitVec 64

/-- `prn_to_buf`. -/
def prnToBuf (bufEnd : BitVec 64) : Sink BufferState where
  putc c st := (c.toNat, if st.s < bufEnd then ⟨store8 st.m st.s c, st.s + 1⟩ else st)

section Functions

variable (strings : Strings) (m : Memory) (buf : BitVec 64)

/-- A call that prints into a buffer: the memory behind it, and the value returned. -/
def printToBuf (bufEnd : BitVec 64) (fmt : List UInt8) (args : VaList) : Option (Memory × Int) :=
  match doprnt (prnToBuf bufEnd) strings fmt args 0 ⟨m, buf⟩ with
  | .written _ st => some (store8 st.m st.s 0, ((st.s - buf).setWidth 32).toInt)
  | .eof st => some (store8 st.m st.s 0, ((st.s - buf).setWidth 32).toInt)
  | .undefined => none

/-- `sprintf`, with `UINTPTR_MAX` as the end of its buffer. -/
def sprintf (fmt : List UInt8) (args : VaList) : Option (Memory × Int) :=
  printToBuf strings m buf (BitVec.allOnes 64) fmt args

/-- `vsprintf`. -/
def vsprintf (fmt : List UInt8) (args : VaList) : Option (Memory × Int) :=
  printToBuf strings m buf (BitVec.allOnes 64) fmt args

/-- `snprintf`. -/
def snprintf (bufSize : BitVec 64) (fmt : List UInt8) (args : VaList) : Option (Memory × Int) :=
  if bufSize = 0 then some (m, 0) else printToBuf strings m buf (buf + bufSize - 1) fmt args

/-- `vsnprintf`. -/
def vsnprintf (bufSize : BitVec 64) (fmt : List UInt8) (args : VaList) : Option (Memory × Int) :=
  if bufSize = 0 then some (m, 0) else printToBuf strings m buf (buf + bufSize - 1) fmt args

end Functions

section

variable {strings : Strings} {m : Memory} {buf bufEnd : BitVec 64}

/-- The state of a buffer that has been given some characters. -/
def bufferState (m : Memory) (buf bufEnd : BitVec 64) (text : List UInt8) : BufferState :=
  let n := min text.length (offsetOf buf bufEnd)
  ⟨overlay m buf n fun k => text.getD k 0, buf + BitVec.ofNat 64 n⟩

theorem bufferState_of_le {text : List UInt8} (h : text.length ≤ offsetOf buf bufEnd) :
    bufferState m buf bufEnd text =
      ⟨overlay m buf text.length fun k => text.getD k 0, buf + BitVec.ofNat 64 text.length⟩ := by
  rw [bufferState, Nat.min_eq_left h]

/-- A buffer that is full drops what comes. -/
theorem bufferState_append {text : List UInt8} (more : List UInt8)
    (h : offsetOf buf bufEnd ≤ text.length) :
    bufferState m buf bufEnd (text ++ more) = bufferState m buf bufEnd text := by
  have hmore : offsetOf buf bufEnd ≤ (text ++ more).length := by
    rw [List.length_append]
    exact h.trans (Nat.le_add_right _ _)
  rw [bufferState, bufferState, Nat.min_eq_right h, Nat.min_eq_right hmore]
  congr 1
  refine overlay_congr fun k hk => ?_
  exact List.getD_append text more 0 k (hk.trans_le h)

/-- The buffer goes along with the recorder. -/
theorem follows_prnToBuf (h : buf ≤ bufEnd) :
    recorder.Follows (prnToBuf bufEnd) (bufferState m buf bufEnd) := by
  intro c text
  have hroom : offsetOf buf bufEnd = bufEnd.toNat - buf.toNat := BitVec.toNat_sub_of_le h
  have hlast := bufEnd.isLt
  have hle : buf.toNat ≤ bufEnd.toNat := h
  refine Prod.ext rfl ?_
  change (if (bufferState m buf bufEnd text).s < bufEnd then _ else _) =
    bufferState m buf bufEnd (text ++ [c])
  obtain hlt | hge := Nat.lt_or_ge text.length (offsetOf buf bufEnd)
  · have hnext : buf + BitVec.ofNat 64 text.length < bufEnd := by
      rw [BitVec.lt_def, BitVec.toNat_add, BitVec.toNat_ofNat]
      omega
    have happend : (text ++ [c]).length ≤ offsetOf buf bufEnd := by
      rw [List.length_append]
      exact hlt
    rw [bufferState_of_le hlt.le, bufferState_of_le happend, if_pos hnext, List.length_append]
    congr 1
    · rw [List.length_singleton, ← overlay_succ m buf _ (hlt.trans (offsetOf_lt buf bufEnd)),
        List.getD_append_right _ _ _ _ le_rfl, Nat.sub_self]
      congr 1
      exact overlay_congr fun k hk => (List.getD_append text [c] 0 k hk).symm
    · exact add_add buf text.length 1
  · have hfull : ¬(bufferState m buf bufEnd text).s < bufEnd := by
      rw [bufferState, Nat.min_eq_right hge, add_offsetOf]
      exact BitVec.lt_irrefl bufEnd
    rw [if_neg hfull, bufferState_append [c] hge]

/-- A call returns a number of characters, and has written them with a zero behind them, and
nothing else. -/
def Prints (m : Memory) (buf : BitVec 64) (text : List UInt8) (r : Option (Memory × Int)) : Prop :=
  ∃ m', r = some (m', (text.length : Int)) ∧
    Replaces m m' buf (text.length + 1) fun k => (text ++ [0]).getD k 0

theorem toInt_setWidth_of_lt {n : Nat} (h : n < 2 ^ 31) :
    ((BitVec.ofNat 64 n).setWidth 32).toInt = n := by
  have hnat : ((BitVec.ofNat 64 n).setWidth 32).toNat = n := by
    rw [BitVec.toNat_setWidth, BitVec.toNat_ofNat]
    omega
  rw [BitVec.toInt_eq_toNat_of_lt (by rw [hnat]; omega), hnat]

/-- Where `PrintToBuf` starts. -/
theorem bufferState_nil : bufferState m buf bufEnd [] = ⟨m, buf⟩ := by
  rw [bufferState_of_le (Nat.zero_le _), List.length_nil, overlay_zero, BitVec.add_zero]

/-- A call whose formatter prints some characters. -/
theorem prints_printToBuf {fmt text : List UInt8} {args : VaList} {n : Int} (h : buf ≤ bufEnd)
    (hrun : doprnt recorder strings fmt args 0 [] = .written n text)
    (hfits : text.length < 2 ^ 31) :
    Prints m buf (text.take (offsetOf buf bufEnd)) (printToBuf strings m buf bufEnd fmt args) := by
  have hcall : printToBuf strings m buf bufEnd fmt args =
      some (store8 (bufferState m buf bufEnd text).m (bufferState m buf bufEnd text).s 0,
        (((bufferState m buf bufEnd text).s - buf).setWidth 32).toInt) := by
    rw [printToBuf, ← bufferState_nil, doprnt_map (follows_prnToBuf h), hrun]
    rfl
  generalize hkept : text.take (offsetOf buf bufEnd) = kept
  have hlength : kept.length = min text.length (offsetOf buf bufEnd) := by
    rw [← hkept, List.length_take, Nat.min_comm]
  have hstate : bufferState m buf bufEnd text =
      ⟨overlay m buf kept.length fun k => (kept ++ [0]).getD k 0,
        buf + BitVec.ofNat 64 kept.length⟩ := by
    rw [bufferState, ← hlength]
    congr 1
    refine overlay_congr fun k hk => ?_
    have hroom : k < offsetOf buf bufEnd := hk.trans_le (hlength ▸ Nat.min_le_right _ _)
    rw [List.getD_append kept [0] 0 k hk, ← hkept, List.getD_eq_getElem?_getD,
      List.getD_eq_getElem?_getD, List.getElem?_take_of_lt hroom]
  have hlast : (kept ++ [0]).getD kept.length 0 = 0 := by
    rw [List.getD_append_right _ _ _ _ le_rfl, Nat.sub_self]
    rfl
  refine ⟨_, ?_, replaces_overlay m buf (fun k => (kept ++ [0]).getD k 0) (by omega)⟩
  have hend := overlay_succ m buf (fun k => (kept ++ [0]).getD k 0)
    (by omega : kept.length < 2 ^ 64)
  rw [hlast] at hend
  rw [hcall, hstate]
  dsimp only
  rw [hend, BitVec.add_comm, BitVec.add_sub_cancel, toInt_setWidth_of_lt (by omega)]

/-- A call whose formatter overflows an `int`. -/
theorem printToBuf_undefined {fmt : List UInt8} {args : VaList} (h : buf ≤ bufEnd)
    (hrun : doprnt recorder strings fmt args 0 [] = .undefined) :
    printToBuf strings m buf bufEnd fmt args = none := by
  rw [printToBuf, ← bufferState_nil, doprnt_map (follows_prnToBuf h), hrun]
  rfl

/-- A call writes the first `bufSize - 1` characters of another one, or neither has a meaning. -/
def Truncates (m : Memory) (buf : BitVec 64) (bufSize : Nat)
    (full short : Option (Memory × Int)) : Prop :=
  full = none ∧ short = none ∨
    ∃ text, Prints m buf text full ∧ Prints m buf (text.take (bufSize - 1)) short

/-- A shorter buffer at the same address. -/
theorem truncates_printToBuf (fmt : List UInt8) (args : VaList) {bufSize : BitVec 64}
    (hsize : 1 ≤ bufSize.toNat) (hwrap : buf.toNat + bufSize.toNat < 2 ^ 64) :
    Truncates m buf bufSize.toNat (printToBuf strings m buf (BitVec.allOnes 64) fmt args)
      (printToBuf strings m buf (buf + bufSize - 1) fmt args) := by
  have hlast : (buf + bufSize - 1).toNat = buf.toNat + (bufSize.toNat - 1) := by
    have hsum : (buf + bufSize).toNat = buf.toNat + bufSize.toNat := by
      rw [BitVec.toNat_add, Nat.mod_eq_of_lt hwrap]
    have hle : 1 ≤ buf + bufSize := by
      rw [BitVec.le_def, hsum]
      exact hsize.trans (Nat.le_add_left _ _)
    rw [BitVec.toNat_sub_of_le hle, hsum]
    exact Nat.add_sub_assoc hsize _
  have hfull : buf ≤ BitVec.allOnes 64 := BitVec.le_def.mpr (Nat.le_sub_one_of_lt buf.isLt)
  have hshort : buf ≤ buf + bufSize - 1 := by
    rw [BitVec.le_def, hlast]
    exact Nat.le_add_right _ _
  have hroom : offsetOf buf (buf + bufSize - 1) = bufSize.toNat - 1 := by
    rw [offsetOf, BitVec.toNat_sub_of_le hshort, hlast, Nat.add_sub_cancel_left]
  have htop : offsetOf buf (BitVec.allOnes 64) = 2 ^ 64 - 1 - buf.toNat :=
    BitVec.toNat_sub_of_le hfull
  have hrun : Counted (doprnt recorder strings fmt args 0 []) :=
    @counted_doprnt strings fmt args [] (by decide)
  generalize houtput : doprnt recorder strings fmt args 0 [] = output at hrun
  cases hrun with
  | undefined =>
    exact .inl ⟨printToBuf_undefined hfull houtput, printToBuf_undefined hshort houtput⟩
  | @written text hfits =>
    have hlength : text.length < 2 ^ 31 := by omega
    refine .inr ⟨_, prints_printToBuf hfull houtput hlength, ?_⟩
    rw [List.take_take, Nat.min_eq_left (by omega), ← hroom]
    exact prints_printToBuf hshort houtput hlength

/-- `%d!`. -/
def numberFormat : List UInt8 := [ch '%', ch 'd', ch '!']

end

end RPiKernel.Stdio
