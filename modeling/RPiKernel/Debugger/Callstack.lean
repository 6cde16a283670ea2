import RPiKernel.Linked.Chain
import RPiKernel.Machine.Stateful
import RPiKernel.Machine.Strings

/-!
# Printing the call stack

`RawPrintCallstack` follows the frame records from the frame pointer on. It is to print a line for
each of them, up to the record that has no record behind it.

## Implementation notes

The memory is given by the eight bytes that stand at each address. The text is what the stream has
been given; a stream that is not locked takes none.
-/

namespace RPiKernel.Debugger

open Linked Machine

/-- How a call ends that does not return. -/
inductive StackFault where
  | diverged
  | nullDereference
  deriving DecidableEq

/-- The eight bytes at each address. -/
abbrev Words := BitVec 64 → BitVec 64

/-- The two words of a frame record. -/
abbrev Frame := BitVec 64 × BitVec 64

/-- `PutHex` of a 64-bit value: `i` is the shift of the digit. -/
def putHex (value : BitVec 64) : List UInt8 :=
  ch '0' :: ch 'x' :: (List.range 16).reverse.flatMap fun k =>
    let i := 4 * k
    let digit := digitChar true ((value >>> i).toNat % 16)
    if i > 0 ∧ i % 16 = 0 then [digit, 0x27] else [digit]

/-- What is printed for a record. -/
def line (frame : Frame) : List UInt8 :=
  putHex frame.1 ++ [ch ' '] ++ putHex frame.2 ++ [ch '\n']

def title : List UInt8 := "Call Stack:\n".toList.map ch

/-- `Puts` of a stream. -/
def puts (locked : Bool) (text : List UInt8) : EStateM StackFault (List UInt8) Unit :=
  if locked then modify (· ++ text) else pure ()

/-- The record at an address. -/
def readFrame (memory : Words) (fp : BitVec 64) : EStateM StackFault (List UInt8) Frame :=
  if fp = 0 then throw .nullDereference else pure (memory fp, memory (fp + 8))

/-- The loop of `RawPrintCallstack`. -/
def printFrames (memory : Words) (locked : Bool) :
    Nat → BitVec 64 → EStateM StackFault (List UInt8) Unit
  | 0, _ => throw .diverged
  | fuel + 1, fp => do
      let frame ← readFrame memory fp
      let fp := frame.1
      if fp ≠ 0 then
        return
      puts locked (line frame)
      printFrames memory locked fuel fp

/-- `RawPrintCallstack`, from the frame pointer in `x29`. -/
def rawPrintCallstack (memory : Words) (locked : Bool) (fuel : Nat) (fp : BitVec 64) :
    EStateM StackFault (List UInt8) Unit := do
  puts locked title
  printFrames memory locked fuel fp

/-- The records of a finite chain, the last one of which has a saved frame pointer of zero. -/
def FrameChain (memory : Words) (fp : BitVec 64) (frames : List Frame) : Prop :=
  ∃ places, Chain memory 0 fp places ∧ places ≠ [] ∧
    frames = places.map fun place => (memory place, memory (place + 8))

/-- The call returns and has printed a line for each record in order. -/
def PrintsChain (memory : Words) (locked : Bool) (fp : BitVec 64) (frames : List Frame) : Prop :=
  ∃ fuel, (rawPrintCallstack memory locked fuel fp).run [] =
    .ok () (title ++ frames.flatMap line)

section Chain

variable {memory : Words} {locked : Bool} {fp : BitVec 64} {frames : List Frame} {fuel : Nat}
  {text : List UInt8}

theorem FrameChain.fp_ne_zero (h : FrameChain memory fp frames) : fp ≠ 0 := by
  obtain ⟨places, hchain, hplaces, -⟩ := h
  exact hchain.nil_iff.not.mp hplaces

theorem run_readFrame (hfp : fp ≠ 0) :
    (readFrame memory fp).run text = .ok (memory fp, memory (fp + 8)) text := by
  rw [readFrame, if_neg hfp]
  rfl

/-- The exit test ends the loop at every record but the last one. -/
theorem run_printFrames_of_saved (hfp : fp ≠ 0) (hsaved : memory fp ≠ 0) :
    (printFrames memory locked (fuel + 1) fp).run text = .ok () text := by
  rw [printFrames, run_bind_ok (run_readFrame hfp), if_pos hsaved]
  rfl

/-- Behind the last record the loop goes on from the saved frame pointer, which is null. -/
theorem run_printFrames_of_last (hfp : fp ≠ 0) (hlast : memory fp = 0) {s : List UInt8} :
    (printFrames memory locked fuel fp).run text ≠ .ok () s := by
  intro hrun
  cases fuel with
  | zero => cases hrun
  | succ fuel =>
    rw [printFrames, run_bind_ok (run_readFrame hfp), if_neg (not_not.mpr hlast)] at hrun
    obtain ⟨_, text', -, hrest⟩ := exists_of_run_bind hrun
    cases fuel with
    | zero => cases hrest
    | succ fuel =>
      rw [hlast, printFrames, readFrame, if_pos rfl] at hrest
      cases hrest

theorem run_puts : (puts locked text).run [] = .ok () (if locked then text else []) := by
  rw [puts]
  split <;> rfl

theorem line_ne_nil (frame : Frame) : line frame ≠ [] := List.cons_ne_nil _ _

/-- A chain has a line to be printed. -/
theorem FrameChain.lines_ne_nil (h : FrameChain memory fp frames) : frames.flatMap line ≠ [] := by
  obtain ⟨places, -, hplaces, rfl⟩ := h
  obtain ⟨place, rest, rfl⟩ := List.exists_cons_of_ne_nil hplaces
  rw [List.map_cons, List.flatMap_cons]
  exact List.append_ne_nil_of_left_ne_nil (line_ne_nil _) _

/-- No chain is printed: the title is all that the records before the last one leave, and the call
does not return from a last one. -/
theorem not_printsChain (h : FrameChain memory fp frames) :
    ¬ PrintsChain memory locked fp frames := by
  rintro ⟨fuel, hrun⟩
  rw [rawPrintCallstack, run_bind_ok run_puts] at hrun
  by_cases hlast : memory fp = 0
  · exact run_printFrames_of_last h.fp_ne_zero hlast hrun
  · cases fuel with
    | zero => cases hrun
    | succ fuel =>
      rw [run_printFrames_of_saved h.fp_ne_zero hlast] at hrun
      injection hrun with _ htext
      have hlength : (if locked then title else []).length ≤ title.length := by
        split
        · exact Nat.le_refl _
        · exact Nat.zero_le _
      rw [htext, List.length_append] at hlength
      have hlines := List.length_pos_iff.mpr h.lines_ne_nil
      omega

end Chain

/-- Two records, the first one at 16 and the second one at 32. -/
def twoFrames : Words := fun place => if place = 16 then 32 else 0

theorem frameChain_twoFrames : FrameChain twoFrames 16 [(32, 0), (0, 0)] :=
  ⟨[16, 32], .link (by decide) (.link (by decide) .done), List.cons_ne_nil _ _, rfl⟩

theorem not_printsChain_twoFrames : ¬ PrintsChain twoFrames true 16 [(32, 0), (0, 0)] :=
  not_printsChain frameChain_twoFrames

/-- The chain of two records is finite and ends as it should, and the call prints none of it. -/
theorem twoFrames_not_walked :
    FrameChain twoFrames 16 [(32, 0), (0, 0)] ∧
      (rawPrintCallstack twoFrames true 2 16).run [] = .ok () title ∧
        ¬ PrintsChain twoFrames true 16 [(32, 0), (0, 0)] := by
  refine ⟨frameChain_twoFrames, rfl, ?_⟩
  rintro ⟨fuel, hrun⟩
  cases fuel with
  | zero => cases hrun
  | succ fuel =>
    have hends : (rawPrintCallstack twoFrames true (fuel + 1) 16).run [] = .ok () title := rfl
    rw [hends] at hrun
    injection hrun with _ htext
    exact absurd htext (by decide)

end RPiKernel.Debugger
