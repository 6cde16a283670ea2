import Mathlib.Tactic.IntervalCases
import RPiKernel.DeviceTree.Format
import RPiKernel.Machine.Loops

/-!
# The walk over the structure block

`parse_dtb` reads a word, and moves on by what the token takes: the name of a node takes
`(len + 4) / 4` words and the value of a property `(len + 3) / 4`. Both are what the format pads
to, so that the walk is at the start of a token whenever it reads one.

## Implementation notes

The walk is modelled from the addresses of the two blocks on, behind the output of the header. An
address is a natural number, and the second string of a comparison, a literal, the list of
its characters. What goes to the UART is the list of the numbers that it reports, without the texts
around them.
-/

namespace RPiKernel.DeviceTree

open Machine

/-- The bytes of the memory. -/
abbrev Blob := Nat → UInt8

section Code

variable (m : Blob)

/-- `*p` for a word, on a little-endian processor. -/
def load32 (p : Nat) : BitVec 32 :=
  (m (p + 3)).toBitVec.setWidth 32 <<< 24 ||| (m (p + 2)).toBitVec.setWidth 32 <<< 16 |||
    (m (p + 1)).toBitVec.setWidth 32 <<< 8 ||| (m p).toBitVec.setWidth 32

/-- `fdt32_to_cpu`. -/
def fdt32ToCpu (x : BitVec 32) : BitVec 32 :=
  ((x &&& 0xFF000000) >>> 24) ||| ((x &&& 0x00FF0000) >>> 8) ||| ((x &&& 0x0000FF00) <<< 8) |||
    ((x &&& 0x000000FF) <<< 24)

/-- `strlen`. -/
def strlen (s fuel : Nat) : Progress Nat :=
  (whileLoop (fun p => m p ≠ 0) (fun p => ⟨p + 1, true⟩) fuel s).map fun p => p - s

/-- `strcmp`. -/
def strcmp (s1 : Nat) : List UInt8 → Int
  | [] => (m s1).toNat
  | c :: s2 =>
      if m s1 ≠ 0 ∧ c ≠ 0 ∧ m s1 = c then
        strcmp (s1 + 1) s2
      else
        (m s1).toNat - c.toNat

/-- `strncmp`. -/
def strncmp (s1 : Nat) : List UInt8 → Nat → Int
  | _, 0 => 0
  | [], _ + 1 => (m s1).toNat
  | c :: s2, n + 1 =>
      if m s1 ≠ 0 ∧ c ≠ 0 ∧ m s1 = c then
        strncmp (s1 + 1) s2 n
      else
        (m s1).toNat - c.toNat

/-- The ways out of the walk. -/
inductive Exit
  | fdtEnd
  | memoryReg
  | unknownToken
  deriving DecidableEq

/-- What the walk reports. -/
inductive Finding
  | addressCells (cells : BitVec 32)
  | sizeCells (cells : BitVec 32)
  | memoryReservation (base size : BitVec 32)
  | memoryReg (len : BitVec 32)
  | memory (base size : BitVec 64)

/-- The variables of the walk, the words that it has read at the head of its loop, with their
addresses, and what it has reported. -/
structure WalkState where
  structBlock : Nat
  inRootNode : Bool := false
  inMemoryNode : Bool := false
  heads : List (Nat × BitVec 32) := []
  findings : List Finding := []
  exit : Option Exit := none

/-- The next word, in the order of the processor. -/
def readWord (p : Nat) : BitVec 32 := fdt32ToCpu (load32 m p)

/-- `#address-cells`. -/
def addressCellsName : List UInt8 :=
  [0x23, 0x61, 0x64, 0x64, 0x72, 0x65, 0x73, 0x73, 0x2D, 0x63, 0x65, 0x6C, 0x6C, 0x73]

/-- `#size-cells`. -/
def sizeCellsName : List UInt8 :=
  [0x23, 0x73, 0x69, 0x7A, 0x65, 0x2D, 0x63, 0x65, 0x6C, 0x6C, 0x73]

/-- `memreserve`. -/
def memreserveName : List UInt8 := [0x6D, 0x65, 0x6D, 0x72, 0x65, 0x73, 0x65, 0x72, 0x76, 0x65]

/-- `reg`. -/
def regName : List UInt8 := [0x72, 0x65, 0x67]

/-- What a property of the root or of a node for the memory reports. -/
def nodeFindings (propName value : Nat) : List Finding :=
  if strcmp m propName addressCellsName = 0 then
    [.addressCells (readWord m value)]
  else if strcmp m propName sizeCellsName = 0 then
    [.sizeCells (readWord m value)]
  else if strcmp m propName memreserveName = 0 then
    [.memoryReservation (readWord m value) (readWord m (value + 4))]
  else
    []

/-- The loop over the ranges of a `reg` property: the address of the value, the length that is
left, and what has been reported so far. -/
def rangeLoop (fuel value : Nat) (len : BitVec 32) (findings : List Finding) :
    Progress (Nat × BitVec 32 × List Finding) :=
  whileLoop (fun s => 12 ≤ s.2.1)
    (fun s =>
      let base := (readWord m s.1).setWidth 64 <<< 32 ||| (readWord m (s.1 + 4)).setWidth 64
      let size := (readWord m (s.1 + 8)).setWidth 64
      ⟨(s.1 + 12, s.2.1 - 12, s.2.2 ++ [.memory base size]), true⟩)
    fuel (value, len, findings)

/-- The branch for `FDT_BEGIN_NODE`. -/
def beginNodeStep (fuel : Nat) (w : WalkState) : Progress WalkState :=
  (strlen m w.structBlock fuel).map fun len =>
    { w with
      inRootNode := len = 0
      inMemoryNode := strncmp m w.structBlock memoryName 6 = 0
      structBlock := w.structBlock + 4 * ((len + 4) / 4) }

/-- The branch for `FDT_PROP`. -/
def propStep (strings fuel : Nat) (w : WalkState) : Progress WalkState :=
  let len := readWord m w.structBlock
  let nameoff := readWord m (w.structBlock + 4)
  let propName := strings + nameoff.toNat
  let value := w.structBlock + 8
  let findings :=
    if w.inRootNode || w.inMemoryNode then
      w.findings ++ nodeFindings m propName value
    else
      w.findings
  if w.inMemoryNode && strcmp m propName regName = 0 then
    (rangeLoop m fuel value len (findings ++ [.memoryReg len])).map fun s =>
      { w with structBlock := value, findings := s.2.2, exit := some .memoryReg }
  else
    ⟨{ w with structBlock := value + 4 * ((len + 3).toNat / 4), findings }, true⟩

/-- `*struct_block++`, at the head of the loop. -/
def WalkState.next (w : WalkState) (token : BitVec 32) : WalkState :=
  { w with structBlock := w.structBlock + 4, heads := w.heads ++ [(w.structBlock, token)] }

/-- The body of the loop of `parse_dtb`. -/
def walkStep (strings fuel : Nat) (w : WalkState) : Progress WalkState :=
  let token := readWord m w.structBlock
  let w := w.next token
  if token = 1 then
    beginNodeStep m fuel w
  else if token = 2 then
    ⟨{ w with inRootNode := false, inMemoryNode := false }, true⟩
  else if token = 3 then
    propStep m strings fuel w
  else if token = 9 then
    ⟨{ w with exit := some .fdtEnd }, true⟩
  else if token = 4 then
    ⟨w, true⟩
  else
    ⟨{ w with exit := some .unknownToken }, true⟩

/-- The walk of `parse_dtb`. -/
def walk (strings structBlock fuel : Nat) : Progress WalkState :=
  whileLoop (fun w => w.exit.isNone) (walkStep m strings fuel) fuel { structBlock }

end Code

section Memory

variable {m : Blob}

/-- The memory holds some bytes from an address on. -/
def Holds (m : Blob) : Nat → List UInt8 → Prop
  | _, [] => True
  | p, b :: bytes => m p = b ∧ Holds m (p + 1) bytes

instance decidableHolds : ∀ (p : Nat) (bytes : List UInt8), Decidable (Holds m p bytes)
  | _, [] => isTrue trivial
  | p, _ :: bytes => @instDecidableAnd _ _ _ (decidableHolds (p + 1) bytes)

theorem holds_append_iff {p : Nat} {first more : List UInt8} :
    Holds m p (first ++ more) ↔ Holds m p first ∧ Holds m (p + first.length) more := by
  induction first generalizing p with
  | nil => exact ⟨fun h => ⟨trivial, h⟩, fun h => h.2⟩
  | cons b first ih =>
    rw [List.cons_append, Holds, Holds, ih, and_assoc, List.length_cons, Nat.add_assoc,
      Nat.add_comm 1]

/-- The bytes of a word in the other order. -/
theorem getLsbD_fdt32ToCpu (x : BitVec 32) {i : Nat} (hi : i < 32) :
    (fdt32ToCpu x).getLsbD i = x.getLsbD (8 * (3 - i / 8) + i % 8) := by
  rw [fdt32ToCpu]
  interval_cases i <;> simp

/-- Reading a big-endian word. -/
theorem readWord_bigEndian {p : Nat} {word : BitVec 32} (h : Holds m p (bigEndian word)) :
    readWord m p = word := by
  obtain ⟨h0, h1, h2, h3, -⟩ := h
  rw [readWord, load32, h0, h1, h2, h3]
  refine BitVec.eq_of_getLsbD_eq fun i hi => ?_
  rw [getLsbD_fdt32ToCpu _ hi]
  interval_cases i <;> simp

/-- The loop of `strlen`, from a character on. -/
theorem strlenLoop_eq {p fuel : Nat} {bytes : List UInt8} (hbytes : 0 ∉ bytes)
    (h : Holds m p (bytes ++ [0])) (hfuel : bytes.length < fuel) :
    whileLoop (fun p => m p ≠ 0) (fun p => ⟨p + 1, true⟩) fuel p = ⟨p + bytes.length, true⟩ := by
  obtain ⟨fuel, rfl⟩ : ∃ more, fuel = more + 1 := ⟨fuel - 1, by omega⟩
  induction bytes generalizing p fuel with
  | nil => exact whileLoop_of_not (decide_eq_false (not_not.mpr h.1))
  | cons b bytes ih =>
    obtain ⟨hb, hbytes⟩ := not_or.mp (mt List.mem_cons.mpr hbytes)
    obtain ⟨fuel, rfl⟩ : ∃ more, fuel = more + 1 := by
      rw [List.length_cons] at hfuel
      exact ⟨fuel - 1, by omega⟩
    rw [whileLoop, if_pos (decide_eq_true (h.1 ▸ Ne.symm hb)), Progress.andThen, if_pos rfl,
      ih hbytes h.2 fuel (by rw [List.length_cons] at hfuel; omega), List.length_cons,
      Nat.add_assoc,
      Nat.add_comm 1]

/-- The length of a string in memory. -/
theorem strlen_eq {s fuel : Nat} {name : CString} (h : Holds m s (name.bytes ++ [0]))
    (hfuel : name.bytes.length < fuel) : strlen m s fuel = ⟨name.bytes.length, true⟩ := by
  rw [strlen, strlenLoop_eq name.noNul h hfuel, Progress.map, Nat.add_sub_cancel_left]

theorem toNat_sub_ne_zero {b c : UInt8} (h : b ≠ c) : (b.toNat : Int) - c.toNat ≠ 0 := by
  rw [ne_eq, ← UInt8.toNat_inj] at h
  omega

/-- The comparison with the first characters of a string in memory. -/
theorem strncmp_eq_zero_iff_isPrefixOf {s : Nat} {bytes first : List UInt8} (hbytes : 0 ∉ bytes)
    (hfirst : 0 ∉ first) (h : Holds m s (bytes ++ [0])) :
    strncmp m s first first.length = 0 ↔ first.isPrefixOf bytes = true := by
  induction first generalizing s bytes with
  | nil => exact iff_of_true rfl (List.isPrefixOf_nil_left ..)
  | cons c first ih =>
    obtain ⟨hc, hfirst⟩ := not_or.mp (mt List.mem_cons.mpr hfirst)
    rw [List.length_cons, strncmp]
    cases bytes with
    | nil =>
      rw [if_neg fun hand => hand.1 h.1]
      exact iff_of_false (toNat_sub_ne_zero (h.1 ▸ hc)) Bool.false_ne_true
    | cons b bytes =>
      obtain ⟨hb, hbytes⟩ := not_or.mp (mt List.mem_cons.mpr hbytes)
      rw [h.1, List.isPrefixOf, Bool.and_eq_true, beq_iff_eq]
      by_cases heq : b = c
      · rw [if_pos ⟨Ne.symm hb, Ne.symm hc, heq⟩, ih hbytes hfirst h.2, and_iff_right heq.symm]
      · rw [if_neg fun hand => heq hand.2.2]
        exact iff_of_false (toNat_sub_ne_zero heq) fun hand => heq hand.1.symm

theorem strncmp_eq_zero_iff {s : Nat} {name : CString} (h : Holds m s (name.bytes ++ [0])) :
    strncmp m s memoryName 6 = 0 ↔ isMemoryName name = true :=
  strncmp_eq_zero_iff_isPrefixOf name.noNul (by decide) h

/-- The comparison with a string in memory. -/
theorem strcmp_eq_zero_iff {s : Nat} {bytes : List UInt8} (hbytes : 0 ∉ bytes) :
    strcmp m s bytes = 0 ↔ Holds m s (bytes ++ [0]) := by
  induction bytes generalizing s with
  | nil =>
    rw [strcmp, List.nil_append, Holds, Holds, and_true, ← UInt8.toNat_inj]
    exact Int.natCast_eq_zero
  | cons c bytes ih =>
    obtain ⟨hc, hbytes⟩ := not_or.mp (mt List.mem_cons.mpr hbytes)
    rw [strcmp, List.cons_append, Holds]
    by_cases heq : m s = c
    · rw [if_pos ⟨heq ▸ Ne.symm hc, Ne.symm hc, heq⟩, ih hbytes, and_iff_right heq]
    · rw [if_neg fun hand => heq hand.2.2]
      exact iff_of_false (toNat_sub_ne_zero heq) fun hand => heq hand.1

end Memory

section Steps

variable {m : Blob} {strings fuel : Nat} {w : WalkState}

/-- The name at the offset is `reg`. -/
def isReg (m : Blob) (strings : Nat) (nameoff : BitVec 32) : Bool :=
  decide (Holds m (strings + nameoff.toNat) (regName ++ [0]))

theorem strcmp_regName (nameoff : BitVec 32) :
    decide (strcmp m (strings + nameoff.toNat) regName = 0) = isReg m strings nameoff :=
  decide_eq_decide.mpr (strcmp_eq_zero_iff (by decide))

/-- The loop over the ranges ends. -/
theorem rangeLoop_ended {value : Nat} {len : BitVec 32} {findings : List Finding}
    (hfuel : len.toNat < fuel) : (rangeLoop m fuel value len findings).ended = true := by
  refine whileLoop_ended (I := fun _ => True) (fun s => s.2.1.toNat) ?_ trivial hfuel
  intro s _ hguard
  have hle : 12 ≤ s.2.1 := of_decide_eq_true hguard
  refine ⟨trivial, rfl, ?_⟩
  rw [BitVec.toNat_sub_of_le hle]
  exact Nat.sub_lt_of_pos_le (by decide) hle

/-- The way out of the walk at a token. -/
def Token.exit (m : Blob) (strings : Nat) (inMemory : Bool) (t : Token) : Option Exit :=
  if t.stops (isReg m strings) inMemory then
    some .memoryReg
  else
    match t with
    | .fdtEnd => some .fdtEnd
    | _ => none

/-- What a round does at a token: it ends, it has read the word of the token, and if it does not
leave the walk it is at the end of the token. -/
structure Token.Step (m : Blob) (strings : Nat) (t : Token) (w : WalkState)
    (next : Progress WalkState) : Prop where
  ended : next.ended = true
  heads : next.state.heads = w.heads ++ [(w.structBlock, t.code)]
  exit : next.state.exit = t.exit m strings w.inMemoryNode
  structBlock : next.state.exit = none → next.state.structBlock = w.structBlock + t.size
  inMemoryNode : next.state.inMemoryNode = t.after w.inMemoryNode

theorem walkStep_beginNode (h : readWord m w.structBlock = 1) :
    walkStep m strings fuel w = beginNodeStep m fuel (w.next 1) := by
  rw [walkStep, h]
  rfl

theorem walkStep_prop (h : readWord m w.structBlock = 3) :
    walkStep m strings fuel w = propStep m strings fuel (w.next 3) := by
  rw [walkStep, h]
  rfl

theorem step_beginNode {name : CString} (h : Holds m w.structBlock (Token.beginNode name).encode)
    (hexit : w.exit = none) (hfuel : (Token.beginNode name).size < fuel) :
    (Token.beginNode name).Step m strings w (walkStep m strings fuel w) := by
  obtain ⟨hcode, hname⟩ := holds_append_iff.mp h
  rw [Token.payload, padded, holds_append_iff, length_bigEndian] at hname
  have hlen : name.bytes.length < fuel := by
    rw [size_beginNode] at hfuel
    omega
  have hmemory : decide (strncmp m (w.structBlock + 4) memoryName 6 = 0) = isMemoryName name :=
    Bool.eq_iff_iff.mpr (decide_eq_true_iff.trans (strncmp_eq_zero_iff hname.1))
  rw [walkStep_beginNode (readWord_bigEndian hcode), beginNodeStep, WalkState.next,
    strlen_eq hname.1 hlen, Progress.map]
  exact ⟨rfl, rfl, hexit, fun _ => by rw [size_beginNode, Nat.add_assoc], hmemory⟩

theorem step_prop {nameoff : BitVec 32} {value : List UInt8}
    (h : Holds m w.structBlock (Token.prop nameoff value).encode) (hexit : w.exit = none)
    (hfuel : (Token.prop nameoff value).size < fuel)
    (hsize : (Token.prop nameoff value).size < 2 ^ 32) :
    (Token.prop nameoff value).Step m strings w (walkStep m strings fuel w) := by
  obtain ⟨hcode, hrest⟩ := holds_append_iff.mp h
  rw [Token.payload, List.append_assoc, holds_append_iff, holds_append_iff, length_bigEndian,
    length_bigEndian, length_bigEndian] at hrest
  obtain ⟨hlen, hnameoff, hvalue⟩ := hrest
  rw [size_prop] at hfuel hsize
  have hnat : (BitVec.ofNat 32 value.length).toNat = value.length := by
    rw [BitVec.toNat_ofNat, Nat.mod_eq_of_lt (by omega)]
  have hround : (BitVec.ofNat 32 value.length + 3).toNat = value.length + 3 := by
    rw [BitVec.toNat_add, hnat]
    change (value.length + 3) % 2 ^ 32 = value.length + 3
    exact Nat.mod_eq_of_lt (by omega)
  rw [walkStep_prop (readWord_bigEndian hcode), propStep, WalkState.next,
    readWord_bigEndian hlen, readWord_bigEndian hnameoff, strcmp_regName, hround]
  cases hreg : w.inMemoryNode && isReg m strings nameoff with
  | true =>
    have hstops : (Token.prop nameoff value).exit m strings w.inMemoryNode = some .memoryReg :=
      if_pos hreg
    rw [if_pos rfl, Progress.map]
    refine ⟨rangeLoop_ended (by omega), rfl, hstops.symm, fun hnone => ?_, rfl⟩
    exact absurd hnone (Option.some_ne_none _)
  | false =>
    have hgoes : (Token.prop nameoff value).exit m strings w.inMemoryNode = none :=
      if_neg (ne_true_of_eq_false hreg)
    rw [if_neg Bool.false_ne_true]
    refine ⟨rfl, rfl, hexit.trans hgoes.symm, fun _ => ?_, rfl⟩
    rw [size_prop]
    dsimp only
    omega

theorem step_endNode (h : Holds m w.structBlock Token.endNode.encode) (hexit : w.exit = none) :
    Token.endNode.Step m strings w (walkStep m strings fuel w) := by
  have hstep : walkStep m strings fuel w =
      ⟨{ w.next 2 with inRootNode := false, inMemoryNode := false }, true⟩ := by
    rw [walkStep, readWord_bigEndian (holds_append_iff.mp h).1]
    rfl
  rw [hstep]
  exact ⟨rfl, rfl, hexit, fun _ => rfl, rfl⟩

theorem step_nop (h : Holds m w.structBlock Token.nop.encode) (hexit : w.exit = none) :
    Token.nop.Step m strings w (walkStep m strings fuel w) := by
  have hstep : walkStep m strings fuel w = ⟨w.next 4, true⟩ := by
    rw [walkStep, readWord_bigEndian (holds_append_iff.mp h).1]
    rfl
  rw [hstep]
  exact ⟨rfl, rfl, hexit, fun _ => rfl, rfl⟩

theorem step_fdtEnd (h : Holds m w.structBlock Token.fdtEnd.encode) :
    Token.fdtEnd.Step m strings w (walkStep m strings fuel w) := by
  have hstep : walkStep m strings fuel w = ⟨{ w.next 9 with exit := some .fdtEnd }, true⟩ := by
    rw [walkStep, readWord_bigEndian (holds_append_iff.mp h).1]
    rfl
  rw [hstep]
  exact ⟨rfl, rfl, rfl, fun hnone => absurd hnone (Option.some_ne_none _), rfl⟩

/-- A round at the start of a token. -/
theorem walkStep_of_holds {t : Token} (h : Holds m w.structBlock t.encode) (hexit : w.exit = none)
    (hfuel : t.size < fuel) (hsize : t.size < 2 ^ 32) :
    t.Step m strings w (walkStep m strings fuel w) :=
  match t with
  | .beginNode _ => step_beginNode h hexit hfuel
  | .endNode => step_endNode h hexit
  | .prop _ _ => step_prop h hexit hfuel hsize
  | .nop => step_nop h hexit
  | .fdtEnd => step_fdtEnd h

end Steps

end RPiKernel.DeviceTree
