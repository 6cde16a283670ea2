import RPiKernel.DeviceTree.Ranges
import RPiKernel.DeviceTree.TokenSync

/-!
# What is reported of the memory

`parse_dtb` reports the reserved ranges, from their block, and the ranges of the first `reg` that
its walk comes to in a node whose name starts with `memory`. The reserved ranges are printed in the
order of the processor, up to the first one whose address or size is zero, and every `reg` is taken
for one with two cells for the address and one for the size.

## Implementation notes

A tree is given by the parts that the memory facts come from: the properties of its root, what
stands in the root before the first node for the memory, and the `reg` of that node.
-/

namespace RPiKernel.DeviceTree

open Machine

/-- `FDT_MAGIC`. -/
def fdtMagic : BitVec 32 := 0xd00dfeed

/-- Why a blob is refused. -/
inductive Refusal
  | noDeviceTree
  | invalidMagic
  deriving DecidableEq

/-- What `parse_dtb` reports. -/
structure DtbReport where
  refused : Option Refusal := none
  header : List (BitVec 32) := []
  reservations : List (BitVec 64 × BitVec 64) := []
  walk : Option WalkState := none

/-- The fields of the header, in the order in which they are printed. -/
def headerOffsets : List Nat := [4, 8, 12, 20, 24, 28, 32, 36, 16]

def offDtStruct : Nat := 8

def offDtStrings : Nat := 12

def offMemRsvmap : Nat := 16

section Code

variable (m : Blob)

/-- `*p` for a double word, on a little-endian processor. -/
def load64 (p : Nat) : BitVec 64 :=
  (load32 m (p + 4)).setWidth 64 <<< 32 ||| (load32 m p).setWidth 64

/-- The condition of the loop over the reservation block, at a place in it. -/
def moreReservations (s : Nat × List (BitVec 64 × BitVec 64)) : Bool :=
  load64 m s.1 ≠ 0 ∧ load64 m (s.1 + 8) ≠ 0

/-- The body of that loop. -/
def printReservation (s : Nat × List (BitVec 64 × BitVec 64)) :
    Progress (Nat × List (BitVec 64 × BitVec 64)) :=
  ⟨(s.1 + 16, s.2 ++ [(load64 m s.1, load64 m (s.1 + 8))]), true⟩

/-- The loop over the reservation block. -/
def reservationLoop (fuel memRsvmap : Nat) : Progress (Nat × List (BitVec 64 × BitVec 64)) :=
  whileLoop (moreReservations m) (printReservation m) fuel (memRsvmap, [])

/-- `parse_dtb`. -/
def parseDtb (dtb fuel : Nat) : Progress DtbReport :=
  if dtb = 0 then
    ⟨{ refused := some .noDeviceTree }, true⟩
  else if readWord m dtb ≠ fdtMagic then
    ⟨{ refused := some .invalidMagic }, true⟩
  else
    let report : DtbReport :=
      { header := headerOffsets.map fun offset => readWord m (dtb + offset) }
    let reserved : Progress DtbReport :=
      if load32 m (dtb + offMemRsvmap) ≠ 0 then
        (reservationLoop m fuel (dtb + (readWord m (dtb + offMemRsvmap)).toNat)).map
          fun s => { report with reservations := s.2 }
      else
        ⟨report, true⟩
    reserved.andThen fun report =>
      (walk m (dtb + (readWord m (dtb + offDtStrings)).toNat)
        (dtb + (readWord m (dtb + offDtStruct)).toNat) fuel).map
          fun w => { report with walk := some w }

end Code

/-- The ranges of memory among what a walk reports. -/
def memoryRanges (findings : List Finding) : List (BitVec 64 × BitVec 64) :=
  findings.filterMap fun finding =>
    match finding with
    | .memory base size => some (base, size)
    | _ => none

/-- A big-endian double word. -/
def bigEndian64 (value : BitVec 64) : List UInt8 :=
  bigEndian (value.extractLsb' 32 32) ++ bigEndian (value.extractLsb' 0 32)

/-- An entry of the reservation block. -/
def encodeEntry (entry : BitVec 64 × BitVec 64) : List UInt8 :=
  bigEndian64 entry.1 ++ bigEndian64 entry.2

/-- A double word with its bytes in the other order. -/
def byteReversed (value : BitVec 64) : BitVec 64 :=
  cellsValue [fdt32ToCpu (value.extractLsb' 0 32), fdt32ToCpu (value.extractLsb' 32 32)]

section Swap

variable {m : Blob} {p : Nat} {x : BitVec 32} {value : BitVec 64}

theorem fdt32ToCpu_fdt32ToCpu (x : BitVec 32) : fdt32ToCpu (fdt32ToCpu x) = x := by
  refine BitVec.eq_of_getLsbD_eq fun i hi => ?_
  rw [getLsbD_fdt32ToCpu _ hi, getLsbD_fdt32ToCpu _ (by omega)]
  congr 1
  omega

theorem fdt32ToCpu_eq_zero_iff : fdt32ToCpu x = 0 ↔ x = 0 := by
  constructor
  · intro h
    rw [← fdt32ToCpu_fdt32ToCpu x, h]
    rfl
  · rintro rfl
    rfl

theorem load32_bigEndian (h : Holds m p (bigEndian x)) : load32 m p = fdt32ToCpu x := by
  rw [← readWord_bigEndian h, readWord, fdt32ToCpu_fdt32ToCpu]

/-- Reading a big-endian double word in the order of the processor. -/
theorem load64_bigEndian64 (h : Holds m p (bigEndian64 value)) :
    load64 m p = byteReversed value := by
  obtain ⟨hhigh, hlow⟩ := holds_append_iff.mp h
  rw [length_bigEndian] at hlow
  rw [load64, load32_bigEndian hhigh, load32_bigEndian hlow, byteReversed, cellsValue_two]

theorem byteReversed_eq_zero_iff : byteReversed value = 0 ↔ value = 0 := by
  have hzero : (0 : BitVec 64).toNat = 0 := rfl
  have hhalves : byteReversed value = 0 ↔
      (fdt32ToCpu (value.extractLsb' 0 32)).toNat = 0 ∧
        (fdt32ToCpu (value.extractLsb' 32 32)).toNat = 0 := by
    rw [byteReversed, ← BitVec.toNat_inj, toNat_cellsValue_two, hzero]
    omega
  have hword : ∀ x : BitVec 32, (fdt32ToCpu x).toNat = 0 ↔ x.toNat = 0 := fun x =>
    BitVec.toNat_inj.trans (fdt32ToCpu_eq_zero_iff.trans BitVec.toNat_inj.symm)
  have hlt := value.isLt
  rw [hhalves, hword, hword, BitVec.extractLsb'_toNat, BitVec.extractLsb'_toNat,
    ← BitVec.toNat_inj, hzero, Nat.shiftRight_eq_div_pow, Nat.shiftRight_eq_div_pow]
  omega

end Swap

/-- The reservation loop goes on at an entry. -/
def goesOn (entry : BitVec 64 × BitVec 64) : Bool := entry.1 ≠ 0 ∧ entry.2 ≠ 0

/-- An entry as it is printed. -/
def swapEntry (entry : BitVec 64 × BitVec 64) : BitVec 64 × BitVec 64 :=
  (byteReversed entry.1, byteReversed entry.2)

/-- An entry that is printed as it is. -/
def PrintsWell (entry : BitVec 64 × BitVec 64) : Prop :=
  entry.1 ≠ 0 ∧ entry.2 ≠ 0 ∧ byteReversed entry.1 = entry.1 ∧ byteReversed entry.2 = entry.2

section Reservations

variable {m : Blob} {p fuel : Nat} {entry : BitVec 64 × BitVec 64}
  {entries found : List (BitVec 64 × BitVec 64)}

theorem length_encodeEntry : (encodeEntry entry).length = 16 := rfl

/-- What the loop does at an entry. -/
theorem reservation_at (h : Holds m p (encodeEntry entry)) :
    moreReservations m (p, found) = goesOn entry ∧
      printReservation m (p, found) = ⟨(p + 16, found ++ [swapEntry entry]), true⟩ := by
  obtain ⟨hfirst, hsecond⟩ := holds_append_iff.mp h
  have hlength : (bigEndian64 entry.1).length = 8 := rfl
  rw [hlength] at hsecond
  rw [moreReservations, printReservation, load64_bigEndian64 hfirst, load64_bigEndian64 hsecond]
  refine ⟨decide_eq_decide.mpr ?_, rfl⟩
  exact and_congr byteReversed_eq_zero_iff.not byteReversed_eq_zero_iff.not

/-- The loop prints the entries before the first one that has a zero. -/
theorem reservationLoop_eq
    (h : Holds m p (entries.flatMap encodeEntry ++ encodeEntry (0, 0)))
    (hfuel : entries.length < fuel) :
    ∃ last, whileLoop (moreReservations m) (printReservation m) fuel (p, found) =
      ⟨(last, found ++ (entries.takeWhile goesOn).map swapEntry), true⟩ := by
  induction entries generalizing p found fuel with
  | nil =>
    obtain ⟨fuel, rfl⟩ := Nat.exists_eq_succ_of_ne_zero (Nat.ne_of_gt hfuel)
    have hguard : moreReservations m (p, found) = false := (reservation_at h).1
    exact ⟨p, by rw [whileLoop_of_not hguard, List.takeWhile_nil, List.map_nil, List.append_nil]⟩
  | cons entry entries ih =>
    obtain ⟨fuel, rfl⟩ := Nat.exists_eq_succ_of_ne_zero (Nat.ne_of_gt (Nat.zero_lt_of_lt hfuel))
    rw [List.flatMap_cons, List.append_assoc] at h
    obtain ⟨hentry, hrest⟩ := holds_append_iff.mp h
    obtain ⟨hguard, hbody⟩ := @reservation_at m p entry found hentry
    cases hgoes : goesOn entry with
    | false =>
      refine ⟨p, ?_⟩
      rw [whileLoop_of_not (hguard.trans hgoes),
        List.takeWhile_cons_of_neg (ne_true_of_eq_false hgoes), List.map_nil, List.append_nil]
    | true =>
      obtain ⟨last, hloop⟩ :=
        @ih _ _ (found ++ [swapEntry entry]) hrest (Nat.lt_of_succ_lt_succ hfuel)
      refine ⟨last, ?_⟩
      rw [length_encodeEntry] at hloop
      rw [whileLoop, if_pos (hguard.trans hgoes), hbody, Progress.andThen, if_pos rfl, hloop,
        List.takeWhile_cons_of_pos hgoes, List.map_cons, List.append_assoc, List.singleton_append]

/-- All entries are printed as they are. -/
theorem printed_eq_iff :
    (entries.takeWhile goesOn).map swapEntry = entries ↔ ∀ entry ∈ entries, PrintsWell entry := by
  have hwell : ∀ entry, PrintsWell entry ↔ goesOn entry = true ∧ swapEntry entry = entry := by
    intro entry
    rw [PrintsWell, goesOn, swapEntry, decide_eq_true_iff, Prod.ext_iff, and_assoc]
  induction entries with
  | nil => exact iff_of_true rfl (List.forall_mem_nil _)
  | cons entry entries ih =>
    rw [List.forall_mem_cons, hwell]
    cases hgoes : goesOn entry with
    | false =>
      rw [List.takeWhile_cons_of_neg (ne_true_of_eq_false hgoes)]
      exact iff_of_false (List.cons_ne_nil _ _).symm fun h => Bool.false_ne_true h.1.1
    | true =>
      rw [List.takeWhile_cons_of_pos hgoes, List.map_cons, List.cons.injEq, and_iff_right rfl]
      exact and_congr_right fun _ => ih

end Reservations

/-- The words of a value. -/
def encodeWords (words : List (BitVec 32)) : List UInt8 := words.flatMap bigEndian

section Walk

variable {m : Blob} {strings fuel rounds : Nat} {w : WalkState} {tokens : List Token}

theorem memoryRanges_append (first more : List Finding) :
    memoryRanges (first ++ more) = memoryRanges first ++ memoryRanges more :=
  List.filterMap_append

/-- The other properties of a node report no range. -/
theorem memoryRanges_nodeFindings (propName value : Nat) :
    memoryRanges (nodeFindings m propName value) = [] := by
  rw [nodeFindings]
  split
  · rfl
  · split
    · rfl
    · split <;> rfl

theorem memoryRanges_propStep_findings (propName value : Nat) :
    memoryRanges (if w.inRootNode || w.inMemoryNode then
      w.findings ++ nodeFindings m propName value else w.findings) = memoryRanges w.findings := by
  split
  · rw [memoryRanges_append, memoryRanges_nodeFindings, List.append_nil]
  · rfl

/-- A round that does not come to a `reg` of a node for the memory reports no range. -/
theorem walkStep_memoryRanges (h : (walkStep m strings fuel w).state.exit ≠ some .memoryReg) :
    memoryRanges (walkStep m strings fuel w).state.findings = memoryRanges w.findings := by
  rw [walkStep] at h ⊢
  split
  · rfl
  · split
    · rfl
    · split
      · next hbegin hend hprop =>
        rw [if_neg hbegin, if_neg hend, if_pos hprop, propStep] at h
        rw [propStep]
        split
        · next hreg =>
          rw [if_pos hreg] at h
          exact absurd rfl h
        · exact memoryRanges_propStep_findings _ _
      · split
        · rfl
        · split <;> rfl

theorem encodeWords_cons (word : BitVec 32) (words : List (BitVec 32)) :
    encodeWords (word :: words) = bigEndian word ++ encodeWords words := List.flatMap_cons

theorem length_encodeWords (words : List (BitVec 32)) :
    (encodeWords words).length = 4 * words.length := by
  induction words with
  | nil => rfl
  | cons word words ih =>
    rw [encodeWords_cons, List.length_append, length_bigEndian, ih, List.length_cons]
    omega

theorem rangeLoop_of_not {value : Nat} {len : BitVec 32} {findings : List Finding}
    (h : ¬ 12 ≤ len) :
    rangeLoop m (fuel + 1) value len findings = ⟨(value, len, findings), true⟩ :=
  whileLoop_of_not (decide_eq_false h)

theorem rangeLoop_of_le {value : Nat} {len : BitVec 32} {findings : List Finding}
    (h : 12 ≤ len) :
    rangeLoop m (fuel + 1) value len findings =
      rangeLoop m fuel (value + 12) (len - 12) (findings ++
        [.memory (cellsValue [readWord m value, readWord m (value + 4)])
          (cellsValue [readWord m (value + 8)])]) := by
  rw [cellsValue_two, cellsValue_one, rangeLoop, whileLoop, if_pos (decide_eq_true h)]
  rfl

/-- The loop over the ranges reports those of two cells for the base and one for the size. -/
theorem rangeLoop_memoryRanges {value : Nat} {words : List (BitVec 32)} {len : BitVec 32}
    {findings : List Finding} (h : Holds m value (encodeWords words))
    (hlen : len.toNat = 4 * words.length) (hfuel : words.length < fuel) :
    memoryRanges (rangeLoop m fuel value len findings).state.2.2 =
      memoryRanges findings ++ decodeRanges 2 1 words := by
  obtain ⟨n, hn⟩ : ∃ n, n = words.length := ⟨_, rfl⟩
  induction n using Nat.strong_induction_on generalizing value words len findings fuel with
  | _ n ih =>
    obtain ⟨fuel, rfl⟩ := Nat.exists_eq_succ_of_ne_zero (Nat.ne_of_gt (Nat.zero_lt_of_lt hfuel))
    have hguard : 12 ≤ len ↔ 3 ≤ words.length := by
      rw [BitVec.le_def, hlen]
      change 12 ≤ 4 * words.length ↔ _
      omega
    by_cases hmore : 3 ≤ words.length
    · match words, hmore with
      | a :: b :: c :: rest, hmore =>
        have hle : 12 ≤ len := hguard.mpr hmore
        have hcount : (a :: b :: c :: rest).length = rest.length + 3 := rfl
        have hlast : (len - 12).toNat = 4 * rest.length := by
          rw [BitVec.toNat_sub_of_le hle, hlen]
          change 4 * (rest.length + 3) - 12 = _
          omega
        rw [encodeWords_cons, encodeWords_cons, encodeWords_cons, holds_append_iff,
          holds_append_iff, holds_append_iff, length_bigEndian, length_bigEndian,
          length_bigEndian] at h
        obtain ⟨ha, hb, hc, hrest⟩ := h
        rw [rangeLoop_of_le hle, readWord_bigEndian ha, readWord_bigEndian hb,
          readWord_bigEndian hc]
        rw [ih rest.length (by omega) hrest hlast (by omega) rfl, memoryRanges_append,
          decodeRanges_two_one, List.append_assoc]
        rfl
    · rw [rangeLoop_of_not (hguard.not.mpr hmore), decodeRanges_of_short (by omega),
        List.append_nil]

/-- The round at a `reg` of a node for the memory reports its ranges. -/
theorem walkStep_reg {nameoff : BitVec 32} {words : List (BitVec 32)}
    (h : Holds m w.structBlock (Token.prop nameoff (encodeWords words)).encode)
    (hmemory : w.inMemoryNode = true) (hreg : isReg m strings nameoff = true)
    (hfuel : (Token.prop nameoff (encodeWords words)).size < fuel)
    (hsize : (Token.prop nameoff (encodeWords words)).size < 2 ^ 32) :
    memoryRanges (walkStep m strings fuel w).state.findings =
      memoryRanges w.findings ++ decodeRanges 2 1 words := by
  obtain ⟨hcode, hrest⟩ := holds_append_iff.mp h
  rw [Token.payload, padded, List.append_assoc, holds_append_iff, holds_append_iff,
    length_bigEndian, length_bigEndian, length_bigEndian] at hrest
  obtain ⟨hlen, hnameoff, hvalue⟩ := hrest
  rw [size_prop, length_encodeWords] at hfuel hsize
  have hnat : (BitVec.ofNat 32 (encodeWords words).length).toNat = 4 * words.length := by
    rw [BitVec.toNat_ofNat, length_encodeWords, Nat.mod_eq_of_lt (by omega)]
  have hboth : (w.inMemoryNode && isReg m strings nameoff) = true := by rw [hmemory, hreg]; rfl
  rw [walkStep_prop (readWord_bigEndian hcode), propStep, WalkState.next, readWord_bigEndian hlen,
    readWord_bigEndian hnameoff, strcmp_regName, hboth, if_pos rfl, Progress.map]
  rw [rangeLoop_memoryRanges (holds_append_iff.mp hvalue).1 hnat (by omega), memoryRanges_append,
    memoryRanges_propStep_findings]
  exact congrArg (· ++ _) (List.append_nil _)

end Walk

/-- A property, or a gap. -/
def Item.IsFlat : Item → Prop
  | .nop => True
  | .prop _ _ => True
  | .node _ _ => False

/-- A visit goes through some tokens without a stop. -/
def Passes (isReg : BitVec 32 → Bool) (inMemory : Bool) (tokens : List Token) (after : Bool) :
    Prop :=
  scan isReg inMemory tokens = ⟨tokens, after, false⟩

section Passes

variable {isReg : BitVec 32 → Bool} {inMemory after : Bool} {t : Token} {tokens more : List Token}

theorem Passes.nil : Passes isReg inMemory [] inMemory := rfl

theorem passes_cons_iff :
    Passes isReg inMemory (t :: tokens) after ↔
      t.stops isReg inMemory = false ∧ Passes isReg (t.after inMemory) tokens after := by
  rw [Passes, Passes]
  cases hstops : t.stops isReg inMemory with
  | true =>
    rw [scan, if_pos hstops]
    exact iff_of_false (fun h => Bool.noConfusion (congrArg Visit.stopped h))
      fun h => Bool.noConfusion h.1
  | false =>
    rw [scan_cons_of_not _ hstops, and_iff_right rfl]
    cases scan isReg (t.after inMemory) tokens
    simp only [Visit.mk.injEq, List.cons.injEq, true_and]

theorem Passes.append {between : Bool} (h : Passes isReg inMemory tokens between)
    (hmore : Passes isReg between more after) : Passes isReg inMemory (tokens ++ more) after := by
  rw [Passes] at h hmore ⊢
  rw [scan_append, h]
  dsimp only
  rw [if_neg Bool.false_ne_true, hmore]

theorem Passes.scan_append {between : Bool} (h : Passes isReg inMemory tokens between) :
    scan isReg inMemory (tokens ++ more) =
      { scan isReg between more with tokens := tokens ++ (scan isReg between more).tokens } := by
  rw [Passes] at h
  rw [DeviceTree.scan_append, h]
  exact if_neg Bool.false_ne_true

/-- What stands behind the stop of a visit does not matter. -/
theorem scan_append_of_stopped (h : (scan isReg inMemory tokens).stopped = true) :
    scan isReg inMemory (tokens ++ more) = scan isReg inMemory tokens := by
  rw [DeviceTree.scan_append, if_pos h]

/-- The words that are read over some tokens stand among them. -/
theorem head_lt_of_mem {p : Nat} {head : Nat × BitVec 32} (h : head ∈ headsOf p tokens) :
    head.1 < p + (tokens.flatMap Token.encode).length := by
  induction tokens generalizing p with
  | nil => cases h
  | cons t tokens ih =>
    have hsize : (Token.encode t).length = t.size := rfl
    have hpos : 4 ≤ t.size := by
      rw [Token.size, Token.encode, List.length_append, length_bigEndian]
      exact Nat.le_add_right _ _
    rw [List.flatMap_cons, List.length_append, hsize]
    obtain rfl | h := List.mem_cons.mp h
    · dsimp only
      omega
    · have hlt := ih h
      omega

/-- Properties and gaps leave the node that the visit is in. -/
theorem passes_of_flat {items : List Item} (hflat : ∀ item ∈ items, item.IsFlat)
    (hnone : ∀ nameoff value, Item.prop nameoff value ∈ items →
      (inMemory && isReg nameoff) = false) :
    Passes isReg inMemory (tokensOf items) inMemory := by
  induction items with
  | nil => exact Passes.nil
  | cons item items ih =>
    obtain ⟨hitem, hitems⟩ := List.forall_mem_cons.mp hflat
    have hrest := ih hitems fun nameoff value hmem =>
      hnone nameoff value (List.mem_cons_of_mem _ hmem)
    rw [tokensOf]
    cases item with
    | nop => exact passes_cons_iff.mpr ⟨rfl, hrest⟩
    | prop nameoff value =>
      exact passes_cons_iff.mpr ⟨hnone nameoff value List.mem_cons_self, hrest⟩
    | node name children => exact absurd hitem not_false

theorem tokensOf_append (first more : List Item) :
    tokensOf (first ++ more) = tokensOf first ++ tokensOf more := by
  induction first with
  | nil => rfl
  | cons item first ih => rw [List.cons_append, tokensOf, tokensOf, ih, List.append_assoc]

/-- Items that do not stop a visit are passed. -/
theorem passes_of_visit {items : List Item}
    (h : (visitItems isReg inMemory items).stopped = false) :
    Passes isReg inMemory (tokensOf items) (visitItems isReg inMemory items).inMemory := by
  rw [visitItems_eq] at h ⊢
  have htokens := scan_complete h
  rw [Passes]
  cases hvisit : scan isReg inMemory (tokensOf items)
  rw [hvisit] at h htokens
  exact congrArg₂ (fun tokens stopped => Visit.mk tokens _ stopped) htokens h

end Passes

section Loop

variable {m : Blob} {strings fuel rounds : Nat} {w w' : WalkState} {tokens : List Token}
  {after : Bool}

/-- What the walk is like behind some tokens that it has passed. -/
structure Passed (w w' : WalkState) (tokens : List Token) (after : Bool) : Prop where
  exit : w'.exit = none
  inMemoryNode : w'.inMemoryNode = after
  structBlock : w'.structBlock = w.structBlock + (tokens.flatMap Token.encode).length
  memoryRanges : memoryRanges w'.findings = memoryRanges w.findings

/-- The rounds at tokens that a visit passes. -/
theorem loop_of_passes (hpasses : Passes (isReg m strings) w.inMemoryNode tokens after)
    (hend : Token.fdtEnd ∉ tokens) (h : Holds m w.structBlock (tokens.flatMap Token.encode))
    (hexit : w.exit = none) (hfuel : ∀ t ∈ tokens, t.size < fuel)
    (hsize : ∀ t ∈ tokens, t.size < 2 ^ 32) :
    ∃ w', Passed w w' tokens after ∧
      whileLoop (fun w => w.exit.isNone) (walkStep m strings fuel) (tokens.length + rounds) w =
        whileLoop (fun w => w.exit.isNone) (walkStep m strings fuel) rounds w' := by
  induction tokens generalizing w with
  | nil =>
    have hafter : w.inMemoryNode = after := congrArg Visit.inMemory hpasses
    exact ⟨w, ⟨hexit, hafter, rfl, rfl⟩, by rw [List.length_nil, Nat.zero_add]⟩
  | cons t tokens ih =>
    rw [List.mem_cons, not_or] at hend
    obtain ⟨hstops, hrest⟩ := passes_cons_iff.mp hpasses
    obtain ⟨htoken, hmore⟩ := holds_append_iff.mp h
    have hstep : t.Step m strings w (walkStep m strings fuel w) :=
      walkStep_of_holds htoken hexit (hfuel t List.mem_cons_self) (hsize t List.mem_cons_self)
    have hgoes : t.exit m strings w.inMemoryNode = none := by
      rw [Token.exit, if_neg (ne_true_of_eq_false hstops)]
      exact fun heq => hend.1 heq.symm
    have hnext := hstep.exit.trans hgoes
    have hplace := hstep.structBlock hnext
    rw [← hstep.inMemoryNode] at hrest
    obtain ⟨w', hpassed, hloop⟩ := ih hrest hend.2 (hplace ▸ hmore) hnext
      (fun t' h' => hfuel t' (List.mem_cons_of_mem t h'))
      (fun t' h' => hsize t' (List.mem_cons_of_mem t h'))
    refine ⟨w', ⟨hpassed.exit, hpassed.inMemoryNode, ?_, ?_⟩, ?_⟩
    · rw [hpassed.structBlock, hplace, List.flatMap_cons, List.length_append, Token.size,
        Nat.add_assoc]
    · rw [hpassed.memoryRanges]
      exact walkStep_memoryRanges (by rw [hnext]; exact (Option.some_ne_none _).symm)
    · rw [← hloop, List.length_cons, Nat.add_right_comm, loop_succ hexit hstep.ended]

end Loop

/-- The value of the first property with a name. -/
def propNamed (m : Blob) (strings : Nat) (name : List UInt8) : List Item → Option (List UInt8)
  | .prop nameoff value :: items =>
      if Holds m (strings + nameoff.toNat) (name ++ [0]) then some value
      else propNamed m strings name items
  | _ :: items => propNamed m strings name items
  | [] => none

/-- The name is `memory`, with or without an address behind it. -/
def IsMemoryNode (name : CString) : Prop :=
  name.bytes = memoryName ∨ memoryName ++ [0x40] <+: name.bytes

/-- A tree whose root says how many cells an address and a size take, and has a node for the
memory; `before` is what stands in the root before the first one. -/
structure MemoryTree (m : Blob) (strings : Nat) where
  leading : List Item
  rootName : CString
  rootProps : List Item
  before : List Item
  name : CString
  nodeProps : List Item
  nameoff : BitVec 32
  reg : List (BitVec 32)
  more : List Item
  behind : List Item
  trailing : List Item
  addressCells : Nat
  sizeCells : Nat
  leading_nop : ∀ item ∈ leading, item = .nop
  trailing_nop : ∀ item ∈ trailing, item = .nop
  rootName_nil : rootName.bytes = []
  rootProps_flat : ∀ item ∈ rootProps, item.IsFlat
  address_eq : propNamed m strings addressCellsName rootProps =
    some (bigEndian (BitVec.ofNat 32 addressCells))
  size_eq : propNamed m strings sizeCellsName rootProps =
    some (bigEndian (BitVec.ofNat 32 sizeCells))
  address_range : addressCells = 1 ∨ addressCells = 2
  size_range : sizeCells = 1 ∨ sizeCells = 2
  before_other : ∀ item ∈ before, item = .nop ∨
    ∃ name items, item = .node name items ∧ ¬ IsMemoryNode name
  isMemoryNode : IsMemoryNode name
  nodeProps_flat : ∀ item ∈ nodeProps, item.IsFlat
  nodeProps_other : ∀ nameoff value, .prop nameoff value ∈ nodeProps →
    isReg m strings nameoff = false
  isReg : isReg m strings nameoff = true
  whole : addressCells + sizeCells ∣ reg.length
  fits : ((tokensOf (leading ++ .node rootName (rootProps ++ (before ++
    .node name (nodeProps ++ .prop nameoff (encodeWords reg) :: more) :: behind)) :: trailing) ++
      [Token.fdtEnd]).flatMap Token.encode).length < 2 ^ 32

namespace MemoryTree

variable {m : Blob} {strings : Nat} (tree : MemoryTree m strings)

/-- The structure block of a tree. -/
def block : StructureBlock where
  items := tree.leading ++ .node tree.rootName (tree.rootProps ++ (tree.before ++
    .node tree.name (tree.nodeProps ++ .prop tree.nameoff (encodeWords tree.reg) :: tree.more) ::
      tree.behind)) :: tree.trailing
  fits := tree.fits

/-- The tokens up to what stands in the root before its first node for the memory. -/
def upToBefore : List Token :=
  tokensOf tree.leading ++ .beginNode tree.rootName :: tokensOf tree.rootProps

/-- The tokens before the `reg` of the first node for the memory. -/
def beforeReg : List Token :=
  tree.upToBefore ++ (tokensOf tree.before ++ .beginNode tree.name :: tokensOf tree.nodeProps)

/-- The `reg` of the first node for the memory. -/
def regToken : Token := .prop tree.nameoff (encodeWords tree.reg)

theorem tokensOf_items :
    ∃ rest, tokensOf tree.block.items = tree.beforeReg ++ tree.regToken :: rest := by
  refine ⟨tokensOf tree.more ++ .endNode :: (tokensOf tree.behind ++ .endNode ::
    tokensOf tree.trailing), ?_⟩
  rw [block, beforeReg, upToBefore, regToken]
  simp only [tokensOf_append, tokensOf, Item.tokens, List.append_assoc, List.cons_append,
    List.nil_append]

theorem tokens_eq : ∃ rest, tree.block.tokens = tree.beforeReg ++ tree.regToken :: rest := by
  obtain ⟨rest, hitems⟩ := tree.tokensOf_items
  exact ⟨rest ++ [.fdtEnd], by
    rw [StructureBlock.tokens, hitems, List.append_assoc, List.cons_append]⟩

theorem fdtEnd_notMem_beforeReg : Token.fdtEnd ∉ tree.beforeReg := by
  obtain ⟨rest, hitems⟩ := tree.tokensOf_items
  exact fun hmem =>
    fdtEnd_notMem_tokensOf tree.block.items (hitems ▸ List.mem_append_left _ hmem)

/-- Where the `reg` of the first node for the memory stands. -/
def regAddress (structBlock : Nat) : Nat :=
  structBlock + (tree.beforeReg.flatMap Token.encode).length

/-- No node that stands before has a `reg` that is taken for one of a node for the memory. -/
def NoneBefore : Prop :=
  (visitItems (DeviceTree.isReg m strings) false tree.before).stopped = false

theorem isMemoryName : isMemoryName tree.name = true := by
  rw [DeviceTree.isMemoryName, List.isPrefixOf_iff_prefix]
  obtain hname | hname := tree.isMemoryNode
  · rw [hname]
  · exact (List.prefix_append _ _).trans hname

/-- The tokens up to what stands in the root are passed. -/
theorem passes_upToBefore (isReg : BitVec 32 → Bool) :
    Passes isReg false tree.upToBefore false := by
  have hroot : DeviceTree.isMemoryName tree.rootName = false := by
    rw [DeviceTree.isMemoryName, tree.rootName_nil]
    rfl
  have hprops : Passes isReg (DeviceTree.isMemoryName tree.rootName) (tokensOf tree.rootProps)
      (DeviceTree.isMemoryName tree.rootName) :=
    passes_of_flat tree.rootProps_flat fun _ _ _ => by rw [hroot, Bool.false_and]
  have hleading : Passes isReg false (tokensOf tree.leading) false := by
    refine passes_of_flat (fun item hitem => ?_) fun _ _ _ => rfl
    rw [tree.leading_nop item hitem]
    trivial
  rw [hroot] at hprops
  refine hleading.append (passes_cons_iff.mpr ⟨rfl, ?_⟩)
  rw [Token.after, hroot]
  exact hprops

/-- Without a `reg` before, the tokens before the `reg` of the first node for the memory are
passed, and what follows belongs to that node. -/
theorem passes_beforeReg (h : tree.NoneBefore) :
    Passes (DeviceTree.isReg m strings) false tree.beforeReg true := by
  refine (tree.passes_upToBefore _).append ((passes_of_visit h).append
    (passes_cons_iff.mpr ⟨rfl, ?_⟩))
  rw [Token.after, tree.isMemoryName]
  refine passes_of_flat tree.nodeProps_flat fun nameoff value hmem => ?_
  rw [Bool.true_and]
  exact tree.nodeProps_other nameoff value hmem

end MemoryTree

/-- A flattened device tree at an address: its header, its reservation block and its structure
block. -/
structure Dtb (m : Blob) (dtb : Nat) where
  offStruct : BitVec 32
  offStrings : BitVec 32
  offRsvmap : BitVec 32
  entries : List (BitVec 64 × BitVec 64)
  tree : MemoryTree m (dtb + offStrings.toNat)
  ne_null : dtb ≠ 0
  magic_holds : Holds m dtb (bigEndian fdtMagic)
  struct_holds : Holds m (dtb + offDtStruct) (bigEndian offStruct)
  strings_holds : Holds m (dtb + offDtStrings) (bigEndian offStrings)
  rsvmap_holds : Holds m (dtb + offMemRsvmap) (bigEndian offRsvmap)
  rsvmap_ne : offRsvmap ≠ 0
  entries_ne : ∀ entry ∈ entries, entry ≠ (0, 0)
  entries_hold : Holds m (dtb + offRsvmap.toNat)
    (entries.flatMap encodeEntry ++ encodeEntry (0, 0))
  tree_holds : Holds m (dtb + offStruct.toNat) (tree.block.tokens.flatMap Token.encode)

namespace Dtb

variable {m : Blob} {dtb fuel : Nat} (d : Dtb m dtb)

/-- Enough fuel for the loops over the blocks. -/
def Fuelled (fuel : Nat) : Prop :=
  d.entries.length < fuel ∧ (d.tree.block.tokens.flatMap Token.encode).length < fuel

/-- The reserved ranges are reported as they are, and the ranges of the `reg` of the first node for
the memory with the cells that the root says. -/
def Reported (fuel : Nat) : Prop :=
  ∃ report w, parseDtb m dtb fuel = ⟨report, true⟩ ∧ report.reservations = d.entries ∧
    report.walk = some w ∧
      w.heads.getLast? = some (d.tree.regAddress (dtb + d.offStruct.toNat), d.tree.regToken.code) ∧
        memoryRanges w.findings =
          decodeRanges d.tree.addressCells d.tree.sizeCells d.tree.reg

/-- What the call reports. -/
theorem parseDtb_eq (hfuel : d.Fuelled fuel) :
    ∃ header, parseDtb m dtb fuel =
      (walk m (dtb + d.offStrings.toNat) (dtb + d.offStruct.toNat) fuel).map fun w =>
        { header, reservations := (d.entries.takeWhile goesOn).map swapEntry, walk := some w } := by
  obtain ⟨last, hloop⟩ := @reservationLoop_eq m _ fuel _ [] d.entries_hold hfuel.1
  have hpresent : load32 m (dtb + offMemRsvmap) ≠ 0 := by
    rw [load32_bigEndian d.rsvmap_holds]
    exact fdt32ToCpu_eq_zero_iff.not.mpr d.rsvmap_ne
  refine ⟨headerOffsets.map fun offset => readWord m (dtb + offset), ?_⟩
  rw [parseDtb, if_neg d.ne_null, readWord_bigEndian d.magic_holds, if_neg (not_not.mpr rfl)]
  simp only [if_pos hpresent, readWord_bigEndian d.rsvmap_holds,
    readWord_bigEndian d.strings_holds, readWord_bigEndian d.struct_holds]
  rw [reservationLoop, hloop]
  rfl

/-- Without a `reg` before, the walk comes to the `reg` of the first node for the memory, as a
property of such a node, and has reported no range. -/
theorem walk_reaches_reg (hfuel : d.Fuelled fuel) (hnone : d.tree.NoneBefore) :
    ∃ rounds w, Passed { structBlock := dtb + d.offStruct.toNat } w d.tree.beforeReg true ∧
      walk m (dtb + d.offStrings.toNat) (dtb + d.offStruct.toNat) fuel =
        whileLoop (fun w => w.exit.isNone) (walkStep m (dtb + d.offStrings.toNat) fuel)
          (rounds + 2) w := by
  obtain ⟨rest, htokens⟩ := d.tree.tokens_eq
  obtain ⟨rounds, hrounds⟩ : ∃ rounds, fuel = d.tree.beforeReg.length + (rounds + 2) := by
    have hcount := (length_tokens_le d.tree.block.tokens).trans_lt hfuel.2
    rw [htokens, List.length_append, List.length_cons] at hcount
    exact ⟨fuel - d.tree.beforeReg.length - 2, by omega⟩
  have hmem : ∀ t ∈ d.tree.beforeReg, t ∈ d.tree.block.tokens := fun t ht =>
    htokens ▸ List.mem_append_left _ ht
  have hholds := d.tree_holds
  rw [htokens, List.flatMap_append, holds_append_iff] at hholds
  obtain ⟨w, hpassed, hloop⟩ := @loop_of_passes m (dtb + d.offStrings.toNat) fuel (rounds + 2)
    { structBlock := dtb + d.offStruct.toNat } _ true (d.tree.passes_beforeReg hnone)
    d.tree.fdtEnd_notMem_beforeReg hholds.1 rfl
    (fun t ht => (size_le_length (hmem t ht)).trans_lt hfuel.2)
    fun t ht => StructureBlock.size_lt (hmem t ht)
  rw [← hrounds] at hloop
  exact ⟨rounds, w, hpassed, hloop⟩

/-- The walk then ends there, and reads the `reg` with two cells for the base and one for the
size. -/
theorem walk_of_noneBefore (hfuel : d.Fuelled fuel) (hnone : d.tree.NoneBefore) :
    ∃ w, walk m (dtb + d.offStrings.toNat) (dtb + d.offStruct.toNat) fuel = ⟨w, true⟩ ∧
      w.heads.getLast? = some (d.tree.regAddress (dtb + d.offStruct.toNat), d.tree.regToken.code) ∧
        memoryRanges w.findings = decodeRanges 2 1 d.tree.reg := by
  obtain ⟨rounds, w, hpassed, hwalk⟩ := d.walk_reaches_reg hfuel hnone
  obtain ⟨rest, htokens⟩ := d.tree.tokens_eq
  have hmem : d.tree.regToken ∈ d.tree.block.tokens :=
    htokens ▸ List.mem_append_right _ List.mem_cons_self
  have hshort : d.tree.regToken.size < fuel := (size_le_length hmem).trans_lt hfuel.2
  have hsize : d.tree.regToken.size < 2 ^ 32 := StructureBlock.size_lt hmem
  have hholds := d.tree_holds
  rw [htokens, List.flatMap_append, List.flatMap_cons, holds_append_iff, holds_append_iff,
    ← MemoryTree.regAddress] at hholds
  have hplace : w.structBlock = d.tree.regAddress (dtb + d.offStruct.toNat) := hpassed.structBlock
  have hreg : Holds m w.structBlock d.tree.regToken.encode := hplace ▸ hholds.2.1
  have hstep : d.tree.regToken.Step m (dtb + d.offStrings.toNat) w
      (walkStep m (dtb + d.offStrings.toNat) fuel w) :=
    walkStep_of_holds hreg hpassed.exit hshort hsize
  have hexit : d.tree.regToken.exit m (dtb + d.offStrings.toNat) w.inMemoryNode =
      some .memoryReg := by
    rw [hpassed.inMemoryNode]
    exact if_pos d.tree.isReg
  refine ⟨(walkStep m (dtb + d.offStrings.toNat) fuel w).state, ?_, ?_, ?_⟩
  · rw [hwalk, loop_of_exit hstep hpassed.exit hexit (Nat.lt_add_left rounds Nat.one_lt_two)]
  · rw [hstep.heads, List.getLast?_append, hplace]
    rfl
  · rw [walkStep_reg hreg hpassed.inMemoryNode d.tree.isReg hshort hsize, hpassed.memoryRanges]
    rfl

/-- With a `reg` before, the walk does not come to the `reg` of the first node for the memory. -/
theorem walk_of_before (hfuel : d.Fuelled fuel) (hbefore : ¬ d.tree.NoneBefore) {w : WalkState}
    (hwalk : walk m (dtb + d.offStrings.toNat) (dtb + d.offStruct.toNat) fuel = ⟨w, true⟩) :
    w.heads.getLast? ≠
      some (d.tree.regAddress (dtb + d.offStruct.toNat), d.tree.regToken.code) := by
  obtain ⟨rest, hitems⟩ := d.tree.tokensOf_items
  obtain ⟨-, hheads, -⟩ := @loop_of_holds m (dtb + d.offStrings.toNat) fuel fuel
    { structBlock := dtb + d.offStruct.toNat } _ (fdtEnd_notMem_tokensOf d.tree.block.items)
    d.tree_holds rfl (fun t ht => (size_le_length ht).trans_lt hfuel.2)
    (fun t ht => StructureBlock.size_lt ht) ((length_tokens_le _).trans_lt hfuel.2)
  have hstopped : (scan (isReg m (dtb + d.offStrings.toNat)) false
      (tokensOf d.tree.before)).stopped = true := by
    rw [← visitItems_eq]
    exact eq_true_of_ne_false hbefore
  rw [hitems, MemoryTree.beforeReg] at hheads
  simp only [List.append_assoc] at hheads
  rw [(d.tree.passes_upToBefore _).scan_append, scan_append_of_stopped hstopped] at hheads
  have hvisited : (scan (isReg m (dtb + d.offStrings.toNat)) false
      (tokensOf d.tree.before)).tokens <+: tokensOf d.tree.before := scan_prefix false _
  obtain ⟨left, hleft⟩ := hvisited
  have hw : w.heads = headsOf (dtb + d.offStruct.toNat) (d.tree.upToBefore ++
      (scan (isReg m (dtb + d.offStrings.toNat)) false (tokensOf d.tree.before)).tokens) :=
    (congrArg (fun run => run.state.heads) hwalk).symm.trans hheads
  intro hlast
  have hmem := List.mem_of_getLast? hlast
  rw [hw] at hmem
  have hlt := head_lt_of_mem hmem
  have hlength := congrArg (fun tokens => (tokens.flatMap Token.encode).length) hleft
  rw [MemoryTree.regAddress, MemoryTree.beforeReg] at hlt
  simp only [List.flatMap_append, List.length_append] at hlt hlength
  omega

/-- The memory facts are reported just where every reserved range is printed as it is, no `reg` is
taken for the one of the first node for the memory, and that one is read as it should be. -/
theorem reported_iff (hfuel : d.Fuelled fuel) :
    d.Reported fuel ↔ (∀ entry ∈ d.entries, PrintsWell entry) ∧ d.tree.NoneBefore ∧
      FitsTwoOne d.tree.addressCells d.tree.sizeCells d.tree.reg := by
  obtain ⟨header, hparse⟩ := d.parseDtb_eq hfuel
  have hranges := decodeRanges_eq_iff d.tree.address_range d.tree.size_range d.tree.whole
  constructor
  · rintro ⟨report, w, hrun, hentries, hw, hlast, hmemory⟩
    rw [hparse] at hrun
    cases hwalk : walk m (dtb + d.offStrings.toNat) (dtb + d.offStruct.toNat) fuel with
    | mk w' ended =>
      rw [hwalk] at hrun
      obtain ⟨rfl, rfl⟩ := Progress.mk.inj hrun
      obtain rfl : w' = w := Option.some.inj hw
      have hnone : d.tree.NoneBefore := by
        by_contra hbefore
        exact d.walk_of_before hfuel hbefore hwalk hlast
      obtain ⟨w'', hwalk', -, hmemory'⟩ := d.walk_of_noneBefore hfuel hnone
      obtain ⟨rfl, -⟩ := Progress.mk.inj (hwalk.symm.trans hwalk')
      exact ⟨printed_eq_iff.mp hentries, hnone, hranges.mp (hmemory'.symm.trans hmemory)⟩
  · rintro ⟨hwell, hnone, hfits⟩
    obtain ⟨w, hwalk, hlast, hmemory⟩ := d.walk_of_noneBefore hfuel hnone
    refine ⟨_, w, by rw [hparse, hwalk]; rfl, printed_eq_iff.mpr hwell, rfl, hlast, ?_⟩
    rw [hmemory]
    exact hranges.mpr hfits

end Dtb

/-- The properties of a root with two cells for an address and one for a size. -/
def twoOneProps : List Item :=
  [.prop 0 (bigEndian 2), .prop 15 (bigEndian 1)]

theorem twoOneProps_flat : ∀ item ∈ twoOneProps, item.IsFlat := by
  simp [twoOneProps, Item.IsFlat]

theorem noNul_nil : 0 ∉ ([] : List UInt8) := List.not_mem_nil

theorem noNul_memoryName : 0 ∉ memoryName := by
  decide

/-- A header, the reserved page at zero, a root with a node `memory`, and the names. -/
def bootBytes : List UInt8 :=
  [fdtMagic, 191, 72, 160, 40, 17, 16, 0, 31, 88].flatMap bigEndian ++
    encodeEntry (0, 0x1000) ++ encodeEntry (0, 0) ++
    (tokensOf [.node ⟨[], noNul_nil⟩ (twoOneProps ++
      [.node ⟨memoryName, noNul_memoryName⟩ [.prop 27 (encodeWords [0, 0, 0x40000000])]])] ++
        [Token.fdtEnd]).flatMap Token.encode ++
    (addressCellsName ++ [0] ++ sizeCellsName ++ [0] ++ regName ++ [0])

/-- The blob at the address 8. -/
def bootBlob : Blob := fun p => bootBytes.getD (p - 8) 0

def bootTree : MemoryTree bootBlob 168 where
  leading := []
  rootName := ⟨[], noNul_nil⟩
  rootProps := twoOneProps
  before := []
  name := ⟨memoryName, noNul_memoryName⟩
  nodeProps := []
  nameoff := 27
  reg := [0, 0, 0x40000000]
  more := []
  behind := []
  trailing := []
  addressCells := 2
  sizeCells := 1
  leading_nop := List.forall_mem_nil _
  trailing_nop := List.forall_mem_nil _
  rootName_nil := rfl
  rootProps_flat := twoOneProps_flat
  address_eq := by decide +kernel
  size_eq := by decide +kernel
  address_range := Or.inr rfl
  size_range := Or.inl rfl
  before_other := List.forall_mem_nil _
  isMemoryNode := Or.inl rfl
  nodeProps_flat := List.forall_mem_nil _
  nodeProps_other := fun _ _ h => absurd h List.not_mem_nil
  isReg := by decide +kernel
  whole := by decide
  fits := by decide +kernel

def bootDtb : Dtb bootBlob 8 where
  offStruct := 72
  offStrings := 160
  offRsvmap := 40
  entries := [(0, 0x1000)]
  tree := bootTree
  ne_null := by decide
  magic_holds := by decide +kernel
  struct_holds := by decide +kernel
  strings_holds := by decide +kernel
  rsvmap_holds := by decide +kernel
  rsvmap_ne := by decide
  entries_ne := List.forall_mem_singleton.mpr fun h => absurd (Prod.mk.inj h).2 (by decide)
  entries_hold := by decide +kernel
  tree_holds := by decide +kernel

theorem bootDtb_fuelled : bootDtb.Fuelled 100 := by
  constructor <;> decide +kernel

theorem reported_iff_boot :
    bootDtb.Reported 100 ↔ (∀ entry ∈ bootDtb.entries, PrintsWell entry) ∧ bootDtb.tree.NoneBefore ∧
      FitsTwoOne bootDtb.tree.addressCells bootDtb.tree.sizeCells bootDtb.tree.reg :=
  bootDtb.reported_iff bootDtb_fuelled

/-- The reserved page at zero is not reported. -/
theorem not_reported_boot :
    bootDtb.entries = [(0, 0x1000)] ∧ (parseDtb bootBlob 8 100).state.reservations = [] ∧
      ¬ bootDtb.Reported 100 := by
  obtain ⟨header, hparse⟩ := bootDtb.parseDtb_eq bootDtb_fuelled
  have hnone : (parseDtb bootBlob 8 100).state.reservations = [] := by
    rw [hparse]
    rfl
  refine ⟨rfl, hnone, ?_⟩
  rintro ⟨report, w, hrun, hentries, -⟩
  rw [hrun, hentries] at hnone
  exact absurd hnone (List.cons_ne_nil _ _)

end RPiKernel.DeviceTree
