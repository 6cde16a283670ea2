import RPiKernel.DeviceTree.Walk

/-!
# The walk stays at the tokens

The walk over a structure block reads the words of the tokens that the visit of the tree goes
through, at their addresses, and nothing else. It ends at `FDT_END`, or at the first `reg` that
stands in a node for the memory before the children of that node. Such a node need not be the
first one whose name starts with `memory`.
-/

namespace RPiKernel.DeviceTree

open Machine

/-- What the walk reads at the head of its loop, if it goes through some tokens. -/
def headsOf (p : Nat) (tokens : List Token) : List (Nat × BitVec 32) :=
  (located p tokens).map fun x => (x.1, x.2.code)

/-- The tokens that a visit of a structure block goes through. -/
def StructureBlock.visited (block : StructureBlock) (isReg : BitVec 32 → Bool) : List Token :=
  let visit := visitItems isReg false block.items
  if visit.stopped then visit.tokens else visit.tokens ++ [.fdtEnd]

/-- Whether a visit of a structure block stops at a `reg`. -/
def StructureBlock.stopped (block : StructureBlock) (isReg : BitVec 32 → Bool) : Bool :=
  (visitItems isReg false block.items).stopped

mutual

theorem fdtEnd_notMem_tokens : ∀ item : Item, Token.fdtEnd ∉ item.tokens
  | .nop => by simp [Item.tokens]
  | .prop _ _ => by simp [Item.tokens]
  | .node _ items => by simp [Item.tokens, fdtEnd_notMem_tokensOf items]

theorem fdtEnd_notMem_tokensOf : ∀ items : List Item, Token.fdtEnd ∉ tokensOf items
  | [] => List.not_mem_nil
  | item :: items => by
      simp [tokensOf, fdtEnd_notMem_tokens item, fdtEnd_notMem_tokensOf items]

end

section Run

variable {m : Blob} {strings fuel rounds : Nat} {w : WalkState} {tokens : List Token}

/-- A round of the walk. -/
theorem loop_succ (hexit : w.exit = none) (hended : (walkStep m strings fuel w).ended = true) :
    whileLoop (fun w => w.exit.isNone) (walkStep m strings fuel) (rounds + 1) w =
      whileLoop (fun w => w.exit.isNone) (walkStep m strings fuel) rounds
        (walkStep m strings fuel w).state := by
  rw [whileLoop, hexit, if_pos Option.isNone_none, Progress.andThen, if_pos hended]

/-- A round that leaves the walk is the last one. -/
theorem loop_of_exit {t : Token} {e : Exit} (hstep : t.Step m strings w (walkStep m strings fuel w))
    (hexit : w.exit = none) (he : t.exit m strings w.inMemoryNode = some e) (hrounds : 1 < rounds) :
    whileLoop (fun w => w.exit.isNone) (walkStep m strings fuel) rounds w =
      ⟨(walkStep m strings fuel w).state, true⟩ := by
  obtain ⟨rounds, rfl⟩ : ∃ more, rounds = more + 1 + 1 :=
    ⟨rounds - 2, (Nat.sub_add_cancel hrounds).symm⟩
  rw [loop_succ hexit hstep.ended]
  refine whileLoop_of_not ?_
  rw [hstep.exit, he, Option.isNone_some]

/-- The walk over the tokens up to `FDT_END`, from any state. -/
theorem loop_of_holds (hend : Token.fdtEnd ∉ tokens)
    (h : Holds m w.structBlock ((tokens ++ [Token.fdtEnd]).flatMap Token.encode))
    (hexit : w.exit = none) (hfuel : ∀ t ∈ tokens ++ [Token.fdtEnd], t.size < fuel)
    (hsize : ∀ t ∈ tokens ++ [Token.fdtEnd], t.size < 2 ^ 32)
    (hrounds : (tokens ++ [Token.fdtEnd]).length < rounds) :
    let visit := scan (isReg m strings) w.inMemoryNode (tokens ++ [.fdtEnd])
    let run := whileLoop (fun w => w.exit.isNone) (walkStep m strings fuel) rounds w
    run.ended = true ∧ run.state.heads = w.heads ++ headsOf w.structBlock visit.tokens ∧
      run.state.exit = some (if visit.stopped then .memoryReg else .fdtEnd) := by
  induction tokens generalizing w rounds with
  | nil =>
    have hstep : Token.fdtEnd.Step m strings w (walkStep m strings fuel w) :=
      walkStep_of_holds h hexit (hfuel .fdtEnd (List.mem_singleton_self _))
        (hsize .fdtEnd (List.mem_singleton_self _))
    dsimp only
    rw [loop_of_exit hstep hexit rfl hrounds]
    exact ⟨rfl, hstep.heads, hstep.exit⟩
  | cons t tokens ih =>
    rw [List.mem_cons, not_or] at hend
    rw [List.cons_append] at h hfuel hsize hrounds ⊢
    obtain ⟨htoken, hmore⟩ := holds_append_iff.mp h
    have hstep : t.Step m strings w (walkStep m strings fuel w) :=
      walkStep_of_holds htoken hexit (hfuel t List.mem_cons_self) (hsize t List.mem_cons_self)
    cases hstops : t.stops (isReg m strings) w.inMemoryNode with
    | true =>
      have hlast : t.exit m strings w.inMemoryNode = some .memoryReg := if_pos hstops
      dsimp only
      rw [loop_of_exit hstep hexit hlast (Nat.lt_of_le_of_lt (Nat.le_add_left 1 _) hrounds), scan,
        if_pos hstops]
      exact ⟨rfl, hstep.heads, hstep.exit.trans hlast⟩
    | false =>
      have hgoes : t.exit m strings w.inMemoryNode = none := by
        rw [Token.exit, if_neg (ne_true_of_eq_false hstops)]
        exact fun heq => hend.1 heq.symm
      have hnext := hstep.exit.trans hgoes
      obtain ⟨rounds, rfl⟩ : ∃ more, rounds = more + 1 :=
        ⟨rounds - 1, (Nat.sub_add_cancel (Nat.one_le_of_lt hrounds)).symm⟩
      have hrest : Holds m (walkStep m strings fuel w).state.structBlock
          ((tokens ++ [Token.fdtEnd]).flatMap Token.encode) := by
        rw [hstep.structBlock hnext]
        exact hmore
      obtain ⟨hended, hheads, hleft⟩ := ih hend.2 hrest hnext
        (fun t' h' => hfuel t' (List.mem_cons_of_mem t h'))
        (fun t' h' => hsize t' (List.mem_cons_of_mem t h')) (Nat.lt_of_succ_lt_succ hrounds)
      rw [loop_succ hexit hstep.ended, scan_cons_of_not _ hstops, ← hstep.inMemoryNode]
      refine ⟨hended, ?_, hleft⟩
      rw [hheads, hstep.heads, hstep.structBlock hnext, List.append_assoc]
      rfl

end Run

section StructureBlock

variable (m : Blob) (strings : Nat) {structBlock fuel : Nat} (block : StructureBlock)

/-- The visit of a structure block, on its tokens. -/
theorem scan_block (isReg : BitVec 32 → Bool) :
    (scan isReg false block.tokens).tokens = block.visited isReg ∧
      (scan isReg false block.tokens).stopped = block.stopped isReg := by
  rw [StructureBlock.tokens, scan_append, ← visitItems_eq, StructureBlock.visited,
    StructureBlock.stopped]
  dsimp only
  cases hstopped : (visitItems isReg false block.items).stopped with
  | true => exact ⟨rfl, hstopped⟩
  | false => exact ⟨rfl, rfl⟩

theorem length_tokens_le (tokens : List Token) :
    tokens.length ≤ (tokens.flatMap Token.encode).length := by
  induction tokens with
  | nil => exact Nat.le_refl 0
  | cons t tokens ih =>
    rw [List.flatMap_cons, List.length_append, List.length_cons, Token.encode, List.length_append,
      length_bigEndian]
    omega

/-- On a well-formed structure block, the walk ends, and is at the start of a token at the head of
every round: of each token of the visit, in the order of the block. It leaves at the first `reg`
that stands in a node for the memory before the children of that node, or at `FDT_END`. -/
theorem walk_visits (h : Holds m structBlock (block.tokens.flatMap Token.encode))
    (hfuel : (block.tokens.flatMap Token.encode).length < fuel) :
    let run := walk m strings structBlock fuel
    let visited := block.visited (isReg m strings)
    let stopped := block.stopped (isReg m strings)
    run.ended = true ∧ visited <+: block.tokens ∧ (stopped = false → visited = block.tokens) ∧
      run.state.heads = headsOf structBlock visited ∧
      run.state.exit = some (if stopped then .memoryReg else .fdtEnd) := by
  obtain ⟨hvisited, hstopped⟩ := scan_block block (isReg m strings)
  obtain ⟨hended, hheads, hexit⟩ := @loop_of_holds m strings fuel fuel { structBlock } _
    (fdtEnd_notMem_tokensOf block.items) h rfl
    (fun t ht => (size_le_length ht).trans_lt hfuel) (fun t ht => StructureBlock.size_lt ht)
    ((length_tokens_le _).trans_lt hfuel)
  dsimp only
  rw [← hvisited, ← hstopped]
  exact ⟨hended, scan_prefix false _, scan_complete, hheads, hexit⟩

end StructureBlock

section FirstMemoryNode

mutual

/-- What stands in the first node of an item whose name starts with `memory`. -/
def Item.firstMemory : Item → Option (List Item)
  | .nop => none
  | .prop _ _ => none
  | .node name items => if isMemoryName name then some items else firstMemoryNode items

/-- What stands in the first node whose name starts with `memory`. -/
def firstMemoryNode : List Item → Option (List Item)
  | [] => none
  | item :: items => item.firstMemory.or (firstMemoryNode items)

end

/-- `memory-controller`. -/
def controllerName : List UInt8 :=
  memoryName ++ [0x2D, 0x63, 0x6F, 0x6E, 0x74, 0x72, 0x6F, 0x6C, 0x6C, 0x65, 0x72]

/-- A root with a node `memory-controller` that is empty, and a node `memory` with a `reg`. -/
def controllerBlock : StructureBlock where
  items := [.node ⟨[], by decide⟩ [.node ⟨controllerName, by decide⟩ [],
    .node ⟨memoryName, by decide⟩ [.prop 0 [0, 0, 0, 0]]]]
  fits := by decide +kernel

/-- That structure block at zero, with the name `reg` behind it. -/
def controllerBlob : Blob :=
  fun p => (controllerBlock.tokens.flatMap Token.encode ++ regName ++ [0]).getD p 0

theorem walk_visits_controller :
    Holds controllerBlob 0 (controllerBlock.tokens.flatMap Token.encode) ∧
      (walk controllerBlob 76 0 100).state.exit = some .memoryReg := by
  have h : Holds controllerBlob 0 (controllerBlock.tokens.flatMap Token.encode) := by
    decide +kernel
  have hrun := @walk_visits controllerBlob 76 0 100 controllerBlock h (by decide +kernel)
  refine ⟨h, hrun.2.2.2.2.trans ?_⟩
  decide +kernel

/-- The walk passes a node for the memory that has no `reg`. -/
theorem not_walk_ends_at_first_memory :
    ¬ ∀ (m : Blob) (strings structBlock fuel : Nat) (block : StructureBlock),
      Holds m structBlock (block.tokens.flatMap Token.encode) →
      (block.tokens.flatMap Token.encode).length < fuel →
      (walk m strings structBlock fuel).state.exit = some .fdtEnd ∨
        ∃ items nameoff value, firstMemoryNode block.items = some items ∧
          Item.prop nameoff value ∈ items ∧ isReg m strings nameoff = true := by
  intro hends
  have hexit : (walk controllerBlob 76 0 100).state.exit = some .memoryReg := by decide +kernel
  have hfirst : firstMemoryNode controllerBlock.items = some [] := rfl
  obtain hend | ⟨items, nameoff, value, hitems, hmem, -⟩ :=
    hends controllerBlob 76 0 100 controllerBlock (by decide +kernel) (by decide +kernel)
  · rw [hexit] at hend
    exact absurd hend (by decide)
  · obtain rfl : [] = items := Option.some.inj (hfirst.symm.trans hitems)
    exact List.not_mem_nil hmem

end FirstMemoryNode

end RPiKernel.DeviceTree
