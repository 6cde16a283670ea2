import RPiKernel.Mmu.CommitPages

/-!
# The calls

`Mapped` is the invariant of the memory management: the words in memory encode a
layout whose entries are those of the committed pages. `allocateAndCommitPages_cases`
and `allocateGpuMemory_cases` say what one call does to it.
-/

namespace RPiKernel.Mmu

open Machine Containers Intervals

namespace MmuState

/-- The page of the L2 table behind an entry of the L1 table. -/
def l2Table (s : MmuState) (i : Nat) : Option Nat :=
  if Entry.isTable (s.l1 i) then some (Entry.outputPage (s.l1 i)) else none

/-- The page of an L3 table, counted over the whole address space. -/
def l3Table (s : MmuState) (k : Nat) : Option Nat :=
  (s.l2Table (k / 512)).bind fun p =>
    if Entry.isTable (s.memory (512 * p + k % 512)) then
      some (Entry.outputPage (s.memory (512 * p + k % 512)))
    else
      none

/-- How many physical pages the commit of `n` pages from `v` on takes. -/
def pagesNeeded (s : MmuState) (v n : Nat) : Nat :=
  n + ((missing s.l2Table 262144 v n).card + (missing s.l3Table 512 v n).card)

end MmuState

section Read

variable {board : Board} {s s' : MmuState} {T : Layout} {p : Nat}

theorem static_not_isTable (board : Board) (i : Nat) :
    Entry.isTable (board.l1PageTable i) = false := by
  rcases static_cases board i with hzero | hblock
  · rw [hzero]
    exact isTable_zero
  · rw [← Bool.not_eq_true]
    intro htable
    rw [isBlock_eq_false_of_isTable htable] at hblock
    cases hblock

/-- Only the words of the tables and of the allocator matter. -/
theorem Encodes.of_same (h : Encodes board s T) (hphysical : s'.physicalWords = s.physicalWords)
    (hl1 : s'.l1 = s.l1) (hmemory : s'.memory = s.memory) : Encodes board s' T := by
  have hfree := MmuState.free_of_words hphysical
  constructor
  case physical =>
    rw [hphysical]
    exact h.physical
  case taken =>
    rw [hfree]
    exact h.taken
  case l1 =>
    rw [hl1]
    exact h.l1
  case vacant => exact h.vacant
  case l2Use => exact h.l2Use
  case l2Words =>
    rw [hmemory]
    exact h.l2Words
  case l3Use => exact h.l3Use
  case l3Words =>
    rw [hmemory]
    exact h.l3Words
  case l3Parent => exact h.l3Parent
  case pteParent => exact h.pteParent

/-- The words of the L1 table lead to the L2 tables of the layout. -/
theorem Encodes.l2Table_eq (h : Encodes board s T) (i : Nat) : s.l2Table i = T.l2 i := by
  rw [MmuState.l2Table, h.l1]
  cases hl2 : T.l2 i with
  | none =>
      rw [Option.elim_none, static_not_isTable, if_neg Bool.false_ne_true]
  | some p =>
      rw [Option.elim_some, if_pos (isTable_tableEntry p),
        outputPage_tableEntry ((h.l2_lt hl2).trans (by decide))]

/-- The words of the L2 tables lead to the L3 tables of the layout. -/
theorem Encodes.l3Table_eq (h : Encodes board s T) (k : Nat) : s.l3Table k = T.l3 k := by
  rw [MmuState.l3Table, h.l2Table_eq]
  cases hl2 : T.l2 (k / 512) with
  | none =>
      rw [Option.bind_none]
      cases hl3 : T.l3 k with
      | none => rfl
      | some q =>
          obtain ⟨p, hp⟩ := h.l3Parent hl3
          rw [hl2] at hp
          cases hp
  | some p =>
      have hk : 512 * (k / 512) + k % 512 = k := Nat.div_add_mod k 512
      rw [Option.bind_some, h.l2Words hl2 _ (Nat.mod_lt k (by decide)), hk]
      cases hl3 : T.l3 k with
      | none => rw [Option.elim_none, isTable_zero, if_neg Bool.false_ne_true]
      | some q =>
          have hlt := (h.taken (h.l3Use hl3)).1.lt
          rw [Option.elim_some, if_pos (isTable_tableEntry q),
            outputPage_tableEntry (hlt.trans (by decide))]

theorem Encodes.cost_eq (h : Encodes board s T) (v n : Nat) : s.pagesNeeded v n = T.cost v n := by
  have hl2 : s.l2Table = T.l2 := funext h.l2Table_eq
  have hl3 : s.l3Table = T.l3 := funext h.l3Table_eq
  rw [MmuState.pagesNeeded, hl2, hl3, Layout.cost]

/-- The walk reads the static block or the entry of the page. -/
theorem Encodes.translate_eq (h : Encodes board s T) {va : Nat} (hva : va < 2 ^ 39) :
    s.translate va =
      if Entry.isBlock (board.l1PageTable (va / 2 ^ 30)) then
        some (Entry.outputL1Block (board.l1PageTable (va / 2 ^ 30)) * 2 ^ 30 + va % 2 ^ 30)
      else if Entry.isPage (T.pte (va / 2 ^ 12)) then
        some (Entry.outputPage (T.pte (va / 2 ^ 12)) * 2 ^ 12 + va % 2 ^ 12)
      else
        none := by
  have hl2index : va / 2 ^ 12 / 512 / 512 = va / 2 ^ 30 := by omega
  have hl3index : 512 * (va / 2 ^ 30) + va / 2 ^ 21 % 512 = va / 2 ^ 12 / 512 := by omega
  have hpteindex : 512 * (va / 2 ^ 12 / 512) + va / 2 ^ 12 % 512 = va / 2 ^ 12 := by omega
  rw [MmuState.translate, if_neg (Nat.not_le.mpr hva)]
  dsimp only
  rw [h.l1]
  cases hl2 : T.l2 (va / 2 ^ 30) with
  | none =>
      have hpte : T.pte (va / 2 ^ 12) = 0 := by
        by_contra hne
        obtain ⟨q, hq⟩ := h.pteParent hne
        obtain ⟨p, hp⟩ := h.l3Parent hq
        rw [hl2index, hl2] at hp
        cases hp
      rw [Option.elim_none, static_not_isTable, hpte, isPage_zero]
      simp only [Bool.false_eq_true, if_false]
  | some p =>
      have hplt := (h.l2_lt hl2).trans (by decide : 2097152 < 68719476736)
      rw [Option.elim_some, isBlock_tableEntry, h.vacant hl2, isBlock_zero,
        if_neg Bool.false_ne_true, if_neg Bool.false_ne_true, if_pos (isTable_tableEntry p),
        outputPage_tableEntry hplt, h.l2Words hl2 _ (Nat.mod_lt _ (by decide)), hl3index]
      cases hl3 : T.l3 (va / 2 ^ 12 / 512) with
      | none =>
          have hpte : T.pte (va / 2 ^ 12) = 0 := by
            by_contra hne
            obtain ⟨q, hq⟩ := h.pteParent hne
            rw [hl3] at hq
            cases hq
          rw [Option.elim_none, isBlock_zero, isTable_zero, hpte, isPage_zero]
          simp only [Bool.false_eq_true, if_false]
      | some q =>
          have hqlt := (h.taken (h.l3Use hl3)).1.lt.trans (by decide : 2097152 < 68719476736)
          rw [Option.elim_some, isBlock_tableEntry, if_neg Bool.false_ne_true,
            if_pos (isTable_tableEntry q), outputPage_tableEntry hqlt,
            h.l3Words hl3 _ (Nat.mod_lt _ (by decide)), hpteindex]

/-- A translation stays when the entries in use do. -/
theorem Encodes.translate_kept {T' : Layout} (h : Encodes board s T) (h' : Encodes board s' T')
    (hkept : ∀ v, T.pte v ≠ 0 → T'.pte v = T.pte v) {va pa : Nat}
    (hpa : s.translate va = some pa) : s'.translate va = some pa := by
  by_cases hva : va < 2 ^ 39
  · rw [h.translate_eq hva] at hpa
    rw [h'.translate_eq hva]
    split at hpa
    · next hblock => rw [if_pos hblock, hpa]
    · next hblock =>
      rw [if_neg hblock]
      split at hpa
      · next hpage =>
        have hne : T.pte (va / 2 ^ 12) ≠ 0 := by
          intro hzero
          rw [hzero, isPage_zero] at hpage
          cases hpage
        rw [hkept _ hne, if_pos hpage, hpa]
      · cases hpa
  · rw [MmuState.translate, if_pos (Nat.not_lt.mp hva)] at hpa
    cases hpa

/-- The translation of a page that has been committed. -/
theorem Encodes.translate_page (h : Encodes board s T) {v : Nat} (hv : VirtualPage v)
    (hp : PoolPage p) (hpte : T.pte v = (l3NormalMem (p * 4096)).word) {offset : Nat}
    (hoffset : offset < 4096) : s.translate (v * 4096 + offset) = some (p * 4096 + offset) := by
  have hlt := hv.lt
  have hpage : (v * 4096 + offset) / 2 ^ 12 = v := by omega
  have hstatic : board.l1PageTable ((v * 4096 + offset) / 2 ^ 30) = 0 := by
    rw [show (v * 4096 + offset) / 2 ^ 30 = v / 262144 by omega]
    exact hv.static board
  rw [h.translate_eq (by omega), hstatic, isBlock_zero, if_neg Bool.false_ne_true, hpage, hpte,
    isPage_l3NormalMem, if_pos rfl, hp.output_l3NormalMem]
  congr 1
  omega

end Read

/-- The words encode a layout, and the committed pages are the ones with entries, each for
a data page of its own. -/
structure Mapped (board : Board) (s : MmuState) (T : Layout) : Prop where
  encodes : Encodes board s T
  virtual : Represents virtualMemoryAllocator s.virtualWords
    (s.commits.map (Span.countedFrom · 0x100000))
  start_le : ∀ c ∈ s.commits, 0x100000 ≤ c.start
  committed : ∀ v, T.pte v ≠ 0 → ∃ c ∈ s.commits, v ∈ c
  data : ∀ c ∈ s.commits, ∀ v ∈ c, ∃ p, T.use p = some (.data v) ∧
    T.pte v = (l3NormalMem (p * 4096)).word

/-- What a request to the virtual allocator does. -/
theorem run_allocateVirtual_cases {s : MmuState} {live : List Span} (n : PageCount)
    (h : Represents virtualMemoryAllocator s.virtualWords live) :
    ((allocateVirtual n.val).run s = .ok uint32Max { s with refused := s.refused + 1 } ∧
      NoFit s.virtualWords n.val 1) ∨
    (∃ r words, (allocateVirtual n.val).run s = .ok r { s with virtualWords := words } ∧
      FirstFit s.virtualWords n.val 1 r ∧ r + n.val ≤ 0x40000 ∧
      Represents virtualMemoryAllocator words (⟨r, n.val⟩ :: live)) ∨
    ((allocateVirtual n.val).run s =
        .error (.pool .undefinedShift) { s with refused := s.refused + 1 } ∧
      NoFit s.virtualWords n.val 1) := by
  have hsize : virtualMemoryAllocator.size = 0x40000 := by decide
  have hone : IsPowerOfTwo 1 := ⟨0, by decide, rfl⟩
  have hpos := n.pos
  rcases allocate_cases h hpos n.lt hone with
    ⟨hrun, hnone⟩ | ⟨r, words, hrun, hfit, h'⟩ | ⟨hrun, hlarge⟩
  · refine Or.inl ⟨?_, hnone⟩
    simp only [EStateM.run, allocateVirtual, hrun, refuse, if_true]
  · have hlast := (h.freeRun_iff.mp hfit.2.1 (r + n.val - 1) (by omega) (by omega)).1
    rw [hsize] at hlast
    have hne : r ≠ uint32Max := by
      simp only [uint32Max]
      omega
    refine Or.inr (Or.inl ⟨r, words, ?_, hfit, by omega, h'⟩)
    simp only [EStateM.run, allocateVirtual, hrun, refuse, if_neg hne]
  · refine Or.inr (Or.inr ⟨?_, ?_⟩)
    · simp only [EStateM.run, allocateVirtual, hrun]
    · intro r _ hfree
      have hlast := (h.freeRun_iff.mp hfree (r + n.val - 1) (by omega) (by omega)).1
      rw [hsize] at hlast
      omega

namespace MmuState

/-- The allocators have the pages for a commit: a fit among the virtual pages, and enough
physical pages for the data and for the tables that are missing. -/
def Satisfiable (s : MmuState) (n : Nat) : Prop :=
  ∃ r, FirstFit s.virtualWords n 1 r ∧ s.pagesNeeded (0x100000 + r) n ≤ s.free.card

end MmuState

/-- Each page needs one page of its own, and two tables at most. -/
theorem MmuState.pagesNeeded_le (s : MmuState) (v n : Nat) : s.pagesNeeded v n ≤ 3 * n := by
  have hmissing : ∀ table c, (missing table c v n).card ≤ n := by
    intro table c
    calc
      (missing table c v n).card ≤ ((Finset.range n).image fun i => (v + i) / c).card :=
        Finset.card_filter_le _ _
      _ ≤ (Finset.range n).card := Finset.card_image_le
      _ = n := Finset.card_range n
  have hl2 := hmissing s.l2Table 262144
  have hl3 := hmissing s.l3Table 512
  rw [MmuState.pagesNeeded]
  omega

theorem FirstFit.unique {words : List Word} {count alignment r r' : Nat}
    (h : FirstFit words count alignment r) (h' : FirstFit words count alignment r') : r = r' := by
  rcases Nat.lt_trichotomy r r' with hlt | heq | hgt
  · exact absurd h.2.1 (h'.2.2 r hlt h.1)
  · exact heq
  · exact absurd h'.2.1 (h.2.2 r' hgt h'.1)

section Commit

variable {board : Board} {s s' : MmuState} {T T' : Layout}

/-- A commit that succeeded, recorded as one. -/
theorem Mapped.commit {r n result : Nat} {words : List Word} (h : Mapped board s T)
    (hv : Represents virtualMemoryAllocator words
      (⟨r, n⟩ :: s.commits.map (Span.countedFrom · 0x100000)))
    (hcommitted : Committed board (0x100000 + r) n { s with virtualWords := words, writes := [] } T
      s' T')
    (hresult : result >>> 12 = 0x100000 + r) (count : PageCount) (hcount : count.val = n) :
    Mapped board (s'.returned (.allocateAndCommitPages count) result) T' ∧
      ∀ v, T.pte v ≠ 0 → T'.pte v = T.pte v := by
  have hcommits : s'.commits = s.commits := hcommitted.same.commits
  have hwords : s'.virtualWords = words := hcommitted.same.virtualWords
  have hnew : (s'.returned (.allocateAndCommitPages count) result).commits =
      ⟨0x100000 + r, n⟩ :: s.commits := by
    rw [MmuState.returned, hresult, hcount, hcommits]
  have hapart : ∀ c ∈ s.commits, ∀ v ∈ c, ¬ (0x100000 + r ≤ v ∧ v < 0x100000 + r + n) := by
    rintro c hc v hv' ⟨hle, hlt⟩
    have hmem : c.countedFrom 0x100000 ∈ s.commits.map (Span.countedFrom · 0x100000) :=
      List.mem_map_of_mem hc
    have hne : (⟨r, n⟩ : Span) ≠ c.countedFrom 0x100000 := by
      intro heq
      exact (List.nodup_cons.mp hv.1).1 (heq ▸ hmem)
    have hin : v - 0x100000 ∈ (⟨r, n⟩ : Span) := by
      rw [← Span.countedFrom_add 0x100000 r n]
      exact Span.mem_countedFrom (Nat.le_add_right _ _) ⟨hle, hlt⟩
    exact hv.disjoint (List.mem_cons_self ..) (List.mem_cons_of_mem _ hmem) hne (v - 0x100000) hin
      (Span.mem_countedFrom (h.start_le c hc) hv')
  have hkept : ∀ c ∈ s.commits, ∀ v ∈ c, T'.pte v = T.pte v := by
    intro c hc v hv'
    have hout := hapart c hc v hv'
    exact hcommitted.pteKept (by omega)
  refine ⟨⟨?_, ?_, ?_, ?_, ?_⟩, fun v hv' => ?_⟩
  · exact hcommitted.encodes.of_same rfl rfl rfl
  · rw [hnew, List.map_cons, Span.countedFrom_add]
    exact hwords ▸ hv
  · rw [hnew]
    intro c hc
    rcases List.mem_cons.mp hc with rfl | hc
    · exact Nat.le_add_right _ _
    · exact h.start_le c hc
  · rw [hnew]
    intro v hv'
    by_cases hin : 0x100000 + r ≤ v ∧ v < 0x100000 + r + n
    · exact ⟨_, List.mem_cons_self .., hin⟩
    · rw [hcommitted.pteKept (by omega)] at hv'
      obtain ⟨c, hc, hv⟩ := h.committed v hv'
      exact ⟨c, List.mem_cons_of_mem _ hc, hv⟩
  · rw [hnew]
    intro c hc v hv'
    rcases List.mem_cons.mp hc with rfl | hc
    · exact hcommitted.data hv'.1 hv'.2
    · obtain ⟨p, huse, hpte⟩ := h.data c hc v hv'
      exact ⟨p, hcommitted.useKept huse, (hkept c hc v hv').trans hpte⟩
  · obtain ⟨c, hc, hv'⟩ := h.committed v hv'
    exact hkept c hc v hv'

/-- A commit that the allocators can satisfy. -/
structure Served (board : Board) (s : MmuState) (T : Layout) (n : PageCount) (result : Nat)
    (s' : MmuState) (T' : Layout) : Prop where
  outcome : s.outcome (.allocateAndCommitPages n) = .ok result s'
  mapped : Mapped board (s'.returned (.allocateAndCommitPages n) result) T'
  pteKept : ∀ v, T.pte v ≠ 0 → T'.pte v = T.pte v
  useKept : ∀ {p u}, T.use p = some u → T'.use p = some u
  refused : s'.refused = s.refused
  aligned : result % 4096 = 0
  commits : s'.commits = s.commits
  buffers : s'.buffers = s.buffers
  writes : ∀ x ∈ s'.writes, VirtualPage x.page ∧ PoolPage (Entry.outputPage x.entry)

theorem finalState_bind_pure {α β : Type} {m : MmuM α} (f : α → β) (s : MmuState) :
    finalState ((m >>= fun a => pure (f a)).run s) = finalState (m.run s) := by
  cases hrun : m.run s with
  | ok a s₁ =>
      rw [run_bind_ok hrun]
      rfl
  | error fault s₁ =>
      rw [run_bind_error hrun]
      rfl

/-- The result of `AllocatePages`, as the first page to commit. -/
theorem commitPages_allocated {r n : Nat} (hr : r + n ≤ 0x40000) (hn : 0 < n) :
    commitPages (mul32 r 0x1000 + virtualMemoryAllocatorOffset) n =
      commitPagesFrom (0x100000 + r) 0 n := by
  have hpage : ((mul32 r 0x1000 + virtualMemoryAllocatorOffset) >>> 12) % 2 ^ 32 =
      0x100000 + r := by
    rw [Nat.shiftRight_eq_div_pow, mul32, virtualMemoryAllocatorOffset]
    omega
  rw [commitPages, hpage]

/-- What a call of `AllocateAndCommitPages` does. -/
theorem allocateAndCommitPages_cases (h : Mapped board s T) (n : PageCount) :
    (s.Satisfiable n.val ∧ ∃ result s' T', Served board s T n result s' T') ∨
    (¬ s.Satisfiable n.val ∧
      s.refused < (finalState (s.outcome (.allocateAndCommitPages n))).refused ∧
      ((∃ x ∈ (finalState (s.outcome (.allocateAndCommitPages n))).writes,
          ¬ (VirtualPage x.page ∧ PoolPage (Entry.outputPage x.entry))) ∨
        ∃ s', s.outcome (.allocateAndCommitPages n) = .error (.pool .undefinedShift) s')) := by
  have hnone : NoFit s.virtualWords n.val 1 → ¬ s.Satisfiable n.val := by
    rintro hfit ⟨r, hr, -⟩
    exact hfit r hr.1 hr.2.1
  have hencodes : Encodes board { s with writes := [] } T := h.encodes.of_same rfl rfl rfl
  have hunfold : s.outcome (.allocateAndCommitPages n) =
      (allocateAndCommitPages n.val).run { s with writes := [] } := rfl
  have hpages : ∀ {r s₁}, (allocateVirtual n.val).run { s with writes := [] } = .ok r s₁ →
      (allocateAndCommitPages n.val).run { s with writes := [] } =
        (commitPages (mul32 r 0x1000 + virtualMemoryAllocatorOffset) n.val >>= fun _ =>
          pure (mul32 r 0x1000 + virtualMemoryAllocatorOffset)).run s₁ := by
    intro r s₁ hrun
    have hpages : (allocatePages n.val).run { s with writes := [] } =
        .ok (mul32 r 0x1000 + virtualMemoryAllocatorOffset) s₁ := by
      rewrite [allocatePages, run_bind_ok hrun]
      rfl
    rewrite [allocateAndCommitPages, run_bind_ok hpages]
    rfl
  rcases run_allocateVirtual_cases (s := { s with writes := [] }) n h.virtual with
    ⟨hrun, hfit⟩ | ⟨r, words, hrun, hfit, hle, hv⟩ | ⟨hrun, hfit⟩
  · obtain ⟨k, hk⟩ := Nat.exists_eq_succ_of_ne_zero (Nat.ne_of_gt n.pos)
    have hbase : commitPages (mul32 uint32Max 0x1000 + virtualMemoryAllocatorOffset) n.val =
        commitPagesFrom 0x1FFFFF 0 (k + 1) := by
      have hpage : ((mul32 uint32Max 0x1000 + virtualMemoryAllocatorOffset) >>> 12) % 2 ^ 32 =
          0x1FFFFF := by decide
      rw [commitPages, hpage, hk]
    rw [hunfold, hpages hrun, finalState_bind_pure, hbase]
    refine Or.inr ⟨hnone hfit, ?_, Or.inl ?_⟩
    · exact Nat.lt_of_lt_of_le (Nat.lt_succ_self s.refused)
        (grows_commitPagesFrom 0x1FFFFF (k + 1) 0
          { s with writes := [], refused := s.refused + 1 }).2
    · have hstate : Encodes board { s with writes := [], refused := s.refused + 1 } T :=
        h.encodes.of_same rfl rfl rfl
      exact written_of_no_fit hstate k
  · have hvirtual : ∀ j, 0 ≤ j → j < 0 + n.val → VirtualPage (0x100000 + r + j) := by
      intro j _ hj
      exact ⟨by omega, by omega⟩
    have hloop := commitPagesFrom_cases (s := { s with virtualWords := words, writes := [] })
      n.val 0 (h.encodes.of_same rfl rfl rfl) hvirtual
    rw [Nat.add_zero, ← h.encodes.cost_eq] at hloop
    have hbase := commitPages_allocated hle n.pos
    rcases hloop with ⟨s', T', hloop, hcommitted, hcost⟩ | ⟨⟨hrefused, x, hx, hout⟩, hcost⟩
    · have hresult : (mul32 r 0x1000 + virtualMemoryAllocatorOffset) >>> 12 = 0x100000 + r := by
        rw [Nat.shiftRight_eq_div_pow, mul32, virtualMemoryAllocatorOffset]
        omega
      obtain ⟨hmapped, hpte⟩ := h.commit hv hcommitted hresult n rfl
      refine Or.inl ⟨⟨r, hfit, hcost⟩, mul32 r 0x1000 + virtualMemoryAllocatorOffset, s', T', ?_⟩
      refine ⟨?_, hmapped, hpte, hcommitted.useKept, hcommitted.refused, ?_,
        hcommitted.same.commits, hcommitted.same.buffers, ?_⟩
      · rw [hunfold, hpages hrun, hbase, run_bind_ok hloop]
        rfl
      · rw [mul32, virtualMemoryAllocatorOffset]
        omega
      · obtain ⟨new, hnew, hall⟩ := hcommitted.writes
        intro x hx
        rw [hnew, List.append_nil] at hx
        obtain ⟨hfirst, hlast, hpool⟩ := hall x hx
        exact ⟨⟨by omega, by omega⟩, hpool⟩
    · refine Or.inr ⟨?_, ?_, Or.inl ⟨x, ?_, fun hboth => hout hboth.2⟩⟩
      · rintro ⟨r', hfit', hcost'⟩
        rw [FirstFit.unique hfit' hfit] at hcost'
        exact absurd hcost' (Nat.not_le.mpr hcost)
      · rw [hunfold, hpages hrun, finalState_bind_pure, hbase]
        exact hrefused
      · rw [hunfold, hpages hrun, finalState_bind_pure, hbase]
        exact hx
  · have hfault : s.outcome (.allocateAndCommitPages n) = .error (.pool .undefinedShift)
        { s with writes := [], refused := s.refused + 1 } := by
      have hpages : (allocatePages n.val).run { s with writes := [] } =
          .error (.pool .undefinedShift) { s with writes := [], refused := s.refused + 1 } := by
        rewrite [allocatePages]
        exact run_bind_error hrun
      rw [hunfold, allocateAndCommitPages, run_bind_error hpages]
    refine Or.inr ⟨hnone hfit, ?_, Or.inr ⟨_, hfault⟩⟩
    rw [hfault]
    exact Nat.lt_succ_self _

end Commit

section Buffer

variable {board : Board} {s : MmuState} {T : Layout}

/-- What a request to the physical allocator does. -/
theorem run_allocatePhysical_cases {live : List Span} (n : PageCount)
    (h : Represents physicalMemoryAllocator s.physicalWords live) :
    (allocatePhysical n.val).run s = .ok uint32Max { s with refused := s.refused + 1 } ∨
    (∃ r words, (allocatePhysical n.val).run s = .ok r { s with physicalWords := words } ∧
      FirstFit s.physicalWords n.val 1 r ∧ r + n.val ≤ 0x10000 ∧
      Represents physicalMemoryAllocator words (⟨r, n.val⟩ :: live)) ∨
    (allocatePhysical n.val).run s =
      .error (.pool .undefinedShift) { s with refused := s.refused + 1 } := by
  have hsize : physicalMemoryAllocator.size = 0x10000 := by decide
  have hone : IsPowerOfTwo 1 := ⟨0, by decide, rfl⟩
  have hpos := n.pos
  rcases allocate_cases h hpos n.lt hone with
    ⟨hrun, -⟩ | ⟨r, words, hrun, hfit, h'⟩ | ⟨hrun, -⟩
  · refine Or.inl ?_
    simp only [EStateM.run, allocatePhysical, hrun, refuse, if_true]
  · have hlast := (h.freeRun_iff.mp hfit.2.1 (r + n.val - 1) (by omega) (by omega)).1
    rw [hsize] at hlast
    have hne : r ≠ uint32Max := by
      simp only [uint32Max]
      omega
    refine Or.inr (Or.inl ⟨r, words, ?_, hfit, by omega, h'⟩)
    simp only [EStateM.run, allocatePhysical, hrun, refuse, if_neg hne]
  · refine Or.inr (Or.inr ?_)
    simp only [EStateM.run, allocatePhysical, hrun]

/-- A request for a buffer that the physical allocator can satisfy. -/
structure Provided (board : Board) (s : MmuState) (T : Layout) (n : PageCount) (result : Nat)
    (s' : MmuState) (T' : Layout) : Prop where
  outcome : s.outcome (.allocateGpuMemory n) = .ok result s'
  mapped : Mapped board (s'.returned (.allocateGpuMemory n) result) T'
  pte_eq : T'.pte = T.pte
  useKept : ∀ {p u}, T.use p = some u → T'.use p = some u
  refused : s'.refused = s.refused
  commits : s'.commits = s.commits
  buffer : ∃ b, (s'.returned (.allocateGpuMemory n) result).buffers = b :: s.buffers ∧
    b.start ∈ b ∧ ∀ p ∈ b, T.use p = none ∧ T'.use p = some (.gpu b)

/-- The pages of a buffer are taken from the free ones. -/
theorem Mapped.provide {live : List Span} {r : Nat} {words : List Word} {n : PageCount}
    (h : Mapped board s T) (hrep : Represents physicalMemoryAllocator s.physicalWords live)
    (hfit : FirstFit s.physicalWords n.val 1 r) (hle : r + n.val ≤ 0x10000)
    (hrep' : Represents physicalMemoryAllocator words (⟨r, n.val⟩ :: live))
    (houtcome : s.outcome (.allocateGpuMemory n) =
      .ok ((r + 0x20000) <<< 12 + 0xC0000000) { s with physicalWords := words, writes := [] }) :
    ∃ T', Provided board s T n ((r + 0x20000) <<< 12 + 0xC0000000)
      { s with physicalWords := words, writes := [] } T' := by
  obtain ⟨b, hb⟩ : ∃ b : Span, b = ⟨r + 0x20000, n.val⟩ := ⟨_, rfl⟩
  have hstart : b.start = r + 0x20000 := by rw [hb]
  have hstop : b.stop = r + 0x20000 + n.val := by rw [hb]; rfl
  have hpos := n.pos
  have hbuffer : ((r + 0x20000) <<< 12 + 0xC0000000 - 0xC0000000) >>> 12 = b.start := by
    rw [Nat.add_sub_cancel, Nat.shiftLeft_shiftRight, hstart]
  have hpages : ∀ p, b.start ≤ p ∧ p < b.stop → PoolPage p ∧ p - 0x20000 ∈ s.free := by
    intro p hp
    exact ⟨⟨by omega, by omega⟩,
      hrep.freeRun_iff_subset.mp hfit.2.1 (p - 0x20000) (by omega) (by omega)⟩
  have hfree : ∀ p, PoolPage p → p - 0x20000 ∈ freeSlots physicalMemoryAllocator words →
      p - 0x20000 ∈ s.free ∧ ¬ (b.start ≤ p ∧ p < b.stop) := by
    intro p hpool hp
    obtain ⟨hold, hout⟩ := (hrep.mem_freeSlots_cons hrep').mp hp
    refine ⟨hold, fun hin => hout ?_⟩
    have hle : 0x20000 ≤ p := hpool.1
    simp only [Span.mem_iff]
    exact ⟨by omega, by omega⟩
  have hkept : ∀ {p u}, T.use p = some u →
      (if b.start ≤ p ∧ p < b.stop then some (.gpu b) else T.use p) = some u := by
    intro p u hu
    rw [if_neg fun hin => (h.encodes.taken hu).2 (hpages p hin).2, hu]
  have hencodes : Encodes board { s with physicalWords := words, writes := [] } { T with
      use := fun p => if b.start ≤ p ∧ p < b.stop then some (.gpu b) else T.use p } :=
    h.encodes.addBuffer hpages ⟨_, hrep'⟩ hfree rfl rfl
  refine ⟨_, houtcome, ⟨hencodes.of_same rfl rfl rfl, h.virtual, h.start_le, h.committed, ?_⟩, rfl,
    hkept, rfl, rfl, b, ?_, ⟨le_rfl, by omega⟩, fun p hp => ⟨?_, if_pos hp⟩⟩
  · intro c hc v hv
    obtain ⟨p, hu, hpte⟩ := h.data c hc v hv
    exact ⟨p, hkept hu, hpte⟩
  · rw [MmuState.returned, hbuffer, hb]
  · exact h.encodes.use_eq_none (hpages p hp).2

/-- What a call of `AllocateGpuMemory` does. -/
theorem allocateGpuMemory_cases (h : Mapped board s T) (n : PageCount) :
    (∃ result s' T', Provided board s T n result s' T') ∨
    (∃ result s', s.outcome (.allocateGpuMemory n) = .ok result s' ∧ s.refused < s'.refused ∧
      Mapped board (s'.returned (.allocateGpuMemory n) result) T) ∨
    ∃ fault s', s.outcome (.allocateGpuMemory n) = .error fault s' ∧ s.refused < s'.refused := by
  obtain ⟨live, hrep⟩ := h.encodes.physical
  have hoffset : physicalMemoryAllocatorPageOffset = 0x20000 := by decide
  have houtcome : ∀ {r s₁}, (allocatePhysical n.val).run { s with writes := [] } = .ok r s₁ →
      s.outcome (.allocateGpuMemory n) = .ok ((r + 0x20000) <<< 12 + 0xC0000000) s₁ := by
    intro r s₁ hrun
    have hunfold : s.outcome (.allocateGpuMemory n) =
        (allocateGpuMemory n.val).run { s with writes := [] } := rfl
    rewrite [hunfold, allocateGpuMemory, run_bind_ok hrun, hoffset]
    rfl
  rcases run_allocatePhysical_cases (s := { s with writes := [] }) n hrep with
    hrun | ⟨r, words, hrun, hfit, hle, hrep'⟩ | hrun
  · refine Or.inr (Or.inl ⟨_, { s with writes := [], refused := s.refused + 1 }, houtcome hrun,
      Nat.lt_succ_self _, ?_⟩)
    exact ⟨h.encodes.of_same rfl rfl rfl, h.virtual, h.start_le, h.committed, h.data⟩
  · obtain ⟨T', hprovided⟩ := h.provide hrep hfit hle hrep' (houtcome hrun)
    exact Or.inl ⟨_, _, T', hprovided⟩
  · refine Or.inr (Or.inr ⟨.pool .undefinedShift, { s with writes := [], refused := s.refused + 1 },
      ?_, Nat.lt_succ_self _⟩)
    have hunfold : s.outcome (.allocateGpuMemory n) =
        (allocateGpuMemory n.val).run { s with writes := [] } := rfl
    rw [hunfold, allocateGpuMemory, run_bind_error hrun]

end Buffer

end RPiKernel.Mmu
