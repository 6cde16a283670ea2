import RPiKernel.Mmu.Calls

/-!
# The separation of the pages

In a run that never exhausts an allocator, every committed page is translated to a data
page of its own, and data pages, tables and GPU buffers share no page. A later call
changes no translation.
-/

namespace RPiKernel.Mmu

open Machine Containers Intervals Transition

/-- A physical page that a table, a committed page or a buffer lies in. -/
inductive UsesPage (s : MmuState) : PageUse → Nat → Prop where
  | l2Table {i p : Nat} (h : s.l2Table i = some p) : UsesPage s (.l2Table i) p
  | l3Table {k p : Nat} (h : s.l3Table k = some p) : UsesPage s (.l3Table k) p
  | data {c : Span} {v p : Nat} (hc : c ∈ s.commits) (hv : v ∈ c)
      (h : s.translate (v * 4096) = some (p * 4096)) : UsesPage s (.data v) p
  | gpu {b : Span} {p : Nat} (hb : b ∈ s.buffers) (hp : p ∈ b) : UsesPage s (.gpu b) p

/-- The committed pages are translated, and no page has two uses. -/
structure WellMapped (board : Board) (s : MmuState) : Prop where
  translated : ∀ c ∈ s.commits, ∀ v ∈ c, ∃ p, PoolPage p ∧ ∀ offset < 4096,
    s.translate (v * 4096 + offset) = some (p * 4096 + offset)
  distinct : ∀ u u' p, UsesPage s u p → UsesPage s u' p → u = u'
  buffers_nodup : s.buffers.Nodup
  static : ∀ i, Entry.isBlock (board.l1PageTable i) = true → s.l1 i = board.l1PageTable i

/-- No allocator refuses a request that the call makes. -/
def NotExhausted (s : MmuState) (call : MmuCall) : Prop :=
  (finalState (s.outcome call)).refused = s.refused

/-- The pages of the buffers are used for them. -/
structure Buffered (s : MmuState) (T : Layout) : Prop where
  nodup : s.buffers.Nodup
  nonempty : ∀ b ∈ s.buffers, b.start ∈ b
  use : ∀ b ∈ s.buffers, ∀ p ∈ b, T.use p = some (.gpu b)

section Step

variable {board : Board} {s s' : MmuState} {T T' : Layout}

/-- Before the first call the layout is empty. -/
theorem Mapped.initial (h : (mmuSystem board).Initial s) :
    Mapped board s {} ∧ Buffered s {} := by
  obtain ⟨physicalWords, virtualWords, memory, hphysical, hvirtual, rfl⟩ := h
  have hencodes : Encodes board { physicalWords, virtualWords, l1 := board.l1PageTable, memory }
      {} := by
    constructor
    case physical => exact ⟨[], construct_represents hphysical⟩
    case taken => exact fun hp => by cases hp
    case l1 => exact fun i => rfl
    case vacant => exact fun hp => by cases hp
    case l2Use => exact fun hp => by cases hp
    case l2Words => exact fun hp => by cases hp
    case l3Use => exact fun hq => by cases hq
    case l3Words => exact fun hq => by cases hq
    case l3Parent => exact fun hq => by cases hq
    case pteParent => exact fun hv => absurd rfl hv
  refine ⟨⟨hencodes, construct_represents hvirtual, ?_, fun v hv => absurd rfl hv, ?_⟩, ?_⟩
  · exact fun c hc => by cases hc
  · exact fun c hc => by cases hc
  · constructor
    · exact List.nodup_nil
    · exact fun b hb => by cases hb
    · exact fun b hb => by cases hb

/-- The committed pages lie in the pool of the virtual allocator. -/
theorem Mapped.virtualPage (h : Mapped board s T) {c : Span} (hc : c ∈ s.commits) {v : Nat}
    (hv : v ∈ c) : VirtualPage v := by
  have hmem : c.countedFrom 0x100000 ∈ s.commits.map (Span.countedFrom · 0x100000) :=
    List.mem_map_of_mem hc
  have hinside := h.virtual.inside hmem
  have hsize : virtualMemoryAllocator.size = 0x40000 := by decide
  have hstart := h.start_le c hc
  rw [Span.mem_iff] at hv
  rw [Span.countedFrom_stop, hsize] at hinside
  exact ⟨by omega, by omega⟩

/-- No page is committed twice. -/
theorem Mapped.commits_disjoint (h : Mapped board s T) {c c' : Span} (hc : c ∈ s.commits)
    (hc' : c' ∈ s.commits) (hne : c ≠ c') {v : Nat} (hv : v ∈ c) : v ∉ c' := by
  intro hv'
  have hstart := h.start_le c hc
  have hstart' := h.start_le c' hc'
  have hcounted : c.countedFrom 0x100000 ≠ c'.countedFrom 0x100000 := by
    intro heq
    obtain ⟨start, count⟩ := c
    obtain ⟨start', count'⟩ := c'
    simp only [Span.countedFrom, Span.mk.injEq, not_and, ne_eq] at heq hne hstart hstart'
    exact hne (by omega) heq.2
  exact h.virtual.disjoint (List.mem_map_of_mem hc) (List.mem_map_of_mem hc') hcounted
    (v - 0x100000) (Span.mem_countedFrom hstart hv) (Span.mem_countedFrom hstart' hv')

/-- The uses in memory are those of the layout. -/
theorem Mapped.use_eq (h : Mapped board s T) (hb : Buffered s T) {u : PageUse} {p : Nat}
    (hu : UsesPage s u p) : T.use p = some u := by
  cases hu with
  | l2Table hp =>
      rw [h.encodes.l2Table_eq] at hp
      exact h.encodes.l2Use hp
  | l3Table hp =>
      rw [h.encodes.l3Table_eq] at hp
      exact h.encodes.l3Use hp
  | data hc hv hp =>
      rename_i c v
      obtain ⟨q, huse, hpte⟩ := h.data c hc v hv
      have htranslate := h.encodes.translate_page (h.virtualPage hc hv) (h.encodes.taken huse).1 hpte
        (by decide : 0 < 4096)
      rw [Nat.add_zero, Nat.add_zero, hp, Option.some.injEq] at htranslate
      rw [Nat.eq_of_mul_eq_mul_right (by decide) htranslate]
      exact huse
  | gpu hmem hp => exact hb.use _ hmem _ hp

theorem Mapped.wellMapped (h : Mapped board s T) (hb : Buffered s T) : WellMapped board s where
  translated c hc v hv := by
    obtain ⟨p, huse, hpte⟩ := h.data c hc v hv
    have hpool := (h.encodes.taken huse).1
    exact ⟨p, hpool, fun offset hoffset =>
      h.encodes.translate_page (h.virtualPage hc hv) hpool hpte hoffset⟩
  distinct u u' p hu hu' := by
    have heq := (h.use_eq hb hu).symm.trans (h.use_eq hb hu')
    exact Option.some.inj heq
  buffers_nodup := hb.nodup
  static i hi := h.encodes.l1_of_static hi

/-- The buffers keep their pages. -/
theorem Buffered.of_kept (hb : Buffered s T) (hbuffers : s'.buffers = s.buffers)
    (hkept : ∀ {p u}, T.use p = some u → T'.use p = some u) : Buffered s' T' where
  nodup := by
    rw [hbuffers]
    exact hb.nodup
  nonempty := by
    rw [hbuffers]
    exact hb.nonempty
  use := by
    rw [hbuffers]
    exact fun b hmem p hp => hkept (hb.use b hmem p hp)

/-- A call that exhausts no allocator returns, keeps the invariant, and changes no
translation. -/
theorem Mapped.step (h : Mapped board s T) (hb : Buffered s T) {call : MmuCall}
    (hcall : NotExhausted s call) : ∃ result s', s.outcome call = .ok result s' ∧
      (∃ T', Mapped board (s'.returned call result) T' ∧ Buffered (s'.returned call result) T') ∧
      ∀ va pa, s.translate va = some pa → (s'.returned call result).translate va = some pa := by
  rw [NotExhausted] at hcall
  cases call with
  | allocateAndCommitPages n =>
      rcases allocateAndCommitPages_cases h n with ⟨-, result, s', T', hserved⟩ | ⟨-, hlt, -⟩
      · refine ⟨result, s', hserved.outcome, ⟨T', hserved.mapped, ?_⟩, fun va pa => ?_⟩
        · exact hb.of_kept hserved.buffers hserved.useKept
        · exact h.encodes.translate_kept hserved.mapped.encodes hserved.pteKept
      · omega
  | allocateGpuMemory n =>
      rcases allocateGpuMemory_cases h n with ⟨result, s', T', hprovided⟩ |
        ⟨result, s', hrun, hlt, -⟩ | ⟨fault, s', hrun, hlt⟩
      · obtain ⟨b, hbuffers, hstart, hpages⟩ := hprovided.buffer
        refine ⟨result, s', hprovided.outcome, ⟨T', hprovided.mapped, ?_⟩, fun va pa => ?_⟩
        · constructor
          · rw [hbuffers, List.nodup_cons]
            refine ⟨fun hmem => ?_, hb.nodup⟩
            -- the pages of an old buffer were not free
            have hold := hb.use b hmem b.start hstart
            rw [(hpages b.start hstart).1] at hold
            cases hold
          · rw [hbuffers]
            exact List.forall_mem_cons.mpr ⟨hstart, hb.nonempty⟩
          · rw [hbuffers]
            refine List.forall_mem_cons.mpr ⟨fun p hp => (hpages p hp).2, ?_⟩
            exact fun b' hmem p hp => hprovided.useKept (hb.use b' hmem p hp)
        · refine h.encodes.translate_kept hprovided.mapped.encodes fun v _ => ?_
          rw [hprovided.pte_eq]
      · rw [hrun] at hcall
        exact absurd hcall (Nat.ne_of_gt hlt)
      · rw [hrun] at hcall
        exact absurd hcall (Nat.ne_of_gt hlt)

/-- Pages stay committed. -/
theorem Mapped.commits_kept (h : Mapped board s T) {call : MmuCall} (hcall : NotExhausted s call)
    {result : Nat} (houtcome : s.outcome call = .ok result s') :
    ∀ c ∈ s.commits, c ∈ (s'.returned call result).commits := by
  rw [NotExhausted] at hcall
  intro c hc
  cases call with
  | allocateAndCommitPages n =>
      rcases allocateAndCommitPages_cases h n with ⟨-, result, s', T', hserved⟩ | ⟨-, hlt, -⟩
      · cases hserved.outcome.symm.trans houtcome
        exact List.mem_cons_of_mem _ (hserved.commits ▸ hc)
      · omega
  | allocateGpuMemory n =>
      rcases allocateGpuMemory_cases h n with ⟨result, s', T', hprovided⟩ |
        ⟨result, s', hrun, hlt, -⟩ | ⟨fault, s', hrun, hlt⟩
      · cases hprovided.outcome.symm.trans houtcome
        exact hprovided.commits ▸ hc
      · rw [hrun] at hcall
        exact absurd hcall (Nat.ne_of_gt hlt)
      · rw [hrun] at hcall
        exact absurd hcall (Nat.ne_of_gt hlt)

theorem mmuSystem_next (board : Board) (s : MmuState) (call : MmuCall) :
    (mmuSystem board).next s call = s.next call := rfl

theorem mapped_of_notExhausted (h : (mmuSystem board).ReachableBy NotExhausted s) :
    ∃ T, Mapped board s T ∧ Buffered s T := by
  refine h.invariant (I := fun s => ∃ T, Mapped board s T ∧ Buffered s T)
    (fun s hs => ⟨{}, Mapped.initial hs⟩) fun s call s' hs hcall hnext => ?_
  obtain ⟨T, hmapped, hbuffered⟩ := hs
  obtain ⟨result, s₁, houtcome, hkept, -⟩ := hmapped.step hbuffered hcall
  have heq : (mmuSystem board).next s call = some (s₁.returned call result) := by
    rw [mmuSystem_next, MmuState.next, houtcome]
  rw [heq, Option.some.injEq] at hnext
  exact hnext ▸ hkept

end Step

/-- In every run that exhausts no allocator, the committed pages are translated to data pages
of the pool, no two uses share a page, and the static entries are in place; the next
such call returns, so that it has found all its tables, and changes no translation. -/
theorem pages_well_mapped {board : Board} {s : MmuState}
    (h : (mmuSystem board).ReachableBy NotExhausted s) :
    WellMapped board s ∧ ∀ call, NotExhausted s call → ∃ result s',
      s.outcome call = .ok result s' ∧
        ∀ va pa, s.translate va = some pa →
          (s'.returned call result).translate va = some pa := by
  obtain ⟨T, hmapped, hbuffered⟩ := mapped_of_notExhausted h
  refine ⟨hmapped.wellMapped hbuffered, fun call hcall => ?_⟩
  obtain ⟨result, s', houtcome, -, hkept⟩ := hmapped.step hbuffered hcall
  exact ⟨result, s', houtcome, hkept⟩

section New

/-- The state before the first call, in a memory of zeros. -/
def newState (board : Board) : MmuState where
  physicalWords := List.replicate physicalMemoryAllocator.wordCount {}
  virtualWords := List.replicate virtualMemoryAllocator.wordCount {}
  l1 := board.l1PageTable
  memory := fun _ => 0

variable {board : Board}

theorem construct_physical : physicalMemoryAllocator.construct =
    .ok (List.replicate physicalMemoryAllocator.wordCount {}) := by
  rw [PoolParameters.construct, if_neg (by decide)]
  rfl

theorem construct_virtual : virtualMemoryAllocator.construct =
    .ok (List.replicate virtualMemoryAllocator.wordCount {}) := by
  rw [PoolParameters.construct, if_neg (by decide)]
  rfl

theorem initial_newState : (mmuSystem board).Initial (newState board) :=
  ⟨_, _, _, construct_physical, construct_virtual, rfl⟩

theorem card_free_newState : (newState board).free.card = 0x10000 := by
  have hfree := freeSlots_construct construct_physical
  rw [MmuState.free, newState, hfree, Finset.card_range]
  rfl

/-- At first, virtual pages can be had from the first one on. -/
theorem firstFit_newState {n : Nat} (hn : n ≤ 0x40000) :
    FirstFit (newState board).virtualWords n 1 0 := by
  have hfree := freeSlots_construct construct_virtual
  have hsize : virtualMemoryAllocator.size = 0x40000 := by decide
  refine ⟨Nat.zero_mod 1, ?_, fun r hr => absurd hr (Nat.not_lt_zero r)⟩
  refine (construct_represents construct_virtual).freeRun_iff_subset.mpr fun i _ hi => ?_
  rw [hfree, Finset.mem_range, hsize]
  omega

theorem satisfiable_newState {n : Nat} (hn : 3 * n ≤ 0x10000) :
    (newState board).Satisfiable n := by
  refine ⟨0, firstFit_newState (by omega), ?_⟩
  rw [card_free_newState]
  exact Nat.le_trans (MmuState.pagesNeeded_le _ _ _) hn

theorem notExhausted_of_satisfiable {s : MmuState} {T : Layout} (h : Mapped board s T)
    {n : PageCount} (hn : s.Satisfiable n.val) : NotExhausted s (.allocateAndCommitPages n) := by
  rcases allocateAndCommitPages_cases h n with ⟨-, result, s', T', hserved⟩ | ⟨hnot, -⟩
  · rw [NotExhausted, hserved.outcome]
    exact hserved.refused
  · exact absurd hn hnot

/-- Three pages are committed. -/
def commitThree : MmuCall := .allocateAndCommitPages ⟨3, by decide, by decide⟩

def threeCommitted : MmuState := ((newState .rpi3).next commitThree).getD (newState .rpi3)

theorem notExhausted_commitThree : NotExhausted (newState board) commitThree :=
  notExhausted_of_satisfiable (Mapped.initial initial_newState).1 (satisfiable_newState (by decide))

theorem next_commitThree : (mmuSystem .rpi3).next (newState .rpi3) commitThree =
    some threeCommitted := by
  have hinitial : (mmuSystem .rpi3).Initial (newState .rpi3) := initial_newState
  obtain ⟨hmapped, hbuffered⟩ := Mapped.initial hinitial
  obtain ⟨result, s', houtcome, -⟩ := hmapped.step hbuffered notExhausted_commitThree
  have hnext : (newState .rpi3).next commitThree = some (s'.returned commitThree result) := by
    rw [MmuState.next, houtcome]
  rw [mmuSystem_next, threeCommitted, hnext, Option.getD_some]

theorem pages_well_mapped_three : WellMapped .rpi3 threeCommitted :=
  (pages_well_mapped (System.ReachableBy.next commitThree
    (System.ReachableBy.initial initial_newState) notExhausted_commitThree next_commitThree)).1

end New

end RPiKernel.Mmu
