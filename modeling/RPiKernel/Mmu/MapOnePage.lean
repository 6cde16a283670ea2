import RPiKernel.Machine.Stateful
import RPiKernel.Mmu.Layout

/-!
# The mapping of one page

`mapOnePage_spec` says what `MapOnePage` does to the layout: the entry of the
page is set, at most one table of each level is added, and everything else
stays. When the physical allocator has no page left for a table, an entry with
an address outside the physical pool has been written before the fault.
-/

namespace RPiKernel.Mmu

open Machine Containers Intervals

section Primitives

variable {s s₁ : MmuState} {p i : Nat}

theorem apertureAddress_eq (p i : Nat) :
    physicalMemoryApertureBase + p <<< 12 + 8 * i =
      physicalMemoryApertureBase + (4096 * p + 8 * i) := by
  rw [Nat.shiftLeft_eq, Nat.add_assoc, Nat.mul_comm p]

theorem run_physicalAddress {va pa : Nat} (h : s.translate va = some pa) :
    (physicalAddress va).run s = .ok pa s := by
  simp only [EStateM.run, physicalAddress, h]

theorem run_physicalAddress_none {va : Nat} (h : s.translate va = none) :
    (physicalAddress va).run s = .error .translation s := by
  simp only [EStateM.run, physicalAddress, h]

theorem run_entryWord (ha : s.Aperture) (hp : p < 2097152) (hi : i < 512) :
    (entryWord (physicalMemoryApertureBase + p <<< 12) i).run s = .ok (512 * p + i) s := by
  have htranslate : s.translate (physicalMemoryApertureBase + (4096 * p + 8 * i)) =
      some (4096 * p + 8 * i) := ha.translate (by omega)
  have hword : (4096 * p + 8 * i) / 8 = 512 * p + i := by omega
  rewrite [entryWord, if_pos hi, apertureAddress_eq, run_bind_ok (run_physicalAddress htranslate),
    ← hword]
  rfl

theorem run_loadEntry (ha : s.Aperture) (hp : p < 2097152) (hi : i < 512) :
    (loadEntry (physicalMemoryApertureBase + p <<< 12) i).run s =
      .ok (s.memory (512 * p + i)) s := by
  rewrite [loadEntry, run_bind_ok (run_entryWord ha hp hi)]
  rfl

theorem run_storeEntry (ha : s.Aperture) (hp : p < 2097152) (hi : i < 512) (entry : Nat) :
    (storeEntry (physicalMemoryApertureBase + p <<< 12) i entry).run s =
      .ok () { s with
        memory := Function.update s.memory (512 * p + i) entry
        writes := ⟨s.current, entry⟩ :: s.writes } := by
  rewrite [storeEntry, run_bind_ok (run_entryWord ha hp hi)]
  rfl

theorem run_newTable (ha : s.Aperture) (hp : p < 2097152) :
    (newTable (physicalMemoryApertureBase + p <<< 12)).run s =
      .ok (physicalMemoryApertureBase + p <<< 12) { s with
        memory := fun a => if 512 * p ≤ a ∧ a < 512 * p + 512 then 0 else s.memory a } := by
  have htranslate : s.translate (physicalMemoryApertureBase + p <<< 12) = some (p <<< 12) :=
    ha.translate (by rw [Nat.shiftLeft_eq]; omega)
  have hword : p <<< 12 / 8 = 512 * p := by
    rw [Nat.shiftLeft_eq]
    omega
  rewrite [newTable, run_bind_ok (run_physicalAddress htranslate), ← hword]
  rfl

/-- The address made of a refused request lies beyond the address space. -/
theorem run_newTable_refused :
    (newTable (physicalMemoryApertureBase +
      (uint32Max + physicalMemoryAllocatorPageOffset) <<< 12)).run s = .error .translation s := by
  have htranslate : s.translate (physicalMemoryApertureBase +
      (uint32Max + physicalMemoryAllocatorPageOffset) <<< 12) = none := by
    rw [MmuState.translate, if_pos (by decide)]
  exact run_bind_error (run_physicalAddress_none htranslate)

theorem outputPage_refused :
    ¬ PoolPage (Entry.outputPage (TableDescriptor.ofAddress
      ((uint32Max + physicalMemoryAllocatorPageOffset) <<< 12)).word) := by
  rw [outputPage_tableDescriptor]
  decide

/-- The allocation of a page succeeds as long as one is free. -/
theorem run_allocatePhysical_one
    (h : ∃ live, Represents physicalMemoryAllocator s.physicalWords live) :
    ((allocatePhysical 1).run s = .ok uint32Max { s with refused := s.refused + 1 } ∧
      s.free = ∅) ∨
    ∃ r words, (allocatePhysical 1).run s = .ok r { s with physicalWords := words } ∧
      Takes s { s with physicalWords := words } (r + physicalMemoryAllocatorPageOffset) := by
  obtain ⟨live, h⟩ := h
  have hoffset : physicalMemoryAllocatorPageOffset = 0x20000 := by decide
  rcases allocate_one h with ⟨hrun, hempty⟩ | ⟨r, words, hrun, hmem, h', hfree⟩
  · refine Or.inl ⟨?_, hempty⟩
    simp only [EStateM.run, allocatePhysical, hrun, refuse, if_true]
  · have hlt := (h.mem_freeSlots.mp hmem).1
    have hsize : physicalMemoryAllocator.size = 65536 := by decide
    have hne : r ≠ uint32Max := by
      simp only [uint32Max]
      omega
    refine Or.inr ⟨r, words, ?_, ?_⟩
    · simp only [EStateM.run, allocatePhysical, hrun, refuse, if_neg hne]
    · rw [hoffset]
      refine ⟨⟨by omega, by omega⟩, ?_, ⟨_, h'⟩, ?_⟩
      · rwa [Nat.add_sub_cancel]
      · rwa [Nat.add_sub_cancel]

/-- A valid entry leads to its table. -/
theorem run_nextTable_table (store : Nat → MmuM Unit) (hp : p < 2097152) :
    (nextTable (tableEntry p) store).run s =
      .ok (some (physicalMemoryApertureBase + p <<< 12)) s := by
  rw [nextTable, isValid_tableEntry, Bool.not_true, if_neg Bool.false_ne_true,
    if_pos (isTable_tableEntry p), outputPage_tableEntry (hp.trans (by decide))]
  rfl

/-- An invalid entry is replaced by the one of a new table. -/
theorem run_nextTable_new {store : Nat → MmuM Unit} {s₁ s₂ : MmuState} {r : Nat}
    (halloc : (allocatePhysical 1).run s = .ok r s₁)
    (hstore : (store (tableEntry (r + physicalMemoryAllocatorPageOffset))).run s₁ = .ok () s₂)
    (ha : s₂.Aperture) (hlt : r + physicalMemoryAllocatorPageOffset < 2097152) :
    (nextTable 0 store).run s =
      .ok (some (physicalMemoryApertureBase + (r + physicalMemoryAllocatorPageOffset) <<< 12))
        { s₂ with memory := fun a =>
            if 512 * (r + physicalMemoryAllocatorPageOffset) ≤ a ∧
              a < 512 * (r + physicalMemoryAllocatorPageOffset) + 512 then 0 else s₂.memory a } := by
  have hentry : (TableDescriptor.ofAddress
      ((r + physicalMemoryAllocatorPageOffset) <<< 12)).word =
        tableEntry (r + physicalMemoryAllocatorPageOffset) := by
    rw [tableEntry, Nat.shiftLeft_eq]
  rewrite [nextTable, isValid_zero, Bool.not_false, if_pos rfl, run_bind_ok halloc]
  dsimp only
  rewrite [hentry, run_bind_ok hstore, run_bind_ok (run_newTable ha hlt)]
  rfl

/-- Without a free page the entry written is wrong, and the new table is out of reach. -/
theorem run_nextTable_refused {store : Nat → MmuM Unit} {s₁ s₂ : MmuState}
    (halloc : (allocatePhysical 1).run s = .ok uint32Max s₁)
    (hstore : (store (TableDescriptor.ofAddress
      ((uint32Max + physicalMemoryAllocatorPageOffset) <<< 12)).word).run s₁ = .ok () s₂) :
    (nextTable 0 store).run s = .error .translation s₂ := by
  rewrite [nextTable, isValid_zero, Bool.not_false, if_pos rfl, run_bind_ok halloc]
  dsimp only
  rewrite [run_bind_ok hstore]
  exact run_bind_error run_newTable_refused

end Primitives

/-- Nothing happens to what the calls have returned. -/
structure SameCalls (s s' : MmuState) : Prop where
  virtualWords : s'.virtualWords = s.virtualWords
  commits : s'.commits = s.commits
  buffers : s'.buffers = s.buffers

/-- Progress in the mapping of a page with an entry, for which the physical
allocator gives a number of pages. -/
structure Advance (board : Board) (v entry : Nat) (s : MmuState) (T : Layout) (s' : MmuState)
    (T' : Layout) (need : Nat) : Prop where
  encodes : Encodes board s' T'
  l2Kept : ∀ {i p}, T.l2 i = some p → T'.l2 i = some p
  l3Kept : ∀ {k q}, T.l3 k = some q → T'.l3 k = some q
  useKept : ∀ {p u}, T.use p = some u → T'.use p = some u
  l2New : ∀ {i}, i ≠ v / 262144 → T'.l2 i = T.l2 i
  l3New : ∀ {k}, k ≠ v / 512 → T'.l3 k = T.l3 k
  pteKept : ∀ {v'}, v' ≠ v → T'.pte v' = T.pte v'
  capacity : s.free.card = s'.free.card + need
  current : s'.current = s.current
  refused : s'.refused = s.refused
  same : SameCalls s s'
  writes : ∃ new, s'.writes = new ++ s.writes ∧ ∀ x ∈ new, x.page = s.current ∧
    (x.entry = entry ∨ PoolPage (Entry.outputPage x.entry))

/-- A request has been refused, and an entry with an address outside the pool written. -/
def Spoiled (s s' : MmuState) : Prop :=
  s.refused < s'.refused ∧ ∃ x ∈ s'.writes, ¬ PoolPage (Entry.outputPage x.entry)

section Advance

variable {board : Board} {v entry : Nat} {s s₁ s' : MmuState} {T T₁ T' : Layout} {m n : Nat}

theorem SameCalls.refl (s : MmuState) : SameCalls s s := ⟨rfl, rfl, rfl⟩

theorem SameCalls.trans (h : SameCalls s s₁) (h' : SameCalls s₁ s') : SameCalls s s' :=
  ⟨h'.virtualWords.trans h.virtualWords, h'.commits.trans h.commits, h'.buffers.trans h.buffers⟩

/-- Nothing has to be done. -/
theorem Advance.refl (h : Encodes board s T) (hn : n = 0) :
    Advance board v entry s T s T n := by
  subst hn
  constructor
  case encodes => exact h
  case l2Kept => exact id
  case l3Kept => exact id
  case useKept => exact id
  case l2New => exact fun _ => rfl
  case l3New => exact fun _ => rfl
  case pteKept => exact fun _ => rfl
  case capacity => exact (Nat.add_zero _).symm
  case current => rfl
  case refused => rfl
  case same => exact SameCalls.refl s
  case writes => exact ⟨[], rfl, fun x hx => by cases hx⟩

theorem Advance.trans (h : Advance board v entry s T s₁ T₁ m)
    (h' : Advance board v entry s₁ T₁ s' T' n) : Advance board v entry s T s' T' (m + n) := by
  constructor
  case encodes => exact h'.encodes
  case l2Kept => exact fun hp => h'.l2Kept (h.l2Kept hp)
  case l3Kept => exact fun hq => h'.l3Kept (h.l3Kept hq)
  case useKept => exact fun hu => h'.useKept (h.useKept hu)
  case l2New => exact fun hi => (h'.l2New hi).trans (h.l2New hi)
  case l3New => exact fun hk => (h'.l3New hk).trans (h.l3New hk)
  case pteKept => exact fun hv => (h'.pteKept hv).trans (h.pteKept hv)
  case capacity =>
    rw [h.capacity, h'.capacity]
    omega
  case current => exact h'.current.trans h.current
  case refused => exact h'.refused.trans h.refused
  case same => exact h.same.trans h'.same
  case writes =>
    obtain ⟨new, hnew, hall⟩ := h.writes
    obtain ⟨new', hnew', hall'⟩ := h'.writes
    refine ⟨new' ++ new, by rw [hnew', hnew, List.append_assoc], ?_⟩
    intro x hx
    rcases List.mem_append.mp hx with hx | hx
    · rw [← h.current]
      exact hall' x hx
    · exact hall x hx

/-- Progress before a refusal does not undo it. -/
theorem Spoiled.of_advance (h : Advance board v entry s T s₁ T₁ m) (h' : Spoiled s₁ s') :
    Spoiled s s' := by
  obtain ⟨hrefused, hwrites⟩ := h'
  rw [h.refused] at hrefused
  exact ⟨hrefused, hwrites⟩

end Advance

section MapOnePage

variable {board : Board} {v entry p q : Nat} {s s₁ : MmuState} {T : Layout}

/-- How many pages the L2 table of a virtual page still costs. -/
def l2Need (T : Layout) (v : Nat) : Nat := if T.l2 (v / 262144) = none then 1 else 0

/-- How many pages the L3 table of a virtual page still costs. -/
def l3Need (T : Layout) (v : Nat) : Nat := if T.l3 (v / 512) = none then 1 else 0

theorem Encodes.l3_lt (h : Encodes board s T) (hq : T.l3 (v / 512) = some q) : q < 2097152 :=
  (h.taken (h.l3Use hq)).1.lt

theorem Encodes.l2_lt {i : Nat} (h : Encodes board s T) (hp : T.l2 i = some p) : p < 2097152 :=
  (h.taken (h.l2Use hp)).1.lt

/-- The writing of the entry of a page into its L3 table. -/
theorem mapOnePageL3_spec (entry : Nat) (h : Encodes board s T) (hq : T.l3 (v / 512) = some q) :
    ∃ s', (mapOnePageL3 (physicalMemoryApertureBase + q <<< 12) (v % 512) entry).run s = .ok () s' ∧
      Advance board v entry s T s' { T with pte := Function.update T.pte v entry } 0 ∧
      s'.writes = ⟨s.current, entry⟩ :: s.writes := by
  refine ⟨_, run_storeEntry h.aperture (h.l3_lt hq) (Nat.mod_lt v (by decide)) entry, ?_, rfl⟩
  constructor
  case encodes => exact h.setPte hq rfl rfl rfl
  case l2Kept => exact id
  case l3Kept => exact id
  case useKept => exact id
  case l2New => exact fun _ => rfl
  case l3New => exact fun _ => rfl
  case pteKept => exact fun hv => Function.update_of_ne hv _ _
  case capacity =>
    rw [Nat.add_zero]
    exact congrArg Finset.card (MmuState.free_of_words rfl)
  case current => rfl
  case refused => rfl
  case same => exact ⟨rfl, rfl, rfl⟩
  case writes =>
    refine ⟨[⟨s.current, entry⟩], rfl, fun x hx => ?_⟩
    rw [List.mem_singleton] at hx
    subst hx
    exact ⟨rfl, Or.inl rfl⟩

theorem PoolPage.output_tableEntry (h : PoolPage q) :
    PoolPage (Entry.outputPage (tableEntry q)) := by
  rwa [outputPage_tableEntry (h.lt.trans (by decide))]

/-- Writing an entry that leads to no page of the pool, after a refused request. -/
theorem spoiled_of_refused {s' : MmuState} {writes : List EntryWrite}
    (hrefused : s'.refused = s.refused + 1)
    (hw : s'.writes = ⟨s.current, (TableDescriptor.ofAddress
      ((uint32Max + physicalMemoryAllocatorPageOffset) <<< 12)).word⟩ :: writes) :
    Spoiled s s' := by
  refine ⟨by omega, ⟨s.current, (TableDescriptor.ofAddress
    ((uint32Max + physicalMemoryAllocatorPageOffset) <<< 12)).word⟩, ?_, outputPage_refused⟩
  rw [hw]
  exact List.mem_cons_self ..

/-- Only the words of the allocator matter. -/
theorem Takes.of_words {s₁ s' : MmuState} (h : Takes s s₁ q)
    (hwords : s'.physicalWords = s₁.physicalWords) : Takes s s' q where
  pool := h.pool
  wasFree := h.wasFree
  represents := by
    rw [hwords]
    exact h.represents
  free := by
    rw [MmuState.free_of_words hwords]
    exact h.free

theorem Takes.card (h : Takes s s₁ q) : s.free.card = s₁.free.card + 1 := by
  rw [h.free, Finset.card_erase_of_mem h.wasFree]
  have hpos := Finset.card_pos.mpr ⟨_, h.wasFree⟩
  omega

/-- A new L3 table is progress. -/
theorem Advance.addL3 (h : Encodes board s T) (hp : T.l2 (v / 262144) = some p)
    (hl3 : T.l3 (v / 512) = none) (hq : Takes s s₁ q) (hl1 : s₁.l1 = s.l1)
    (hmemory : ∀ a, s₁.memory a = if 512 * q ≤ a ∧ a < 512 * q + 512 then 0
      else Function.update s.memory (512 * p + v / 512 % 512) (tableEntry q) a)
    (hcurrent : s₁.current = s.current) (hrefused : s₁.refused = s.refused)
    (hsame : SameCalls s s₁) (hwrites : s₁.writes = ⟨s.current, tableEntry q⟩ :: s.writes) :
    Advance board v entry s T s₁ { T with
      l3 := Function.update T.l3 (v / 512) (some q)
      use := Function.update T.use q (some (.l3Table (v / 512))) } 1 := by
  constructor
  case encodes =>
    refine h.addL3 (k := v / 512) ?_ hl3 hq hl1 hmemory
    rwa [Nat.div_div_eq_div_mul]
  case l2Kept => exact id
  case l3Kept =>
    intro k q' hq'
    have hne : k ≠ v / 512 := by
      rintro rfl
      rw [hl3] at hq'
      cases hq'
    dsimp only
    rw [Function.update_of_ne hne, hq']
  case useKept => exact fun hu => hq.use h hu
  case l2New => exact fun _ => rfl
  case l3New => exact fun hk => Function.update_of_ne hk _ _
  case pteKept => exact fun _ => rfl
  case capacity => exact hq.card
  case current => exact hcurrent
  case refused => exact hrefused
  case same => exact hsame
  case writes =>
    refine ⟨[⟨s.current, tableEntry q⟩], hwrites, fun x hx => ?_⟩
    rw [List.mem_singleton] at hx
    subst hx
    exact ⟨rfl, Or.inr hq.pool.output_tableEntry⟩

/-- An L2 table continues with the L3 table of the page, old or new. -/
theorem mapOnePageL2_cases (entry : Nat) (h : Encodes board s T) (hp : T.l2 (v / 262144) = some p) :
    (∃ s₁ T₁ q, (mapOnePageL2 (physicalMemoryApertureBase + p <<< 12) (v % 262144) entry).run s =
        (mapOnePageL3 (physicalMemoryApertureBase + q <<< 12) (v % 512) entry).run s₁ ∧
      Advance board v entry s T s₁ T₁ (l3Need T v) ∧ T₁.pte = T.pte ∧
      T₁.l3 (v / 512) = some q) ∨
    ∃ s', (mapOnePageL2 (physicalMemoryApertureBase + p <<< 12) (v % 262144) entry).run s =
      .error .translation s' ∧ Spoiled s s' ∧ s.free.card < l3Need T v := by
  have hplt := h.l2_lt hp
  have hindex : (v % 262144) >>> 9 = v / 512 % 512 := by
    rw [Nat.shiftRight_eq_div_pow]
    omega
  have hlast : v % 262144 &&& (2 ^ 9 - 1) = v % 512 := by
    rw [Nat.and_two_pow_sub_one_eq_mod]
    omega
  have hlt : v / 512 % 512 < 512 := Nat.mod_lt _ (by decide)
  have hword : s.memory (512 * p + v / 512 % 512) = (T.l3 (v / 512)).elim 0 tableEntry := by
    have hk : 512 * (v / 262144) + v / 512 % 512 = v / 512 := by omega
    rw [h.l2Words hp _ hlt, hk]
  have hload := run_loadEntry h.aperture hplt hlt
  rewrite [hword] at hload
  rewrite [mapOnePageL2, hindex, hlast, run_bind_ok hload]
  cases hl3 : T.l3 (v / 512) with
  | some q =>
      rewrite [Option.elim_some, run_bind_ok (run_nextTable_table _ (h.l3_lt hl3))]
      exact Or.inl ⟨s, T, q, rfl, Advance.refl h (by rw [l3Need, hl3, if_neg (by simp)]), rfl, hl3⟩
  | none =>
      rewrite [Option.elim_none]
      rcases run_allocatePhysical_one h.physical with ⟨halloc, hempty⟩ | ⟨r, words, halloc, htakes⟩
      · have ha : ({ s with refused := s.refused + 1 } : MmuState).Aperture := h.aperture
        have hstore := run_storeEntry ha hplt hlt
          (TableDescriptor.ofAddress ((uint32Max + physicalMemoryAllocatorPageOffset) <<< 12)).word
        rewrite [run_bind_error (run_nextTable_refused halloc hstore)]
        refine Or.inr ⟨_, rfl, ?_, ?_⟩
        · exact spoiled_of_refused rfl rfl
        · rw [hempty, l3Need, hl3, if_pos rfl, Finset.card_empty]
          exact Nat.one_pos
      · have ha : ({ s with physicalWords := words } : MmuState).Aperture := h.aperture
        have hstore := run_storeEntry ha hplt hlt
          (tableEntry (r + physicalMemoryAllocatorPageOffset))
        have hnew := run_nextTable_new halloc hstore ha htakes.pool.lt
        generalize r + physicalMemoryAllocatorPageOffset = q at hnew htakes
        rewrite [run_bind_ok hnew]
        refine Or.inl ⟨{ s with
          physicalWords := words
          memory := fun a => if 512 * q ≤ a ∧ a < 512 * q + 512 then 0
            else Function.update s.memory (512 * p + v / 512 % 512) (tableEntry q) a
          writes := ⟨s.current, tableEntry q⟩ :: s.writes }, { T with
          l3 := Function.update T.l3 (v / 512) (some q)
          use := Function.update T.use q (some (.l3Table (v / 512))) }, q, rfl, ?_, rfl,
          Function.update_self ..⟩
        rw [l3Need, hl3, if_pos rfl]
        exact Advance.addL3 h hp hl3 (htakes.of_words rfl) rfl (fun _ => rfl) rfl rfl ⟨rfl, rfl, rfl⟩
          rfl

/-- A new L2 table is progress. -/
theorem Advance.addL2 (h : Encodes board s T) (hl2 : T.l2 (v / 262144) = none)
    (hstatic : board.l1PageTable (v / 262144) = 0) (hq : Takes s s₁ q)
    (hl1 : s₁.l1 = Function.update s.l1 (v / 262144) (tableEntry q))
    (hmemory : ∀ a, s₁.memory a = if 512 * q ≤ a ∧ a < 512 * q + 512 then 0 else s.memory a)
    (hcurrent : s₁.current = s.current) (hrefused : s₁.refused = s.refused)
    (hsame : SameCalls s s₁) (hwrites : s₁.writes = ⟨s.current, tableEntry q⟩ :: s.writes) :
    Advance board v entry s T s₁ { T with
      l2 := Function.update T.l2 (v / 262144) (some q)
      use := Function.update T.use q (some (.l2Table (v / 262144))) } 1 := by
  constructor
  case encodes => exact h.addL2 hl2 hstatic hq hl1 hmemory
  case l2Kept =>
    intro i p' hp'
    have hne : i ≠ v / 262144 := by
      rintro rfl
      rw [hl2] at hp'
      cases hp'
    dsimp only
    rw [Function.update_of_ne hne, hp']
  case l3Kept => exact id
  case useKept => exact fun hu => hq.use h hu
  case l2New => exact fun hi => Function.update_of_ne hi _ _
  case l3New => exact fun _ => rfl
  case pteKept => exact fun _ => rfl
  case capacity => exact hq.card
  case current => exact hcurrent
  case refused => exact hrefused
  case same => exact hsame
  case writes =>
    refine ⟨[⟨s.current, tableEntry q⟩], hwrites, fun x hx => ?_⟩
    rw [List.mem_singleton] at hx
    subst hx
    exact ⟨rfl, Or.inr hq.pool.output_tableEntry⟩

theorem run_loadL1Entry {i : Nat} (hi : i < 512) : (loadL1Entry i).run s = .ok (s.l1 i) s := by
  simp only [EStateM.run, loadL1Entry, if_pos hi]

theorem run_storeL1Entry {i : Nat} (hi : i < 512) (entry : Nat) : (storeL1Entry i entry).run s =
    .ok () { s with
      l1 := Function.update s.l1 i entry
      writes := ⟨s.current, entry⟩ :: s.writes } := by
  simp only [EStateM.run, storeL1Entry, if_pos hi]

/-- The aperture does not change with an entry that is no block of it. -/
theorem Encodes.aperture_update (h : Encodes board s T) {i : Nat}
    (hstatic : board.l1PageTable i = 0) {s' : MmuState}
    (hl1 : s'.l1 = Function.update s.l1 i entry) : s'.Aperture := by
  intro j hj
  have hne : 28 + j ≠ i := by
    rintro rfl
    have hblock := (static_aperture board j hj).1
    rw [hstatic] at hblock
    cases hblock
  rw [hl1, Function.update_of_ne hne]
  exact h.aperture j hj

/-- The L1 table continues with the L2 table of the page, old or new. -/
theorem mapOnePageL1_cases (entry : Nat) (h : Encodes board s T) (hv : v < 134217728)
    (hstatic : board.l1PageTable (v / 262144) = 0) :
    (∃ s₁ T₁ p, (mapOnePageL1 v entry).run s =
        (mapOnePageL2 (physicalMemoryApertureBase + p <<< 12) (v % 262144) entry).run s₁ ∧
      Advance board v entry s T s₁ T₁ (l2Need T v) ∧ T₁.pte = T.pte ∧ T₁.l3 = T.l3 ∧
      T₁.l2 (v / 262144) = some p) ∨
    ∃ s', (mapOnePageL1 v entry).run s = .error .translation s' ∧ Spoiled s s' ∧
      s.free.card < l2Need T v := by
  have hindex : v >>> 18 = v / 262144 := Nat.shiftRight_eq_div_pow v 18
  have hrest : v &&& (2 ^ 18 - 1) = v % 262144 := Nat.and_two_pow_sub_one_eq_mod v 18
  have hlt : v / 262144 < 512 := by omega
  have hload := run_loadL1Entry (s := s) hlt
  rewrite [h.l1, hstatic] at hload
  rewrite [mapOnePageL1, hindex, hrest, run_bind_ok hload]
  cases hl2 : T.l2 (v / 262144) with
  | some p =>
      rewrite [Option.elim_some, run_bind_ok (run_nextTable_table _ (h.l2_lt hl2))]
      exact Or.inl ⟨s, T, p, rfl, Advance.refl h (by rw [l2Need, hl2, if_neg (by simp)]), rfl, rfl,
        hl2⟩
  | none =>
      rewrite [Option.elim_none]
      rcases run_allocatePhysical_one h.physical with ⟨halloc, hempty⟩ | ⟨r, words, halloc, htakes⟩
      · have hstore := run_storeL1Entry (s := { s with refused := s.refused + 1 }) hlt
          (TableDescriptor.ofAddress ((uint32Max + physicalMemoryAllocatorPageOffset) <<< 12)).word
        rewrite [run_bind_error (run_nextTable_refused halloc hstore)]
        refine Or.inr ⟨_, rfl, ?_, ?_⟩
        · exact spoiled_of_refused rfl rfl
        · rw [hempty, l2Need, hl2, if_pos rfl, Finset.card_empty]
          exact Nat.one_pos
      · have hstore := run_storeL1Entry (s := { s with physicalWords := words }) hlt
          (tableEntry (r + physicalMemoryAllocatorPageOffset))
        have hnew := run_nextTable_new halloc hstore (h.aperture_update hstatic rfl)
          htakes.pool.lt
        generalize r + physicalMemoryAllocatorPageOffset = q at hnew htakes
        rewrite [run_bind_ok hnew]
        refine Or.inl ⟨{ s with
          physicalWords := words
          l1 := Function.update s.l1 (v / 262144) (tableEntry q)
          memory := fun a => if 512 * q ≤ a ∧ a < 512 * q + 512 then 0 else s.memory a
          writes := ⟨s.current, tableEntry q⟩ :: s.writes }, { T with
          l2 := Function.update T.l2 (v / 262144) (some q)
          use := Function.update T.use q (some (.l2Table (v / 262144))) }, q, rfl, ?_, rfl, rfl,
          Function.update_self ..⟩
        rw [l2Need, hl2, if_pos rfl]
        exact Advance.addL2 h hl2 hstatic (htakes.of_words rfl) rfl (fun _ => rfl) rfl rfl
          ⟨rfl, rfl, rfl⟩ rfl

/-- How many pages the tables of a virtual page still cost. -/
def tableNeed (T : Layout) (v : Nat) : Nat := l2Need T v + l3Need T v

/-- The mapping of one page: the entry is set, or the allocator had no page for a table. -/
theorem mapOnePage_spec (entry : Nat) (h : Encodes board s T) (hv : v < 134217728)
    (hstatic : board.l1PageTable (v / 262144) = 0) :
    (∃ s' T', (mapOnePage v entry).run s = .ok () s' ∧
      Advance board v entry { s with current := v } T s' T' (tableNeed T v) ∧
      T'.pte = Function.update T.pte v entry ∧ T'.l3 (v / 512) ≠ none ∧
      T'.l2 (v / 262144) ≠ none ∧ ⟨v, entry⟩ ∈ s'.writes) ∨
    ∃ s', (mapOnePage v entry).run s = .error .translation s' ∧
      Spoiled { s with current := v } s' ∧ s.free.card < tableNeed T v := by
  have hcurrent : Encodes board { s with current := v } T := ⟨h.physical, h.taken, h.l1, h.vacant,
    h.l2Use, h.l2Words, h.l3Use, h.l3Words, h.l3Parent, h.pteParent⟩
  have hmodify : (modify fun s : MmuState => { s with current := v } : MmuM PUnit).run s =
      .ok () { s with current := v } := rfl
  rewrite [mapOnePage, run_bind_ok hmodify]
  rcases mapOnePageL1_cases entry hcurrent hv hstatic with
    ⟨s₁, T₁, p, hrun, hadv₁, hpte₁, hl3₁, hl2₁⟩ | ⟨s', hrun, hspoiled, hcard⟩
  · have hneed : l3Need T₁ v = l3Need T v := by rw [l3Need, hl3₁, l3Need]
    rewrite [hrun]
    rcases mapOnePageL2_cases entry hadv₁.encodes hl2₁ with
      ⟨s₂, T₂, q, hrun₂, hadv₂, hpte₂, hl3₂⟩ | ⟨s', hrun₂, hspoiled, hcard⟩
    · rewrite [hrun₂]
      obtain ⟨s', hrun', hadv', hwrites⟩ := mapOnePageL3_spec entry hadv₂.encodes hl3₂
      refine Or.inl ⟨s', { T₂ with pte := Function.update T₂.pte v entry }, hrun', ?_, ?_, ?_, ?_,
        ?_⟩
      · have hall := (hadv₁.trans hadv₂).trans hadv'
        rwa [Nat.add_zero, hneed] at hall
      · rw [hpte₂, hpte₁]
      · rw [hl3₂]
        exact Option.some_ne_none q
      · rw [hadv₂.l2Kept hl2₁]
        exact Option.some_ne_none p
      · rw [hwrites, hadv₂.current, hadv₁.current]
        exact List.mem_cons_self ..
    · refine Or.inr ⟨s', hrun₂, hspoiled.of_advance hadv₁, ?_⟩
      have hcapacity := hadv₁.capacity
      rw [@MmuState.free_of_words s { s with current := v } rfl] at hcapacity
      rw [hneed] at hcard
      rw [tableNeed]
      omega
  · exact Or.inr ⟨s', hrun, hspoiled, Nat.lt_of_lt_of_le hcard (Nat.le_add_right _ _)⟩

end MapOnePage

end RPiKernel.Mmu
