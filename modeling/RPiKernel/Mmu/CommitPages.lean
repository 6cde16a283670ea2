import RPiKernel.Mmu.MapOnePage

/-!
# Committing pages

`commitPagesFrom_cases` follows the loop of `CommitPages`. With enough free pages
every page gets an entry and a data page of its own; otherwise the loop has written
an entry with an address outside the physical pool, whatever it does afterwards.
-/

namespace RPiKernel.Mmu

open Machine Containers Intervals

/-- The pages that the virtual allocator manages. -/
def VirtualPage (v : Nat) : Prop := 0x100000 ≤ v ∧ v < 0x140000

instance (v : Nat) : Decidable (VirtualPage v) :=
  inferInstanceAs (Decidable (0x100000 ≤ v ∧ v < 0x140000))

theorem VirtualPage.lt {v : Nat} (h : VirtualPage v) : v < 134217728 := h.2.trans (by decide)

/-- Both boards leave the part of the address space with the virtual pages unused. -/
theorem VirtualPage.static {v : Nat} (h : VirtualPage v) (board : Board) :
    board.l1PageTable (v / 262144) = 0 := by
  have hindex : v / 262144 = 4 := by
    have := h.1
    have := h.2
    omega
  rw [hindex]
  cases board <;> decide

/-- The state that a computation ends in. -/
def finalState {α : Type} : EStateM.Result MmuFault MmuState α → MmuState
  | .ok _ s => s
  | .error _ s => s

/-- A computation only adds to the record of the entries written and requests refused. -/
def Grows {α : Type} (m : MmuM α) : Prop :=
  ∀ s, (∃ new, (finalState (m.run s)).writes = new ++ s.writes) ∧
    s.refused ≤ (finalState (m.run s)).refused

section Grows

variable {α β : Type}

theorem Grows.pure (a : α) : Grows (pure a : MmuM α) := fun _ => ⟨⟨[], rfl⟩, le_rfl⟩

theorem Grows.throw (fault : MmuFault) : Grows (throw fault : MmuM α) :=
  fun _ => ⟨⟨[], rfl⟩, le_rfl⟩

theorem Grows.bind {m : MmuM α} {f : α → MmuM β} (hm : Grows m) (hf : ∀ a, Grows (f a)) :
    Grows (m >>= f) := by
  intro s
  obtain ⟨⟨new, hnew⟩, hle⟩ := hm s
  cases hrun : m.run s with
  | error fault s₁ =>
      rw [hrun] at hnew hle
      rw [run_bind_error hrun]
      exact ⟨⟨new, hnew⟩, hle⟩
  | ok a s₁ =>
      rw [hrun] at hnew hle
      obtain ⟨⟨new', hnew'⟩, hle'⟩ := hf a s₁
      rw [run_bind_ok hrun]
      exact ⟨⟨new' ++ new, by rw [hnew', List.append_assoc]; exact congrArg _ hnew⟩,
        Nat.le_trans hle hle'⟩

theorem Grows.of_same {m : MmuM α} (h : ∀ s, (finalState (m.run s)).writes = s.writes ∧
    s.refused ≤ (finalState (m.run s)).refused) : Grows m :=
  fun s => ⟨⟨[], (h s).1⟩, (h s).2⟩

theorem grows_allocatePhysical (count : Nat) : Grows (allocatePhysical count) := by
  refine Grows.of_same fun s => ?_
  rw [EStateM.run, allocatePhysical]
  split
  · rw [refuse]
    split
    · exact ⟨rfl, Nat.le_succ _⟩
    · exact ⟨rfl, le_rfl⟩
  · exact ⟨rfl, Nat.le_succ _⟩

theorem grows_physicalAddress (va : Nat) : Grows (physicalAddress va) := by
  refine Grows.of_same fun s => ?_
  rw [EStateM.run, physicalAddress]
  split
  · exact ⟨rfl, le_rfl⟩
  · exact ⟨rfl, le_rfl⟩

theorem grows_entryWord (table i : Nat) : Grows (entryWord table i) := by
  rw [entryWord]
  split
  · exact (grows_physicalAddress _).bind fun _ => Grows.pure _
  · exact Grows.throw _

theorem grows_loadEntry (table i : Nat) : Grows (loadEntry table i) := by
  refine (grows_entryWord table i).bind fun word => ?_
  exact Grows.of_same fun s => ⟨rfl, le_rfl⟩

theorem grows_storeEntry (table i entry : Nat) : Grows (storeEntry table i entry) :=
  (grows_entryWord table i).bind fun _ s => ⟨⟨[⟨s.current, entry⟩], rfl⟩, le_rfl⟩

theorem grows_loadL1Entry (i : Nat) : Grows (loadL1Entry i) := by
  refine Grows.of_same fun s => ?_
  rw [EStateM.run, loadL1Entry]
  split
  · exact ⟨rfl, le_rfl⟩
  · exact ⟨rfl, le_rfl⟩

theorem grows_storeL1Entry (i entry : Nat) : Grows (storeL1Entry i entry) := by
  intro s
  rw [EStateM.run, storeL1Entry]
  split
  · exact ⟨⟨[⟨s.current, entry⟩], rfl⟩, le_rfl⟩
  · exact ⟨⟨[], rfl⟩, le_rfl⟩

theorem grows_newTable (table : Nat) : Grows (newTable table) := by
  refine (grows_physicalAddress table).bind fun word => Grows.bind ?_ fun _ => Grows.pure _
  exact Grows.of_same fun s => ⟨rfl, le_rfl⟩

theorem grows_nextTable (entry : Nat) {store : Nat → MmuM Unit} (hstore : ∀ a, Grows (store a)) :
    Grows (nextTable entry store) := by
  rw [nextTable]
  split
  · exact (grows_allocatePhysical 1).bind fun _ => (hstore _).bind fun _ =>
      (grows_newTable _).bind fun _ => Grows.pure _
  · split
    · exact Grows.pure _
    · exact Grows.pure _

theorem grows_mapOnePageL2 (table v entry : Nat) : Grows (mapOnePageL2 table v entry) := by
  refine (grows_loadEntry _ _).bind fun _ =>
    (grows_nextTable _ fun a => grows_storeEntry _ _ a).bind fun next => ?_
  cases next with
  | none => exact Grows.throw _
  | some next => exact grows_storeEntry _ _ _

theorem grows_mapOnePage (v entry : Nat) : Grows (mapOnePage v entry) := by
  refine Grows.bind (Grows.of_same fun s => ⟨rfl, le_rfl⟩) fun _ =>
    (grows_loadL1Entry _).bind fun _ =>
      (grows_nextTable _ fun a => grows_storeL1Entry _ a).bind fun next => ?_
  cases next with
  | none => exact Grows.throw _
  | some next => exact grows_mapOnePageL2 _ _ _

theorem grows_commitPagesFrom (basePage remaining i : Nat) :
    Grows (commitPagesFrom basePage i remaining) := by
  induction remaining generalizing i with
  | zero => exact Grows.pure _
  | succ remaining ih =>
      exact (grows_allocatePhysical 1).bind fun _ => (grows_mapOnePage _ _).bind fun _ => ih (i + 1)

end Grows

section Missing

/-- The tables that are still missing for `n` pages from `v` on, when a table covers
`c` pages. -/
def missing (table : Nat → Option Nat) (c v n : Nat) : Finset Nat :=
  ((Finset.range n).image fun i => (v + i) / c).filter fun k => table k = none

variable {table table' : Nat → Option Nat} {c v n : Nat}

theorem mem_missing {k : Nat} :
    k ∈ missing table c v n ↔ (∃ i < n, (v + i) / c = k) ∧ table k = none := by
  simp [missing]

/-- Mapping the first page makes its table if it is missing, and leaves the others. -/
theorem card_missing_succ (htable : ∀ k, k ≠ v / c → table' k = table k)
    (hsome : table' (v / c) ≠ none) :
    (missing table c v (n + 1)).card =
      (if table (v / c) = none then 1 else 0) + (missing table' c (v + 1) n).card := by
  have hrest : missing table' c (v + 1) n = (missing table c v (n + 1)).erase (v / c) := by
    ext k
    rw [Finset.mem_erase, mem_missing, mem_missing]
    constructor
    · rintro ⟨⟨i, hi, rfl⟩, hnone⟩
      have hne : (v + 1 + i) / c ≠ v / c := by
        intro heq
        rw [heq] at hnone
        exact hsome hnone
      refine ⟨hne, ⟨i + 1, by omega, by rw [Nat.add_assoc, Nat.add_comm 1 i]⟩, ?_⟩
      rw [← htable _ hne, hnone]
    · rintro ⟨hne, ⟨i, hi, rfl⟩, hnone⟩
      cases i with
      | zero => exact absurd rfl hne
      | succ i =>
          refine ⟨⟨i, by omega, by rw [Nat.add_assoc, Nat.add_comm 1 i]⟩, ?_⟩
          rw [htable _ hne, hnone]
  have hmem : v / c ∈ missing table c v (n + 1) ↔ table (v / c) = none := by
    rw [mem_missing]
    exact ⟨fun h => h.2, fun h => ⟨⟨0, Nat.succ_pos n, rfl⟩, h⟩⟩
  rw [hrest]
  by_cases hnone : table (v / c) = none
  · have hpos := Finset.card_pos.mpr ⟨_, hmem.mpr hnone⟩
    rw [if_pos hnone, Finset.card_erase_of_mem (hmem.mpr hnone)]
    omega
  · rw [if_neg hnone, Nat.zero_add, Finset.erase_eq_of_notMem (mt hmem.mp hnone)]

/-- How many pages the commit of `n` pages from `v` on costs. -/
def Layout.cost (T : Layout) (v n : Nat) : Nat :=
  n + ((missing T.l2 262144 v n).card + (missing T.l3 512 v n).card)

end Missing

/-- Pages have been committed: each has an entry for a data page of its own. -/
structure Committed (board : Board) (v n : Nat) (s : MmuState) (T : Layout) (s' : MmuState)
    (T' : Layout) : Prop where
  encodes : Encodes board s' T'
  useKept : ∀ {p u}, T.use p = some u → T'.use p = some u
  pteKept : ∀ {v'}, (v' < v ∨ v + n ≤ v') → T'.pte v' = T.pte v'
  data : ∀ {v'}, v ≤ v' → v' < v + n → ∃ p, T'.use p = some (.data v') ∧
    T'.pte v' = (l3NormalMem (p * 4096)).word
  refused : s'.refused = s.refused
  same : SameCalls s s'
  writes : ∃ new, s'.writes = new ++ s.writes ∧ ∀ x ∈ new, v ≤ x.page ∧ x.page < v + n ∧
    PoolPage (Entry.outputPage x.entry)

section Commit

variable {board : Board} {v n : Nat} {s s₁ s' : MmuState} {T T₁ T' : Layout}

theorem Committed.refl (h : Encodes board s T) : Committed board v 0 s T s T where
  encodes := h
  useKept := id
  pteKept _ := rfl
  data hv hv' := absurd hv' (Nat.not_lt.mpr hv)
  refused := rfl
  same := SameCalls.refl s
  writes := ⟨[], rfl, fun x hx => by cases hx⟩

theorem PoolPage.output_l3NormalMem {q : Nat} (h : PoolPage q) :
    Entry.outputPage (l3NormalMem (q * 4096)).word = q := by
  have hlt := h.lt
  rw [outputPage_l3NormalMem, Nat.mul_div_cancel _ (by decide), Nat.mod_eq_of_lt (by omega)]

/-- The first page is committed, and then the other ones. -/
theorem Committed.cons {q need : Nat} {s₂ : MmuState} {T₂ : Layout} (h : Encodes board s T)
    (htakes : Takes s s₁ q) (hs₁ : s₁.refused = s.refused ∧ s₁.writes = s.writes)
    (hsame : SameCalls s s₁)
    (hmap : Advance board v (l3NormalMem (q * 4096)).word { s₁ with current := v }
      { T with use := Function.update T.use q (some (.data v)) } s₂ T₂ need)
    (hpte : T₂.pte = Function.update T.pte v (l3NormalMem (q * 4096)).word)
    (hrest : Committed board (v + 1) n s₂ T₂ s' T') : Committed board v (n + 1) s T s' T' := by
  constructor
  case encodes => exact hrest.encodes
  case useKept => exact fun hu => hrest.useKept (hmap.useKept (htakes.use h hu))
  case pteKept =>
    intro v' hv'
    rw [hrest.pteKept (by omega), hpte, Function.update_of_ne (by omega)]
  case data =>
    intro v' hv hv'
    rcases Nat.eq_or_lt_of_le hv with rfl | hlt
    · refine ⟨q, hrest.useKept (hmap.useKept (Function.update_self ..)), ?_⟩
      rw [hrest.pteKept (Or.inl (Nat.lt_succ_self v)), hpte, Function.update_self]
    · exact hrest.data hlt (by omega)
  case refused =>
    rw [hrest.refused, hmap.refused]
    exact hs₁.1
  case same =>
    have hmapped : SameCalls s₁ s₂ := ⟨hmap.same.1, hmap.same.2, hmap.same.3⟩
    exact (hsame.trans hmapped).trans hrest.same
  case writes =>
    obtain ⟨new, hnew, hall⟩ := hmap.writes
    obtain ⟨new', hnew', hall'⟩ := hrest.writes
    refine ⟨new' ++ new, ?_, fun x hx => ?_⟩
    · rw [hnew', hnew, List.append_assoc]
      exact congrArg _ (congrArg _ hs₁.2)
    · rcases List.mem_append.mp hx with hx | hx
      · obtain ⟨hle, hlt, hpool⟩ := hall' x hx
        exact ⟨by omega, by omega, hpool⟩
      · obtain ⟨hpage, hentry⟩ := hall x hx
        have hv : x.page = v := hpage
        refine ⟨by omega, by omega, ?_⟩
        rcases hentry with hentry | hpool
        · rw [hentry, htakes.pool.output_l3NormalMem]
          exact htakes.pool
        · exact hpool

/-- The costs of the first page and of the other ones. -/
theorem Layout.cost_succ (hl2New : ∀ k, k ≠ v / 262144 → T₁.l2 k = T.l2 k)
    (hl2 : T₁.l2 (v / 262144) ≠ none) (hl3New : ∀ k, k ≠ v / 512 → T₁.l3 k = T.l3 k)
    (hl3 : T₁.l3 (v / 512) ≠ none) (n : Nat) :
    T.cost v (n + 1) = 1 + tableNeed T v + T₁.cost (v + 1) n := by
  rw [Layout.cost, Layout.cost, tableNeed, l2Need, l3Need, card_missing_succ hl2New hl2,
    card_missing_succ hl3New hl3]
  omega

theorem Layout.one_add_tableNeed_le (T : Layout) (v n : Nat) :
    1 + tableNeed T v ≤ T.cost v (n + 1) := by
  have hpos : ∀ (table : Nat → Option Nat) c,
      (if table (v / c) = none then 1 else 0) ≤ (missing table c v (n + 1)).card := by
    intro table c
    split
    · next hnone =>
      exact Finset.card_pos.mpr ⟨v / c, mem_missing.mpr ⟨⟨0, Nat.succ_pos n, rfl⟩, hnone⟩⟩
    · exact Nat.zero_le _
  have hl2 := hpos T.l2 262144
  have hl3 := hpos T.l3 512
  rw [Layout.cost, tableNeed, l2Need, l3Need]
  omega

theorem outputPage_l3NormalMem_refused : ¬ PoolPage (Entry.outputPage
    (l3NormalMem ((uint32Max + physicalMemoryAllocatorPageOffset) <<< 12)).word) := by
  rw [outputPage_l3NormalMem]
  decide

/-- A wrong entry stays in the record. -/
theorem Spoiled.of_grows {α : Type} {m : MmuM α} (hm : Grows m) (h : Spoiled s s₁) :
    Spoiled s (finalState (m.run s₁)) := by
  obtain ⟨hrefused, x, hx, hout⟩ := h
  obtain ⟨⟨new, hnew⟩, hle⟩ := hm s₁
  refine ⟨Nat.lt_of_lt_of_le hrefused hle, x, ?_, hout⟩
  rw [hnew]
  exact List.mem_append_right _ hx

/-- Without a free page the first page gets a wrong entry, or a table of it does. -/
theorem spoiled_of_no_page {basePage i : Nat} (remaining : Nat) (h : Encodes board s T)
    (hv : basePage + i < 134217728) (hstatic : board.l1PageTable ((basePage + i) / 262144) = 0)
    (halloc : (allocatePhysical 1).run s = .ok uint32Max { s with refused := s.refused + 1 }) :
    Spoiled s (finalState ((commitPagesFrom basePage i (remaining + 1)).run s)) := by
  have hadd : add32 basePage i = basePage + i := Nat.mod_eq_of_lt (hv.trans (by decide))
  have h₁ : Encodes board { s with refused := s.refused + 1 } T := ⟨h.physical, h.taken, h.l1,
    h.vacant, h.l2Use, h.l2Words, h.l3Use, h.l3Words, h.l3Parent, h.pteParent⟩
  rewrite [commitPagesFrom, run_bind_ok halloc]
  dsimp only
  rewrite [hadd]
  rcases mapOnePage_spec (l3NormalMem
      ((uint32Max + physicalMemoryAllocatorPageOffset) <<< 12)).word h₁ hv hstatic with
    ⟨s', T', hrun, hadv, -, -, -, hmem⟩ | ⟨s', hrun, hspoiled, -⟩
  · rewrite [run_bind_ok hrun]
    have hrefused : s'.refused = s.refused + 1 := hadv.refused
    exact Spoiled.of_grows (grows_commitPagesFrom _ _ _)
      ⟨by omega, _, hmem, outputPage_l3NormalMem_refused⟩
  · rewrite [run_bind_error hrun]
    exact ⟨Nat.lt_trans (Nat.lt_succ_self _) hspoiled.1, hspoiled.2⟩

/-- A request that the virtual allocator has refused maps the page behind its address, which
is none of its pages. -/
theorem written_of_no_fit (h : Encodes board s T) (remaining : Nat) :
    ∃ x ∈ (finalState ((commitPagesFrom 0x1FFFFF 0 (remaining + 1)).run s)).writes,
      ¬ (VirtualPage x.page ∧ PoolPage (Entry.outputPage x.entry)) := by
  have hstatic : board.l1PageTable (0x1FFFFF / 262144) = 0 := by
    cases board <;> decide
  rcases run_allocatePhysical_one h.physical with ⟨halloc, -⟩ | ⟨r, words, halloc, htakes⟩
  · obtain ⟨-, x, hx, hout⟩ := spoiled_of_no_page (i := 0) remaining h (by decide) hstatic
      halloc
    exact ⟨x, hx, fun hboth => hout hboth.2⟩
  · rewrite [commitPagesFrom, run_bind_ok halloc]
    dsimp only
    have h₁ := h.addUse (u := .data 0) htakes rfl rfl
    have hadd : add32 0x1FFFFF 0 = 0x1FFFFF := rfl
    rewrite [hadd]
    rcases mapOnePage_spec (l3NormalMem
        ((r + physicalMemoryAllocatorPageOffset) <<< 12)).word h₁ (by decide) hstatic with
      ⟨s', T', hrun, -, -, -, -, hmem⟩ | ⟨s', hrun, ⟨-, x, hx, hout⟩, -⟩
    · rewrite [run_bind_ok hrun]
      obtain ⟨⟨new, hnew⟩, -⟩ := grows_commitPagesFrom 0x1FFFFF remaining (0 + 1) s'
      have hnot : ¬ VirtualPage 0x1FFFFF := by decide
      exact ⟨_, hnew ▸ List.mem_append_right new hmem, fun hboth => hnot hboth.1⟩
    · rewrite [run_bind_error hrun]
      exact ⟨x, hx, fun hboth => hout hboth.2⟩

/-- The loop commits the pages that are left, exactly when there are enough free pages. -/
theorem commitPagesFrom_cases {basePage : Nat} (remaining i : Nat) (h : Encodes board s T)
    (hrange : ∀ j, i ≤ j → j < i + remaining → VirtualPage (basePage + j)) :
    (∃ s' T', (commitPagesFrom basePage i remaining).run s = .ok () s' ∧
      Committed board (basePage + i) remaining s T s' T' ∧
      T.cost (basePage + i) remaining ≤ s.free.card) ∨
    (Spoiled s (finalState ((commitPagesFrom basePage i remaining).run s)) ∧
      s.free.card < T.cost (basePage + i) remaining) := by
  induction remaining generalizing i s T with
  | zero =>
      refine Or.inl ⟨s, T, rfl, Committed.refl h, ?_⟩
      simp [Layout.cost, missing]
  | succ remaining ih =>
      have hv := hrange i le_rfl (by omega)
      have hadd : add32 basePage i = basePage + i := Nat.mod_eq_of_lt (hv.2.trans (by decide))
      rcases run_allocatePhysical_one h.physical with ⟨halloc, hempty⟩ | ⟨r, words, halloc, htakes⟩
      · refine Or.inr ⟨spoiled_of_no_page remaining h hv.lt (hv.static board) halloc, ?_⟩
        rw [hempty, Finset.card_empty, Layout.cost]
        omega
      · have hentry : (l3NormalMem ((r + physicalMemoryAllocatorPageOffset) <<< 12)).word =
            (l3NormalMem ((r + physicalMemoryAllocatorPageOffset) * 4096)).word := by
          rw [Nat.shiftLeft_eq]
        rewrite [commitPagesFrom, run_bind_ok halloc]
        dsimp only
        rewrite [hadd, hentry]
        generalize r + physicalMemoryAllocatorPageOffset = q at htakes
        have h₁ := h.addUse (u := .data (basePage + i)) htakes rfl rfl
        have hcard : s.free.card = ({ s with physicalWords := words } : MmuState).free.card + 1 :=
          htakes.card
        rcases mapOnePage_spec (l3NormalMem (q * 4096)).word h₁ hv.lt
            (hv.static board) with
          ⟨s₂, T₂, hrun, hadv, hpte, hl3, hl2, -⟩ | ⟨s', hrun, hspoiled, hneed⟩
        · have hcost : T.cost (basePage + i) (remaining + 1) =
              1 + tableNeed T (basePage + i) + T₂.cost (basePage + (i + 1)) remaining :=
            Layout.cost_succ (fun _ hk => hadv.l2New hk) hl2 (fun _ hk => hadv.l3New hk) hl3 remaining
          have hcapacity : ({ s with physicalWords := words } : MmuState).free.card =
              s₂.free.card + tableNeed T (basePage + i) := hadv.capacity
          rewrite [run_bind_ok hrun]
          rcases ih (i + 1) hadv.encodes (fun j hj hj' => hrange j (by omega) (by omega)) with
            ⟨s', T', hloop, hcommitted, hle⟩ | ⟨hspoiled, hlt⟩
          · refine Or.inl ⟨s', T', hloop, ?_, ?_⟩
            · exact Committed.cons h htakes ⟨rfl, rfl⟩ ⟨rfl, rfl, rfl⟩ hadv hpte hcommitted
            · omega
          · refine Or.inr ⟨⟨?_, hspoiled.2⟩, ?_⟩
            · have hrefused : s₂.refused = s.refused := hadv.refused
              exact hrefused ▸ hspoiled.1
            · omega
        · rewrite [run_bind_error hrun]
          have hneed : ({ s with physicalWords := words } : MmuState).free.card <
              tableNeed T (basePage + i) := hneed
          have hcost : 1 + tableNeed T (basePage + i) ≤ T.cost (basePage + i) (remaining + 1) :=
            Layout.one_add_tableNeed_le T _ _
          exact Or.inr ⟨hspoiled, by omega⟩

end Commit

end RPiKernel.Mmu
