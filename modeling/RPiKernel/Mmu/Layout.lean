import Mathlib.Data.Option.Basic
import RPiKernel.Containers.PoolCapacity
import RPiKernel.Mmu.PageTables

/-!
# The layout of the page tables

A layout says which pages are the L2 and L3 tables, which entry every virtual
page has, and what each physical page is used for. As a page has one use,
different tables, data pages and buffers lie in different pages. `Encodes` says
that the words in memory are those of a layout; the lemmas below follow the
changes that `MapOnePage` makes.
-/

namespace RPiKernel.Mmu

open Machine Containers Intervals

/-- The pages that the physical allocator manages. -/
def PoolPage (page : Nat) : Prop := 0x20000 ≤ page ∧ page < 0x30000

instance (page : Nat) : Decidable (PoolPage page) :=
  inferInstanceAs (Decidable (0x20000 ≤ page ∧ page < 0x30000))

/-- What a physical page is used for. -/
inductive PageUse where
  | l2Table (i : Nat)
  | l3Table (k : Nat)
  | data (page : Nat)
  | gpu (buffer : Span)
  deriving DecidableEq

/-- The tables by the part of the address space that they cover, the entries by
virtual page, and the uses of the physical pages. -/
structure Layout where
  l2 : Nat → Option Nat := fun _ => none
  l3 : Nat → Option Nat := fun _ => none
  pte : Nat → Nat := fun _ => 0
  use : Nat → Option PageUse := fun _ => none

/-- The entry that leads to the table in a page. -/
def tableEntry (page : Nat) : Nat := (TableDescriptor.ofAddress (page * 4096)).word

/-- The free slots of the physical allocator. -/
def MmuState.free (s : MmuState) : Finset Nat :=
  freeSlots physicalMemoryAllocator s.physicalWords

/-- The words in memory are those of the layout. -/
structure Encodes (board : Board) (s : MmuState) (T : Layout) : Prop where
  physical : ∃ live, Represents physicalMemoryAllocator s.physicalWords live
  taken : ∀ {p u}, T.use p = some u → PoolPage p ∧ p - 0x20000 ∉ s.free
  l1 : ∀ i, s.l1 i = (T.l2 i).elim (board.l1PageTable i) tableEntry
  vacant : ∀ {i p}, T.l2 i = some p → board.l1PageTable i = 0
  l2Use : ∀ {i p}, T.l2 i = some p → T.use p = some (.l2Table i)
  l2Words : ∀ {i p}, T.l2 i = some p → ∀ j, j < 512 →
    s.memory (512 * p + j) = (T.l3 (512 * i + j)).elim 0 tableEntry
  l3Use : ∀ {k q}, T.l3 k = some q → T.use q = some (.l3Table k)
  l3Words : ∀ {k q}, T.l3 k = some q → ∀ j, j < 512 →
    s.memory (512 * q + j) = T.pte (512 * k + j)
  l3Parent : ∀ {k q}, T.l3 k = some q → ∃ p, T.l2 (k / 512) = some p
  pteParent : ∀ {v}, T.pte v ≠ 0 → ∃ q, T.l3 (v / 512) = some q

/-- The aperture maps the physical memory. -/
def MmuState.Aperture (s : MmuState) : Prop :=
  ∀ j, j < 8 → Entry.isBlock (s.l1 (28 + j)) = true ∧ Entry.outputL1Block (s.l1 (28 + j)) = j

section Static

theorem PoolPage.lt {p : Nat} (h : PoolPage p) : p < 2097152 := h.2.trans (by decide)

theorem isTable_tableEntry (p : Nat) : Entry.isTable (tableEntry p) = true :=
  isTable_tableDescriptor _

theorem isBlock_tableEntry (p : Nat) : Entry.isBlock (tableEntry p) = false :=
  isBlock_eq_false_of_isTable (isTable_tableEntry p)

theorem isValid_tableEntry (p : Nat) : Entry.isValid (tableEntry p) = true :=
  isValid_of_isTable (isTable_tableEntry p)

theorem outputPage_tableEntry {p : Nat} (h : p < 68719476736) :
    Entry.outputPage (tableEntry p) = p := by
  rw [tableEntry, outputPage_tableDescriptor, Nat.mul_div_cancel _ (by decide),
    Nat.mod_eq_of_lt h]

/-- The static entries are blocks or invalid. -/
theorem static_cases (board : Board) (i : Nat) :
    board.l1PageTable i = 0 ∨ Entry.isBlock (board.l1PageTable i) = true := by
  have hsmall : ∀ i, i < 36 → board.l1PageTable i = 0 ∨
      Entry.isBlock (board.l1PageTable i) = true := by
    cases board <;> decide
  by_cases hi : i < 36
  · exact hsmall i hi
  · refine Or.inl ?_
    have hlen₃ : rpi3L1PageTable.length ≤ i := Nat.not_lt.mp hi
    have hlen₄ : rpi4L1PageTable.length ≤ i := Nat.not_lt.mp hi
    cases board <;>
      simp [Board.l1PageTable, List.getD_eq_getElem?_getD, hlen₃, hlen₄]

theorem static_aperture (board : Board) : ∀ j, j < 8 →
    Entry.isBlock (board.l1PageTable (28 + j)) = true ∧
      Entry.outputL1Block (board.l1PageTable (28 + j)) = j := by
  cases board <;> decide

end Static

variable {board : Board} {s s' : MmuState} {T : Layout}

/-- Static entries stay in place. -/
theorem Encodes.l1_of_static (h : Encodes board s T) {i : Nat}
    (hi : Entry.isBlock (board.l1PageTable i) = true) : s.l1 i = board.l1PageTable i := by
  cases hl2 : T.l2 i with
  | none => rw [h.l1, hl2, Option.elim_none]
  | some p =>
      rw [h.vacant hl2] at hi
      cases hi

theorem Encodes.aperture (h : Encodes board s T) : s.Aperture := by
  intro j hj
  have hstatic := static_aperture board j hj
  rw [h.l1_of_static hstatic.1]
  exact hstatic

/-- Through the aperture every physical address below 8 GB is reached. -/
theorem MmuState.Aperture.translate (h : s.Aperture) {pa : Nat} (hpa : pa < 8589934592) :
    s.translate (physicalMemoryApertureBase + pa) = some pa := by
  have hindex : (physicalMemoryApertureBase + pa) / 2 ^ 30 = 28 + pa / 1073741824 := by
    simp only [physicalMemoryApertureBase]
    omega
  obtain ⟨hblock, houtput⟩ := h (pa / 1073741824) (by omega)
  have hlt : ¬ 2 ^ 39 ≤ physicalMemoryApertureBase + pa := by
    simp only [physicalMemoryApertureBase]
    omega
  rw [MmuState.translate, if_neg hlt]
  simp only [hindex, hblock, if_true, houtput]
  congr 1
  simp only [physicalMemoryApertureBase]
  omega

/-- A page has been taken from the physical allocator. -/
structure Takes (s s' : MmuState) (q : Nat) : Prop where
  pool : PoolPage q
  wasFree : q - 0x20000 ∈ s.free
  represents : ∃ live, Represents physicalMemoryAllocator s'.physicalWords live
  free : s'.free = s.free.erase (q - 0x20000)

section Changes

variable {p q k v i entry : Nat}

/-- Only the words of the allocator say what is free. -/
theorem MmuState.free_of_words (h : s'.physicalWords = s.physicalWords) : s'.free = s.free := by
  rw [MmuState.free, h, MmuState.free]

/-- A free page has no use. -/
theorem Encodes.use_eq_none (h : Encodes board s T) (hq : q - 0x20000 ∈ s.free) :
    T.use q = none := by
  cases huse : T.use q with
  | none => rfl
  | some u => exact absurd hq (h.taken huse).2

/-- Taking a page for a new use leaves the other uses as they are. -/
theorem Takes.taken (h : Encodes board s T) (hq : Takes s s' q) {u : PageUse} {p : Nat}
    {u' : PageUse} (hp : Function.update T.use q (some u) p = some u') :
    PoolPage p ∧ p - 0x20000 ∉ s'.free := by
  rw [hq.free, Finset.mem_erase]
  by_cases hpq : p = q
  · subst hpq
    exact ⟨hq.pool, fun hcon => hcon.1 rfl⟩
  · rw [Function.update_of_ne hpq] at hp
    exact ⟨(h.taken hp).1, fun hcon => (h.taken hp).2 hcon.2⟩

/-- Taking a page keeps what is known about a used one. -/
theorem Takes.use (h : Encodes board s T) (hq : Takes s s' q) {u u' : PageUse}
    (hp : T.use p = some u') : Function.update T.use q (some u) p = some u' := by
  have hne : p ≠ q := by
    rintro rfl
    rw [h.use_eq_none hq.wasFree] at hp
    cases hp
  rw [Function.update_of_ne hne, hp]

/-- An entry is written into the L3 table of a virtual page. -/
theorem Encodes.setPte (h : Encodes board s T) (hq : T.l3 (v / 512) = some q)
    (hphysical : s'.physicalWords = s.physicalWords) (hl1 : s'.l1 = s.l1)
    (hmemory : s'.memory = Function.update s.memory (512 * q + v % 512) entry) :
    Encodes board s' { T with pte := Function.update T.pte v entry } := by
  have hqUse := h.l3Use hq
  constructor
  case physical =>
    rw [hphysical]
    exact h.physical
  case taken =>
    intro p u hp
    rw [MmuState.free_of_words hphysical]
    exact h.taken hp
  case l1 =>
    rw [hl1]
    exact h.l1
  case vacant => exact h.vacant
  case l2Use => exact h.l2Use
  case l2Words =>
    intro i p hp j hj
    have hne : p ≠ q := by
      rintro rfl
      rw [h.l2Use hp] at hqUse
      cases hqUse
    rw [hmemory, Function.update_of_ne (by omega)]
    exact h.l2Words hp j hj
  case l3Use => exact h.l3Use
  case l3Words =>
    intro k q' hq' j hj
    dsimp only at hq' ⊢
    by_cases hk : k = v / 512
    · subst hk
      have hqq : q' = q := Option.some.inj (hq'.symm.trans hq)
      subst hqq
      by_cases hjv : j = v % 512
      · have hv : 512 * (v / 512) + j = v := by omega
        rw [hmemory, hjv, Function.update_self, ← hjv, hv, Function.update_self]
      · rw [hmemory, Function.update_of_ne (by omega), Function.update_of_ne (by omega)]
        exact h.l3Words hq' j hj
    · have hne : q' ≠ q := by
        rintro rfl
        have huse := h.l3Use hq'
        rw [hqUse, Option.some.injEq, PageUse.l3Table.injEq] at huse
        exact hk huse.symm
      rw [hmemory, Function.update_of_ne (by omega), Function.update_of_ne (by omega)]
      exact h.l3Words hq' j hj
  case l3Parent => exact h.l3Parent
  case pteParent =>
    intro v' hv'
    dsimp only at hv' ⊢
    by_cases hvv : v' = v
    · subst hvv
      exact ⟨q, hq⟩
    · rw [Function.update_of_ne hvv] at hv'
      exact h.pteParent hv'

/-- A free page becomes the L3 table of a part of the address space. -/
theorem Encodes.addL3 (h : Encodes board s T) (hp : T.l2 (k / 512) = some p)
    (hk : T.l3 k = none) (hq : Takes s s' q) (hl1 : s'.l1 = s.l1)
    (hmemory : ∀ a, s'.memory a = if 512 * q ≤ a ∧ a < 512 * q + 512 then 0
      else Function.update s.memory (512 * p + k % 512) (tableEntry q) a) :
    Encodes board s' { T with
      l3 := Function.update T.l3 k (some q)
      use := Function.update T.use q (some (.l3Table k)) } := by
  have huse := h.use_eq_none hq.wasFree
  have hpUse := h.l2Use hp
  have hne : ∀ {p' u}, T.use p' = some u → p' ≠ q := by
    rintro p' u hu rfl
    rw [huse] at hu
    cases hu
  have hpq := hne hpUse
  constructor
  case physical => exact hq.represents
  case taken => exact hq.taken h
  case l1 =>
    rw [hl1]
    exact h.l1
  case vacant => exact h.vacant
  case l2Use => exact fun hp' => hq.use h (h.l2Use hp')
  case l2Words =>
    intro i p' hp' j hj
    dsimp only at hp' ⊢
    have hpq' := hne (h.l2Use hp')
    have hmem : s'.memory (512 * p' + j) =
        Function.update s.memory (512 * p + k % 512) (tableEntry q) (512 * p' + j) := by
      rw [hmemory, if_neg (by omega)]
    by_cases hi : i = k / 512
    · subst hi
      have hpp : p' = p := Option.some.inj (hp'.symm.trans hp)
      subst hpp
      by_cases hjk : j = k % 512
      · have hk' : 512 * (k / 512) + j = k := by omega
        rw [hmem, hjk, Function.update_self, ← hjk, hk', Function.update_self, Option.elim_some]
      · rw [hmem, Function.update_of_ne (by omega), Function.update_of_ne (by omega)]
        exact h.l2Words hp' j hj
    · have hne' : p' ≠ p := by
        rintro rfl
        have huse' := h.l2Use hp'
        rw [hpUse, Option.some.injEq, PageUse.l2Table.injEq] at huse'
        exact hi huse'.symm
      rw [hmem, Function.update_of_ne (by omega), Function.update_of_ne (by omega)]
      exact h.l2Words hp' j hj
  case l3Use =>
    intro k' q' hq'
    dsimp only at hq' ⊢
    by_cases hkk : k' = k
    · subst hkk
      rw [Function.update_self, Option.some.injEq] at hq'
      rw [hq', Function.update_self]
    · rw [Function.update_of_ne hkk] at hq'
      exact hq.use h (h.l3Use hq')
  case l3Words =>
    intro k' q' hq' j hj
    dsimp only at hq' ⊢
    by_cases hkk : k' = k
    · subst hkk
      rw [Function.update_self, Option.some.injEq] at hq'
      have hzero : T.pte (512 * k' + j) = 0 := by
        by_contra hne0
        obtain ⟨q'', hq''⟩ := h.pteParent hne0
        rw [show (512 * k' + j) / 512 = k' by omega, hk] at hq''
        cases hq''
      rw [hmemory, if_pos (by omega), hzero]
    · rw [Function.update_of_ne hkk] at hq'
      have hqq := hne (h.l3Use hq')
      have hqp : q' ≠ p := by
        rintro rfl
        have huse' := h.l3Use hq'
        rw [hpUse] at huse'
        cases huse'
      rw [hmemory, if_neg (by omega), Function.update_of_ne (by omega)]
      exact h.l3Words hq' j hj
  case l3Parent =>
    intro k' q' hq'
    dsimp only at hq' ⊢
    by_cases hkk : k' = k
    · subst hkk
      exact ⟨p, hp⟩
    · rw [Function.update_of_ne hkk] at hq'
      exact h.l3Parent hq'
  case pteParent =>
    intro v hv
    obtain ⟨q', hq'⟩ := h.pteParent hv
    dsimp only
    by_cases hkk : v / 512 = k
    · rw [hkk, hk] at hq'
      cases hq'
    · exact ⟨q', by rw [Function.update_of_ne hkk, hq']⟩

/-- A free page becomes the L2 table of a part of the address space. -/
theorem Encodes.addL2 (h : Encodes board s T) (hi : T.l2 i = none)
    (hstatic : board.l1PageTable i = 0) (hq : Takes s s' q)
    (hl1 : s'.l1 = Function.update s.l1 i (tableEntry q))
    (hmemory : ∀ a, s'.memory a = if 512 * q ≤ a ∧ a < 512 * q + 512 then 0 else s.memory a) :
    Encodes board s' { T with
      l2 := Function.update T.l2 i (some q)
      use := Function.update T.use q (some (.l2Table i)) } := by
  have huse := h.use_eq_none hq.wasFree
  have hne : ∀ {p' u}, T.use p' = some u → p' ≠ q := by
    rintro p' u hu rfl
    rw [huse] at hu
    cases hu
  constructor
  case physical => exact hq.represents
  case taken => exact hq.taken h
  case l1 =>
    intro i'
    dsimp only
    by_cases hii : i' = i
    · subst hii
      rw [hl1, Function.update_self, Function.update_self, Option.elim_some]
    · rw [hl1, Function.update_of_ne hii, Function.update_of_ne hii]
      exact h.l1 i'
  case vacant =>
    intro i' p hp
    dsimp only at hp ⊢
    by_cases hii : i' = i
    · rw [hii, hstatic]
    · rw [Function.update_of_ne hii] at hp
      exact h.vacant hp
  case l2Use =>
    intro i' p hp
    dsimp only at hp ⊢
    by_cases hii : i' = i
    · subst hii
      rw [Function.update_self, Option.some.injEq] at hp
      rw [hp, Function.update_self]
    · rw [Function.update_of_ne hii] at hp
      exact hq.use h (h.l2Use hp)
  case l2Words =>
    intro i' p hp j hj
    dsimp only at hp ⊢
    by_cases hii : i' = i
    · subst hii
      rw [Function.update_self, Option.some.injEq] at hp
      have hnone : T.l3 (512 * i' + j) = none := by
        cases hl3 : T.l3 (512 * i' + j) with
        | none => rfl
        | some q' =>
            obtain ⟨p', hp'⟩ := h.l3Parent hl3
            rw [show (512 * i' + j) / 512 = i' by omega, hi] at hp'
            cases hp'
      rw [hmemory, if_pos (by omega), hnone, Option.elim_none]
    · rw [Function.update_of_ne hii] at hp
      have hpq := hne (h.l2Use hp)
      rw [hmemory, if_neg (by omega)]
      exact h.l2Words hp j hj
  case l3Use => exact fun hq' => hq.use h (h.l3Use hq')
  case l3Words =>
    intro k q' hq' j hj
    have hqq := hne (h.l3Use hq')
    rw [hmemory, if_neg (by omega)]
    exact h.l3Words hq' j hj
  case l3Parent =>
    intro k q' hq'
    obtain ⟨p, hp⟩ := h.l3Parent hq'
    dsimp only
    by_cases hii : k / 512 = i
    · rw [hii, hi] at hp
      cases hp
    · exact ⟨p, by rw [Function.update_of_ne hii, hp]⟩
  case pteParent => exact h.pteParent

/-- A free page is used otherwise. -/
theorem Encodes.addUse (h : Encodes board s T) {u : PageUse} (hq : Takes s s' q)
    (hl1 : s'.l1 = s.l1) (hmemory : s'.memory = s.memory) :
    Encodes board s' { T with use := Function.update T.use q (some u) } := by
  constructor
  case physical => exact hq.represents
  case taken => exact hq.taken h
  case l1 =>
    rw [hl1]
    exact h.l1
  case vacant => exact h.vacant
  case l2Use => exact fun hp => hq.use h (h.l2Use hp)
  case l2Words =>
    rw [hmemory]
    exact h.l2Words
  case l3Use => exact fun hq' => hq.use h (h.l3Use hq')
  case l3Words =>
    rw [hmemory]
    exact h.l3Words
  case l3Parent => exact h.l3Parent
  case pteParent => exact h.pteParent

/-- A run of free pages becomes a buffer. -/
theorem Encodes.addBuffer (h : Encodes board s T) {b : Span}
    (hb : ∀ p, b.start ≤ p ∧ p < b.stop → PoolPage p ∧ p - 0x20000 ∈ s.free)
    (hrep : ∃ live, Represents physicalMemoryAllocator s'.physicalWords live)
    (hfree : ∀ p, PoolPage p → p - 0x20000 ∈ s'.free →
      p - 0x20000 ∈ s.free ∧ ¬ (b.start ≤ p ∧ p < b.stop))
    (hl1 : s'.l1 = s.l1) (hmemory : s'.memory = s.memory) :
    Encodes board s' { T with
      use := fun p => if b.start ≤ p ∧ p < b.stop then some (.gpu b) else T.use p } := by
  have hkept : ∀ {p u}, T.use p = some u →
      (if b.start ≤ p ∧ p < b.stop then some (.gpu b) else T.use p) = some u := by
    intro p u hu
    rw [if_neg fun hin => (h.taken hu).2 (hb p hin).2, hu]
  constructor
  case physical => exact hrep
  case taken =>
    intro p u hp
    dsimp only at hp
    by_cases hin : b.start ≤ p ∧ p < b.stop
    · exact ⟨(hb p hin).1, fun hcon => (hfree p (hb p hin).1 hcon).2 hin⟩
    · rw [if_neg hin] at hp
      obtain ⟨hpool, hnot⟩ := h.taken hp
      exact ⟨hpool, fun hcon => hnot (hfree p hpool hcon).1⟩
  case l1 =>
    rw [hl1]
    exact h.l1
  case vacant => exact h.vacant
  case l2Use => exact fun hp => hkept (h.l2Use hp)
  case l2Words =>
    rw [hmemory]
    exact h.l2Words
  case l3Use => exact fun hq' => hkept (h.l3Use hq')
  case l3Words =>
    rw [hmemory]
    exact h.l3Words
  case l3Parent => exact h.l3Parent
  case pteParent => exact h.pteParent

end Changes

end RPiKernel.Mmu
