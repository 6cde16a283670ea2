import RPiKernel.Exceptions.Discipline

/-!
# The contexts on the stacks

`Stacks` says that the memory holds the context of every suspended computation, that no
two of them share a word, and that the record of every thread that waits points to the
context that was pushed last on it. The section lists what may happen to such a state: a
change elsewhere, a push, a pop, a new thread, a new first argument.
-/

namespace RPiKernel.Exceptions

open Aarch64 Transition

/-- Contexts that share no word. -/
def Apart (a b : Context) : Prop := ∀ w ∈ frame a.base, w ∉ frame b.base

theorem Apart.symm {a b : Context} (h : Apart a b) : Apart b a := fun w hb ha => h w ha hb

/-- The suspended computations of all threads, where the threads that are not busy wait. -/
structure Stacks (s : Kernel) (busy : Word → Prop) : Prop where
  holds : ∀ t, ∀ ctx ∈ s.suspended t, Holds s.core.mem ctx
  sp : ∀ t, ∀ ctx ∈ s.suspended t, ctx.reg .sp = ctx.base + 784
  thread : ∀ t, ∀ ctx ∈ s.suspended t, ctx.reg (.x 18) = t
  nested : ∀ t, (s.suspended t).Pairwise Apart
  apart : ∀ t t', t ≠ t' → ∀ a ∈ s.suspended t, ∀ b ∈ s.suspended t', Apart a b
  records : ∀ i ∈ s.threads, ∀ t, ∀ ctx ∈ s.suspended t, contextWhenSuspended i ∉ frame ctx.base
  known : ∀ t, s.suspended t ≠ [] → t ∈ s.threads
  current : s.current ∈ s.threads
  waiting : ∀ t ∈ s.threads, ¬ busy t →
    ∃ ctx rest, s.suspended t = ctx :: rest ∧ s.core.mem (contextWhenSuspended t) = ctx.base

/-- Only the current thread is busy. -/
abbrev Kernel.OneRuns (s : Kernel) : Prop := Stacks s (· = s.current)

section Guarded

variable {s : Kernel} {t : Word} {ctx : Context} {a : Word}

theorem mem_guarded_of_record (ht : t ∈ s.threads) : contextWhenSuspended t ∈ s.guarded :=
  Or.inl ⟨t, ht, rfl⟩

theorem mem_guarded_of_frame (hctx : ctx ∈ s.suspended t) (ha : a ∈ frame ctx.base) :
    a ∈ s.guarded :=
  Or.inr ⟨t, ctx, hctx, ha⟩

end Guarded

section CreateThread

variable (m : Word → Word) (info stackHigh function context : Word)

theorem holds_read (base : Word) : Holds m (.read m base) := by
  intro r off hslot
  change m _ = m (base + BitVec.ofNat 64 ((slot r).getD 0))
  rw [hslot]
  rfl

/-- Slots of different registers are different words. -/
theorem slot_ne (base : Word) {i j : Nat} (hi : i < 2 ^ 64) (hj : j < 2 ^ 64) (hne : i ≠ j) :
    base + BitVec.ofNat 64 i ≠ base + BitVec.ofNat 64 j := by
  intro heq
  have hword := congrArg BitVec.toNat (add_left_cancel heq)
  rw [BitVec.toNat_ofNat, BitVec.toNat_ofNat, Nat.mod_eq_of_lt hi, Nat.mod_eq_of_lt hj] at hword
  exact hne hword

theorem createThread_outside {a : Word} (hframe : a ∉ frame (stackHigh - 784))
    (hrecord : a ≠ contextWhenSuspended info) :
    createThread m info stackHigh function context a = m a := by
  have hslot : ∀ r off, slot r = some off → a ≠ stackHigh - 784 + BitVec.ofNat 64 off :=
    fun r off hslot heq => hframe (heq ▸ slot_mem_frame hslot (stackHigh - 784))
  simp only [createThread, Function.update_apply]
  rw [if_neg (hslot .spsr _ rfl), if_neg (hslot .elr _ rfl), if_neg (hslot .sp _ rfl),
    if_neg (hslot (.x 18) (8 * 18) rfl), if_neg (hslot (.x 0) (8 * 0) rfl), if_neg hrecord]

theorem createThread_record (hinside : contextWhenSuspended info ∉ frame (stackHigh - 784)) :
    createThread m info stackHigh function context (contextWhenSuspended info) =
      stackHigh - 784 := by
  have hslot : ∀ r off, slot r = some off →
      contextWhenSuspended info ≠ stackHigh - 784 + BitVec.ofNat 64 off :=
    fun r off hslot heq => hinside (heq ▸ slot_mem_frame hslot (stackHigh - 784))
  simp only [createThread, Function.update_apply]
  rw [if_neg (hslot .spsr _ rfl), if_neg (hslot .elr _ rfl), if_neg (hslot .sp _ rfl),
    if_neg (hslot (.x 18) (8 * 18) rfl), if_neg (hslot (.x 0) (8 * 0) rfl), if_pos trivial]

theorem createThread_sp :
    createThread m info stackHigh function context
      (stackHigh - 784 + BitVec.ofNat 64 threadContextSp) = stackHigh := by
  simp only [createThread, Function.update_apply]
  rw [if_neg (slot_ne _ (by decide) (by decide) (by decide)),
    if_neg (slot_ne _ (by decide) (by decide) (by decide)), if_pos trivial]

theorem createThread_thread :
    createThread m info stackHigh function context
      (stackHigh - 784 + BitVec.ofNat 64 (8 * 18)) = info := by
  simp only [createThread, Function.update_apply]
  rw [if_neg (slot_ne _ (by decide) (by decide) (by decide)),
    if_neg (slot_ne _ (by decide) (by decide) (by decide)),
    if_neg (slot_ne _ (by decide) (by decide) (by decide)), if_pos trivial]

end CreateThread

namespace Stacks

variable {s : Kernel} {busy : Word → Prop} {t : Word} {ctx : Context} {rest : List Context}

/-- More threads may be busy. -/
theorem mono (h : Stacks s busy) {busy' : Word → Prop} (hbusy : ∀ t, busy t → busy' t) :
    Stacks s busy' :=
  { h with waiting := fun t ht hidle => h.waiting t ht fun hb => hidle (hbusy t hb) }

/-- A change outside the guarded words, or in the record of a busy thread. -/
theorem change (h : Stacks s busy) {c : Core} {place : Place}
    (hthread : c.reg (.x 18) = s.current)
    (hmem : ∀ a ∈ s.guarded, (∀ t, busy t → a ≠ contextWhenSuspended t) → c.mem a = s.core.mem a)
    (hbusy : ∀ t, busy t → t ∈ s.threads) :
    Stacks { s with core := c, place := place } busy where
  holds t ctx hctx := by
    refine (h.holds t ctx hctx).congr fun a ha => ?_
    refine hmem a (mem_guarded_of_frame hctx ha) fun t' ht' heq => ?_
    exact h.records t' (hbusy t' ht') t ctx hctx (heq ▸ ha)
  sp := h.sp
  thread := h.thread
  nested := h.nested
  apart := h.apart
  records := h.records
  known := h.known
  current := by
    change c.reg (.x 18) ∈ s.threads
    rw [hthread]
    exact h.current
  waiting t ht hidle := by
    obtain ⟨ctx, rest, hstack, hrecord⟩ := h.waiting t ht hidle
    refine ⟨ctx, rest, hstack, ?_⟩
    refine (hmem _ (mem_guarded_of_record ht) fun t' ht' heq => ?_).trans hrecord
    obtain rfl : t = t' := heq
    exact hidle ht'

/-- A computation of the current thread is suspended. -/
theorem push (h : s.OneRuns) (hroom : s.Room) {c : Core} {place : Place}
    (hbase : ctx.base = s.core.reg .sp - 784) (hsp : ctx.reg .sp = ctx.base + 784)
    (hcontext : ctx.reg (.x 18) = s.current) (hholds : Holds c.mem ctx)
    (hthread : c.reg (.x 18) = s.current)
    (houtside : ∀ a ∉ frame (s.core.reg .sp - 784), c.mem a = s.core.mem a) :
    Stacks { s.push ctx with core := c, place := place } (· = s.current) := by
  have hfree : ∀ a ∈ s.guarded, c.mem a = s.core.mem a := by
    intro a ha
    exact houtside a fun hframe => hroom a hframe ha
  have hfar : ∀ t, ∀ old ∈ s.suspended t, Apart ctx old := by
    intro t old hold w hw hw'
    rw [hbase] at hw
    exact hroom w hw (mem_guarded_of_frame hold hw')
  have hmem : ∀ {t new}, new ∈ (s.push ctx).suspended t →
      (t = s.current ∧ new = ctx) ∨ new ∈ s.suspended t := by
    intro t new hnew
    rw [Kernel.push_suspended] at hnew
    split at hnew
    · next ht =>
        rcases List.mem_cons.mp hnew with rfl | hold
        · exact Or.inl ⟨ht, rfl⟩
        · exact Or.inr (ht ▸ hold)
    · exact Or.inr hnew
  constructor
  · intro t new hnew
    obtain ⟨-, rfl⟩ | hold := hmem hnew
    · exact hholds
    · exact (h.holds t new hold).congr fun a ha => hfree a (mem_guarded_of_frame hold ha)
  · intro t new hnew
    obtain ⟨-, rfl⟩ | hold := hmem hnew
    · exact hsp
    · exact h.sp t new hold
  · intro t new hnew
    obtain ⟨rfl, rfl⟩ | hold := hmem hnew
    · exact hcontext
    · exact h.thread t new hold
  · intro t
    change List.Pairwise Apart ((s.push ctx).suspended t)
    rw [Kernel.push_suspended]
    split
    · exact List.pairwise_cons.mpr ⟨hfar s.current, h.nested s.current⟩
    · exact h.nested t
  · intro t t' hne a ha b hb
    obtain ⟨ht, rfl⟩ | hold := hmem ha
    · obtain ⟨ht', rfl⟩ | hold' := hmem hb
      · exact absurd (ht.trans ht'.symm) hne
      · exact hfar t' b hold'
    · obtain ⟨-, rfl⟩ | hold' := hmem hb
      · exact (hfar t a hold).symm
      · exact h.apart t t' hne a hold b hold'
  · intro i hi t new hnew
    obtain ⟨-, rfl⟩ | hold := hmem hnew
    · rw [hbase]
      exact fun hframe => hroom _ hframe (mem_guarded_of_record hi)
    · exact h.records i hi t new hold
  · intro t ht
    change (s.push ctx).suspended t ≠ [] at ht
    rw [Kernel.push_suspended] at ht
    split at ht
    · next heq => exact heq ▸ h.current
    · exact h.known t ht
  · change c.reg (.x 18) ∈ s.threads
    rw [hthread]
    exact h.current
  · intro t ht hidle
    obtain ⟨ctx', rest, hstack, hrecord⟩ := h.waiting t ht hidle
    refine ⟨ctx', rest, ?_, (hfree _ (mem_guarded_of_record ht)).trans hrecord⟩
    change (s.push ctx).suspended t = _
    rw [Kernel.push_suspended, if_neg hidle]
    exact hstack

/-- The context on the current stack is written again, and the thread's record points to
it. -/
theorem save (h : Stacks s busy) {c : Core} {place : Place}
    (hstack : s.suspended s.current = ctx :: rest) (hthread : c.reg (.x 18) = s.current)
    (hholds : Holds c.mem ctx) (hrecord : c.mem (contextWhenSuspended s.current) = ctx.base)
    (houtside : ∀ a ∉ frame ctx.base, a ≠ contextWhenSuspended s.current →
      c.mem a = s.core.mem a) :
    Stacks { s with core := c, place := place } (fun t => busy t ∧ t ≠ s.current) := by
  have hctx : ctx ∈ s.suspended s.current := hstack ▸ List.mem_cons_self
  obtain ⟨hnested, -⟩ := List.pairwise_cons.mp (hstack ▸ h.nested s.current)
  have hkept : ∀ t, ∀ old ∈ s.suspended t, Apart ctx old → Holds c.mem old := by
    intro t old hold hapart
    refine (h.holds t old hold).congr fun a ha => houtside a (fun hframe => hapart a hframe ha) ?_
    exact fun heq => h.records s.current h.current t old hold (heq ▸ ha)
  constructor
  · intro t old hold
    by_cases ht : t = s.current
    · subst ht
      rcases List.mem_cons.mp (hstack ▸ hold : old ∈ ctx :: rest) with rfl | hrest
      · exact hholds
      · exact hkept s.current old hold (hnested old hrest)
    · exact hkept t old hold (h.apart s.current t (Ne.symm ht) ctx hctx old hold)
  · exact h.sp
  · exact h.thread
  · exact h.nested
  · exact h.apart
  · exact h.records
  · exact h.known
  · change c.reg (.x 18) ∈ s.threads
    rw [hthread]
    exact h.current
  · intro t ht hidle
    by_cases hcurrent : t = s.current
    · subst hcurrent
      exact ⟨ctx, rest, hstack, hrecord⟩
    · obtain ⟨ctx', rest', hstack', hwaits⟩ :=
        h.waiting t ht fun hbusy => hidle ⟨hbusy, hcurrent⟩
      refine ⟨ctx', rest', hstack', (houtside _ ?_ hcurrent).trans hwaits⟩
      exact h.records t ht s.current ctx hctx

/-- The latest computation of a thread goes on, and the thread is the one that runs. -/
theorem pop (h : Stacks s busy) {c : Core} {place : Place} (ht : t ∈ s.threads)
    (hthread : c.reg (.x 18) = t) (hmem : c.mem = s.core.mem)
    (hidle : ∀ t' ∈ s.threads, t' ≠ t → busy t' → ∃ ctx rest, s.suspended t' = ctx :: rest ∧
      s.core.mem (contextWhenSuspended t') = ctx.base) :
    Stacks { s.pop t with core := c, place := place } (· = t) := by
  have hsub : ∀ {t' old}, old ∈ (s.pop t).suspended t' → old ∈ s.suspended t' := by
    intro t' old hold
    rw [Kernel.pop_suspended] at hold
    split at hold
    · next heq => exact heq ▸ List.mem_of_mem_tail hold
    · exact hold
  constructor
  · intro t' old hold
    change Holds c.mem old
    rw [hmem]
    exact h.holds t' old (hsub hold)
  · exact fun t' old hold => h.sp t' old (hsub hold)
  · exact fun t' old hold => h.thread t' old (hsub hold)
  · intro t'
    change List.Pairwise Apart ((s.pop t).suspended t')
    rw [Kernel.pop_suspended]
    split
    · exact (h.nested t).sublist (List.tail_sublist _)
    · exact h.nested t'
  · exact fun t₁ t₂ hne a ha b hb => h.apart t₁ t₂ hne a (hsub ha) b (hsub hb)
  · exact fun i hi t' old hold => h.records i hi t' old (hsub hold)
  · intro t' ht'
    obtain ⟨old, hold⟩ := List.exists_mem_of_ne_nil _ ht'
    exact h.known t' (List.ne_nil_of_mem (hsub hold))
  · change c.reg (.x 18) ∈ s.threads
    rw [hthread]
    exact ht
  · intro t' ht' hne
    have hwait : ∃ ctx rest, s.suspended t' = ctx :: rest ∧
        s.core.mem (contextWhenSuspended t') = ctx.base := by
      by_cases hbusy : busy t'
      · exact hidle t' ht' hne hbusy
      · exact h.waiting t' ht' hbusy
    obtain ⟨ctx, rest, hstack, hrecord⟩ := hwait
    refine ⟨ctx, rest, ?_, ?_⟩
    · change (s.pop t).suspended t' = _
      rw [Kernel.pop_suspended, if_neg hne]
      exact hstack
    · change c.mem _ = _
      rw [hmem]
      exact hrecord

/-- A new thread, whose stack and record were not in use. -/
theorem create (h : s.OneRuns) {info stackHigh function context : Word} {place : Place}
    (hnew : info ∉ s.threads) (hrecord : contextWhenSuspended info ∉ s.guarded)
    (hinside : contextWhenSuspended info ∉ frame (stackHigh - 784))
    (hstack : ∀ a ∈ frame (stackHigh - 784), a ∉ s.guarded) :
    let m := createThread s.core.mem info stackHigh function context
    Stacks
      { core := { s.core with mem := m }, place := place, threads := info :: s.threads
        suspended := Function.update s.suspended info [.read m (stackHigh - 784)] }
      (· = s.current) := by
  intro m
  have hkept : ∀ a ∈ s.guarded, m a = s.core.mem a := by
    intro a ha
    apply createThread_outside
    · exact fun hframe => hstack a hframe ha
    · exact fun heq => hrecord (heq ▸ ha)
  have hfar : ∀ t, ∀ old ∈ s.suspended t, Apart (.read m (stackHigh - 784)) old :=
    fun t old hold w hw hw' => hstack w hw (mem_guarded_of_frame hold hw')
  have hmem : ∀ {t ctx}, ctx ∈ Function.update s.suspended info [.read m (stackHigh - 784)] t →
      (t = info ∧ ctx = .read m (stackHigh - 784)) ∨ ctx ∈ s.suspended t := by
    intro t ctx hctx
    rw [Function.update_apply] at hctx
    split at hctx
    · next ht => exact Or.inl ⟨ht, List.mem_singleton.mp hctx⟩
    · exact Or.inr hctx
  constructor
  · intro t ctx hctx
    obtain ⟨-, rfl⟩ | hold := hmem hctx
    · exact holds_read m (stackHigh - 784)
    · exact (h.holds t ctx hold).congr fun a ha => hkept a (mem_guarded_of_frame hold ha)
  · intro t ctx hctx
    obtain ⟨-, rfl⟩ | hold := hmem hctx
    · exact (createThread_sp s.core.mem info stackHigh function context).trans
        (sub_add_cancel stackHigh 784).symm
    · exact h.sp t ctx hold
  · intro t ctx hctx
    obtain ⟨rfl, rfl⟩ | hold := hmem hctx
    · exact createThread_thread s.core.mem t stackHigh function context
    · exact h.thread t ctx hold
  · intro t
    change List.Pairwise Apart (Function.update s.suspended info _ t)
    rw [Function.update_apply]
    split
    · exact List.pairwise_singleton _ _
    · exact h.nested t
  · intro t t' hne a ha b hb
    obtain ⟨ht, rfl⟩ | hold := hmem ha
    · obtain ⟨ht', rfl⟩ | hold' := hmem hb
      · exact absurd (ht.trans ht'.symm) hne
      · exact hfar t' b hold'
    · obtain ⟨-, rfl⟩ | hold' := hmem hb
      · exact (hfar t a hold).symm
      · exact h.apart t t' hne a hold b hold'
  · intro i hi t ctx hctx
    obtain ⟨-, rfl⟩ | hold := hmem hctx
    · rcases List.mem_cons.mp hi with rfl | hi
      · exact hinside
      · exact fun hframe => hstack _ hframe (mem_guarded_of_record hi)
    · rcases List.mem_cons.mp hi with rfl | hi
      · exact fun hframe => hrecord (mem_guarded_of_frame hold hframe)
      · exact h.records i hi t ctx hold
  · intro t ht
    change Function.update s.suspended info _ t ≠ [] at ht
    rw [Function.update_apply] at ht
    split at ht
    · next heq => exact heq ▸ List.mem_cons_self
    · exact List.mem_cons_of_mem _ (h.known t ht)
  · exact List.mem_cons_of_mem _ h.current
  · intro t ht hidle
    change ∃ ctx rest, Function.update s.suspended info _ t = ctx :: rest ∧ m _ = ctx.base
    rw [Function.update_apply]
    rcases List.mem_cons.mp ht with rfl | ht
    · exact ⟨_, [], if_pos rfl, createThread_record _ _ _ _ _ hinside⟩
    · obtain ⟨ctx, rest, hctx, hmem⟩ := h.waiting t ht hidle
      refine ⟨ctx, rest, ?_, (hkept _ (mem_guarded_of_record ht)).trans hmem⟩
      have hne : t ≠ info := fun heq => hnew (heq ▸ ht)
      rw [if_neg hne]
      exact hctx

/-- A new first argument for the latest computation of a thread. -/
theorem setArgument (h : Stacks s busy) {c : Core} {place : Place} {argument : Word}
    (hstack : s.suspended t = ctx :: rest) (hthread : c.reg (.x 18) = s.current)
    (hmem : ∀ a ∈ s.guarded, c.mem a =
      Function.update s.core.mem (ctx.base + BitVec.ofNat 64 (8 * 0)) argument a) :
    Stacks { s.setArgument t argument with core := c, place := place } busy := by
  have hctx : ctx ∈ s.suspended t := hstack ▸ List.mem_cons_self
  have hslot : ctx.base + BitVec.ofNat 64 (8 * 0) ∈ frame ctx.base :=
    slot_mem_frame (r := .x 0) rfl ctx.base
  have hfar : ∀ a ∈ s.guarded, a ≠ ctx.base + BitVec.ofNat 64 (8 * 0) → c.mem a = s.core.mem a := by
    intro a ha hne
    rw [hmem a ha, Function.update_apply, if_neg hne]
  obtain ⟨hnested, hrest⟩ := List.pairwise_cons.mp (hstack ▸ h.nested t)
  have hupdated : ∀ t', (s.setArgument t argument).suspended t' =
      if t' = t then ctx.withArgument argument :: rest else s.suspended t' := by
    intro t'
    rw [Kernel.setArgument_suspended, hstack]
    rfl
  have hcases : ∀ {t' new}, new ∈ (s.setArgument t argument).suspended t' →
      (t' = t ∧ new = ctx.withArgument argument) ∨ (new ∈ s.suspended t' ∧ Apart ctx new) := by
    intro t' new hnew
    rw [hupdated] at hnew
    split at hnew
    · next heq =>
        rcases List.mem_cons.mp hnew with rfl | hold
        · exact Or.inl ⟨heq, rfl⟩
        · refine Or.inr ⟨?_, hnested new hold⟩
          rw [heq, hstack]
          exact List.mem_cons_of_mem ctx hold
    · next hne => exact Or.inr ⟨hnew, h.apart t t' (Ne.symm hne) ctx hctx new hnew⟩
  constructor
  · intro t' new hnew
    obtain ⟨-, rfl⟩ | ⟨hold, hapart⟩ := hcases hnew
    · intro r off hr
      have hword : ctx.base + BitVec.ofNat 64 off ∈ frame ctx.base := slot_mem_frame hr ctx.base
      have hc := hmem _ (mem_guarded_of_frame hctx hword)
      by_cases hargument : r = .x 0
      · subst hargument
        obtain rfl : 8 * 0 = off := Option.some.inj hr
        rw [Function.update_self] at hc
        exact hc.trans (Function.update_self (Reg.x 0) argument ctx.reg).symm
      · rw [Function.update_of_ne (slot_ne ctx.base (slot_lt_word hr) (by decide)
          (slot_ne_zero hr hargument))] at hc
        calc
          c.mem (ctx.base + BitVec.ofNat 64 off) = ctx.reg r := hc.trans (h.holds t ctx hctx r off hr)
          _ = (ctx.withArgument argument).reg r := (Function.update_of_ne hargument _ _).symm
    · refine (h.holds t' new hold).congr fun a ha => ?_
      refine hfar a (mem_guarded_of_frame hold ha) fun heq => ?_
      exact hapart _ hslot (heq ▸ ha)
  · intro t' new hnew
    obtain ⟨-, rfl⟩ | ⟨hold, -⟩ := hcases hnew
    · exact h.sp t ctx hctx
    · exact h.sp t' new hold
  · intro t' new hnew
    obtain ⟨rfl, rfl⟩ | ⟨hold, -⟩ := hcases hnew
    · exact h.thread t' ctx hctx
    · exact h.thread t' new hold
  · intro t'
    change List.Pairwise Apart ((s.setArgument t argument).suspended t')
    rw [hupdated]
    split
    · exact List.pairwise_cons.mpr ⟨hnested, hrest⟩
    · exact h.nested t'
  · intro t₁ t₂ hne a ha b hb
    obtain ⟨rfl, rfl⟩ | ⟨hold, -⟩ := hcases ha
    · obtain ⟨rfl, rfl⟩ | ⟨hold', -⟩ := hcases hb
      · exact absurd rfl hne
      · exact h.apart t₁ t₂ hne ctx hctx b hold'
    · obtain ⟨rfl, rfl⟩ | ⟨hold', -⟩ := hcases hb
      · exact h.apart t₁ t₂ hne a hold ctx hctx
      · exact h.apart t₁ t₂ hne a hold b hold'
  · intro i hi t' new hnew
    obtain ⟨-, rfl⟩ | ⟨hold, -⟩ := hcases hnew
    · exact h.records i hi t ctx hctx
    · exact h.records i hi t' new hold
  · intro t' ht'
    obtain ⟨new, hnew⟩ := List.exists_mem_of_ne_nil _ ht'
    obtain ⟨rfl, -⟩ | ⟨hold, -⟩ := hcases hnew
    · exact h.known t' (List.ne_nil_of_mem hctx)
    · exact h.known t' (List.ne_nil_of_mem hold)
  · change c.reg (.x 18) ∈ s.threads
    rw [hthread]
    exact h.current
  · intro t' ht' hidle
    obtain ⟨ctx', rest', hstack', hrecord⟩ := h.waiting t' ht' hidle
    have hkept : c.mem (contextWhenSuspended t') = s.core.mem (contextWhenSuspended t') := by
      refine hfar _ (mem_guarded_of_record ht') fun heq => ?_
      exact h.records t' ht' t ctx hctx (heq ▸ hslot)
    change ∃ ctx rest, (s.setArgument t argument).suspended t' = ctx :: rest ∧ _
    rw [hupdated]
    by_cases heq : t' = t
    · subst heq
      obtain ⟨rfl, rfl⟩ := List.cons.inj (hstack.symm.trans hstack')
      exact ⟨ctx.withArgument argument, rest, if_pos rfl, hkept.trans hrecord⟩
    · exact ⟨ctx', rest', (if_neg heq).trans hstack', hkept.trans hrecord⟩

end Stacks

end RPiKernel.Exceptions
