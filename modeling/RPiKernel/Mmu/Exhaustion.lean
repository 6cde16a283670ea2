import RPiKernel.Mmu.Separation

/-!
# Exhausted allocators

`CommitPages` and `MapOnePage` do not look at what an allocator returns, and
`AllocateAndCommitPages` never returns a null pointer. A call is harmless exactly when
the allocators can satisfy it.
-/

namespace RPiKernel.Mmu

open Machine Containers Intervals Transition

/-- A refused request ends in a null pointer or a panic, and no entry has an address outside
the physical pool or belongs to a page outside the virtual pool. -/
structure Harmless (s : MmuState) (n : PageCount) : Prop where
  reported : s.refused < (finalState (s.outcome (.allocateAndCommitPages n))).refused →
    (∃ s', s.outcome (.allocateAndCommitPages n) = .ok 0 s') ∨
      ∃ message s', s.outcome (.allocateAndCommitPages n) = .error (.pool (.panic message)) s'
  written : ∀ x ∈ (finalState (s.outcome (.allocateAndCommitPages n))).writes,
    VirtualPage x.page ∧ PoolPage (Entry.outputPage x.entry)

/-- Every commit can be satisfied when it is asked for. -/
def CommitsSatisfiable (s : MmuState) : MmuCall → Prop
  | .allocateAndCommitPages n => s.Satisfiable n.val
  | .allocateGpuMemory _ => True

section Run

variable {board : Board} {s s' : MmuState} {T : Layout}

/-- A call is harmless exactly when it can be satisfied. -/
theorem Mapped.harmless_iff (h : Mapped board s T) (n : PageCount) :
    Harmless s n ↔ s.Satisfiable n.val := by
  rcases allocateAndCommitPages_cases h n with
    ⟨hsat, result, s', T', hserved⟩ | ⟨hnot, hrefused, hharm⟩
  · refine ⟨fun _ => hsat, fun _ => ⟨fun hlt => ?_, ?_⟩⟩
    · rw [hserved.outcome] at hlt
      exact absurd hserved.refused (Nat.ne_of_gt hlt)
    · rw [hserved.outcome]
      exact hserved.writes
  · refine ⟨fun hharmless => ?_, fun hsat => absurd hsat hnot⟩
    rcases hharm with ⟨x, hx, hout⟩ | ⟨s', hfault⟩
    · exact absurd (hharmless.written x hx) hout
    · rcases hharmless.reported hrefused with ⟨s₁, hok⟩ | ⟨message, s₁, hpanic⟩
      · rw [hfault] at hok
        cases hok
      · rw [hfault] at hpanic
        cases hpanic

/-- The invariant is kept by commits that can be satisfied, and by all other calls. -/
theorem mapped_of_satisfiable (h : (mmuSystem board).ReachableBy CommitsSatisfiable s) :
    ∃ T, Mapped board s T := by
  refine h.invariant (I := fun s => ∃ T, Mapped board s T)
    (fun s hs => ⟨{}, (Mapped.initial hs).1⟩) fun s call s' hs hcall hnext => ?_
  obtain ⟨T, hmapped⟩ := hs
  rw [mmuSystem_next, MmuState.next] at hnext
  cases call with
  | allocateAndCommitPages n =>
      rcases allocateAndCommitPages_cases hmapped n with
        ⟨-, result, s₁, T', hserved⟩ | ⟨hnot, -⟩
      · rw [hserved.outcome] at hnext
        cases hnext
        exact ⟨T', hserved.mapped⟩
      · exact absurd hcall hnot
  | allocateGpuMemory n =>
      rcases allocateGpuMemory_cases hmapped n with
        ⟨result, s₁, T', hprovided⟩ | ⟨result, s₁, hrun, -, hmapped'⟩ | ⟨fault, s₁, hrun, -⟩
      · rw [hprovided.outcome] at hnext
        cases hnext
        exact ⟨T', hprovided.mapped⟩
      · rw [hrun] at hnext
        cases hnext
        exact ⟨T, hmapped'⟩
      · rw [hrun] at hnext
        cases hnext

end Run

/-- In every run in which all commits can be satisfied, the next one is harmless exactly when it
can be satisfied too: the virtual allocator has a fit, and the physical allocator as many
free pages as the data and the missing tables take. -/
theorem exhaustion_harmless_iff {board : Board} {s : MmuState}
    (h : (mmuSystem board).ReachableBy CommitsSatisfiable s) (n : PageCount) :
    Harmless s n ↔ s.Satisfiable n.val := by
  obtain ⟨T, hmapped⟩ := mapped_of_satisfiable h
  exact hmapped.harmless_iff n

theorem exhaustion_harmless_iff_three : Harmless (newState .rpi3) ⟨3, by decide, by decide⟩ :=
  (exhaustion_harmless_iff (System.ReachableBy.initial initial_newState) _).mpr
    (satisfiable_newState (by decide))

/-- All physical pages are asked for at once, and none is left for the tables. -/
theorem not_satisfiable_all : ¬ (newState .rpi3).Satisfiable 0x10000 := by
  rintro ⟨r, -, hneeded⟩
  have hinitial : (mmuSystem .rpi3).Initial (newState .rpi3) := initial_newState
  have hmapped := (Mapped.initial hinitial).1
  have hmem : (0x100000 + r) / 262144 ∈
      missing ({} : Layout).l2 262144 (0x100000 + r) 0x10000 :=
    mem_missing.mpr ⟨⟨0, by decide, by rw [Nat.add_zero]⟩, rfl⟩
  have hpos := Finset.card_pos.mpr ⟨_, hmem⟩
  rw [card_free_newState, hmapped.encodes.cost_eq, Layout.cost] at hneeded
  omega

/-- A call that asks for all physical pages is not harmless. -/
theorem not_exhaustion_harmless : ¬ ∀ board s, (mmuSystem board).Reachable s →
    ∀ n, Harmless s n := by
  intro hall
  have hinitial : (mmuSystem .rpi3).Initial (newState .rpi3) := initial_newState
  have hharmless := hall .rpi3 (newState .rpi3) (System.ReachableBy.initial hinitial)
    ⟨0x10000, by decide, by decide⟩
  exact not_satisfiable_all (((Mapped.initial hinitial).1.harmless_iff _).mp hharmless)

end RPiKernel.Mmu
