import RPiKernel.Timer.Ledger
import RPiKernel.Timer.Burst

/-!
# Timer handles

A handle is the index of a place, and a place is used again once its spark is
gone. A cancellation does what the scheduling call was promised exactly when the
place is empty or still holds the spark of every call that the handle was
returned to.
-/

namespace RPiKernel.Timer

open Interleaving Machine Containers Transition

variable {σ : Type}

/-- The spark of an accepted call is taken out of its place, and every other place is
unchanged unless its spark is due and handed over. -/
structure RemovesOnly (s : TimerState σ) (a : Scheduling σ) (now : BitVec 64)
    (core' : Core (Nat × σ)) : Prop where
  removed : (core'.scheduledTimers a.handle).spark = none
  not_handedOver : ∀ spark reading, ((a.number, spark), reading) ∉ core'.handedOver
  others : ∀ j ≠ a.handle, core'.scheduledTimers j = s.core.scheduledTimers j ∨
    ∃ spark, (s.core.scheduledTimers j).spark = some spark ∧
      timeLe (s.core.scheduledTimers j).triggerTimeTicks now = true ∧
      (spark, now) ∈ core'.handedOver

/-- What a cancellation owes to every accepted call that its handle was returned to. -/
def HandleKeepsPromise (s : TimerState σ) : TimerAction σ → Prop
  | .cancel now handle => ∀ found core', s.core.cancelSpark now handle = .ok (found, core') →
      ∀ a ∈ s.accepted, a.handle = handle →
        (found = true → s.ledger.IsPending a ∧ RemovesOnly s a now core') ∧
        (a.number ∈ s.ledger.delivered ∨ a.number ∈ s.cancelled → found = false ∧ core' = s.core)
  | _ => True

/-- The place of a cancelled handle is empty, or it still holds the spark of every
accepted call that the handle was returned to. -/
def HandleInUse (s : TimerState σ) : TimerAction σ → Prop
  | .cancel _ handle => (s.core.scheduledTimers handle).spark = none ∨
      ∀ a ∈ s.accepted, a.handle = handle → s.ledger.IsPending a
  | _ => True

namespace TimerState

variable {s s' : TimerState σ}

/-- A cancellation that finds a spark sets the timer up without it. -/
theorem removesOnly_of_cancelSpark {now : BitVec 64} {a : Scheduling σ} {core' : Core (Nat × σ)}
    (hs : s.Wellformed) (hsound : s.ledger.Sound) (hpending : s.ledger.IsPending a)
    (hsetup : (s.core.clear a.handle).setupTimerForNext now = .ok core') :
    RemovesOnly s a now core' := by
  obtain ⟨q, hq⟩ := hs.holds
  have hspark : (s.ledger.table a.handle).spark = some (a.number, a.spark) :=
    congrArg ScheduledTimer.spark hpending
  obtain ⟨fifo, rfl, -⟩ := Core.setupTimerForNext_ok (by exact hq) hsetup
  have hafter := (hsound.giveUp hspark).settle now
  constructor
  · cases hsome : (((s.core.clear a.handle).settled now fifo).scheduledTimers a.handle).spark with
    | none => rfl
    | some spark =>
        have hsame := (Ledger.sweep_eq_of_some hsome).1
        have hcleared : ((s.core.clear a.handle).scheduledTimers a.handle).spark = none := by
          simp only [Core.clear, Function.update_self]
        have heq := hsome.symm.trans (congrArg ScheduledTimer.spark hsame)
        rw [hcleared] at heq
        cases heq
  · intro spark reading hentry
    exact (hafter.handed _ hentry).1 List.mem_cons_self
  · intro j hj
    have hsame : (s.core.clear a.handle).scheduledTimers j = s.core.scheduledTimers j :=
      Function.update_of_ne hj _ _
    rcases sweep_eq_or_due (s.core.clear a.handle).scheduledTimers now j with
      hkeep | ⟨spark, hlt, hsome, hle⟩
    · exact Or.inl (hkeep.trans hsame)
    · refine Or.inr ⟨spark, ?_, ?_, ?_⟩
      · rw [← hsame]
        exact hsome
      · rw [← hsame]
        exact hle
      · have hdue := Ledger.mem_dueSparks.mpr ⟨j, hlt, hsome, hle⟩
        exact List.mem_append_left _ (List.mem_reverse.mpr (List.mem_map_of_mem hdue))

/-- At a step of a run, the promise is kept exactly when the handle is in use for the
calls that it was returned to. -/
theorem handleKeepsPromise_iff (hs : s.Wellformed ∧ s.ledger.Sound) (a : TimerAction σ)
    (hnext : s.next a = .ok s') : HandleKeepsPromise s a ↔ HandleInUse s a := by
  obtain ⟨hwf, hsound⟩ := hs
  cases a with
  | cancel now handle =>
      cases hcancel : s.core.cancelSpark now handle with
      | error fault =>
          rw [next, hcancel] at hnext
          cases hnext
      | ok result =>
          obtain ⟨found, core⟩ := result
          rcases Core.cancelSpark_ok hcancel with ⟨rfl, rfl, hempty⟩ | ⟨x, rfl, hlt, hspark, hsetup⟩
          · have hnone : (s.core.scheduledTimers handle).spark = none := by
              cases hspark : (s.core.scheduledTimers handle).spark with
              | none => rfl
              | some x =>
                  rw [← hspark]
                  exact hempty (hsound.place handle x.1 x.2 hspark).1
            refine iff_of_true ?_ (Or.inl hnone)
            intro found core' hok b hb hhandle
            cases hcancel.symm.trans hok
            exact ⟨fun hfalse => absurd hfalse Bool.false_ne_true, fun _ => ⟨rfl, rfl⟩⟩
          · constructor
            · intro hlaw
              exact Or.inr fun b hb hhandle => ((hlaw true core hcancel b hb hhandle).1 rfl).1
            · rintro (hnone | hall) found core' hok b hb rfl
              · rw [hspark] at hnone
                cases hnone
              · cases hcancel.symm.trans hok
                have hpending := hall b hb rfl
                refine ⟨fun _ => ⟨hpending, removesOnly_of_cancelSpark hwf hsound hpending hsetup⟩, ?_⟩
                obtain ⟨-, -, hdel, hcan⟩ := hsound.place b.handle b.number b.spark
                  (congrArg ScheduledTimer.spark hpending)
                rintro (hgone | hgone)
                · exact absurd hgone hdel
                · exact absurd hgone hcan
  | schedule now time spark => exact Iff.rfl
  | interrupt now => exact Iff.rfl
  | addSpark spark => exact Iff.rfl
  | getNextScheduledSpark => exact Iff.rfl

end TimerState

/-- In a run of timer operations every cancellation keeps its promise to the calls that its
handle was returned to, exactly when every cancellation finds its handle in use for them. -/
theorem handles_keep_promise_iff {s : TimerState σ} (actions : List (TimerAction σ))
    (hrun : (timerSystem σ).run {} actions = some s) :
    (timerSystem σ).StepsMeet HandleKeepsPromise {} actions ↔
      (timerSystem σ).StepsMeet HandleInUse {} actions := by
  apply System.stepsMeet_congr (I := fun s => s.Wellformed ∧ s.ledger.Sound) _ _ _ actions hrun
  · intro s a s' hs hnext
    have hok := TimerState.next_ok hnext
    exact ⟨hs.1.next a hok, (TimerState.next_ledger hs.1 a hok).sound hs.2⟩
  · exact fun s a s' hs hnext =>
      TimerState.handleKeepsPromise_iff hs a (TimerState.next_ok hnext)
  · exact ⟨TimerState.wellformed_initial, Ledger.sound_empty⟩

/-- A spark is scheduled and cancelled through its handle. -/
theorem handles_keep_promise_iff_cancel : ∃ s, (timerSystem Unit).run {}
    [.schedule 0 5 (some ()), .cancel 1 0] = some s ∧
      ((timerSystem Unit).StepsMeet HandleKeepsPromise {} [.schedule 0 5 (some ()), .cancel 1 0] ↔
        (timerSystem Unit).StepsMeet HandleInUse {} [.schedule 0 5 (some ()), .cancel 1 0]) := by
  obtain ⟨s, hs⟩ := Option.isSome_iff_exists.mp (show ((timerSystem Unit).run {}
    [.schedule 0 5 (some ()), .cancel 1 0]).isSome = true by decide +kernel)
  exact ⟨s, hs, handles_keep_promise_iff _ hs⟩

/-- The first spark of a full table is cancelled and its place is used again. -/
theorem exists_reused_handle : ∃ actions s, (timerSystem Unit).run {} actions = some s ∧
    (∃ a ∈ s.accepted, a.number = 0 ∧ a.handle = 0) ∧
    (s.core.scheduledTimers 0).spark = some (maxScheduledTimers, ()) ∧
    (∀ j, dueSpark s.core.scheduledTimers 0 j = none) ∧
    s.core.pendingSparksFifo.Holds maxSparks [] := by
  obtain ⟨s, hs, hcalls, htable, hstart, hfifo⟩ := exists_reachable_filled maxScheduledTimers le_rfl
  obtain ⟨_, actions, rfl, hrun⟩ := hs.exists_run
  have hspark : (s.core.scheduledTimers 0).spark = some (0, ()) := by
    rw [htable]
    rfl
  have hdue : ∀ j, dueSpark s.core.scheduledTimers 0 j = none := by
    rw [htable]
    exact dueSpark_fullTable _ maxScheduledTimers
  obtain ⟨core₁, hsetup₁, htable₁, hstart₁, hfifo₁⟩ := setup_nothing_due (s.core.clear 0) hfifo
    (dueSpark_clear hdue 0)
  have hdue₁ : ∀ j, dueSpark core₁.scheduledTimers 0 j = none := by
    rw [htable₁]
    exact dueSpark_clear hdue 0
  have hfind₁ : core₁.findEmptyFrom maxScheduledTimers 0 = some 0 := by
    apply Core.findEmptyFrom_first
    · rw [hstart₁, Core.clear, hstart]
      decide
    · simp only [htable₁, Core.clear, Function.update_self]
  obtain ⟨core₂, hsetup₂, htable₂, -, hfifo₂⟩ := setup_nothing_due (core₁.store 0 1 (s.calls, ()))
    hfifo₁ (dueSpark_store hdue₁ (s.calls, ()) 0)
  have hnext₁ := TimerState.ok_next (TimerState.next_cancel (by decide) hspark hsetup₁)
  have hnext₂ := TimerState.ok_next (TimerState.next_schedule (s := { s with
    core := core₁, cancelled := 0 :: s.cancelled, settledAt := some 0 }) hfind₁ hsetup₂)
  refine ⟨actions ++ [.cancel 0 0] ++ [.schedule 0 1 (some ())], _,
    System.run_concat (System.run_concat hrun hnext₁) hnext₂, ?_, ?_, ?_, hfifo₂⟩
  · exact ⟨_, List.mem_cons_of_mem _ ((TimerState.sound hs).2.place 0 0 () hspark).2.1, rfl, rfl⟩
  · simp only [htable₂, Core.store, Function.update_self, hcalls]
  · intro j
    simp only [htable₂]
    exact dueSpark_store hdue₁ (s.calls, ()) 0 j

/-- The handle of the first spark is cancelled once more. -/
theorem not_handles_keep_promise : ¬ ∀ actions s, (timerSystem Unit).run {} actions = some s →
    (timerSystem Unit).StepsMeet HandleKeepsPromise {} actions := by
  intro hall
  obtain ⟨actions, s, hrun, ⟨a, ha, hnumber, hhandle⟩, hspark, hdue, hfifo⟩ := exists_reused_handle
  obtain ⟨core₁, hsetup, -⟩ := setup_nothing_due (s.core.clear 0) hfifo
    (dueSpark_clear hdue 0)
  have hnext := TimerState.next_cancel (by decide) hspark hsetup
  have hmeet := hall (actions ++ [.cancel 0 0]) _
    (System.run_concat hrun (TimerState.ok_next hnext))
  have hlaw := (hmeet.of_append hrun).1
  have hinitial : (timerSystem Unit).Reachable {} := System.ReachableBy.initial rfl
  have hreach := hinitial.run actions hrun
  rw [TimerState.handleKeepsPromise_iff (TimerState.sound hreach) _ hnext] at hlaw
  rcases hlaw with hnone | hpending
  · rw [hspark] at hnone
    cases hnone
  · have heq := congrArg ScheduledTimer.spark (hpending a ha hhandle)
    rw [hhandle, hnumber] at heq
    exact absurd (hspark.symm.trans heq) (by simp [maxScheduledTimers])

end RPiKernel.Timer
