import RPiKernel.Async.PromiseInvariant

/-!
# The lifetime of the coroutine frame

When both sides have run to completion, the frame has been destroyed exactly
once, unless `abandon` met `Completing`: it then returns without leaving the
mark that `final_suspend` looks for, and the frame is never destroyed.
-/

namespace RPiKernel.Async

open Transition

variable {κ : Type}

/-- The owner has returned from `abandon`. -/
def OwnerPc.Finished : OwnerPc → Prop
  | .marked | .destroyed | .left => True
  | _ => False

/-- The owner has found `Completing` within `abandon`. -/
def OwnerPc.GaveUp : OwnerPc → Prop
  | .checkNotifier | .awaitCompletion | .left => True
  | _ => False

namespace PromiseState

/-- Both sides have run to completion. -/
def Complete (s : PromiseState κ) : Prop :=
  s.coroutine = .done ∧ s.owner.Finished

/-- The frame has been destroyed exactly once, and not been accessed afterwards. -/
def LifetimeCorrect (s : PromiseState κ) : Prop :=
  s.destroyCount = 1 ∧ s.usedAfterDestroy = false

/-- A compare-exchange of `abandon` does not meet `Completing`. -/
def AbandonsInTime (s : PromiseState κ) : PromiseAction κ → Prop
  | .owner =>
      match s.owner with
      | .abandonRunning | .abandonAwaiter _ => s.waiting ≠ completing
      | _ => True
  | _ => True

instance (s : PromiseState κ) : DecidablePred s.AbandonsInTime
  | .owner =>
      match ho : s.owner with
      | .abandonRunning | .abandonAwaiter _ =>
          decidable_of_iff (s.waiting ≠ completing) (by simp [AbandonsInTime, ho])
      | .free | .register | .exchange _ | .restoreCompleting _ | .restoreCompleted
      | .checkNotifier | .awaitCompletion | .destroy | .marked | .destroyed | .left | .panicked =>
          isTrue (by simp [AbandonsInTime, ho])
  | .coroutine | .poll | .request _ | .abandon => isTrue trivial

variable {s s' : PromiseState κ}

theorem coroutineStep_owner (hs : s.coroutineStep = some s') : s'.owner = s.owner := by
  unfold coroutineStep at hs
  repeat' split at hs
  all_goals first | cases hs; rfl | cases hs

theorem registerCallback_owner (s : PromiseState κ) (r : Request κ) :
    (s.registerCallback r).owner = .exchange r.waiting.val ∨
      (s.registerCallback r).owner = .panicked := by
  cases r with
  | suspend waiting resumer =>
      rw [registerCallback]
      split
      · exact Or.inl rfl
      · exact Or.inr rfl
  | notify waiting notifier =>
      rw [registerCallback]
      split
      · exact Or.inl rfl
      · exact Or.inr rfl

theorem clientAwaitReady_owner (ho : s.owner = .free) :
    s.clientAwaitReady.owner = .free ∨ s.clientAwaitReady.owner = .panicked := by
  rw [clientAwaitReady]
  split
  · exact Or.inr rfl
  · exact Or.inl ho

/-- A step of `abandon` gives up exactly when it meets `Completing`. -/
theorem Inv.ownerStep_gaveUp (h : s.Inv) (hs : s.ownerStep = some s') :
    s'.owner.GaveUp ↔ s.owner.GaveUp ∨ ¬ s.AbandonsInTime .owner := by
  cases ho : s.owner with
  | register =>
      simp only [PromiseState.ownerStep, ho, Option.map_eq_some_iff] at hs
      obtain ⟨r, -, rfl⟩ := hs
      rcases s.registerCallback_owner r with ho' | ho' <;>
        simp [ho, ho', AbandonsInTime, OwnerPc.GaveUp]
  | abandonRunning =>
      simp only [PromiseState.ownerStep, ho] at hs
      simp only [AbandonsInTime, ho, OwnerPc.GaveUp, false_or, not_not]
      repeat' split at hs
      all_goals
        cases hs
        simp_all [running_ne_completing, completing_ne_completed.symm,
          completing_ne_abandoned.symm]
  | abandonAwaiter waiting =>
      have howner := h.owner
      simp only [OwnerInv, ho] at howner
      have hne : waiting ≠ completing := howner.waiting_ne.2.2.1
      simp only [PromiseState.ownerStep, ho] at hs
      simp only [AbandonsInTime, ho, OwnerPc.GaveUp, false_or, not_not]
      repeat' split at hs
      all_goals
        cases hs
        simp_all [completing_ne_completed.symm]
  | _ =>
      simp only [PromiseState.ownerStep, ho] at hs
      simp only [AbandonsInTime, ho, not_true_eq_false, or_false]
      repeat' split at hs
      all_goals first | cases hs; simp [OwnerPc.GaveUp, touch, ho] | cases hs

/-- The owner gives up in exactly the steps that meet `Completing`. -/
theorem Inv.next_gaveUp (h : s.Inv) (a : PromiseAction κ) (hs : s.next a = some s') :
    s'.owner.GaveUp ↔ s.owner.GaveUp ∨ ¬ s.AbandonsInTime a := by
  cases a with
  | coroutine => simp [coroutineStep_owner hs, AbandonsInTime]
  | poll =>
      simp only [PromiseState.next] at hs
      split at hs
      · next ho =>
          cases hs
          rcases clientAwaitReady_owner ho with ho' | ho' <;>
            simp [ho, ho', AbandonsInTime, OwnerPc.GaveUp]
      · cases hs
  | request r =>
      simp only [PromiseState.next] at hs
      split at hs
      · next ho _ =>
          cases hs
          simp [ho, AbandonsInTime, OwnerPc.GaveUp]
      · cases hs
  | abandon =>
      simp only [PromiseState.next] at hs
      split at hs
      · next ho =>
          cases hs
          simp [ho, AbandonsInTime, OwnerPc.GaveUp]
      · cases hs
  | owner => exact h.ownerStep_gaveUp hs

/-- At the end of a complete run the frame has been dealt with unless the owner gave up. -/
theorem Inv.lifetimeCorrect_iff (h : s.Inv) (hdone : s.Complete) :
    s.LifetimeCorrect ↔ ¬ s.owner.GaveUp := by
  obtain ⟨hcoroutine, hfinished⟩ := hdone
  cases ho : s.owner with
  | marked =>
      have hcount : s.destroyCount = 1 := by
        rcases h.waiting.marked ho with ⟨hc | hc, -⟩ | ⟨hc, -⟩ | ⟨-, hcount⟩
        · rw [hcoroutine] at hc
          cases hc
        · rw [hcoroutine] at hc
          cases hc
        · rw [hcoroutine] at hc
          cases hc
        · exact hcount
      exact iff_of_true ⟨hcount, h.unused⟩ id
  | destroyed => exact iff_of_true ⟨h.waiting.destroyed ho, h.unused⟩ id
  | left =>
      have hcount : s.destroyCount = 0 := h.waiting.kept (by simp [ho]) (by simp [ho])
      refine iff_of_false (fun hcon => ?_) fun hcon => hcon trivial
      rw [hcon.1] at hcount
      cases hcount
  | _ =>
      rw [ho] at hfinished
      exact hfinished.elim

end PromiseState

/-- When both sides have run to completion, the frame has been destroyed exactly once and
not been accessed afterwards if and only if `abandon` did not meet `Completing`. -/
theorem lifetimeCorrect_iff_abandonsInTime {s : PromiseState κ} (actions : List (PromiseAction κ))
    (hrun : (promiseSystem κ).run {} actions = some s) (hdone : s.Complete) :
    s.LifetimeCorrect ↔ (promiseSystem κ).StepsMeet PromiseState.AbandonsInTime {} actions := by
  have hinv : s.Inv := by
    apply PromiseState.Inv.of_reachable
    exact System.Reachable.run (System.ReachableBy.initial rfl) actions hrun
  have hgaveUp := System.mark_iff_not_stepsMeet (fun _ a _ h hs => h.next a hs)
    (fun _ a _ h hs => h.next_gaveUp a hs) PromiseState.Inv.initial actions hrun
  rw [hinv.lifetimeCorrect_iff hdone, hgaveUp, not_or, not_not]
  exact and_iff_right id

/-- An awaiter that is resumed, after which its owner drops the task. -/
theorem lifetimeCorrect_resumed : ∃ s, (promiseSystem Nat).run {}
    [.poll, .request (.suspend ⟨4096, by decide, by decide⟩ (some 7)), .owner, .owner, .coroutine,
      .coroutine, .coroutine, .coroutine, .coroutine, .coroutine, .abandon, .owner, .owner] =
        some s ∧ s.Complete ∧ s.LifetimeCorrect := by
  let r : Request Nat := .suspend ⟨4096, by decide, by decide⟩ (some 7)
  let s : PromiseState Nat := {
    waiting := completed, resumer := some 7, resultStored := true, coroutine := .done
    owner := .destroyed, request := some r, ready := some false, answer := some true
    calls := [⟨7, 4096, true⟩], destroyCount := 1 }
  have hrun : (promiseSystem Nat).run {} [.poll, .request r, .owner, .owner, .coroutine,
      .coroutine, .coroutine, .coroutine, .coroutine, .coroutine, .abandon, .owner, .owner] =
        some s := rfl
  have hdone : s.Complete := ⟨rfl, trivial⟩
  exact ⟨s, hrun, hdone, (lifetimeCorrect_iff_abandonsInTime _ hrun hdone).mpr (by decide)⟩

/-- A task that is dropped between the two exchanges of `final_suspend` is never destroyed. -/
theorem not_lifetimeCorrect_completing : ∃ s, (promiseSystem Nat).run {}
    [.coroutine, .coroutine, .abandon, .owner, .owner, .coroutine] = some s ∧ s.Complete ∧
      s.destroyCount = 0 ∧ ¬ s.LifetimeCorrect := by
  let s : PromiseState Nat := {
    waiting := completed, resultStored := true, coroutine := .done, owner := .left }
  have hrun : (promiseSystem Nat).run {}
      [.coroutine, .coroutine, .abandon, .owner, .owner, .coroutine] = some s := rfl
  refine ⟨s, hrun, ⟨rfl, trivial⟩, rfl, fun hcon => ?_⟩
  cases hcon.1

end RPiKernel.Async
