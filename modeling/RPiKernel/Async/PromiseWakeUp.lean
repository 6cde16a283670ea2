import RPiKernel.Async.PromiseLifetime

/-!
# Waking up the awaiter of a task

An awaiter that registers a callback either learns that the task has completed,
or has its callback invoked exactly once, after the result has been stored. The
owner may abandon the task as soon as the awaiter has been answered.

## Implementation notes

`AnsweredAtAbandon` is the only restriction on the steps. Under it `abandon`
never takes the promise away from a running task, so the mark `Abandoned` does
not appear.
-/

namespace RPiKernel.Async

open Transition

variable {κ : Type}

/-- How many steps the coroutine side takes at most until it is done. -/
def CoroutinePc.stepsLeft : CoroutinePc κ → Nat
  | .body => 7
  | .finalSuspend => 6
  | .readNotifier _ => 5
  | .callNotifier _ _ => 4
  | .readResumer _ => 3
  | .complete _ _ => 2
  | .markCompleted => 2
  | .callResumer _ _ => 1
  | .destroy => 1
  | .done => 0
  | .panicked => 0

/-- How many steps the owner takes at most until its registration returns. -/
def OwnerPc.stepsLeft : OwnerPc → Nat
  | .register => 3
  | .exchange _ => 2
  | .restoreCompleting _ | .restoreCompleted => 1
  | _ => 0

/-- The owner has called `abandon`. -/
def OwnerPc.Abandoning : OwnerPc → Prop
  | .abandonRunning | .abandonAwaiter _ | .checkNotifier | .awaitCompletion => True
  | .destroy | .marked | .destroyed | .left => True
  | _ => False

/-- A notifier is the whole delivery of the request it belongs to. -/
theorem Request.notified_eq (r : Request κ) :
    r.notifier.toList.map (⟨·, r.waiting.val, true⟩) = ([] : List (Call κ)) ∨
      r.notifier.toList.map (⟨·, r.waiting.val, true⟩) = r.delivery := by
  cases r with
  | suspend waiting resumer => exact Or.inl rfl
  | notify waiting notifier => exact Or.inr rfl

namespace PromiseState

/-- The task is abandoned only after the registration has returned false or the
callback has been invoked. -/
def AnsweredAtAbandon (s : PromiseState κ) : PromiseAction κ → Prop
  | .abandon => s.answer = some false ∨ (s.answer = some true ∧ s.calls ≠ [])
  | _ => True

instance (s : PromiseState κ) : (a : PromiseAction κ) → Decidable (s.AnsweredAtAbandon a)
  | .abandon => inferInstanceAs
      (Decidable (s.answer = some false ∨ (s.answer = some true ∧ s.calls ≠ [])))
  | .coroutine | .poll | .request _ | .owner => inferInstanceAs (Decidable True)

/-- The request is answered once: by the value returned, or by the callback. -/
structure AnsweredOnce (s : PromiseState κ) (r : Request κ) : Prop where
  continues : s.answer = some false → s.resultStored = true ∧ s.calls = []
  resumed : s.calls = [] ∨ (s.answer = some true ∧ s.calls = r.delivery)
  finished : s.coroutine = .done → s.answer ≠ none → s.waiting = completed ∧
    ((s.answer = some false ∧ s.calls = []) ∨ (s.answer = some true ∧ s.calls = r.delivery))
  coroutineSafe : s.coroutine ≠ .panicked
  ownerSafe : s.owner ≠ .panicked
  coroutineProgress : s.coroutine ≠ .done → ∃ s', s.next .coroutine = some s' ∧
    s'.coroutine.stepsLeft < s.coroutine.stepsLeft
  ownerProgress : s.answer = none → ∃ s', s.next .owner = some s' ∧
    s'.owner.stepsLeft < s.owner.stepsLeft

/-- Once `abandon` has begun, the completion has been announced. -/
structure AnsweredInv (s : PromiseState κ) : Prop where
  inv : s.Inv
  unmarked : s.owner ≠ .marked
  announced : s.owner.Abandoning → s.answer ≠ none ∧ s.coroutine.Announced
  unshared : ∀ waiting, s.owner ≠ .abandonAwaiter waiting

variable {s s' : PromiseState κ}

theorem AnsweredInv.initial : AnsweredInv ({} : PromiseState κ) := by
  constructor
  · exact Inv.initial
  · exact fun h => by cases h
  · exact False.elim
  · exact fun _ h => by cases h

/-- An announcement is not taken back. -/
theorem announced_coroutineStep (h : s.coroutine.Announced) (hs : s.coroutineStep = some s') :
    s'.coroutine.Announced := by
  cases hc : s.coroutine with
  | body =>
      rw [hc] at h
      exact h.elim
  | finalSuspend =>
      rw [hc] at h
      exact h.elim
  | _ =>
      simp only [PromiseState.coroutineStep, hc] at hs
      repeat' split at hs
      all_goals first | cases hs; trivial | cases hs

theorem coroutineStep_answer (hs : s.coroutineStep = some s') : s'.answer = s.answer := by
  unfold PromiseState.coroutineStep at hs
  repeat' split at hs
  all_goals first | cases hs; rfl | cases hs

theorem answer_ne_none (ha : s.answer = some false ∨ (s.answer = some true ∧ s.calls ≠ [])) :
    s.answer ≠ none := by
  rcases ha with ha | ⟨ha, -⟩ <;> simp [ha]

/-- An answered awaiter belongs to a task that has announced its completion. -/
theorem Inv.announced_of_answered (h : s.Inv)
    (ha : s.answer = some false ∨ (s.answer = some true ∧ s.calls ≠ [])) :
    s.coroutine.Announced := by
  have hc := h.coroutine
  cases hpc : s.coroutine with
  | body =>
      simp only [CoroutineInv, hpc] at hc
      rcases ha with ha | ⟨-, hcalls⟩
      · exact absurd ha hc.2.2
      · exact absurd hc.2.1 hcalls
  | finalSuspend =>
      simp only [CoroutineInv, hpc] at hc
      rcases ha with ha | ⟨-, hcalls⟩
      · exact absurd ha hc.2.2
      · exact absurd hc.2.1 hcalls
  | _ => trivial

/-- An owner outside `abandon`. -/
theorem AnsweredInv.of_owner (h : s.Inv) (ho : ¬ s.owner.Abandoning) : s.AnsweredInv := by
  constructor
  · exact h
  · rintro hm
    rw [hm] at ho
    exact ho trivial
  · exact fun hcon => absurd hcon ho
  · rintro waiting hw
    rw [hw] at ho
    exact ho trivial

/-- An owner within `abandon` that takes nothing away. -/
theorem AnsweredInv.abandoning (h : s.AnsweredInv) (h' : s'.Inv) (ho : s.owner.Abandoning)
    (hcoroutine : s'.coroutine = s.coroutine) (hanswer : s'.answer = s.answer)
    (hm : s'.owner ≠ .marked) (hw : ∀ waiting, s'.owner ≠ .abandonAwaiter waiting) :
    s'.AnsweredInv := by
  constructor
  · exact h'
  · exact hm
  · intro _
    rw [hcoroutine, hanswer]
    exact h.announced ho
  · exact hw

theorem AnsweredInv.coroutineStep (h : s.AnsweredInv) (hs : s.coroutineStep = some s') :
    s'.AnsweredInv := by
  have howner := coroutineStep_owner hs
  constructor
  · exact h.inv.coroutineStep hs
  · rw [howner]
    exact h.unmarked
  · rw [howner, coroutineStep_answer hs]
    exact fun ho => ⟨(h.announced ho).1, announced_coroutineStep (h.announced ho).2 hs⟩
  · rw [howner]
    exact h.unshared

theorem AnsweredInv.ownerStep (h : s.AnsweredInv) (hs : s.ownerStep = some s') :
    s'.AnsweredInv := by
  have hinv := h.inv.ownerStep hs
  cases ho : s.owner with
  | register =>
      simp only [PromiseState.ownerStep, ho, Option.map_eq_some_iff] at hs
      obtain ⟨r, -, rfl⟩ := hs
      apply AnsweredInv.of_owner hinv
      rcases s.registerCallback_owner r with ho' | ho' <;> simp [ho', OwnerPc.Abandoning]
  | abandonRunning =>
      have hq : s.owner.Quiet := by
        rw [ho]
        trivial
      have habandoning : s.owner.Abandoning := by
        rw [ho]
        trivial
      have hannounced := (h.announced habandoning).2
      simp only [PromiseState.ownerStep, ho] at hs
      rcases h.inv.quiet_cases hq with ⟨hc, -⟩ | ⟨hc, -⟩ | ⟨-, -, -, hw⟩ | ⟨-, hw⟩
      · exact absurd hannounced hc
      · exact absurd hannounced hc
      · rw [if_neg (by rw [hw]; exact running_ne_completing.symm),
          if_neg (by rw [hw]; exact completing_ne_completed), if_pos hw] at hs
        cases hs
        exact h.abandoning hinv habandoning rfl rfl (by simp) (by simp)
      · rw [if_neg (by rw [hw]; exact running_ne_completed.symm), if_pos hw] at hs
        cases hs
        exact h.abandoning hinv habandoning rfl rfl (by simp) (by simp)
  | abandonAwaiter waiting => exact absurd ho (h.unshared waiting)
  | checkNotifier | awaitCompletion | destroy =>
      simp only [PromiseState.ownerStep, ho] at hs
      repeat' split at hs
      all_goals
        cases hs
        refine h.abandoning hinv ?_ rfl rfl ?_ ?_ <;> simp [touch, ho, OwnerPc.Abandoning]
  | _ =>
      simp only [PromiseState.ownerStep, ho] at hs
      repeat' split at hs
      all_goals first
        | cases hs; exact AnsweredInv.of_owner hinv id
        | cases hs

theorem AnsweredInv.next (h : s.AnsweredInv) (a : PromiseAction κ) (ha : s.AnsweredAtAbandon a)
    (hs : s.next a = some s') : s'.AnsweredInv := by
  cases a with
  | coroutine => exact h.coroutineStep hs
  | poll =>
      have hinv := h.inv.next _ hs
      simp only [PromiseState.next] at hs
      split at hs
      · next ho =>
          cases hs
          rcases clientAwaitReady_owner ho with ho' | ho' <;>
            exact AnsweredInv.of_owner hinv (by simp [ho', OwnerPc.Abandoning])
      · cases hs
  | request r =>
      have hinv := h.inv.next _ hs
      simp only [PromiseState.next] at hs
      split at hs
      · cases hs
        exact AnsweredInv.of_owner hinv id
      · cases hs
  | abandon =>
      have hinv := h.inv.next _ hs
      simp only [PromiseState.next] at hs
      split at hs
      · cases hs
        constructor
        · exact hinv
        · simp
        · exact fun _ => ⟨answer_ne_none ha, h.inv.announced_of_answered ha⟩
        · simp
      · cases hs
  | owner => exact h.ownerStep hs

/-- The coroutine side is never stuck. -/
theorem Inv.coroutine_progress (h : s.Inv) (hs : s.coroutine ≠ .done) :
    ∃ s', s.next .coroutine = some s' ∧ s'.coroutine.stepsLeft < s.coroutine.stepsLeft := by
  have hc := h.coroutine
  cases hpc : s.coroutine with
  | done => exact absurd hpc hs
  | panicked =>
      simp only [CoroutineInv, hpc] at hc
  | _ =>
      simp only [PromiseState.next, PromiseState.coroutineStep, hpc]
      repeat' split
      all_goals exact ⟨_, rfl, by simp [CoroutinePc.stepsLeft]⟩

/-- A registration that has not returned is never stuck. -/
theorem AnsweredInv.owner_progress (h : s.AnsweredInv) {r : Request κ} (hr : s.request = some r)
    (ha : s.answer = none) :
    ∃ s', s.next .owner = some s' ∧ s'.owner.stepsLeft < s.owner.stepsLeft := by
  have howner := h.inv.owner
  have habandoning : ¬ s.owner.Abandoning := fun hcon => (h.announced hcon).1 ha
  cases ho : s.owner with
  | register =>
      simp only [PromiseState.next, PromiseState.ownerStep, ho, hr, Option.map_some]
      refine ⟨_, rfl, ?_⟩
      rcases s.registerCallback_owner r with ho' | ho' <;> simp [ho', OwnerPc.stepsLeft]
  | exchange waiting | restoreCompleting waiting | restoreCompleted =>
      simp only [PromiseState.next, PromiseState.ownerStep, ho]
      repeat' split
      all_goals exact ⟨_, rfl, by simp [OwnerPc.stepsLeft]⟩
  | free => simp [OwnerInv, ho, hr, ha] at howner
  | panicked => simp [OwnerInv, ho] at howner
  | _ =>
      rw [ho] at habandoning
      exact absurd trivial habandoning

/-- An answered owner leaves `m_waiting` alone. -/
theorem AnsweredInv.quiet_of_answered (h : s.AnsweredInv) (ha : s.answer ≠ none) :
    s.owner.Quiet := by
  have howner := h.inv.owner
  cases ho : s.owner with
  | marked => exact absurd ho h.unmarked
  | restoreCompleting waiting =>
      simp only [OwnerInv, ho] at howner
      exact absurd howner.1 ha
  | restoreCompleted =>
      simp only [OwnerInv, ho] at howner
      exact absurd howner.1 ha
  | _ => trivial

/-- Between the announcement and the end the calls are those of the notifier. -/
theorem Accepted.calls_eq {waiting : Nat} (h : s.Accepted waiting) {r : Request κ}
    (hr : s.request = some r) (hcalls : s.calls = s.notifier.toList.map (⟨·, waiting, true⟩))
    (hc : s.coroutine ≠ .done) :
    (s.answer ≠ some true ∧ s.calls = []) ∨ (s.answer = some true ∧ s.coroutine ≠ .done ∧
      s.calls = []) ∨ (s.answer = some true ∧ s.calls = r.delivery) := by
  obtain ⟨ha, r', hr', rfl, hn, -⟩ := h
  rw [hr, Option.some.injEq] at hr'
  subst hr'
  rw [hn] at hcalls
  rcases r.notified_eq with hnone | hall
  · exact Or.inr (Or.inl ⟨ha, hc, hcalls.trans hnone⟩)
  · exact Or.inr (Or.inr ⟨ha, hcalls.trans hall⟩)

/-- The calls made so far, wherever the coroutine side is. -/
theorem AnsweredInv.calls_eq (h : s.AnsweredInv) {r : Request κ} (hr : s.request = some r) :
    (s.answer ≠ some true ∧ s.calls = []) ∨ (s.answer = some true ∧ s.coroutine ≠ .done ∧
      s.calls = []) ∨ (s.answer = some true ∧ s.calls = r.delivery) := by
  have hc := h.inv.coroutine
  have hempty : s.calls = [] → s.coroutine ≠ .done →
      (s.answer ≠ some true ∧ s.calls = []) ∨ (s.answer = some true ∧ s.coroutine ≠ .done ∧
        s.calls = []) ∨ (s.answer = some true ∧ s.calls = r.delivery) := by
    intro hcalls hne
    by_cases ha : s.answer = some true
    · exact Or.inr (Or.inl ⟨ha, hne, hcalls⟩)
    · exact Or.inl ⟨ha, hcalls⟩
  cases hpc : s.coroutine with
  | body | finalSuspend | markCompleted | readNotifier waiting | callNotifier notifier waiting =>
      simp only [CoroutineInv, hpc] at hc
      rw [← hpc]
      exact hempty hc.2.1 (by simp [hpc])
  | readResumer waiting =>
      simp only [CoroutineInv, hpc] at hc
      rw [← hpc]
      exact hc.2.1.calls_eq hr hc.2.2 (by simp [hpc])
  | complete resumer waiting | callResumer resumer waiting =>
      simp only [CoroutineInv, hpc] at hc
      rw [← hpc]
      exact hc.2.1.calls_eq hr hc.2.2.1 (by simp [hpc])
  | destroy =>
      simp only [CoroutineInv, hpc] at hc
      exact absurd hc.2.2 h.unmarked
  | done =>
      simp only [CoroutineInv, hpc] at hc
      rcases hc.2 with ⟨ho, -⟩ | hnone | ⟨ha, r', hr', hcalls⟩
      · exact absurd ho h.unmarked
      · exact Or.inl hnone
      · rw [hr, Option.some.injEq] at hr'
        subst hr'
        exact Or.inr (Or.inr ⟨ha, hcalls⟩)
  | panicked =>
      simp only [CoroutineInv, hpc] at hc

/-- A refused request finds the result stored. -/
theorem Inv.resultStored_of_refused (h : s.Inv) (ha : s.answer = some false) :
    s.resultStored = true := by
  have hc := h.coroutine
  cases hpc : s.coroutine with
  | body =>
      simp only [CoroutineInv, hpc] at hc
      exact absurd ha hc.2.2
  | panicked =>
      simp only [CoroutineInv, hpc] at hc
  | _ =>
      simp only [CoroutineInv, hpc] at hc
      exact hc.1

/-- What the invariant says about the request of a task that is not taken away. -/
theorem AnsweredInv.answeredOnce (h : s.AnsweredInv) {r : Request κ} (hr : s.request = some r) :
    s.AnsweredOnce r := by
  have hcalls := h.calls_eq hr
  constructor
  case continues =>
    intro ha
    refine ⟨h.inv.resultStored_of_refused ha, ?_⟩
    rcases hcalls with ⟨-, hcalls⟩ | ⟨ha', -⟩ | ⟨ha', -⟩
    · exact hcalls
    · simp [ha] at ha'
    · simp [ha] at ha'
  case resumed =>
    rcases hcalls with ⟨-, hcalls⟩ | ⟨-, -, hcalls⟩ | hcalls
    · exact Or.inl hcalls
    · exact Or.inl hcalls
    · exact Or.inr hcalls
  case finished =>
    intro hdone ha
    have hsettled := h.inv.waiting.settled (h.quiet_of_answered ha)
    simp only [Settled, hdone] at hsettled
    refine ⟨hsettled, ?_⟩
    rcases hcalls with ⟨hne, hcalls⟩ | ⟨-, hne, -⟩ | hcalls
    · refine Or.inl ⟨?_, hcalls⟩
      cases hanswer : s.answer with
      | none => exact absurd hanswer ha
      | some stored =>
        cases stored with
        | true => exact absurd hanswer hne
        | false => rfl
    · exact absurd hdone hne
    · exact Or.inr hcalls
  case coroutineSafe =>
    intro hcon
    have hc := h.inv.coroutine
    simp only [CoroutineInv, hcon] at hc
  case ownerSafe =>
    intro hcon
    have howner := h.inv.owner
    simp only [OwnerInv, hcon] at howner
  case coroutineProgress => exact h.inv.coroutine_progress
  case ownerProgress => exact h.owner_progress hr

end PromiseState

/-- In every run that abandons the task only after its awaiter has been answered,
the awaiter either continues by itself or has its callback invoked once, with its
own value and after the result has been stored. -/
theorem awaiter_answeredOnce {s : PromiseState κ} {r : Request κ}
    (h : (promiseSystem κ).ReachableBy PromiseState.AnsweredAtAbandon s)
    (hr : s.request = some r) : s.AnsweredOnce r := by
  have hinv : s.AnsweredInv := by
    apply h.invariant
    · rintro s rfl
      exact PromiseState.AnsweredInv.initial
    · exact fun s a s' hs ha hnext => hs.next a ha hnext
  exact hinv.answeredOnce hr

/-- A notified awaiter whose owner abandons the task right after the notification. -/
theorem awaiter_answeredOnce_notified : ∃ s, (promiseSystem Nat).run {}
    [.request (.notify ⟨4096, by decide, by decide⟩ (some 7)), .coroutine, .owner, .owner,
      .coroutine, .coroutine, .coroutine, .abandon, .owner, .owner, .owner, .coroutine, .coroutine,
      .owner] = some s ∧ s.waiting = completed ∧ s.calls = [⟨7, 4096, true⟩] := by
  let r : Request Nat := .notify ⟨4096, by decide, by decide⟩ (some 7)
  let s : PromiseState Nat := {
    waiting := completed, notifier := some 7, resultStored := true, coroutine := .done
    owner := .left, request := some r, answer := some true, calls := [⟨7, 4096, true⟩] }
  have hrun : (promiseSystem Nat).run {} [.request r, .coroutine, .owner, .owner, .coroutine,
      .coroutine, .coroutine, .abandon, .owner, .owner, .owner, .coroutine, .coroutine, .owner] =
        some s := rfl
  have hreachable : (promiseSystem Nat).ReachableBy PromiseState.AnsweredAtAbandon s :=
    (System.ReachableBy.initial rfl).of_stepsMeet _ hrun (by decide)
  obtain ⟨hwaiting, ⟨hcon, -⟩ | ⟨-, hcalls⟩⟩ :=
    (awaiter_answeredOnce (r := r) hreachable rfl).finished rfl (by decide)
  · cases hcon
  · exact ⟨s, hrun, hwaiting, hcalls⟩

end RPiKernel.Async
