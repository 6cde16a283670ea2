import RPiKernel.Async.Promise

/-!
# The invariant of the promise

`m_waiting` holds what the coroutine side has announced, except while the owner
repairs it after a late registration or has marked the promise abandoned. The
invariant says so for every pair of program counters, together with what each
side may rely on.
-/

namespace RPiKernel.Async

variable {κ : Type}

namespace Request

def notifier : Request κ → Option κ
  | suspend _ _ => none
  | notify _ notifier => notifier

def resumer : Request κ → Option κ
  | suspend _ resumer => resumer
  | notify _ _ => none

/-- The calls that a completed request is entitled to. -/
def delivery (r : Request κ) : List (Call κ) :=
  r.callback.toList.map fun callback => ⟨callback, r.waiting.val, true⟩

theorem delivery_of_resumer_none (r : Request κ) (h : r.resumer = none) :
    r.delivery = r.notifier.toList.map (⟨·, r.waiting.val, true⟩) := by
  cases r with
  | suspend waiting resumer =>
      simp only [Request.resumer] at h
      simp [delivery, callback, notifier, h]
  | notify waiting notifier => rfl

theorem delivery_of_resumer_some (r : Request κ) {callback : κ} (h : r.resumer = some callback) :
    r.delivery =
      ⟨callback, r.waiting.val, true⟩ :: r.notifier.toList.map (⟨·, r.waiting.val, true⟩) := by
  cases r with
  | suspend waiting resumer =>
      simp only [Request.resumer] at h
      simp [delivery, Request.callback, notifier, h]
  | notify waiting notifier => cases h

end Request

section SpecialValues

variable (a : AwaiterAddress)

theorem AwaiterAddress.ne_running : a.val ≠ running := by
  have := a.below
  simp only [abandoned, running, uintptrMax] at *
  omega

theorem AwaiterAddress.ne_completing : a.val ≠ completing := by
  have := a.below
  simp only [abandoned, completing, uintptrMax] at *
  omega

theorem AwaiterAddress.ne_completed : a.val ≠ completed := by
  have := a.below
  simp only [abandoned, completed, uintptrMax] at *
  omega

theorem AwaiterAddress.ne_abandoned : a.val ≠ abandoned := Nat.ne_of_lt a.below

theorem running_ne_completing : running ≠ completing := by decide
theorem running_ne_completed : running ≠ completed := by decide
theorem running_ne_abandoned : running ≠ abandoned := by decide
theorem completing_ne_completed : completing ≠ completed := by decide
theorem completing_ne_abandoned : completing ≠ abandoned := by decide
theorem completed_ne_abandoned : completed ≠ abandoned := by decide

end SpecialValues

/-- The coroutine side has announced that it completes. -/
def CoroutinePc.Announced : CoroutinePc κ → Prop
  | .body => False
  | .finalSuspend => False
  | _ => True

/-- The coroutine side has marked the promise completed. -/
def CoroutinePc.MarkedCompleted : CoroutinePc κ → Prop
  | .callResumer _ _ => True
  | .done => True
  | _ => False

/-- The coroutine side answers the request that it has taken. -/
def CoroutinePc.Answering : CoroutinePc κ → Prop
  | .readNotifier _ => True
  | .callNotifier _ _ => True
  | .readResumer _ => True
  | .complete _ _ => True
  | .callResumer _ _ => True
  | _ => False

/-- The owner neither repairs `m_waiting` nor has marked the promise abandoned. -/
def OwnerPc.Quiet : OwnerPc → Prop
  | .restoreCompleting _ | .restoreCompleted | .marked => False
  | _ => True

theorem OwnerPc.Quiet.ne_marked {owner : OwnerPc} (h : owner.Quiet) : owner ≠ .marked := by
  rintro rfl
  exact h

theorem CoroutinePc.eq_of_not_announced {pc : CoroutinePc κ} (h : ¬ pc.Announced) :
    pc = .body ∨ pc = .finalSuspend := by
  cases pc <;> simp_all [CoroutinePc.Announced]

namespace PromiseState

variable (s : PromiseState κ)

/-- The request has been accepted: the awaiter `waiting` was told to suspend. -/
def Accepted (waiting : Nat) : Prop :=
  s.answer = some true ∧ ∃ r, s.request = some r ∧ waiting = r.waiting.val ∧
    s.notifier = r.notifier ∧ s.resumer = r.resumer

/-- What `m_waiting` is while the owner does not change it. -/
def Settled : Prop :=
  match s.coroutine with
  | .body | .finalSuspend =>
      (s.answer = none ∧ s.waiting = running) ∨ s.Accepted s.waiting
  | .callResumer _ _ | .done => s.waiting = completed
  | _ => s.waiting = completing

/-- What the coroutine side may rely on. -/
def CoroutineInv : Prop :=
  match s.coroutine with
  | .body => s.resultStored = false ∧ s.calls = [] ∧ s.answer ≠ some false
  | .finalSuspend => s.resultStored = true ∧ s.calls = [] ∧ s.answer ≠ some false
  | .markCompleted => s.resultStored = true ∧ s.calls = [] ∧ s.answer ≠ some true
  | .readNotifier waiting => s.resultStored = true ∧ s.calls = [] ∧ s.Accepted waiting
  | .callNotifier notifier waiting =>
      s.resultStored = true ∧ s.calls = [] ∧ s.Accepted waiting ∧ s.notifier = some notifier
  | .readResumer waiting =>
      s.resultStored = true ∧ s.Accepted waiting ∧
        s.calls = s.notifier.toList.map (⟨·, waiting, true⟩)
  | .complete resumer waiting =>
      s.resultStored = true ∧ s.Accepted waiting ∧
        s.calls = s.notifier.toList.map (⟨·, waiting, true⟩) ∧ resumer = s.resumer
  | .callResumer resumer waiting =>
      s.resultStored = true ∧ s.Accepted waiting ∧
        s.calls = s.notifier.toList.map (⟨·, waiting, true⟩) ∧ s.resumer = some resumer
  | .destroy => s.resultStored = true ∧ s.calls = [] ∧ s.owner = .marked
  | .done => s.resultStored = true ∧
      ((s.owner = .marked ∧ s.calls = []) ∨ (s.answer ≠ some true ∧ s.calls = []) ∨
        (s.answer = some true ∧ ∃ r, s.request = some r ∧ s.calls = r.delivery))
  | .panicked => False

/-- What the owner side may rely on, as long as the coroutine side only moves on. -/
def OwnerInv : Prop :=
  match s.owner with
  | .free | .abandonRunning => (s.request = none ∧ s.answer = none ∧ s.notifier = none ∧
      s.resumer = none) ∨ (s.request ≠ none ∧ s.answer ≠ none)
  | .register => s.answer = none ∧ s.notifier = none ∧ s.resumer = none ∧ s.request ≠ none
  | .exchange waiting => s.answer = none ∧ ∃ r, s.request = some r ∧ waiting = r.waiting.val ∧
      s.notifier = r.notifier ∧ s.resumer = r.resumer
  | .restoreCompleting waiting => s.answer = none ∧ ∃ r, s.request = some r ∧
      waiting = r.waiting.val
  | .restoreCompleted => s.answer = none ∧ s.request ≠ none
  | .abandonAwaiter waiting => s.Accepted waiting
  | .checkNotifier | .awaitCompletion | .left => s.coroutine.Announced
  | .destroy | .destroyed => s.coroutine.MarkedCompleted
  | .marked => True
  | .panicked => False

/-- What `m_waiting` is, and how often the frame has been destroyed. -/
structure WaitingInv : Prop where
  settled : s.owner.Quiet → s.Settled
  restoring : ∀ waiting, s.owner = .restoreCompleting waiting →
    (s.coroutine = .markCompleted ∧ s.waiting = waiting) ∨
      (s.coroutine = .done ∧ s.waiting = completed)
  restored : s.owner = .restoreCompleted → s.coroutine = .done
  marked : s.owner = .marked →
    ((s.coroutine = .body ∨ s.coroutine = .finalSuspend) ∧ s.waiting = abandoned ∧
      s.destroyCount = 0) ∨
    (s.coroutine = .destroy ∧ s.destroyCount = 0) ∨ (s.coroutine = .done ∧ s.destroyCount = 1)
  destroyed : s.owner = .destroyed → s.destroyCount = 1
  kept : s.owner ≠ .marked → s.owner ≠ .destroyed → s.destroyCount = 0

/-- The invariant of the promise. -/
structure Inv : Prop where
  coroutine : s.CoroutineInv
  owner : s.OwnerInv
  waiting : s.WaitingInv
  unused : s.usedAfterDestroy = false

variable {s}

theorem Inv.initial : Inv ({} : PromiseState κ) := by
  constructor
  · simp [CoroutineInv]
  · simp [OwnerInv]
  · constructor <;> simp [Settled]
  · rfl

/-- An access to a promise that has not been destroyed leaves no trace. -/
theorem touch_eq (hs : s.destroyCount = 0) : s.touch = s := by
  have hlive : decide (0 < s.destroyCount) = false := by
    rw [hs]
    rfl
  rw [touch, hlive, Bool.or_false]

section Consequences

/-- As long as the coroutine side accesses the promise, the frame exists. -/
theorem Inv.destroyCount_of_coroutine (h : s.Inv) (hs : ¬ s.coroutine.MarkedCompleted) :
    s.destroyCount = 0 := by
  by_cases hm : s.owner = .marked
  · rcases h.waiting.marked hm with ⟨-, -, hd⟩ | ⟨-, hd⟩ | ⟨hdone, -⟩
    · exact hd
    · exact hd
    · rw [hdone] at hs
      exact absurd trivial hs
  · by_cases hd : s.owner = .destroyed
    · have howner := h.owner
      simp only [OwnerInv, hd] at howner
      exact absurd howner hs
    · exact h.waiting.kept hm hd

/-- Before the announcement the owner is quiet or has marked the promise abandoned. -/
theorem Inv.waiting_of_not_announced (h : s.Inv) (hs : ¬ s.coroutine.Announced) :
    (s.owner = .marked ∧ s.waiting = abandoned) ∨
      (s.owner.Quiet ∧ s.answer = none ∧ s.waiting = running) ∨
      (s.owner.Quiet ∧ s.Accepted s.waiting) := by
  have hcases := CoroutinePc.eq_of_not_announced hs
  have hquiet : s.owner.Quiet → (s.answer = none ∧ s.waiting = running) ∨ s.Accepted s.waiting := by
    intro hq
    have hsettled := h.waiting.settled hq
    rcases hcases with hc | hc <;> simpa only [Settled, hc] using hsettled
  cases ho : s.owner with
  | marked =>
      rcases h.waiting.marked ho with ⟨-, hw, -⟩ | ⟨hc, -⟩ | ⟨hc, -⟩
      · exact Or.inl ⟨rfl, hw⟩
      · simp [hc, CoroutinePc.Announced] at hs
      · simp [hc, CoroutinePc.Announced] at hs
  | restoreCompleting waiting =>
      rcases h.waiting.restoring waiting ho with ⟨hc, -⟩ | ⟨hc, -⟩
      · simp [hc, CoroutinePc.Announced] at hs
      · simp [hc, CoroutinePc.Announced] at hs
  | restoreCompleted =>
      have hc := h.waiting.restored ho
      simp [hc, CoroutinePc.Announced] at hs
  | _ =>
      rw [ho] at hquiet
      rcases hquiet trivial with hw | hw
      · exact Or.inr (Or.inl ⟨trivial, hw⟩)
      · exact Or.inr (Or.inr ⟨trivial, hw⟩)

theorem Accepted.waiting_ne {waiting : Nat} (h : s.Accepted waiting) : waiting ≠ abandoned ∧
    waiting ≠ running ∧ waiting ≠ completing ∧ waiting ≠ completed := by
  obtain ⟨-, r, -, rfl, -⟩ := h
  exact ⟨r.waiting.ne_abandoned, r.waiting.ne_running, r.waiting.ne_completing,
    r.waiting.ne_completed⟩

theorem Accepted.unique {waiting waiting' : Nat} (h : s.Accepted waiting)
    (h' : s.Accepted waiting') : waiting = waiting' := by
  obtain ⟨-, r, hr, rfl, -⟩ := h
  obtain ⟨-, r', hr', rfl, -⟩ := h'
  rw [hr, Option.some.injEq] at hr'
  rw [hr']

/-- Between the announcement and the end the coroutine side finds its own mark,
unless the owner is repairing a late registration. -/
theorem Inv.waiting_of_announced (h : s.Inv) (ha : s.coroutine.Announced)
    (hm : ¬ s.coroutine.MarkedCompleted) (hd : s.coroutine ≠ .destroy) :
    (s.owner.Quiet ∧ s.waiting = completing) ∨
      (s.coroutine = .markCompleted ∧ s.owner = .restoreCompleting s.waiting) := by
  have hquiet : s.owner.Quiet → s.waiting = completing := by
    intro hq
    have hsettled := h.waiting.settled hq
    cases hc : s.coroutine <;>
      simp_all [Settled, CoroutinePc.Announced, CoroutinePc.MarkedCompleted]
  cases ho : s.owner with
  | marked =>
      rcases h.waiting.marked ho with ⟨hc | hc, -⟩ | ⟨hc, -⟩ | ⟨hc, -⟩
      · simp [hc, CoroutinePc.Announced] at ha
      · simp [hc, CoroutinePc.Announced] at ha
      · exact absurd hc hd
      · simp [hc, CoroutinePc.MarkedCompleted] at hm
  | restoreCompleting waiting =>
      rcases h.waiting.restoring waiting ho with ⟨hc, hw⟩ | ⟨hc, -⟩
      · exact Or.inr ⟨hc, by rw [hw]⟩
      · simp [hc, CoroutinePc.MarkedCompleted] at hm
  | restoreCompleted =>
      have hc := h.waiting.restored ho
      simp [hc, CoroutinePc.MarkedCompleted] at hm
  | _ =>
      rw [ho] at hquiet
      exact Or.inl ⟨trivial, hquiet trivial⟩

end Consequences

section CoroutineSide

variable {s' : PromiseState κ}

theorem OwnerInv.mono (h : s.OwnerInv) (howner : s'.owner = s.owner)
    (hrequest : s'.request = s.request) (hanswer : s'.answer = s.answer)
    (hnotifier : s'.notifier = s.notifier) (hresumer : s'.resumer = s.resumer)
    (hannounced : s.coroutine.Announced → s'.coroutine.Announced)
    (hmarked : s.coroutine.MarkedCompleted → s'.coroutine.MarkedCompleted) : s'.OwnerInv := by
  simp only [OwnerInv, Accepted, howner, hrequest, hanswer, hnotifier, hresumer] at h ⊢
  cases hs : s.owner <;> simp only [hs] at h ⊢ <;>
    first | exact h | exact hannounced h | exact hmarked h

/-- An announced promise whose owner is quiet moves on within the completion. -/
theorem WaitingInv.advance (h : s.WaitingInv) (hq : s.owner.Quiet) (howner : s'.owner = s.owner)
    (hcount : s'.destroyCount = s.destroyCount) (hsettled : s'.Settled) : s'.WaitingInv := by
  constructor
  case settled => exact fun _ => hsettled
  case restoring =>
    intro waiting hw
    rw [← howner, hw] at hq
    exact hq.elim
  case restored =>
    intro hw
    rw [← howner, hw] at hq
    exact hq.elim
  case marked =>
    intro hw
    rw [← howner, hw] at hq
    exact hq.elim
  case destroyed =>
    rw [howner, hcount]
    exact h.destroyed
  case kept =>
    rw [howner, hcount]
    exact h.kept

/-- What a step of the coroutine side does to a quiet owner. -/
theorem Inv.advance (h : s.Inv) (hq : s.owner.Quiet) (howner : s'.owner = s.owner)
    (hrequest : s'.request = s.request) (hanswer : s'.answer = s.answer)
    (hnotifier : s'.notifier = s.notifier) (hresumer : s'.resumer = s.resumer)
    (hcount : s'.destroyCount = s.destroyCount) (hused : s'.usedAfterDestroy = s.usedAfterDestroy)
    (hannounced : s.coroutine.Announced → s'.coroutine.Announced)
    (hmarked : s.coroutine.MarkedCompleted → s'.coroutine.MarkedCompleted)
    (hcoroutine : s'.CoroutineInv) (hsettled : s'.Settled) : s'.Inv := by
  constructor
  · exact hcoroutine
  · exact h.owner.mono howner hrequest hanswer hnotifier hresumer hannounced hmarked
  · exact h.waiting.advance hq howner hcount hsettled
  · rw [hused, h.unused]

/-- What a step of the coroutine side does when the owner has marked the promise abandoned. -/
theorem Inv.advance_marked (h : s.Inv) (ho : s.owner = .marked) (howner : s'.owner = s.owner)
    (hused : s'.usedAfterDestroy = s.usedAfterDestroy) (hcoroutine : s'.CoroutineInv)
    (hmarked : ((s'.coroutine = .body ∨ s'.coroutine = .finalSuspend) ∧ s'.waiting = abandoned ∧
        s'.destroyCount = 0) ∨
      (s'.coroutine = .destroy ∧ s'.destroyCount = 0) ∨
      (s'.coroutine = .done ∧ s'.destroyCount = 1)) : s'.Inv := by
  have ho' : s'.owner = .marked := howner.trans ho
  constructor
  · exact hcoroutine
  · simp only [OwnerInv, ho']
  · constructor
    · intro hq
      rw [ho'] at hq
      exact hq.elim
    · intro waiting hw
      rw [ho'] at hw
      cases hw
    · intro hw
      rw [ho'] at hw
      cases hw
    · exact fun _ => hmarked
    · intro hw
      rw [ho'] at hw
      cases hw
    · exact fun hne => absurd ho' hne
  · rw [hused, h.unused]

/-- A coroutine side that answers a request has a quiet owner. -/
theorem Inv.settled_of_answering (h : s.Inv) (hs : s.coroutine.Answering) :
    s.owner.Quiet ∧ s.Settled := by
  have hquiet : s.owner.Quiet := by
    cases ho : s.owner with
    | marked =>
        rcases h.waiting.marked ho with ⟨hc | hc, -⟩ | ⟨hc, -⟩ | ⟨hc, -⟩
        · exact absurd hs (by rw [hc]; exact id)
        · exact absurd hs (by rw [hc]; exact id)
        · exact absurd hs (by rw [hc]; exact id)
        · exact absurd hs (by rw [hc]; exact id)
    | restoreCompleting waiting =>
        rcases h.waiting.restoring waiting ho with ⟨hc, -⟩ | ⟨hc, -⟩
        · exact absurd hs (by rw [hc]; exact id)
        · exact absurd hs (by rw [hc]; exact id)
    | restoreCompleted =>
        have hc := h.waiting.restored ho
        exact absurd hs (by rw [hc]; exact id)
    | _ => trivial
  exact ⟨hquiet, h.waiting.settled hquiet⟩

/-- A coroutine side that has not marked the promise completed accesses an existing promise. -/
theorem Inv.touch_of_coroutine (h : s.Inv) (hs : ¬ s.coroutine.MarkedCompleted) : s.touch = s :=
  touch_eq (h.destroyCount_of_coroutine hs)

/-- The body stores its result and goes to the final suspension. -/
theorem Inv.storeResult (h : s.Inv) (hpc : s.coroutine = .body)
    (hs : s.coroutineStep = some s') : s'.Inv := by
  have hc := h.coroutine
  have htouch := h.touch_of_coroutine (by rw [hpc]; exact id)
  simp only [CoroutineInv, hpc] at hc
  simp only [PromiseState.coroutineStep, hpc, htouch, Option.some.injEq] at hs
  have hannounced : ¬ s.coroutine.Announced := by
    rw [hpc]
    exact id
  rcases h.waiting_of_not_announced hannounced with ⟨ho, hw⟩ | ⟨hq, hw⟩ | ⟨hq, hw⟩
  · have hcount := h.destroyCount_of_coroutine (by rw [hpc]; exact id)
    subst hs
    exact h.advance_marked ho rfl rfl ⟨rfl, hc.2⟩ (Or.inl ⟨Or.inr rfl, hw, hcount⟩)
  · subst hs
    refine h.advance hq rfl rfl rfl rfl rfl rfl rfl (fun ha => absurd ha hannounced) ?_
      ⟨rfl, hc.2⟩ (Or.inl hw)
    rw [hpc]
    exact id
  · subst hs
    refine h.advance hq rfl rfl rfl rfl rfl rfl rfl (fun ha => absurd ha hannounced) ?_
      ⟨rfl, hc.2⟩ (Or.inr hw)
    rw [hpc]
    exact id

/-- At the final suspension the promise is announced as completing, or the request is taken. -/
theorem Inv.announce (h : s.Inv) (hpc : s.coroutine = .finalSuspend)
    (hs : s.coroutineStep = some s') : s'.Inv := by
  have hc := h.coroutine
  have htouch := h.touch_of_coroutine (by rw [hpc]; exact id)
  simp only [CoroutineInv, hpc] at hc
  simp only [PromiseState.coroutineStep, hpc, htouch] at hs
  have hannounced : ¬ s.coroutine.Announced := by
    rw [hpc]
    exact id
  rcases h.waiting_of_not_announced hannounced with ⟨ho, hw⟩ | ⟨hq, ha, hw⟩ | ⟨hq, hw⟩
  · have hcount := h.destroyCount_of_coroutine (by rw [hpc]; exact id)
    rw [if_pos hw] at hs
    cases hs
    exact h.advance_marked ho rfl rfl ⟨hc.1, hc.2.1, ho⟩ (Or.inr (Or.inl ⟨rfl, hcount⟩))
  · rw [if_neg (by rw [hw]; exact running_ne_abandoned), if_pos hw] at hs
    cases hs
    refine h.advance hq rfl rfl rfl rfl rfl rfl rfl (fun _ => trivial) ?_ ?_ rfl
    · rw [hpc]
      exact False.elim
    · exact ⟨hc.1, hc.2.1, by rw [ha]; exact fun hcon => by cases hcon⟩
  · obtain ⟨h₁, h₂, h₃, h₄⟩ := hw.waiting_ne
    rw [if_neg h₁, if_neg h₂, if_neg (not_or.mpr ⟨h₃, h₄⟩)] at hs
    cases hs
    refine h.advance hq rfl rfl rfl rfl rfl rfl rfl (fun _ => trivial) ?_ ?_ rfl
    · rw [hpc]
      exact False.elim
    · exact ⟨hc.1, hc.2.1, hw⟩

/-- No request has been taken: the promise is marked completed. -/
theorem Inv.markCompleted (h : s.Inv) (hpc : s.coroutine = .markCompleted)
    (hs : s.coroutineStep = some s') : s'.Inv := by
  have hc := h.coroutine
  have htouch := h.touch_of_coroutine (by rw [hpc]; exact id)
  simp only [CoroutineInv, hpc] at hc
  simp only [PromiseState.coroutineStep, hpc, htouch] at hs
  have hne : s.waiting ≠ abandoned := by
    rcases h.waiting_of_announced (by rw [hpc]; trivial) (by rw [hpc]; exact id)
      (by rw [hpc]; exact fun hcon => by cases hcon) with ⟨-, hw⟩ | ⟨-, ho⟩
    · rw [hw]
      exact completing_ne_abandoned
    · have howner := h.owner
      simp only [OwnerInv, ho] at howner
      obtain ⟨-, r, -, hr⟩ := howner
      rw [hr]
      exact r.waiting.ne_abandoned
  rw [if_neg hne, Option.some.injEq] at hs
  have hcoroutine : ({ s with waiting := completed, coroutine := .done } :
      PromiseState κ).CoroutineInv := ⟨hc.1, Or.inr (Or.inl ⟨hc.2.2, hc.2.1⟩)⟩
  rcases h.waiting_of_announced (by rw [hpc]; trivial) (by rw [hpc]; exact id)
    (by rw [hpc]; exact fun hcon => by cases hcon) with ⟨hq, hw⟩ | ⟨-, ho⟩
  · subst hs
    exact h.advance hq rfl rfl rfl rfl rfl rfl rfl (fun _ => trivial) (fun _ => trivial)
      hcoroutine rfl
  · have hcount := h.destroyCount_of_coroutine (by rw [hpc]; exact id)
    subst hs
    constructor
    · exact hcoroutine
    · exact h.owner.mono rfl rfl rfl rfl rfl (fun _ => trivial) (fun _ => trivial)
    · constructor
      · intro hq
        simp only [ho] at hq
        exact hq.elim
      · exact fun _ _ => Or.inr ⟨rfl, rfl⟩
      · exact fun _ => rfl
      · intro hw
        simp only [ho] at hw
        cases hw
      · intro hw
        simp only [ho] at hw
        cases hw
      · exact fun _ _ => hcount
    · exact h.unused

/-- The notifier of a request is read. -/
theorem Inv.readNotifier {waiting : Nat} (h : s.Inv) (hpc : s.coroutine = .readNotifier waiting)
    (hs : s.coroutineStep = some s') : s'.Inv := by
  have hc := h.coroutine
  have htouch := h.touch_of_coroutine (by rw [hpc]; exact id)
  simp only [CoroutineInv, hpc] at hc
  simp only [PromiseState.coroutineStep, hpc, htouch] at hs
  obtain ⟨hq, hsettled⟩ := h.settled_of_answering (by rw [hpc]; trivial)
  simp only [Settled, hpc] at hsettled
  cases hn : s.notifier with
  | none =>
      rw [hn] at hs
      cases hs
      refine h.advance hq rfl rfl rfl hn.symm rfl rfl rfl (fun _ => trivial) ?_ ?_ hsettled
      · rw [hpc]
        exact False.elim
      · rw [← hn]
        exact ⟨hc.1, hc.2.2, by simp [hn, hc.2.1]⟩
  | some notifier =>
      rw [hn] at hs
      cases hs
      refine h.advance hq rfl rfl rfl hn.symm rfl rfl rfl (fun _ => trivial) ?_ ?_ hsettled
      · rw [hpc]
        exact False.elim
      · rw [← hn]
        exact ⟨hc.1, hc.2.1, hc.2.2, hn⟩

/-- The notifier is called. -/
theorem Inv.callNotifier {notifier : κ} {waiting : Nat} (h : s.Inv)
    (hpc : s.coroutine = .callNotifier notifier waiting)
    (hs : s.coroutineStep = some s') : s'.Inv := by
  have hc := h.coroutine
  simp only [CoroutineInv, hpc] at hc
  simp only [PromiseState.coroutineStep, hpc, Option.some.injEq] at hs
  obtain ⟨hq, hsettled⟩ := h.settled_of_answering (by rw [hpc]; trivial)
  simp only [Settled, hpc] at hsettled
  obtain ⟨hstored, hcalls, haccepted, hn⟩ := hc
  subst hs
  refine h.advance hq rfl rfl rfl rfl rfl rfl rfl (fun _ => trivial) ?_ ?_ hsettled
  · rw [hpc]
    exact False.elim
  · exact ⟨hstored, haccepted, by simp [hn, hcalls, hstored]⟩

/-- The resumer is read. -/
theorem Inv.readResumer {waiting : Nat} (h : s.Inv) (hpc : s.coroutine = .readResumer waiting)
    (hs : s.coroutineStep = some s') : s'.Inv := by
  have hc := h.coroutine
  have htouch := h.touch_of_coroutine (by rw [hpc]; exact id)
  simp only [CoroutineInv, hpc] at hc
  simp only [PromiseState.coroutineStep, hpc, htouch, Option.some.injEq] at hs
  obtain ⟨hq, hsettled⟩ := h.settled_of_answering (by rw [hpc]; trivial)
  simp only [Settled, hpc] at hsettled
  subst hs
  refine h.advance hq rfl rfl rfl rfl rfl rfl rfl (fun _ => trivial) ?_ ?_ hsettled
  · rw [hpc]
    exact False.elim
  · exact ⟨hc.1, hc.2.1, hc.2.2, rfl⟩

/-- The promise is completed once the request has been read. -/
theorem Inv.complete {resumer : Option κ} {waiting : Nat} (h : s.Inv)
    (hpc : s.coroutine = .complete resumer waiting)
    (hs : s.coroutineStep = some s') : s'.Inv := by
  have hc := h.coroutine
  have htouch := h.touch_of_coroutine (by rw [hpc]; exact id)
  simp only [CoroutineInv, hpc] at hc
  simp only [PromiseState.coroutineStep, hpc, htouch] at hs
  obtain ⟨hq, hsettled⟩ := h.settled_of_answering (by rw [hpc]; trivial)
  simp only [Settled, hpc] at hsettled
  obtain ⟨hstored, haccepted, hcalls, hresumer⟩ := hc
  rw [if_pos hsettled] at hs
  cases hr : resumer with
  | none =>
      rw [hr] at hs hresumer
      cases hs
      refine h.advance hq rfl rfl rfl rfl rfl rfl rfl (fun _ => trivial) (fun _ => trivial) ?_ rfl
      obtain ⟨ha, r, hreq, hw, hn, hres⟩ := haccepted
      refine ⟨hstored, Or.inr (Or.inr ⟨ha, r, hreq, ?_⟩)⟩
      rw [hcalls, hn, hw]
      exact (r.delivery_of_resumer_none (hres.symm.trans hresumer.symm)).symm
  | some resumer =>
      rw [hr] at hs hresumer
      cases hs
      refine h.advance hq rfl rfl rfl rfl rfl rfl rfl (fun _ => trivial) (fun _ => trivial) ?_ rfl
      exact ⟨hstored, haccepted, hcalls, hresumer.symm⟩

/-- The resumer is called. -/
theorem Inv.callResumer {resumer : κ} {waiting : Nat} (h : s.Inv)
    (hpc : s.coroutine = .callResumer resumer waiting)
    (hs : s.coroutineStep = some s') : s'.Inv := by
  have hc := h.coroutine
  simp only [CoroutineInv, hpc] at hc
  simp only [PromiseState.coroutineStep, hpc, Option.some.injEq] at hs
  obtain ⟨hq, hsettled⟩ := h.settled_of_answering (by rw [hpc]; trivial)
  simp only [Settled, hpc] at hsettled
  obtain ⟨hstored, ⟨ha, r, hreq, hw, hn, hres⟩, hcalls, hresumer⟩ := hc
  subst hs
  refine h.advance hq rfl rfl rfl rfl rfl rfl rfl (fun _ => trivial) (fun _ => trivial) ?_
    hsettled
  refine ⟨hstored, Or.inr (Or.inr ⟨ha, r, hreq, ?_⟩)⟩
  rw [hcalls, hn, hw, hstored]
  exact (r.delivery_of_resumer_some (hres.symm.trans hresumer)).symm

/-- The coroutine side of an abandoned promise destroys the frame. -/
theorem Inv.destroyFrame (h : s.Inv) (hpc : s.coroutine = .destroy)
    (hs : s.coroutineStep = some s') : s'.Inv := by
  have hc := h.coroutine
  have htouch := h.touch_of_coroutine (by rw [hpc]; exact id)
  simp only [CoroutineInv, hpc] at hc
  simp only [PromiseState.coroutineStep, hpc, htouch, Option.some.injEq] at hs
  have hcount := h.destroyCount_of_coroutine (by rw [hpc]; exact id)
  obtain ⟨hstored, hcalls, ho⟩ := hc
  subst hs
  refine h.advance_marked ho rfl rfl ⟨hstored, Or.inl ⟨ho, hcalls⟩⟩ (Or.inr (Or.inr ⟨rfl, ?_⟩))
  simp only [hcount]

/-- A step of the coroutine side keeps the invariant. -/
theorem Inv.coroutineStep (h : s.Inv) (hs : s.coroutineStep = some s') : s'.Inv := by
  cases hpc : s.coroutine with
  | body => exact h.storeResult hpc hs
  | finalSuspend => exact h.announce hpc hs
  | markCompleted => exact h.markCompleted hpc hs
  | readNotifier waiting => exact h.readNotifier hpc hs
  | callNotifier notifier waiting => exact h.callNotifier hpc hs
  | readResumer waiting => exact h.readResumer hpc hs
  | complete resumer waiting => exact h.complete hpc hs
  | callResumer resumer waiting => exact h.callResumer hpc hs
  | destroy => exact h.destroyFrame hpc hs
  | done =>
      simp only [PromiseState.coroutineStep, hpc] at hs
      cases hs
  | panicked =>
      simp only [PromiseState.coroutineStep, hpc] at hs
      cases hs

end CoroutineSide

section OwnerSide

variable {s' : PromiseState κ}

/-- An owner that has neither marked nor destroyed accesses an existing promise. -/
theorem Inv.touch_of_owner (h : s.Inv) (hm : s.owner ≠ .marked) (hd : s.owner ≠ .destroyed) :
    s.touch = s := touch_eq (h.waiting.kept hm hd)

/-- The coroutine side is not affected by a step of the owner within its call. -/
theorem CoroutineInv.congr (h : s.CoroutineInv) (hm : s.owner ≠ .marked)
    (hcoroutine : s'.coroutine = s.coroutine) (hstored : s'.resultStored = s.resultStored)
    (hcalls : s'.calls = s.calls) (hrequest : s'.request = s.request)
    (hanswer : s'.answer = s.answer) (hnotifier : s'.notifier = s.notifier)
    (hresumer : s'.resumer = s.resumer) : s'.CoroutineInv := by
  simp only [CoroutineInv, Accepted, hcoroutine, hstored, hcalls, hrequest, hanswer, hnotifier,
    hresumer] at h ⊢
  cases hs : s.coroutine <;> simp only [hs] at h ⊢ <;>
    first | exact h | exact absurd h.2.2 hm | skip
  exact ⟨h.1, Or.inr (h.2.resolve_left fun hcon => hm hcon.1)⟩

/-- A quiet owner that stays quiet and leaves `m_waiting` alone. -/
theorem Inv.proceed (h : s.Inv) (hq : s.owner.Quiet) (hd : s.owner ≠ .destroyed)
    (hq' : s'.owner.Quiet) (hd' : s'.owner ≠ .destroyed)
    (hcoroutine : s'.coroutine = s.coroutine) (hstored : s'.resultStored = s.resultStored)
    (hcalls : s'.calls = s.calls) (hrequest : s'.request = s.request)
    (hanswer : s'.answer = s.answer) (hnotifier : s'.notifier = s.notifier)
    (hresumer : s'.resumer = s.resumer) (hwaiting : s'.waiting = s.waiting)
    (hcount : s'.destroyCount = s.destroyCount) (hused : s'.usedAfterDestroy = s.usedAfterDestroy)
    (howner : s'.OwnerInv) : s'.Inv := by
  have hm := hq.ne_marked
  constructor
  · exact h.coroutine.congr hm hcoroutine hstored hcalls hrequest hanswer hnotifier hresumer
  · exact howner
  · constructor
    · intro _
      have hsettled := h.waiting.settled hq
      simpa only [Settled, Accepted, hcoroutine, hanswer, hwaiting, hrequest, hnotifier,
        hresumer] using hsettled
    · intro waiting hw
      rw [hw] at hq'
      exact hq'.elim
    · intro hw
      rw [hw] at hq'
      exact hq'.elim
    · intro hw
      rw [hw] at hq'
      exact hq'.elim
    · exact fun hw => absurd hw hd'
    · intro _ _
      rw [hcount, h.waiting.kept hm hd]
  · rw [hused, h.unused]

/-- What a quiet owner finds in `m_waiting`, and what it learns about the coroutine side. -/
theorem Inv.quiet_cases (h : s.Inv) (hq : s.owner.Quiet) :
    (¬ s.coroutine.Announced ∧ s.answer = none ∧ s.waiting = running) ∨
      (¬ s.coroutine.Announced ∧ s.Accepted s.waiting) ∨
      (s.coroutine.Announced ∧ ¬ s.coroutine.MarkedCompleted ∧ s.coroutine ≠ .destroy ∧
        s.waiting = completing) ∨
      (s.coroutine.MarkedCompleted ∧ s.waiting = completed) := by
  have hsettled := h.waiting.settled hq
  have hm := hq.ne_marked
  have hc := h.coroutine
  cases hpc : s.coroutine <;>
    simp_all [Settled, CoroutineInv, CoroutinePc.Announced, CoroutinePc.MarkedCompleted]

theorem Inv.waiting_ne_abandoned (h : s.Inv) (hq : s.owner.Quiet) : s.waiting ≠ abandoned := by
  rcases h.quiet_cases hq with ⟨-, -, hw⟩ | ⟨-, hw⟩ | ⟨-, -, -, hw⟩ | ⟨-, hw⟩
  · rw [hw]
    exact running_ne_abandoned
  · exact hw.waiting_ne.1
  · rw [hw]
    exact completing_ne_abandoned
  · rw [hw]
    exact completed_ne_abandoned

/-- Without an accepted request the completion passes through one mark only. -/
theorem Inv.markCompleted_of_unanswered (h : s.Inv) (ha : s.answer = none)
    (hannounced : s.coroutine.Announced) (hm : ¬ s.coroutine.MarkedCompleted)
    (hd : s.coroutine ≠ .destroy) : s.coroutine = .markCompleted := by
  have hc := h.coroutine
  cases hpc : s.coroutine <;>
    simp_all [CoroutineInv, Accepted, CoroutinePc.Announced, CoroutinePc.MarkedCompleted]

theorem Inv.done_of_unanswered (h : s.Inv) (ha : s.answer = none)
    (hm : s.coroutine.MarkedCompleted) : s.coroutine = .done := by
  have hc := h.coroutine
  cases hpc : s.coroutine <;>
    simp_all [CoroutineInv, Accepted, CoroutinePc.MarkedCompleted]

/-- Before the answer a request may be recorded and its callback registered. -/
theorem Inv.proceed_unanswered (h : s.Inv) (hq : s.owner.Quiet) (hd : s.owner ≠ .destroyed)
    (ha : s.answer = none) (hq' : s'.owner.Quiet) (hd' : s'.owner ≠ .destroyed)
    (hcoroutine : s'.coroutine = s.coroutine) (hstored : s'.resultStored = s.resultStored)
    (hcalls : s'.calls = s.calls) (hanswer : s'.answer = s.answer)
    (hwaiting : s'.waiting = s.waiting) (hcount : s'.destroyCount = s.destroyCount)
    (hused : s'.usedAfterDestroy = s.usedAfterDestroy) (howner : s'.OwnerInv) : s'.Inv := by
  have hm := hq.ne_marked
  have hc := h.coroutine
  have hsettled := h.waiting.settled hq
  constructor
  · simp only [CoroutineInv, Accepted, hcoroutine, hstored, hcalls, hanswer] at hc ⊢
    cases hs : s.coroutine <;> simp_all
  · exact howner
  · constructor
    · intro _
      simp only [Settled, Accepted, hcoroutine, hanswer, hwaiting] at hsettled ⊢
      cases hs : s.coroutine <;> simp_all
    · intro waiting hw
      rw [hw] at hq'
      exact hq'.elim
    · intro hw
      rw [hw] at hq'
      exact hq'.elim
    · intro hw
      rw [hw] at hq'
      exact hq'.elim
    · exact fun hw => absurd hw hd'
    · intro _ _
      rw [hcount, h.waiting.kept hm hd]
  · rw [hused, h.unused]

/-- Polling keeps the invariant. -/
theorem Inv.poll (h : s.Inv) (ho : s.owner = .free) : s.clientAwaitReady.Inv := by
  have hq : s.owner.Quiet := by
    rw [ho]
    trivial
  have hd : s.owner ≠ .destroyed := by simp [ho]
  have howner := h.owner
  rw [clientAwaitReady, if_neg (h.waiting_ne_abandoned hq), h.touch_of_owner (by simp [ho]) hd]
  exact h.proceed hq hd hq hd rfl rfl rfl rfl rfl rfl rfl rfl rfl rfl howner

/-- The start of a registration keeps the invariant. -/
theorem Inv.request (h : s.Inv) (ho : s.owner = .free) (hr : s.request = none) (r : Request κ) :
    ({ s with request := some r, owner := .register } : PromiseState κ).Inv := by
  have hq : s.owner.Quiet := by
    rw [ho]
    trivial
  have howner := h.owner
  simp only [OwnerInv, ho] at howner
  rcases howner with ⟨-, ha, hn, hres⟩ | ⟨hcon, -⟩
  · refine h.proceed_unanswered hq (by simp [ho]) ha trivial (by simp) rfl rfl rfl rfl rfl rfl rfl ?_
    exact ⟨ha, hn, hres, by simp⟩
  · exact absurd hr hcon

/-- The start of `abandon` keeps the invariant. -/
theorem Inv.abandon (h : s.Inv) (ho : s.owner = .free) :
    ({ s with owner := .abandonRunning } : PromiseState κ).Inv := by
  have hq : s.owner.Quiet := by
    rw [ho]
    trivial
  have howner := h.owner
  simp only [OwnerInv, ho] at howner
  exact h.proceed hq (by simp [ho]) trivial (by simp) rfl rfl rfl rfl rfl rfl rfl rfl rfl rfl howner

/-- An owner that learns the outcome of its registration. -/
theorem Inv.answered (h : s.Inv) (hm : s.owner ≠ .marked) (hd : s.owner ≠ .destroyed)
    {answer : Option Bool} (hanswer : answer ≠ none) (hrequest : s.request ≠ none)
    {waiting : Nat}
    (hcoroutine : ({ s with waiting := waiting, owner := .free, answer := answer } :
      PromiseState κ).CoroutineInv)
    (hsettled : ({ s with waiting := waiting, owner := .free, answer := answer } :
      PromiseState κ).Settled) :
    ({ s with waiting := waiting, owner := .free, answer := answer } : PromiseState κ).Inv := by
  constructor
  · exact hcoroutine
  · exact Or.inr ⟨hrequest, hanswer⟩
  · constructor
    · exact fun _ => hsettled
    · exact fun _ hw => by cases hw
    · exact fun hw => by cases hw
    · exact fun hw => by cases hw
    · exact fun hw => by cases hw
    · exact fun _ _ => h.waiting.kept hm hd
  · exact h.unused

/-- An accepted awaiter belongs to a task that has not announced its completion. -/
theorem Inv.accept (h : s.Inv) (hm : s.owner ≠ .marked) (hd : s.owner ≠ .destroyed)
    (ha : ¬ s.coroutine.Announced) {r : Request κ} (hr : s.request = some r)
    (hn : s.notifier = r.notifier) (hres : s.resumer = r.resumer) :
    ({ s with waiting := r.waiting.val, owner := .free, answer := some true } :
      PromiseState κ).Inv := by
  have hc := h.coroutine
  have haccepted : ({ s with waiting := r.waiting.val, owner := .free, answer := some true } :
      PromiseState κ).Accepted r.waiting.val := ⟨rfl, r, hr, rfl, hn, hres⟩
  have hpc := CoroutinePc.eq_of_not_announced ha
  rcases hpc with hpc | hpc
  · simp only [CoroutineInv, hpc] at hc
    apply h.answered hm hd (by simp) (by simp [hr])
    · simp only [CoroutineInv, hpc]
      exact ⟨hc.1, hc.2.1, by simp⟩
    · simp only [Settled, hpc]
      exact Or.inr haccepted
  · simp only [CoroutineInv, hpc] at hc
    apply h.answered hm hd (by simp) (by simp [hr])
    · simp only [CoroutineInv, hpc]
      exact ⟨hc.1, hc.2.1, by simp⟩
    · simp only [Settled, hpc]
      exact Or.inr haccepted

/-- The late registration leaves its address in `m_waiting` until it repairs it. -/
theorem Inv.late (h : s.Inv) (hq : s.owner.Quiet) (hd : s.owner ≠ .destroyed)
    (ha : s.answer = none) {r : Request κ} (hr : s.request = some r)
    (hc : s.coroutine = .markCompleted) :
    ({ s with waiting := r.waiting.val, owner := .restoreCompleting r.waiting.val } :
      PromiseState κ).Inv := by
  have hm := hq.ne_marked
  constructor
  · exact h.coroutine.congr hm rfl rfl rfl rfl rfl rfl rfl
  · exact ⟨ha, r, hr, rfl⟩
  · constructor
    · exact fun hcon => hcon.elim
    · rintro _ hw
      cases hw
      exact Or.inl ⟨hc, rfl⟩
    · exact fun hw => by cases hw
    · exact fun hw => by cases hw
    · exact fun hw => by cases hw
    · exact fun _ _ => h.waiting.kept hm hd
  · exact h.unused

theorem Inv.tooLate (h : s.Inv) (hq : s.owner.Quiet) (hd : s.owner ≠ .destroyed)
    (ha : s.answer = none) {r : Request κ} (hr : s.request = some r) (hc : s.coroutine = .done) :
    ({ s with waiting := r.waiting.val, owner := .restoreCompleted } : PromiseState κ).Inv := by
  have hm := hq.ne_marked
  constructor
  · exact h.coroutine.congr hm rfl rfl rfl rfl rfl rfl rfl
  · exact ⟨ha, by simp [hr]⟩
  · constructor
    · exact fun hcon => hcon.elim
    · exact fun _ hw => by cases hw
    · exact fun _ => hc
    · exact fun hw => by cases hw
    · exact fun hw => by cases hw
    · exact fun _ _ => h.waiting.kept hm hd
  · exact h.unused

/-- The owner takes the promise away from a task that has not announced its completion. -/
theorem Inv.mark (h : s.Inv) (hq : s.owner.Quiet) (hd : s.owner ≠ .destroyed)
    (ha : ¬ s.coroutine.Announced) :
    ({ s with waiting := abandoned, owner := .marked } : PromiseState κ).Inv := by
  have hm := hq.ne_marked
  have hpc := CoroutinePc.eq_of_not_announced ha
  have hc := h.coroutine
  constructor
  · rcases hpc with hpc | hpc <;> simpa only [CoroutineInv, hpc] using hc
  · trivial
  · constructor
    · exact fun hcon => hcon.elim
    · exact fun _ hw => by cases hw
    · exact fun hw => by cases hw
    · exact fun _ => Or.inl ⟨hpc, rfl, h.waiting.kept hm hd⟩
    · exact fun hw => by cases hw
    · exact fun hne => absurd rfl hne
  · exact h.unused

/-- `abandon` learns that the completion has been announced or is over. -/
theorem Inv.abandonLate (h : s.Inv) (hq : s.owner.Quiet) (hd : s.owner ≠ .destroyed)
    {owner : OwnerPc} (ho : owner = .checkNotifier ∧ s.coroutine.Announced ∨
      owner = .destroy ∧ s.coroutine.MarkedCompleted) :
    ({ s with owner := owner } : PromiseState κ).Inv := by
  rcases ho with ⟨rfl, ha⟩ | ⟨rfl, hm⟩
  · exact h.proceed hq hd trivial (by simp) rfl rfl rfl rfl rfl rfl rfl rfl rfl rfl ha
  · exact h.proceed hq hd trivial (by simp) rfl rfl rfl rfl rfl rfl rfl rfl rfl rfl hm

/-- The owner destroys the frame of a completed task. -/
theorem Inv.destroy (h : s.Inv) (ho : s.owner = .destroy) :
    ({ s with destroyCount := s.destroyCount + 1, owner := .destroyed } : PromiseState κ).Inv := by
  have hm : s.owner ≠ .marked := by simp [ho]
  have hd : s.owner ≠ .destroyed := by simp [ho]
  have howner := h.owner
  simp only [OwnerInv, ho] at howner
  have hsettled := h.waiting.settled (by rw [ho]; trivial)
  constructor
  · exact h.coroutine.congr hm rfl rfl rfl rfl rfl rfl rfl
  · exact howner
  · constructor
    · exact fun _ => hsettled
    · exact fun _ hw => by cases hw
    · exact fun hw => by cases hw
    · exact fun hw => by cases hw
    · exact fun _ => by rw [h.waiting.kept hm hd]
    · exact fun _ hne => absurd rfl hne
  · exact h.unused

/-- The callback is stored: the request stands beside a free promise. -/
theorem Inv.registers (h : s.Inv) (ho : s.owner = .register)
    (hs : s.ownerStep = some s') : s'.Inv := by
  have howner := h.owner
  have hq : s.owner.Quiet := by
    rw [ho]
    trivial
  have hd : s.owner ≠ .destroyed := by simp [ho]
  simp only [OwnerInv, ho] at howner
  simp only [PromiseState.ownerStep, ho] at hs
  obtain ⟨ha, hn, hres, -⟩ := howner
  cases hreq : s.request with
  | none => simp [hreq] at hs
  | some r =>
      rw [hreq, Option.map_some, Option.some.injEq] at hs
      cases r with
      | suspend waiting resumer =>
          rw [registerCallback, if_pos ⟨by simp [hres], by simp [hn]⟩,
            h.touch_of_owner (by simp [ho]) (by simp [ho])] at hs
          subst hs
          exact h.proceed_unanswered hq hd ha trivial (by simp) rfl rfl rfl rfl rfl rfl rfl
            ⟨ha, _, hreq, rfl, hn, rfl⟩
      | notify waiting notifier =>
          rw [registerCallback, if_pos ⟨by simp [hres], by simp [hn]⟩,
            h.touch_of_owner (by simp [ho]) (by simp [ho])] at hs
          subst hs
          exact h.proceed_unanswered hq hd ha trivial (by simp) rfl rfl rfl rfl rfl rfl rfl
            ⟨ha, _, hreq, rfl, rfl, hres⟩

/-- The word of the request goes to `m_waiting`, unless the promise has been announced. -/
theorem Inv.exchanges {waiting : Nat} (h : s.Inv) (ho : s.owner = .exchange waiting)
    (hs : s.ownerStep = some s') : s'.Inv := by
  have howner := h.owner
  have hq : s.owner.Quiet := by
    rw [ho]
    trivial
  have hd : s.owner ≠ .destroyed := by simp [ho]
  simp only [OwnerInv, ho] at howner
  obtain ⟨ha, r, hr, rfl, hn, hres⟩ := howner
  simp only [PromiseState.ownerStep, ho, h.touch_of_owner (by simp [ho]) (by simp [ho])] at hs
  rw [if_neg (not_not.mpr r.waiting.above)] at hs
  rcases h.quiet_cases hq with ⟨hc, -, hw⟩ | ⟨-, hw⟩ | ⟨hc, hmc, hdc, hw⟩ | ⟨hmc, hw⟩
  · rw [if_pos hw] at hs
    cases hs
    exact h.accept (by simp [ho]) hd hc hr hn hres
  · rw [hw.1] at ha
    cases ha
  · rw [if_neg (by rw [hw]; exact running_ne_completing.symm), if_pos hw] at hs
    cases hs
    exact h.late hq hd ha hr (h.markCompleted_of_unanswered ha hc hmc hdc)
  · rw [if_neg (by rw [hw]; exact running_ne_completed.symm),
      if_neg (by rw [hw]; exact completing_ne_completed.symm), if_pos hw] at hs
    cases hs
    exact h.tooLate hq hd ha hr (h.done_of_unanswered ha hmc)

/-- The mark that the exchange has overwritten is put back. -/
theorem Inv.restoresCompleting {waiting : Nat} (h : s.Inv)
    (ho : s.owner = .restoreCompleting waiting)
    (hs : s.ownerStep = some s') : s'.Inv := by
  have howner := h.owner
  simp only [OwnerInv, ho] at howner
  obtain ⟨ha, r, hr, rfl⟩ := howner
  have hc := h.coroutine
  simp only [PromiseState.ownerStep, ho, h.touch_of_owner (by simp [ho]) (by simp [ho])] at hs
  rcases h.waiting.restoring _ ho with ⟨hpc, hw⟩ | ⟨hpc, hw⟩
  · rw [if_pos hw] at hs
    cases hs
    simp only [CoroutineInv, hpc] at hc
    apply h.answered (by simp [ho]) (by simp [ho]) (by simp) (by simp [hr])
    · simp only [CoroutineInv, hpc]
      exact ⟨hc.1, hc.2.1, by simp⟩
    · simp only [Settled, hpc]
  · rw [if_neg (by rw [hw]; exact r.waiting.ne_completed.symm)] at hs
    cases hs
    simp only [CoroutineInv, hpc] at hc
    apply h.answered (by simp [ho]) (by simp [ho]) (by simp) (by simp [hr])
    · simp only [CoroutineInv, hpc]
      exact ⟨hc.1, Or.inr (Or.inl ⟨by simp, by simpa [ha, ho] using hc.2⟩)⟩
    · simpa only [Settled, hpc] using hw

/-- A completed promise is put back as it was. -/
theorem Inv.restoresCompleted (h : s.Inv) (ho : s.owner = .restoreCompleted)
    (hs : s.ownerStep = some s') : s'.Inv := by
  have howner := h.owner
  simp only [OwnerInv, ho] at howner
  obtain ⟨ha, hr⟩ := howner
  have hc := h.coroutine
  have hpc := h.waiting.restored ho
  simp only [PromiseState.ownerStep, ho, h.touch_of_owner (by simp [ho]) (by simp [ho]),
    Option.some.injEq] at hs
  subst hs
  simp only [CoroutineInv, hpc] at hc
  apply h.answered (by simp [ho]) (by simp [ho]) (by simp) hr
  · simp only [CoroutineInv, hpc]
    exact ⟨hc.1, Or.inr (Or.inl ⟨by simp, by simpa [ha, ho] using hc.2⟩)⟩
  · simp only [Settled, hpc]

/-- A promise without a request is marked abandoned, unless it has been announced. -/
theorem Inv.abandonsRunning (h : s.Inv) (ho : s.owner = .abandonRunning)
    (hs : s.ownerStep = some s') : s'.Inv := by
  have howner := h.owner
  have hq : s.owner.Quiet := by
    rw [ho]
    trivial
  have hd : s.owner ≠ .destroyed := by simp [ho]
  simp only [OwnerInv, ho] at howner
  simp only [PromiseState.ownerStep, ho, h.touch_of_owner (by simp [ho]) (by simp [ho])] at hs
  rcases h.quiet_cases hq with ⟨hc, -, hw⟩ | ⟨hc, hw⟩ | ⟨hc, -, -, hw⟩ | ⟨hmc, hw⟩
  · rw [if_pos hw] at hs
    cases hs
    exact h.mark hq hd hc
  · obtain ⟨h₁, h₂, h₃, h₄⟩ := hw.waiting_ne
    rw [if_neg h₂, if_neg h₄, if_neg h₃, if_neg h₁] at hs
    cases hs
    exact h.proceed hq hd trivial (by simp) rfl rfl rfl rfl rfl rfl rfl rfl rfl rfl hw
  · rw [if_neg (by rw [hw]; exact running_ne_completing.symm),
      if_neg (by rw [hw]; exact completing_ne_completed), if_pos hw] at hs
    cases hs
    exact h.abandonLate hq hd (Or.inl ⟨rfl, hc⟩)
  · rw [if_neg (by rw [hw]; exact running_ne_completed.symm), if_pos hw] at hs
    cases hs
    exact h.abandonLate hq hd (Or.inr ⟨rfl, hmc⟩)

/-- A promise with a request is marked abandoned, unless it has been announced. -/
theorem Inv.abandonsAwaiter {waiting : Nat} (h : s.Inv) (ho : s.owner = .abandonAwaiter waiting)
    (hs : s.ownerStep = some s') : s'.Inv := by
  have howner := h.owner
  have hq : s.owner.Quiet := by
    rw [ho]
    trivial
  have hd : s.owner ≠ .destroyed := by simp [ho]
  simp only [OwnerInv, ho] at howner
  obtain ⟨h₁, h₂, h₃, h₄⟩ := howner.waiting_ne
  simp only [PromiseState.ownerStep, ho, h.touch_of_owner (by simp [ho]) (by simp [ho])] at hs
  rcases h.quiet_cases hq with ⟨-, ha, -⟩ | ⟨hc, hw⟩ | ⟨hc, -, -, hw⟩ | ⟨hmc, hw⟩
  · rw [howner.1] at ha
    cases ha
  · rw [if_pos (hw.unique howner)] at hs
    cases hs
    exact h.mark hq hd hc
  · rw [if_neg (by rw [hw]; exact h₃.symm), if_neg (by rw [hw]; exact completing_ne_completed),
      if_pos hw] at hs
    cases hs
    exact h.abandonLate hq hd (Or.inl ⟨rfl, hc⟩)
  · rw [if_neg (by rw [hw]; exact h₄.symm), if_pos hw] at hs
    cases hs
    exact h.abandonLate hq hd (Or.inr ⟨rfl, hmc⟩)

/-- The owner of an announced promise waits if there is a notifier. -/
theorem Inv.checksNotifier (h : s.Inv) (ho : s.owner = .checkNotifier)
    (hs : s.ownerStep = some s') : s'.Inv := by
  have howner := h.owner
  have hq : s.owner.Quiet := by
    rw [ho]
    trivial
  simp only [OwnerInv, ho] at howner
  simp only [PromiseState.ownerStep, ho, h.touch_of_owner (by simp [ho]) (by simp [ho])] at hs
  split at hs
  · cases hs
    exact h.proceed hq (by simp [ho]) trivial (by simp) rfl rfl rfl rfl rfl rfl rfl rfl rfl rfl
      howner
  · cases hs
    exact h.proceed hq (by simp [ho]) trivial (by simp) rfl rfl rfl rfl rfl rfl rfl rfl rfl rfl
      howner

/-- The owner waits until the promise is marked completed. -/
theorem Inv.awaitsCompletion (h : s.Inv) (ho : s.owner = .awaitCompletion)
    (hs : s.ownerStep = some s') : s'.Inv := by
  have howner := h.owner
  have hq : s.owner.Quiet := by
    rw [ho]
    trivial
  simp only [OwnerInv, ho] at howner
  simp only [PromiseState.ownerStep, ho, h.touch_of_owner (by simp [ho]) (by simp [ho])] at hs
  split at hs
  · cases hs
    exact h
  · cases hs
    exact h.proceed hq (by simp [ho]) trivial (by simp) rfl rfl rfl rfl rfl rfl rfl rfl rfl rfl
      howner

/-- A step of the owner side keeps the invariant. -/
theorem Inv.ownerStep (h : s.Inv) (hs : s.ownerStep = some s') : s'.Inv := by
  cases ho : s.owner with
  | free => simp [PromiseState.ownerStep, ho] at hs
  | register => exact h.registers ho hs
  | exchange waiting => exact h.exchanges ho hs
  | restoreCompleting waiting => exact h.restoresCompleting ho hs
  | restoreCompleted => exact h.restoresCompleted ho hs
  | abandonRunning => exact h.abandonsRunning ho hs
  | abandonAwaiter waiting => exact h.abandonsAwaiter ho hs
  | checkNotifier => exact h.checksNotifier ho hs
  | awaitCompletion => exact h.awaitsCompletion ho hs
  | destroy =>
      simp only [PromiseState.ownerStep, ho, h.touch_of_owner (by simp [ho]) (by simp [ho]),
        Option.some.injEq] at hs
      subst hs
      exact h.destroy ho
  | marked => simp [PromiseState.ownerStep, ho] at hs
  | destroyed => simp [PromiseState.ownerStep, ho] at hs
  | left => simp [PromiseState.ownerStep, ho] at hs
  | panicked => simp [PromiseState.ownerStep, ho] at hs

/-- Every step keeps the invariant. -/
theorem Inv.next (h : s.Inv) (a : PromiseAction κ) (hs : s.next a = some s') : s'.Inv := by
  cases a with
  | coroutine => exact h.coroutineStep hs
  | poll =>
      simp only [PromiseState.next] at hs
      split at hs
      · next ho =>
          cases hs
          exact h.poll ho
      · cases hs
  | request r =>
      simp only [PromiseState.next] at hs
      split at hs
      · next ho hr =>
          cases hs
          exact h.request ho hr r
      · cases hs
  | abandon =>
      simp only [PromiseState.next] at hs
      split at hs
      · next ho =>
          cases hs
          exact h.abandon ho
      · cases hs
  | owner => exact h.ownerStep hs

end OwnerSide

end PromiseState

/-- The invariant holds in every reachable state. -/
theorem PromiseState.Inv.of_reachable {s : PromiseState κ} (h : (promiseSystem κ).Reachable s) :
    s.Inv := by
  apply h.invariant
  · rintro s rfl
    exact PromiseState.Inv.initial
  · exact fun s a s' hs => hs.next a

end RPiKernel.Async
