import RPiKernel.Timer.Registered
import RPiKernel.Timer.Burst

/-!
# Delayed coroutines

`DelayAwaitable` suspends a coroutine and schedules the spark that resumes it,
but it does not look at the handle that the scheduling returns. With a full
table the coroutine is suspended with nothing registered to resume it.

## Implementation notes

The sparks of a core resume coroutines or do other work. A coroutine that is
suspended does not run, so it cannot delay again. The readings of the counter in
`await_ready`, in `await_suspend` and in the set-up of the timer are arbitrary.
-/

namespace RPiKernel.Async

open Interleaving Machine Containers Transition Timer

/-- What a spark does. -/
inductive Work (κ : Type) where
  | resume (coroutine : Nat)
  | other (work : κ)

namespace Work

variable {κ : Type}

def resumes (coroutine : Nat) : Work κ → Bool
  | resume c => c == coroutine
  | other _ => false

end Work

variable {κ : Type}

namespace DelayAwaitable

def awaitReady (targetTime reading : BitVec 64) : Bool := timeLe targetTime reading

/-- `await_suspend`, with its own reading of the counter and that of the set-up. -/
def awaitSuspend (core : Core (Work κ)) (targetTime reading now : BitVec 64) (coroutine : Nat) :
    Except Fault (Bool × Core (Work κ)) :=
  if timeLe targetTime reading then
    .ok (false, core)
  else do
    let (_, core) ← core.scheduleSparkAtTime now targetTime (some (.resume coroutine))
    return (true, core)

end DelayAwaitable

/-- The timer slots and queued sparks that will resume a coroutine. -/
def registrations (core : Core (Work κ)) (coroutine : Nat) : Nat :=
  core.registered.countP fun work => work.resumes coroutine

/-- A core and the coroutines that have been suspended by a delay. -/
structure DelayState (κ : Type) where
  core : Core (Work κ) := {}
  suspended : List Nat := []

/-- An operation of a core on which coroutines delay. -/
inductive DelayAction (κ : Type) where
  | delay (coroutine : Nat) (targetTime readyReading suspendReading now : BitVec 64)
  | schedule (now time : BitVec 64) (work : κ)
  | cancel (now : BitVec 64) (handle : Nat)
  | interrupt (now : BitVec 64)
  | addSpark (work : κ)
  | runNext

namespace DelayState

/-- A coroutine goes on when its spark is run. -/
def run (s : DelayState κ) (spark : Option (Work κ)) (core : Core (Work κ)) : DelayState κ :=
  match spark with
  | none => { s with core }
  | some work => { core, suspended := s.suspended.filter fun coroutine => !work.resumes coroutine }

def next (s : DelayState κ) : DelayAction κ → Option (DelayState κ)
  | .delay coroutine targetTime readyReading suspendReading now =>
      if coroutine ∈ s.suspended then
        none
      else if DelayAwaitable.awaitReady targetTime readyReading then
        some s
      else
        match DelayAwaitable.awaitSuspend s.core targetTime suspendReading now coroutine with
        | .ok (true, core) => some { core, suspended := coroutine :: s.suspended }
        | .ok (false, core) => some { s with core }
        | .error _ => none
  | .schedule now time work =>
      match s.core.scheduleSparkAtTime now time (some (.other work)) with
      | .ok (_, core) => some { s with core }
      | .error _ => none
  | .cancel now handle =>
      match s.core.cancelSpark now handle with
      | .ok (_, core) => some { s with core }
      | .error _ => none
  | .interrupt now =>
      match s.core.handleArmVirtualTimerInterrupt now with
      | .ok core => some { s with core }
      | .error _ => none
  | .addSpark work =>
      match s.core.addSpark (.other work) with
      | .ok core => some { s with core }
      | .error _ => none
  | .runNext =>
      match s.core.getNextScheduledSpark with
      | .ok (spark, core) => some (s.run spark core)
      | .error _ => none

end DelayState

/-- The runs of a core on which coroutines delay. -/
def delaySystem (κ : Type) : System (DelayState κ) (DelayAction κ) where
  Initial s := s = {}
  next := DelayState.next

/-- A coroutine that is suspended by `await_suspend` is registered exactly once, and one
that is not suspended is not registered. -/
def DelayRegisters (s : DelayState κ) : DelayAction κ → Prop
  | .delay coroutine targetTime readyReading suspendReading now =>
      DelayAwaitable.awaitReady targetTime readyReading = false → ∀ suspend core',
        DelayAwaitable.awaitSuspend s.core targetTime suspendReading now coroutine =
          .ok (suspend, core') →
        registrations core' coroutine = if suspend then 1 else 0
  | _ => True

/-- A delay finds its time reached or a place in the table. -/
def DelayHasRoom (s : DelayState κ) : DelayAction κ → Prop
  | .delay _ targetTime readyReading suspendReading _ =>
      timeLe targetTime readyReading = true ∨ timeLe targetTime suspendReading = true ∨
        ∃ j < maxScheduledTimers, (s.core.scheduledTimers j).spark = none
  | _ => True

/-- A cancellation does not take the spark of a coroutine away. -/
def CancelsOtherWork (s : DelayState κ) : DelayAction κ → Prop
  | .cancel _ handle =>
      ∀ coroutine, (s.core.scheduledTimers handle).spark ≠ some (.resume coroutine)
  | _ => True

/-- The queue of the core is a queue; a coroutine is registered at most once, and only
while it is suspended. -/
structure DelaySound (s : DelayState κ) : Prop where
  holds : ∃ q, s.core.pendingSparksFifo.Holds maxSparks q
  registrations_le : ∀ coroutine, registrations s.core coroutine ≤ 1
  registrations_eq_zero : ∀ coroutine, coroutine ∉ s.suspended → registrations s.core coroutine = 0

section Registrations

variable {core core' : Core (Work κ)} {q : List (Work κ)} {coroutine : Nat}

/-- A further spark counts for the coroutine that it resumes. -/
theorem registrations_cons {work : Work κ} (h : core'.registered = work ::ₘ core.registered)
    (coroutine : Nat) :
    registrations core' coroutine =
      registrations core coroutine + if work.resumes coroutine then 1 else 0 := by
  rw [registrations, h, Multiset.countP_cons, registrations]

theorem registrations_congr (h : core'.registered = core.registered) :
    registrations core' coroutine = registrations core coroutine := by
  rw [registrations, h, registrations]

/-- The suspension is refused once the time has been reached, and otherwise the coroutine is
registered if and only if there is an empty place. -/
theorem awaitSuspend_ok {targetTime reading now : BitVec 64} {suspend : Bool}
    (h : core.pendingSparksFifo.Holds maxSparks q)
    (hok : DelayAwaitable.awaitSuspend core targetTime reading now coroutine =
      .ok (suspend, core')) :
    (suspend = false ∧ core' = core ∧ timeLe targetTime reading = true) ∨
    (suspend = true ∧ timeLe targetTime reading = false ∧
      (∃ q', core'.pendingSparksFifo.Holds maxSparks q') ∧
      ((core.findEmptyFrom maxScheduledTimers 0 = none ∧ core'.registered = core.registered) ∨
        (core.findEmptyFrom maxScheduledTimers 0 ≠ none ∧
          core'.registered = Work.resume coroutine ::ₘ core.registered))) := by
  rw [DelayAwaitable.awaitSuspend] at hok
  cases hle : timeLe targetTime reading with
  | true =>
      rw [hle, if_pos rfl] at hok
      cases hok
      exact Or.inl ⟨rfl, rfl, rfl⟩
  | false =>
      rw [hle, if_neg Bool.false_ne_true] at hok
      cases hschedule : core.scheduleSparkAtTime now targetTime (some (.resume coroutine)) with
      | error fault =>
          rw [hschedule] at hok
          cases hok
      | ok result =>
          obtain ⟨handle, core₁⟩ := result
          rw [hschedule] at hok
          cases hok
          obtain ⟨hqueue, hcases⟩ := Core.scheduleSparkAtTime_registered h hschedule
          exact Or.inr ⟨rfl, rfl, hqueue, hcases⟩

/-- The search fails exactly when every place is occupied. -/
theorem findEmptyFrom_ne_none_iff : core.findEmptyFrom maxScheduledTimers 0 ≠ none ↔
    ∃ j < maxScheduledTimers, (core.scheduledTimers j).spark = none := by
  constructor
  · intro hne
    obtain ⟨handle, hfind⟩ := Option.ne_none_iff_exists'.mp hne
    obtain ⟨hlt, hempty⟩ := Core.findEmptyFrom_some hfind
    exact ⟨handle, hlt, hempty⟩
  · rintro ⟨j, hj, hempty⟩ hnone
    exact Core.findEmptyFrom_none hnone j hj hempty

end Registrations

namespace DelayState

variable {s s' : DelayState κ}

/-- What an operation does to the registered sparks and the suspended coroutines. -/
inductive DelayStep (s s' : DelayState κ) : DelayAction κ → Prop where
  | unchanged {a : DelayAction κ} (hregistered : s'.core.registered = s.core.registered)
      (hsuspended : s'.suspended = s.suspended)
      (ha : ∀ coroutine targetTime readyReading suspendReading now,
        a = .delay coroutine targetTime readyReading suspendReading now →
        timeLe targetTime readyReading = true ∨ timeLe targetTime suspendReading = true) :
      DelayStep s s' a
  | registers {coroutine : Nat} {targetTime readyReading suspendReading now : BitVec 64}
      (hnot : coroutine ∉ s.suspended)
      (hroom : ∃ j < maxScheduledTimers, (s.core.scheduledTimers j).spark = none)
      (hregistered : s'.core.registered = Work.resume coroutine ::ₘ s.core.registered)
      (hsuspended : s'.suspended = coroutine :: s.suspended) :
      DelayStep s s' (.delay coroutine targetTime readyReading suspendReading now)
  | abandons {coroutine : Nat} {targetTime readyReading suspendReading now : BitVec 64}
      (hnot : coroutine ∉ s.suspended) (hready : timeLe targetTime readyReading = false)
      (hsuspend : timeLe targetTime suspendReading = false)
      (hfull : ¬ ∃ j < maxScheduledTimers, (s.core.scheduledTimers j).spark = none)
      (hregistered : s'.core.registered = s.core.registered)
      (hsuspended : s'.suspended = coroutine :: s.suspended) :
      DelayStep s s' (.delay coroutine targetTime readyReading suspendReading now)
  | otherWork {a : DelayAction κ} (work : κ)
      (hregistered : s'.core.registered = Work.other work ::ₘ s.core.registered)
      (hsuspended : s'.suspended = s.suspended)
      (ha : ∀ coroutine targetTime readyReading suspendReading now,
        a ≠ .delay coroutine targetTime readyReading suspendReading now) : DelayStep s s' a
  | cancels {now : BitVec 64} {handle : Nat} (work : Work κ)
      (hspark : (s.core.scheduledTimers handle).spark = some work)
      (hregistered : work ::ₘ s'.core.registered = s.core.registered)
      (hsuspended : s'.suspended = s.suspended) : DelayStep s s' (.cancel now handle)
  | runs (work : Work κ) (hregistered : work ::ₘ s'.core.registered = s.core.registered)
      (hsuspended : s'.suspended = s.suspended.filter fun coroutine => !work.resumes coroutine) :
      DelayStep s s' .runNext

theorem next_step {q : List (Work κ)} (hq : s.core.pendingSparksFifo.Holds maxSparks q)
    (a : DelayAction κ) (h : s.next a = some s') :
    (∃ q', s'.core.pendingSparksFifo.Holds maxSparks q') ∧ DelayStep s s' a := by
  cases a with
  | delay coroutine targetTime readyReading suspendReading now =>
      rw [next] at h
      split at h
      · cases h
      · next hnot =>
        split at h
        · next hready =>
          cases h
          refine ⟨⟨q, hq⟩, .unchanged rfl rfl ?_⟩
          intro _ _ _ _ _ heq
          cases heq
          exact Or.inl hready
        · next hready =>
          have hready' := Bool.eq_false_iff.mpr hready
          split at h
          · next core hok =>
            cases h
            rcases awaitSuspend_ok hq hok with ⟨hfalse, -, -⟩ |
              ⟨-, hsuspend, hqueue, ⟨hfull, hsame⟩ | ⟨hroom, hmore⟩⟩
            · cases hfalse
            · refine ⟨hqueue, .abandons hnot hready' hsuspend ?_ hsame rfl⟩
              rw [← findEmptyFrom_ne_none_iff, not_not]
              exact hfull
            · exact ⟨hqueue, .registers hnot (findEmptyFrom_ne_none_iff.mp hroom) hmore rfl⟩
          · next core hok =>
            cases h
            rcases awaitSuspend_ok hq hok with ⟨-, rfl, hreached⟩ | ⟨htrue, -⟩
            · refine ⟨⟨q, hq⟩, .unchanged rfl rfl ?_⟩
              intro _ _ _ _ _ heq
              cases heq
              exact Or.inr hreached
            · cases htrue
          · cases h
  | schedule now time work =>
      rw [next] at h
      split at h
      · next handle core hok =>
        cases h
        obtain ⟨hqueue, ⟨-, hsame⟩ | ⟨-, hmore⟩⟩ := Core.scheduleSparkAtTime_registered hq hok
        · exact ⟨hqueue, .unchanged hsame rfl fun _ _ _ _ _ heq => nomatch heq⟩
        · exact ⟨hqueue, .otherWork work hmore rfl fun _ _ _ _ _ heq => nomatch heq⟩
      · cases h
  | cancel now handle =>
      rw [next] at h
      split at h
      · next found core hok =>
        cases h
        obtain ⟨hqueue, hsame | ⟨work, hspark, hless⟩⟩ := Core.cancelSpark_registered hq hok
        · exact ⟨hqueue, .unchanged hsame rfl fun _ _ _ _ _ heq => nomatch heq⟩
        · exact ⟨hqueue, .cancels work hspark hless rfl⟩
      · cases h
  | interrupt now =>
      rw [next] at h
      split at h
      · next core hok =>
        cases h
        obtain ⟨hqueue, hsame⟩ := Core.setupTimerForNext_registered hq hok
        exact ⟨hqueue, .unchanged hsame rfl fun _ _ _ _ _ heq => nomatch heq⟩
      · cases h
  | addSpark work =>
      rw [next] at h
      split at h
      · next core hok =>
        cases h
        obtain ⟨hqueue, hmore⟩ := Core.addSpark_registered hq hok
        exact ⟨hqueue, .otherWork work hmore rfl fun _ _ _ _ _ heq => nomatch heq⟩
      · cases h
  | runNext =>
      rw [next] at h
      split at h
      · next spark core hok =>
        cases h
        obtain ⟨hqueue, hless⟩ := Core.getNextScheduledSpark_registered hq hok
        cases spark with
        | none =>
            refine ⟨hqueue, .unchanged ?_ rfl fun _ _ _ _ _ heq => nomatch heq⟩
            rw [Option.toList_none, Multiset.coe_nil, zero_add] at hless
            exact hless
        | some work =>
            rw [Option.toList_some, Multiset.coe_singleton, Multiset.singleton_add] at hless
            exact ⟨hqueue, .runs work hless rfl⟩
      · cases h

theorem DelayStep.sound {a : DelayAction κ} (hstep : DelayStep s s' a)
    (hqueue : ∃ q, s'.core.pendingSparksFifo.Holds maxSparks q) (hs : DelaySound s) :
    DelaySound s' := by
  have hle := hs.registrations_le
  have hzero := hs.registrations_eq_zero
  cases hstep with
  | unchanged hregistered hsuspended =>
      refine ⟨hqueue, fun c => ?_, fun c hc => ?_⟩
      · rw [registrations_congr hregistered]
        exact hle c
      · rw [registrations_congr hregistered]
        exact hzero c (hsuspended ▸ hc)
  | registers hnot hroom hregistered hsuspended =>
      refine ⟨hqueue, fun c => ?_, fun c hc => ?_⟩
      · rw [registrations_cons hregistered, Work.resumes]
        split
        · next heq =>
          rw [← beq_iff_eq.mp heq, hzero _ hnot]
        · rw [Nat.add_zero]
          exact hle c
      · rw [hsuspended, List.mem_cons, not_or] at hc
        rw [registrations_cons hregistered, Work.resumes, hzero c hc.2,
          if_neg fun heq => hc.1 (beq_iff_eq.mp heq).symm]
  | abandons hnot hready hsuspend hfull hregistered hsuspended =>
      refine ⟨hqueue, fun c => ?_, fun c hc => ?_⟩
      · rw [registrations_congr hregistered]
        exact hle c
      · rw [hsuspended, List.mem_cons, not_or] at hc
        rw [registrations_congr hregistered]
        exact hzero c hc.2
  | otherWork work hregistered hsuspended ha =>
      refine ⟨hqueue, fun c => ?_, fun c hc => ?_⟩
      · rw [registrations_cons hregistered, Work.resumes, if_neg Bool.false_ne_true, Nat.add_zero]
        exact hle c
      · rw [registrations_cons hregistered, Work.resumes, if_neg Bool.false_ne_true, Nat.add_zero]
        exact hzero c (hsuspended ▸ hc)
  | cancels work hspark hregistered hsuspended =>
      refine ⟨hqueue, fun c => ?_, fun c hc => ?_⟩
      · have hcount := registrations_cons hregistered.symm c
        have hbound := hle c
        omega
      · have hcount := registrations_cons hregistered.symm c
        have hnone := hzero c (hsuspended ▸ hc)
        omega
  | runs work hregistered hsuspended =>
      refine ⟨hqueue, fun c => ?_, fun c hc => ?_⟩
      · have hcount := registrations_cons hregistered.symm c
        have hbound := hle c
        omega
      · have hcount := registrations_cons hregistered.symm c
        have hbound := hle c
        rw [hsuspended, List.mem_filter, not_and] at hc
        by_cases hmem : c ∈ s.suspended
        · have hresumes : work.resumes c = true := by simpa using hc hmem
          rw [hresumes, if_pos rfl] at hcount
          omega
        · have hnone := hzero c hmem
          omega

/-- At a step of a run, a delay registers its coroutine exactly when it has room. -/
theorem delayRegisters_iff (hs : DelaySound s) (a : DelayAction κ) (h : s.next a = some s') :
    DelayRegisters s a ↔ DelayHasRoom s a := by
  obtain ⟨q, hq⟩ := hs.holds
  cases a with
  | delay coroutine targetTime readyReading suspendReading now =>
      rw [next] at h
      split at h
      · cases h
      · next hnot =>
        have hzero := hs.registrations_eq_zero coroutine hnot
        cases hready : timeLe targetTime readyReading with
        | true =>
            refine iff_of_true (fun hfalse => ?_) (Or.inl hready)
            rw [DelayAwaitable.awaitReady, hready] at hfalse
            cases hfalse
        | false =>
            rw [DelayAwaitable.awaitReady, hready, if_neg Bool.false_ne_true] at h
            cases hok : DelayAwaitable.awaitSuspend s.core targetTime suspendReading now coroutine with
            | error fault =>
                rw [hok] at h
                cases h
            | ok result =>
                obtain ⟨suspend, core'⟩ := result
                have hlaw : DelayRegisters s
                    (.delay coroutine targetTime readyReading suspendReading
                    now) ↔ registrations core' coroutine = if suspend then 1 else 0 := by
                  constructor
                  · exact fun hlaw => hlaw hready suspend core' hok
                  · intro hcount _ suspend' core'' hok'
                    cases hok.symm.trans hok'
                    exact hcount
                rw [hlaw, DelayHasRoom, hready]
                rcases awaitSuspend_ok hq hok with ⟨rfl, rfl, hreached⟩ |
                  ⟨rfl, hsuspend, -, ⟨hfull, hsame⟩ | ⟨hroom, hmore⟩⟩
                · exact iff_of_true hzero (Or.inr (Or.inl hreached))
                · rw [registrations_congr hsame, hzero, hsuspend, ← findEmptyFrom_ne_none_iff, hfull]
                  simp
                · rw [registrations_cons hmore, hzero, Work.resumes]
                  exact iff_of_true (by simp) (Or.inr (Or.inr (findEmptyFrom_ne_none_iff.mp hroom)))
  | schedule now time work => exact Iff.rfl
  | cancel now handle => exact Iff.rfl
  | interrupt now => exact Iff.rfl
  | addSpark work => exact Iff.rfl
  | runNext => exact Iff.rfl

/-- With room for every delay, and no coroutine's spark cancelled, every suspended coroutine
stays registered. -/
theorem DelayStep.registered {a : DelayAction κ} (hstep : DelayStep s s' a) (hs : DelaySound s)
    (hroom : DelayHasRoom s a) (hother : CancelsOtherWork s a)
    (h : ∀ c ∈ s.suspended, registrations s.core c = 1) :
    ∀ c ∈ s'.suspended, registrations s'.core c = 1 := by
  intro c hc
  cases hstep with
  | unchanged hregistered hsuspended =>
      rw [registrations_congr hregistered]
      exact h c (hsuspended ▸ hc)
  | registers hnot _ hregistered hsuspended =>
      rw [registrations_cons hregistered, Work.resumes]
      rcases List.mem_cons.mp (hsuspended ▸ hc) with rfl | hmem
      · rw [hs.registrations_eq_zero _ hnot, beq_self_eq_true, if_pos rfl]
      · rw [h c hmem, if_neg]
        intro heq
        rw [beq_iff_eq.mp heq] at hnot
        exact hnot hmem
  | abandons _ hready hsuspend hfull =>
      rcases hroom with hready' | hsuspend' | hroom
      · exact absurd (hready.symm.trans hready') Bool.false_ne_true
      · exact absurd (hsuspend.symm.trans hsuspend') Bool.false_ne_true
      · exact absurd hroom hfull
  | otherWork work hregistered hsuspended =>
      rw [registrations_cons hregistered, Work.resumes, if_neg Bool.false_ne_true, Nat.add_zero]
      exact h c (hsuspended ▸ hc)
  | cancels work hspark hregistered hsuspended =>
      have hcount := registrations_cons hregistered.symm c
      cases work with
      | resume coroutine => exact absurd hspark (hother coroutine)
      | other work =>
          rw [Work.resumes, if_neg Bool.false_ne_true, Nat.add_zero] at hcount
          rw [← hcount]
          exact h c (hsuspended ▸ hc)
  | runs work hregistered hsuspended =>
      have hcount := registrations_cons hregistered.symm c
      rw [hsuspended, List.mem_filter, Bool.not_eq_true'] at hc
      rw [hc.2, if_neg Bool.false_ne_true, Nat.add_zero] at hcount
      rw [← hcount]
      exact h c hc.1

theorem sound_initial : DelaySound ({} : DelayState κ) := by
  have hempty : ({} : Core (Work κ)).pendingSparksFifo.Holds maxSparks [] :=
    CircularFifo.holds_empty (by decide)
  have hnone : ({} : Core (Work κ)).registered = 0 := by
    rw [Core.registered_eq hempty]
    simp [tableSparks]
  refine ⟨⟨[], hempty⟩, fun c => ?_, fun c _ => ?_⟩
  · rw [registrations, hnone, Multiset.countP_zero]
    exact Nat.zero_le 1
  · rw [registrations, hnone, Multiset.countP_zero]

theorem DelaySound.next (hs : DelaySound s) (a : DelayAction κ) (h : s.next a = some s') :
    DelaySound s' ∧ DelayStep s s' a := by
  obtain ⟨q, hq⟩ := hs.holds
  obtain ⟨hqueue, hstep⟩ := next_step hq a h
  exact ⟨hstep.sound hqueue hs, hstep⟩

end DelayState

/-- In a run of a core, every suspended coroutine is registered exactly once by its delay if
and only if every delay finds its time reached or a place in the table. With room for
all delays, and no coroutine's spark cancelled, every suspended coroutine is
registered at the end. -/
theorem delays_register_iff (actions : List (DelayAction κ)) {s : DelayState κ}
    (hrun : (delaySystem κ).run {} actions = some s) :
    ((delaySystem κ).StepsMeet DelayRegisters {} actions ↔
      (delaySystem κ).StepsMeet DelayHasRoom {} actions) ∧
    ((delaySystem κ).StepsMeet (fun s a => DelayHasRoom s a ∧ CancelsOtherWork s a) {} actions →
      ∀ coroutine ∈ s.suspended, registrations s.core coroutine = 1) := by
  constructor
  · apply System.stepsMeet_congr (I := DelaySound) _ _ DelayState.sound_initial actions hrun
    · exact fun s a s' hs hnext => (DelayState.DelaySound.next hs a hnext).1
    · exact fun s a s' hs hnext => DelayState.delayRegisters_iff hs a hnext
  · intro hmeet
    have hinitial : (delaySystem κ).ReachableBy
        (fun s a => DelayHasRoom s a ∧ CancelsOtherWork s a) {} := System.ReachableBy.initial rfl
    have hreach := hinitial.of_stepsMeet actions hrun hmeet
    have hsound : DelaySound s ∧ ∀ c ∈ s.suspended, registrations s.core c = 1 := by
      apply System.ReachableBy.invariant _ _ hreach
      · rintro s rfl
        exact ⟨DelayState.sound_initial, fun c hc => absurd hc List.not_mem_nil⟩
      · rintro s a s' ⟨hs, hregistered⟩ ha hnext
        obtain ⟨hs', hstep⟩ := DelayState.DelaySound.next hs a hnext
        exact ⟨hs', hstep.registered hs ha.1 ha.2 hregistered⟩
    exact hsound.2

/-- A coroutine delays and goes on when its time has come. -/
theorem delays_register_iff_one : ∃ s, (delaySystem Unit).run {}
    [.delay 7 5 0 1 2, .interrupt 5, .runNext] = some s ∧
    (((delaySystem Unit).StepsMeet DelayRegisters {} [.delay 7 5 0 1 2, .interrupt 5, .runNext] ↔
      (delaySystem Unit).StepsMeet DelayHasRoom {} [.delay 7 5 0 1 2, .interrupt 5, .runNext]) ∧
    ((delaySystem Unit).StepsMeet (fun s a => DelayHasRoom s a ∧ CancelsOtherWork s a) {}
        [.delay 7 5 0 1 2, .interrupt 5, .runNext] →
      ∀ coroutine ∈ s.suspended, registrations s.core coroutine = 1)) := by
  obtain ⟨s, hs⟩ := Option.isSome_iff_exists.mp (show ((delaySystem Unit).run {}
    [.delay 7 5 0 1 2, .interrupt 5, .runNext]).isSome = true by decide +kernel)
  exact ⟨s, hs, delays_register_iff _ hs⟩

/-- Coroutines that delay until the table is full. -/
theorem exists_reachable_delayed (k : Nat) (hk : k ≤ maxScheduledTimers) :
    ∃ s : DelayState Unit, (delaySystem Unit).Reachable s ∧ (∀ c ∈ s.suspended, c < k) ∧
      Filled Work.resume s.core k := by
  induction k with
  | zero =>
      exact ⟨{}, System.ReachableBy.initial rfl, fun c hc => absurd hc List.not_mem_nil,
        filled_zero _⟩
  | succ k ih =>
      obtain ⟨s, hs, hsuspended, hfilled⟩ := ih (Nat.le_of_succ_le hk)
      obtain ⟨hfind, core₁, hsetup, hfilled'⟩ := hfilled.next hk
      have hnot : k ∉ s.suspended := fun hmem => absurd (hsuspended k hmem) (lt_irrefl k)
      have hnext : (delaySystem Unit).next s (.delay k 1 0 0 0) = some
          { core := { core₁ with currentStart := add32 core₁.currentStart 1 }
            suspended := k :: s.suspended } := by
        simp only [delaySystem, DelayState.next, hnot, if_false, DelayAwaitable.awaitReady,
          DelayAwaitable.awaitSuspend, timeLe_one_zero, Bool.false_eq_true,
          Core.scheduleSparkAtTime, hfind, hsetup, bind, Except.bind, pure, Except.pure]
      refine ⟨_, hs.step _ hnext, fun c hc => ?_, hfilled'⟩
      rcases List.mem_cons.mp hc with rfl | hmem
      · exact Nat.lt_succ_self c
      · exact Nat.lt_succ_of_lt (hsuspended c hmem)

/-- A coroutine that delays with a full table is suspended and not registered. -/
theorem not_delays_register : ¬ ∀ actions s, (delaySystem Unit).run {} actions = some s →
    (delaySystem Unit).StepsMeet DelayRegisters {} actions := by
  intro hall
  obtain ⟨s, hs, hsuspended, hfilled⟩ := exists_reachable_delayed maxScheduledTimers le_rfl
  obtain ⟨_, actions, rfl, hrun⟩ := hs.exists_run
  have hsound : DelaySound s := by
    apply System.Reachable.invariant _ _ hs
    · rintro s rfl
      exact DelayState.sound_initial
    · exact fun s a s' hs hnext => (DelayState.DelaySound.next hs a hnext).1
  have hnot : maxScheduledTimers ∉ s.suspended :=
    fun hmem => absurd (hsuspended _ hmem) (lt_irrefl maxScheduledTimers)
  have hoccupied : ∀ j < maxScheduledTimers, (s.core.scheduledTimers j).spark ≠ none := by
    intro j hj hnone
    rw [hfilled.table, fullTable, if_pos hj] at hnone
    cases hnone
  have hfind : s.core.findEmptyFrom maxScheduledTimers 0 = none := by
    by_contra hfind
    obtain ⟨j, hj, hnone⟩ := findEmptyFrom_ne_none_iff.mp hfind
    exact hoccupied j hj hnone
  have hnext : (delaySystem Unit).next s (.delay maxScheduledTimers 1 0 0 0) = some
      { s with suspended := maxScheduledTimers :: s.suspended } := by
    simp only [delaySystem, DelayState.next, hnot, if_false, DelayAwaitable.awaitReady,
      DelayAwaitable.awaitSuspend, timeLe_one_zero, Bool.false_eq_true,
      Core.scheduleSparkAtTime, hfind, bind, Except.bind, pure, Except.pure]
  have hlaw := ((hall _ _ (System.run_concat hrun hnext)).of_append hrun).1
  have hroom := (DelayState.delayRegisters_iff hsound _ (by exact hnext)).mp hlaw
  rcases hroom with hready | hready | ⟨j, hj, hnone⟩
  · exact absurd hready (by rw [timeLe_one_zero]; exact Bool.false_ne_true)
  · exact absurd hready (by rw [timeLe_one_zero]; exact Bool.false_ne_true)
  · exact hoccupied j hj hnone

end RPiKernel.Async
