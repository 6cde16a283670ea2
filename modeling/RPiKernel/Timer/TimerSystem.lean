import RPiKernel.Timer.Delivery
import RPiKernel.Transition.System

/-!
# Runs of timer operations

The operations of a core run one after another: scheduling, cancelling, the
timer interrupt, and the queue operations of other users of the scheduler.
`CallsSetup` tells on which core an operation calls `setupTimerForNext`, and
`TimerState.next_cases` lists what an operation can do.

## Implementation notes

Sparks are numbered by the call that brings them, so that two sparks with the
same function stay apart. A run records the accepted calls with their handles,
the numbers of the cancelled sparks, and the counter reading with which the
last operation has set up the timer, if it has. A queue that overflows stops
the kernel, and the run with it.
-/

namespace RPiKernel.Timer

open Interleaving Machine Containers Transition

variable {σ : Type}

namespace Core

variable {core core' : Core σ} {now : BitVec 64} {q : List σ}

/-- A set-up that does not panic had room for the due sparks. -/
theorem setupTimerForNext_ok (h : core.pendingSparksFifo.Holds maxSparks q)
    (hok : core.setupTimerForNext now = .ok core') :
    ∃ fifo, core' = core.settled now fifo ∧
      fifo.Holds maxSparks (q ++ dueSparks core.scheduledTimers now) := by
  by_cases hroom : q.length + (dueSparks core.scheduledTimers now).length < maxSparks
  · obtain ⟨fifo, hsetup, hfifo⟩ := setupTimerForNext_spec now h hroom
    have heq := hok.symm.trans hsetup
    exact ⟨fifo, Except.ok.inj heq, hfifo⟩
  · obtain ⟨message, hpanic⟩ := setupTimerForNext_panics now h (Nat.le_of_not_lt hroom)
    have heq := hok.symm.trans hpanic
    cases heq

/-- The search for an empty place finds one in the table. -/
theorem findEmptyFrom_some {n i handle : Nat} (h : core.findEmptyFrom n i = some handle) :
    handle < maxScheduledTimers ∧ (core.scheduledTimers handle).spark = none := by
  induction n generalizing i with
  | zero => cases h
  | succ n ih =>
      rw [findEmptyFrom] at h
      split at h
      · next hnone =>
        cases h
        exact ⟨Nat.mod_lt _ (by decide), Option.isNone_iff_eq_none.mp hnone⟩
      · exact ih h

/-- The first place that the search looks at. -/
theorem findEmptyFrom_first {handle : Nat}
    (hplace : add32 0 core.currentStart % maxScheduledTimers = handle)
    (hempty : (core.scheduledTimers handle).spark = none) :
    core.findEmptyFrom maxScheduledTimers 0 = some handle := by
  rw [maxScheduledTimers, findEmptyFrom]
  simp only [hplace, hempty, Option.isNone_none, if_true]

theorem findEmptyFrom_ne_invalidHandle {n i handle : Nat}
    (h : core.findEmptyFrom n i = some handle) : handle ≠ invalidHandle := by
  have hlt := (findEmptyFrom_some h).1
  intro heq
  rw [heq] at hlt
  exact absurd hlt (by decide)

/-- The search fails only when every place is occupied. -/
theorem findEmptyFrom_none (h : core.findEmptyFrom maxScheduledTimers 0 = none) (j : Nat)
    (hj : j < maxScheduledTimers) : (core.scheduledTimers j).spark ≠ none := by
  have hall : ∀ n i, core.findEmptyFrom n i = none → ∀ k, i ≤ k → k < i + n →
      (core.scheduledTimers (add32 k core.currentStart % maxScheduledTimers)).spark ≠ none := by
    intro n
    induction n with
    | zero => exact fun i _ k hik hk => absurd hk (Nat.not_lt_of_le hik)
    | succ n ih =>
        intro i hi k hik hk
        rw [findEmptyFrom] at hi
        split at hi
        · cases hi
        · next hsome =>
          rcases Nat.eq_or_lt_of_le hik with rfl | hik
          · exact fun hnone => hsome (Option.isNone_iff_eq_none.mpr hnone)
          · exact ih (i + 1) hi k hik (by omega)
  -- the round that looks at the place
  have hround := hall maxScheduledTimers 0 h
    ((j + (maxScheduledTimers - core.currentStart % maxScheduledTimers)) % maxScheduledTimers)
    (Nat.zero_le _) (by
      rw [Nat.zero_add]
      exact Nat.mod_lt _ (by decide))
  have hplace : add32 ((j + (maxScheduledTimers - core.currentStart % maxScheduledTimers)) %
      maxScheduledTimers) core.currentStart % maxScheduledTimers = j := by
    simp only [add32, maxScheduledTimers] at hj ⊢
    omega
  rwa [hplace] at hround

/-- An accepted spark has been stored at an empty place before the set-up; a spark is
refused when every place is occupied. -/
theorem scheduleSparkAtTime_ok {time : BitVec 64} {spark : σ} {handle : Nat}
    (hok : core.scheduleSparkAtTime now time (some spark) = .ok (handle, core')) :
    (handle = invalidHandle ∧ core' = core ∧
      core.findEmptyFrom maxScheduledTimers 0 = none) ∨
    ∃ core₁, core.findEmptyFrom maxScheduledTimers 0 = some handle ∧
      (core.store handle time spark).setupTimerForNext now = .ok core₁ ∧
      core' = { core₁ with currentStart := add32 core₁.currentStart 1 } := by
  rw [scheduleSparkAtTime] at hok
  cases hfind : core.findEmptyFrom maxScheduledTimers 0 with
  | none =>
      simp only [hfind, Except.ok.injEq, Prod.mk.injEq] at hok
      exact Or.inl ⟨hok.1.symm, hok.2.symm, rfl⟩
  | some place =>
      simp only [hfind] at hok
      cases hsetup : (core.store place time spark).setupTimerForNext now with
      | error fault =>
          rw [hsetup] at hok
          cases hok
      | ok core₁ =>
          rw [hsetup] at hok
          cases hok
          exact Or.inr ⟨core₁, rfl, hsetup, rfl⟩

/-- A cancellation finds a spark exactly where the place is occupied. -/
theorem cancelSpark_ok {handle : Nat} {found : Bool}
    (hok : core.cancelSpark now handle = .ok (found, core')) :
    (found = false ∧ core' = core ∧ (handle < maxScheduledTimers →
      (core.scheduledTimers handle).spark = none)) ∨
    ∃ spark, found = true ∧ handle < maxScheduledTimers ∧
      (core.scheduledTimers handle).spark = some spark ∧
      (core.clear handle).setupTimerForNext now = .ok core' := by
  rw [cancelSpark] at hok
  split at hok
  · next hge =>
    cases hok
    exact Or.inl ⟨rfl, rfl, fun hlt => absurd hlt (Nat.not_lt_of_le hge)⟩
  · next hlt =>
    cases hspark : (core.scheduledTimers handle).spark with
    | none =>
        simp only [hspark, Option.isSome_none, Bool.false_eq_true, if_false, Except.ok.injEq,
          Prod.mk.injEq] at hok
        exact Or.inl ⟨hok.1.symm, hok.2.symm, fun _ => rfl⟩
    | some spark =>
        simp only [hspark, Option.isSome_some, if_true] at hok
        cases hsetup : (core.clear handle).setupTimerForNext now with
        | error fault =>
            rw [hsetup] at hok
            cases hok
        | ok core₁ =>
            rw [hsetup] at hok
            cases hok
            exact Or.inr ⟨spark, rfl, Nat.lt_of_not_le hlt, rfl, rfl⟩

theorem addSpark_ok {spark : σ} (h : core.pendingSparksFifo.Holds maxSparks q)
    (hok : core.addSpark spark = .ok core') :
    ∃ fifo, core' = { core with pendingSparksFifo := fifo } ∧
      fifo.Holds maxSparks (q ++ [spark]) := by
  have hlength := h.length_lt
  by_cases hroom : q.length + 1 < maxSparks
  · obtain ⟨fifo, hpush, hfifo⟩ := CircularFifo.push_spec spark h hroom
    rw [addSpark, hpush] at hok
    cases hok
    exact ⟨fifo, rfl, hfifo⟩
  · rw [addSpark, CircularFifo.push_panics h (by omega)] at hok
    cases hok

theorem getNextScheduledSpark_ok {result : Option σ}
    (h : core.pendingSparksFifo.Holds maxSparks q)
    (hok : core.getNextScheduledSpark = .ok (result, core')) :
    ∃ fifo, core' = { core with pendingSparksFifo := fifo } ∧ result = q.head? ∧
      fifo.Holds maxSparks q.tail := by
  rw [getNextScheduledSpark] at hok
  cases q with
  | nil =>
      rw [if_pos (h.isEmpty_iff.mpr rfl)] at hok
      cases hok
      exact ⟨core.pendingSparksFifo, rfl, rfl, h⟩
  | cons spark q =>
      have hne : ¬ core.pendingSparksFifo.isEmpty = true := by
        rw [h.isEmpty_iff]
        exact List.cons_ne_nil spark q
      obtain ⟨fifo, hpop, hfifo⟩ := CircularFifo.pop_spec h
      rw [if_neg hne, hpop] at hok
      cases hok
      exact ⟨fifo, rfl, rfl, hfifo⟩

end Core

/-- An operation on the timers or the spark queue of a core. `now` is the counter
reading with which the operation sets up the timer. -/
inductive TimerAction (σ : Type) where
  | schedule (now time : BitVec 64) (spark : Option σ)
  | cancel (now : BitVec 64) (handle : Nat)
  | interrupt (now : BitVec 64)
  | addSpark (spark : σ)
  | getNextScheduledSpark

/-- An accepted call of `scheduleSparkAtTime` and the handle that it returned. -/
structure Scheduling (σ : Type) where
  number : Nat
  time : BitVec 64
  spark : σ
  handle : Nat

/-- A core after a run of operations. -/
structure TimerState (σ : Type) where
  core : Core (Nat × σ) := {}
  calls : Nat := 0
  accepted : List (Scheduling σ) := []
  cancelled : List Nat := []
  settledAt : Option (BitVec 64) := none

namespace TimerState

def next (s : TimerState σ) : TimerAction σ → Except Fault (TimerState σ)
  | .schedule now time spark => do
      let (handle, core) ← s.core.scheduleSparkAtTime now time (spark.map (s.calls, ·))
      let refused := decide (handle = invalidHandle)
      return { s with
        core
        calls := s.calls + 1
        accepted := (if refused then [] else spark.toList.map (⟨s.calls, time, ·, handle⟩)) ++
          s.accepted
        settledAt := if refused then none else some now }
  | .cancel now handle => do
      let (found, core) ← s.core.cancelSpark now handle
      let number := (s.core.scheduledTimers handle).spark.map Prod.fst
      return { s with
        core
        cancelled := (if found then number.toList else []) ++ s.cancelled
        settledAt := if found then some now else none }
  | .interrupt now => do
      let core ← s.core.handleArmVirtualTimerInterrupt now
      return { s with core, settledAt := some now }
  | .addSpark spark => do
      let core ← s.core.addSpark (s.calls, spark)
      return { s with core, calls := s.calls + 1, settledAt := none }
  | .getNextScheduledSpark => do
      let (_, core) ← s.core.getNextScheduledSpark
      return { s with core, settledAt := none }

/-- A list of operations, one after another. -/
def operations (s : TimerState σ) : List (TimerAction σ) → Option (TimerState σ)
  | [] => some s
  | a :: as =>
      match s.next a with
      | .ok s' => operations s' as
      | .error _ => none

/-- The first one of some operations. -/
theorem operations_cons {s s' : TimerState σ} {a : TimerAction σ} {as : List (TimerAction σ)}
    (h : s.operations (a :: as) = some s') :
    ∃ s₁, s.next a = .ok s₁ ∧ s₁.operations as = some s' := by
  rw [operations] at h
  cases hnext : s.next a with
  | error fault =>
      rw [hnext] at h
      cases h
  | ok s₁ =>
      rw [hnext] at h
      exact ⟨s₁, rfl, h⟩

/-- The operation calls `setupTimerForNext` on a core. -/
inductive CallsSetup (s : TimerState σ) : TimerAction σ → Core (Nat × σ) → BitVec 64 → Prop where
  | schedule {now time : BitVec 64} {spark : σ} {handle : Nat}
      (h : s.core.findEmptyFrom maxScheduledTimers 0 = some handle) :
      CallsSetup s (.schedule now time (some spark)) (s.core.store handle time (s.calls, spark)) now
  | cancel {now : BitVec 64} {handle : Nat} {spark : Nat × σ} (hlt : handle < maxScheduledTimers)
      (h : (s.core.scheduledTimers handle).spark = some spark) :
      CallsSetup s (.cancel now handle) (s.core.clear handle) now
  | interrupt {now : BitVec 64} : CallsSetup s (.interrupt now) s.core now

variable {s s' : TimerState σ} {q : List (Nat × σ)}

/-- Only the queue of the core and the number of calls have changed. -/
structure Quiet (s s' : TimerState σ) : Prop where
  settledAt_eq : s'.settledAt = none
  core_eq : s'.core = { s.core with pendingSparksFifo := s'.core.pendingSparksFifo }
  calls_le : s.calls ≤ s'.calls
  accepted_eq : s'.accepted = s.accepted
  cancelled_eq : s'.cancelled = s.cancelled
  holds : ∃ q, s'.core.pendingSparksFifo.Holds maxSparks q

/-- What an operation can do: it accepts a spark, cancels one, handles an interrupt, or
leaves the timers as they are. -/
theorem next_cases (hq : s.core.pendingSparksFifo.Holds maxSparks q) (a : TimerAction σ)
    (h : s.next a = .ok s') :
    Quiet s s' ∨
    (∃ now time spark handle core₁, a = .schedule now time (some spark) ∧
      s.core.findEmptyFrom maxScheduledTimers 0 = some handle ∧
      (s.core.store handle time (s.calls, spark)).setupTimerForNext now = .ok core₁ ∧
      s' = { s with
        core := { core₁ with currentStart := add32 core₁.currentStart 1 }
        calls := s.calls + 1
        accepted := ⟨s.calls, time, spark, handle⟩ :: s.accepted
        settledAt := some now }) ∨
    (∃ now handle spark core₁, a = .cancel now handle ∧ handle < maxScheduledTimers ∧
      (s.core.scheduledTimers handle).spark = some spark ∧
      (s.core.clear handle).setupTimerForNext now = .ok core₁ ∧
      s' = { s with
        core := core₁
        cancelled := spark.1 :: s.cancelled
        settledAt := some now }) ∨
    (∃ now core₁, a = .interrupt now ∧ s.core.setupTimerForNext now = .ok core₁ ∧
      s' = { s with
        core := core₁
        settledAt := some now }) := by
  cases a with
  | schedule now time spark =>
      cases spark with
      | none =>
          cases h
          exact Or.inl ⟨rfl, rfl, Nat.le_succ _, rfl, rfl, q, hq⟩
      | some spark =>
          rw [next] at h
          cases hschedule : s.core.scheduleSparkAtTime now time (some (s.calls, spark)) with
          | error fault =>
              rw [Option.map_some, hschedule] at h
              cases h
          | ok result =>
              obtain ⟨handle, core⟩ := result
              rw [Option.map_some, hschedule] at h
              rcases Core.scheduleSparkAtTime_ok hschedule with
                ⟨rfl, rfl, -⟩ | ⟨core₁, hfind, hsetup, rfl⟩
              · cases h
                exact Or.inl ⟨rfl, rfl, Nat.le_succ _, rfl, rfl, q, hq⟩
              · have hne := Core.findEmptyFrom_ne_invalidHandle hfind
                refine Or.inr (Or.inl ⟨now, time, spark, handle, core₁, rfl, hfind, hsetup, ?_⟩)
                simp only [bind, Except.bind, pure, Except.pure, hne, decide_false,
                  Bool.false_eq_true, if_false, Except.ok.injEq] at h
                exact h.symm
  | cancel now handle =>
      rw [next] at h
      cases hcancel : s.core.cancelSpark now handle with
      | error fault =>
          rw [hcancel] at h
          cases h
      | ok result =>
          obtain ⟨found, core⟩ := result
          rw [hcancel] at h
          rcases Core.cancelSpark_ok hcancel with ⟨rfl, rfl, -⟩ | ⟨spark, rfl, hlt, hspark, hsetup⟩
          · cases h
            exact Or.inl ⟨rfl, rfl, le_rfl, rfl, rfl, q, hq⟩
          · refine Or.inr (Or.inr (Or.inl ⟨now, handle, spark, core, rfl, hlt, hspark, hsetup, ?_⟩))
            rw [hspark] at h
            cases h
            rfl
  | interrupt now =>
      rw [next, Core.handleArmVirtualTimerInterrupt] at h
      cases hsetup : s.core.setupTimerForNext now with
      | error fault =>
          rw [hsetup] at h
          cases h
      | ok core =>
          rw [hsetup] at h
          cases h
          exact Or.inr (Or.inr (Or.inr ⟨now, core, rfl, hsetup, rfl⟩))
  | addSpark spark =>
      rw [next] at h
      cases hadd : s.core.addSpark (s.calls, spark) with
      | error fault =>
          rw [hadd] at h
          cases h
      | ok core =>
          obtain ⟨fifo, rfl, hfifo⟩ := Core.addSpark_ok hq hadd
          rw [hadd] at h
          cases h
          exact Or.inl ⟨rfl, rfl, Nat.le_succ _, rfl, rfl, _, hfifo⟩
  | getNextScheduledSpark =>
      rw [next] at h
      cases hpop : s.core.getNextScheduledSpark with
      | error fault =>
          rw [hpop] at h
          cases h
      | ok result =>
          obtain ⟨spark, core⟩ := result
          obtain ⟨fifo, rfl, -, hfifo⟩ := Core.getNextScheduledSpark_ok hq hpop
          rw [hpop] at h
          cases h
          exact Or.inl ⟨rfl, rfl, le_rfl, rfl, rfl, _, hfifo⟩

end TimerState

/-- The runs of a core, from the empty table. -/
def timerSystem (σ : Type) : System (TimerState σ) (TimerAction σ) where
  Initial s := s = {}
  next s a := (s.next a).toOption

namespace TimerState

variable {s s' : TimerState σ}

theorem next_ok {a : TimerAction σ} (h : (timerSystem σ).next s a = some s') :
    s.next a = .ok s' := by
  cases hnext : s.next a with
  | error fault => simp [timerSystem, hnext, Except.toOption] at h
  | ok s₁ =>
      simp only [timerSystem, hnext, Except.toOption, Option.some.injEq] at h
      rw [h]

theorem ok_next {a : TimerAction σ} (h : s.next a = .ok s') :
    (timerSystem σ).next s a = some s' := by
  simp only [timerSystem, h, Except.toOption]

/-- A spark is accepted where there is an empty place and the set-up succeeds. -/
theorem next_schedule {now time : BitVec 64} {spark : σ} {handle : Nat} {core₁ : Core (Nat × σ)}
    (hfind : s.core.findEmptyFrom maxScheduledTimers 0 = some handle)
    (hsetup : (s.core.store handle time (s.calls, spark)).setupTimerForNext now = .ok core₁) :
    s.next (.schedule now time (some spark)) = .ok { s with
      core := { core₁ with currentStart := add32 core₁.currentStart 1 }
      calls := s.calls + 1
      accepted := ⟨s.calls, time, spark, handle⟩ :: s.accepted
      settledAt := some now } := by
  have hne := Core.findEmptyFrom_ne_invalidHandle hfind
  simp only [next, Core.scheduleSparkAtTime, Option.map_some, hfind, hsetup, bind, Except.bind, pure,
    Except.pure, hne, decide_false, Bool.false_eq_true, if_false]
  rfl

/-- A cancellation of an occupied place succeeds where the set-up does. -/
theorem next_cancel {now : BitVec 64} {handle : Nat} {spark : Nat × σ} {core₁ : Core (Nat × σ)}
    (hlt : handle < maxScheduledTimers) (hspark : (s.core.scheduledTimers handle).spark = some spark)
    (hsetup : (s.core.clear handle).setupTimerForNext now = .ok core₁) :
    s.next (.cancel now handle) = .ok { s with
      core := core₁
      cancelled := spark.1 :: s.cancelled
      settledAt := some now } := by
  rw [next, Core.cancelSpark, if_neg (Nat.not_le_of_lt hlt), hspark, hsetup]
  rfl

/-- The core of a reachable state: its queue is a queue, and the flag of the
scheduler is never set. -/
structure Wellformed (s : TimerState σ) : Prop where
  holds : ∃ q, s.core.pendingSparksFifo.Holds maxSparks q
  timerIsEnabled_eq : s.core.timerIsEnabled = false

theorem settled_timerIsEnabled {core : Core σ} {now : BitVec 64} (fifo : CircularFifo σ)
    (h : core.timerIsEnabled = false) : (core.settled now fifo).timerIsEnabled = false := by
  simp only [Core.settled, h, ite_self]

theorem wellformed_initial : Wellformed ({} : TimerState σ) :=
  ⟨⟨[], CircularFifo.holds_empty (by decide)⟩, rfl⟩

theorem Wellformed.next (h : Wellformed s) (a : TimerAction σ) (hs : s.next a = .ok s') :
    Wellformed s' := by
  obtain ⟨q, hq⟩ := h.holds
  rcases next_cases hq a hs with hquiet |
    ⟨now, time, spark, handle, core₁, -, -, hsetup, rfl⟩ |
    ⟨now, handle, spark, core₁, -, -, -, hsetup, rfl⟩ | ⟨now, core₁, -, hsetup, rfl⟩
  · refine ⟨hquiet.holds, ?_⟩
    rw [hquiet.core_eq]
    exact h.timerIsEnabled_eq
  all_goals
    obtain ⟨fifo, rfl, hfifo⟩ := Core.setupTimerForNext_ok (by exact hq) hsetup
    exact ⟨⟨_, hfifo⟩, settled_timerIsEnabled fifo h.timerIsEnabled_eq⟩

theorem wellformed (h : (timerSystem σ).Reachable s) : Wellformed s := by
  apply System.Reachable.invariant _ _ h
  · rintro s rfl
    exact wellformed_initial
  · intro s a s' hs hnext
    exact hs.next a (next_ok hnext)

end TimerState

end RPiKernel.Timer
