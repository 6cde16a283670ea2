import RPiKernel.Timer.TimerSystem

/-!
# Bursts of due timers

The table of a core has as many places as the ring buffer of its spark queue,
and the ring buffer keeps one of them free. A set-up with an empty queue
delivers all due sparks exactly when there are fewer than 64 of them.
-/

namespace RPiKernel.Timer

open Interleaving Machine Containers Transition

namespace Core

variable {σ : Type} {core : Core σ} {now : BitVec 64} {q : List σ}

/-- The sparks that at most `n` calls of `getNextScheduledSpark` return before they
return nothing. -/
def popAll : Nat → Core σ → Except Fault (List σ)
  | 0, _ => .ok []
  | n + 1, core => do
      match ← core.getNextScheduledSpark with
      | (none, _) => return []
      | (some spark, core) => return spark :: (← popAll n core)

/-- The queue comes out in its order. -/
theorem popAll_spec {n : Nat} (h : core.pendingSparksFifo.Holds maxSparks q) (hn : q.length ≤ n) :
    core.popAll n = .ok q := by
  induction n generalizing core q with
  | zero =>
      rw [List.eq_nil_of_length_eq_zero (Nat.le_zero.mp hn)]
      rfl
  | succ n ih =>
      rw [popAll, getNextScheduledSpark]
      cases q with
      | nil =>
          rw [if_pos (h.isEmpty_iff.mpr rfl)]
          rfl
      | cons spark q =>
          have hne : ¬ core.pendingSparksFifo.isEmpty = true := by
            rw [h.isEmpty_iff]
            exact List.cons_ne_nil spark q
          obtain ⟨fifo, hpop, hfifo⟩ := CircularFifo.pop_spec h
          have hrest := @ih { core with pendingSparksFifo := fifo } q hfifo
            (Nat.le_of_succ_le_succ hn)
          rw [if_neg hne, hpop]
          simp only [bind, Except.bind, pure, Except.pure, hrest]

/-- With an empty queue, the due sparks can be delivered and popped again if and only if
there are fewer of them than the ring buffer has places. -/
theorem setupTimerForNext_popAll_iff (h : core.pendingSparksFifo.Holds maxSparks []) :
    (∃ core', core.setupTimerForNext now = .ok core' ∧
      core'.popAll maxSparks = .ok (dueSparks core.scheduledTimers now)) ↔
    (dueSparks core.scheduledTimers now).length < maxSparks := by
  constructor
  · rintro ⟨core', hsetup, -⟩
    by_contra hfull
    obtain ⟨message, hpanic⟩ := setupTimerForNext_panics now h
      (by simpa using Nat.le_of_not_lt hfull)
    rw [hpanic] at hsetup
    cases hsetup
  · intro hroom
    obtain ⟨fifo, hsetup, hfifo⟩ := setupTimerForNext_spec now h (by simpa using hroom)
    exact ⟨_, hsetup, popAll_spec hfifo (by simpa using hroom.le)⟩

end Core

/-- In every reachable state with an empty queue, for every table and every counter
value: the due sparks are delivered and popped exactly when there are at most 63. -/
theorem burst_delivered_iff {σ : Type} {s : TimerState σ} (hs : (timerSystem σ).Reachable s)
    (hempty : s.core.pendingSparksFifo.isEmpty = true)
    (table : Nat → ScheduledTimer (Nat × σ)) (now : BitVec 64) :
    (∃ core', Core.setupTimerForNext { s.core with scheduledTimers := table } now = .ok core' ∧
      core'.popAll maxSparks = .ok (dueSparks table now)) ↔
    (dueSparks table now).length < maxSparks := by
  obtain ⟨q, hq⟩ := (TimerState.wellformed hs).holds
  rw [hq.isEmpty_iff] at hempty
  rw [hempty] at hq
  exact Core.setupTimerForNext_popAll_iff hq

theorem burst_delivered_iff_one :
    (∃ core', Core.setupTimerForNext (σ := Nat × Unit)
        { ({} : TimerState Unit).core with
          scheduledTimers := fun j => if j = 0 then ⟨1, some (0, ())⟩ else {} } 1 = .ok core' ∧
      core'.popAll maxSparks = .ok [(0, ())]) ↔ 1 < maxSparks :=
  burst_delivered_iff (System.ReachableBy.initial rfl) rfl _ 1

section Filling

variable {σ : Type}

theorem timeLe_one_zero : timeLe 1 0 = false := by decide

theorem dueSpark_update {table : Nat → ScheduledTimer σ} {entry : ScheduledTimer σ}
    (h : ∀ j, dueSpark table 0 j = none)
    (hentry : entry.spark = none ∨ timeLe entry.triggerTimeTicks 0 = false) (i j : Nat) :
    dueSpark (Function.update table i entry) 0 j = none := by
  by_cases hj : j = i
  · rw [dueSpark, hj, Function.update_self]
    rcases hentry with hnone | hlater
    · rw [hnone, ite_self]
    · rw [hlater, if_neg Bool.false_ne_true]
  · rw [dueSpark, Function.update_of_ne hj]
    exact h j

theorem dueSpark_clear {core : Core σ} (h : ∀ j, dueSpark core.scheduledTimers 0 j = none)
    (handle j : Nat) : dueSpark (core.clear handle).scheduledTimers 0 j = none :=
  dueSpark_update h (Or.inl rfl) handle j

theorem dueSpark_store {core : Core σ} (h : ∀ j, dueSpark core.scheduledTimers 0 j = none)
    (spark : σ) (handle j : Nat) :
    dueSpark (core.store handle 1 spark).scheduledTimers 0 j = none := by
  have hlater : timeLe (⟨1, some spark⟩ : ScheduledTimer σ).triggerTimeTicks 0 = false :=
    timeLe_one_zero
  exact dueSpark_update h (Or.inr hlater) handle j

/-- With nothing due at the time 0, a set-up changes neither table nor queue. -/
theorem setup_nothing_due (core : Core σ) (hfifo : core.pendingSparksFifo.Holds maxSparks [])
    (hdue : ∀ j, dueSpark core.scheduledTimers 0 j = none) :
    ∃ core', core.setupTimerForNext 0 = .ok core' ∧
      core'.scheduledTimers = core.scheduledTimers ∧ core'.currentStart = core.currentStart ∧
      core'.pendingSparksFifo.Holds maxSparks [] := by
  have hnone : dueSparks core.scheduledTimers 0 = [] :=
    List.filterMap_eq_nil_iff.mpr fun j _ => hdue j
  obtain ⟨fifo, hsetup, hfifo'⟩ := Core.setupTimerForNext_spec 0 hfifo (by
    rw [hnone]
    exact (by decide : 0 < maxSparks))
  rw [hnone] at hfifo'
  refine ⟨_, hsetup, ?_, rfl, hfifo'⟩
  funext j
  rcases sweep_eq_or_due core.scheduledTimers 0 j with hkeep | ⟨spark, -, hspark, hle⟩
  · exact hkeep
  · have hj := hdue j
    rw [dueSpark, if_pos hle, hspark] at hj
    cases hj

/-- The first `k` places hold sparks that are due at the time 1. -/
def fullTable (sparks : Nat → σ) (k j : Nat) : ScheduledTimer σ :=
  if j < k then ⟨1, some (sparks j)⟩ else {}

variable (sparks : Nat → σ)

theorem dueSpark_fullTable (k j : Nat) : dueSpark (fullTable sparks k) 0 j = none := by
  rw [dueSpark, fullTable]
  by_cases hj : j < k
  · rw [if_pos hj, timeLe_one_zero, if_neg Bool.false_ne_true]
  · rw [if_neg hj, ite_self]

theorem update_fullTable (k : Nat) :
    Function.update (fullTable sparks k) k ⟨1, some (sparks k)⟩ = fullTable sparks (k + 1) := by
  funext j
  by_cases hj : j = k
  · rw [hj, Function.update_self, fullTable, if_pos (Nat.lt_succ_self k)]
  · rw [Function.update_of_ne hj, fullTable, fullTable]
    exact if_congr (by omega) rfl rfl

/-- A core whose first `k` places have been filled in their order. -/
structure Filled (core : Core σ) (k : Nat) : Prop where
  table : core.scheduledTimers = fullTable sparks k
  start : core.currentStart = k
  fifo : core.pendingSparksFifo.Holds maxSparks []

theorem filled_zero : Filled sparks ({} : Core σ) 0 :=
  ⟨rfl, rfl, CircularFifo.holds_empty (by decide)⟩

variable {sparks}

/-- The next spark for the time 1 goes to the next place. -/
theorem Filled.next {core : Core σ} {k : Nat} (h : Filled sparks core k)
    (hk : k < maxScheduledTimers) :
    core.findEmptyFrom maxScheduledTimers 0 = some k ∧
      ∃ core₁, (core.store k 1 (sparks k)).setupTimerForNext 0 = .ok core₁ ∧
        Filled sparks { core₁ with currentStart := add32 core₁.currentStart 1 } (k + 1) := by
  have hplace : add32 0 core.currentStart % maxScheduledTimers = k := by
    simp only [h.start, add32, maxScheduledTimers] at hk ⊢
    omega
  have hstore : (core.store k 1 (sparks k)).scheduledTimers = fullTable sparks (k + 1) := by
    rw [Core.store, h.table]
    exact update_fullTable sparks k
  obtain ⟨core₁, hsetup, htable, hstart, hfifo⟩ :=
    setup_nothing_due (core.store k 1 (sparks k)) h.fifo (by
      rw [hstore]
      exact dueSpark_fullTable sparks (k + 1))
  refine ⟨Core.findEmptyFrom_first hplace ?_, core₁, hsetup, htable.trans hstore, ?_, hfifo⟩
  · rw [h.table, fullTable, if_neg (lt_irrefl k)]
  · have hstart' : core₁.currentStart = k := hstart.trans h.start
    simp only [hstart', add32]
    rw [maxScheduledTimers] at hk
    omega

end Filling

/-- Sparks for the time 1 can be scheduled at the time 0 until the table is full. -/
theorem exists_reachable_filled (k : Nat) (hk : k ≤ maxScheduledTimers) :
    ∃ s : TimerState Unit, (timerSystem Unit).Reachable s ∧ s.calls = k ∧
      Filled (fun j => (j, ())) s.core k := by
  induction k with
  | zero => exact ⟨{}, System.ReachableBy.initial rfl, rfl, filled_zero _⟩
  | succ k ih =>
      obtain ⟨s, hs, hcalls, hfilled⟩ := ih (Nat.le_of_succ_le hk)
      obtain ⟨hfind, core₁, hsetup, hfilled'⟩ := hfilled.next hk
      rw [← hcalls] at hsetup
      have hnext := TimerState.next_schedule (hcalls ▸ hfind) hsetup
      exact ⟨_, hs.step _ (TimerState.ok_next hnext), congrArg (· + 1) hcalls, hfilled'⟩

/-- A full table of sparks for the same time does not fit into the empty queue. -/
theorem burst_not_delivered : ¬ ∀ s, (timerSystem Unit).Reachable s →
    s.core.pendingSparksFifo.isEmpty = true → ∀ table now,
      ∃ core', Core.setupTimerForNext { s.core with scheduledTimers := table } now = .ok core' ∧
        core'.popAll maxSparks = .ok (dueSparks table now) := by
  intro h
  obtain ⟨s, hs, -, htable, -, hfifo⟩ := exists_reachable_filled maxScheduledTimers le_rfl
  have hburst := h s hs (hfifo.isEmpty_iff.mpr rfl) s.core.scheduledTimers 1
  have hroom := Core.setupTimerForNext_popAll_iff hfifo |>.mp hburst
  rw [htable] at hroom
  exact absurd hroom (by decide)

end RPiKernel.Timer
