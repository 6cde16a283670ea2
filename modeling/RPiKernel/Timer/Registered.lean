import Mathlib.Algebra.BigOperators.Group.Finset.Basic
import RPiKernel.Timer.TimerSystem

/-!
# The registered sparks

`registered` is the multiset of the sparks in the table and in the queue of a
core. A set-up moves sparks from the table to the queue and leaves the multiset
as it is; scheduling and `addSpark` add a spark, cancelling and
`getNextScheduledSpark` take one out.
-/

namespace RPiKernel.Timer

open Interleaving Machine Containers

variable {σ : Type}

theorem coe_filterMap {ι : Type} (f : ι → Option σ) (l : List ι) :
    ((l.filterMap f : List σ) : Multiset σ) = (l.map fun i => ((f i).toList : Multiset σ)).sum := by
  induction l with
  | nil => rfl
  | cons i l ih =>
      rw [List.filterMap_cons, List.map_cons, List.sum_cons, ← ih]
      cases f i with
      | none => simp
      | some x => simp

section Table

variable (table : Nat → ScheduledTimer σ) (now : BitVec 64)

/-- The sparks of the table. -/
def tableSparks : Multiset σ :=
  ∑ j ∈ Finset.range maxScheduledTimers, ((table j).spark.toList : Multiset σ)

/-- A place that is written gives its spark for the new one. -/
theorem tableSparks_update {i : Nat} (hi : i < maxScheduledTimers) (entry : ScheduledTimer σ) :
    tableSparks (Function.update table i entry) + ((table i).spark.toList : Multiset σ) =
      tableSparks table + (entry.spark.toList : Multiset σ) := by
  have hmem : i ∈ Finset.range maxScheduledTimers := Finset.mem_range.mpr hi
  have hrest : ∀ j ∈ (Finset.range maxScheduledTimers).erase i,
      ((Function.update table i entry j).spark.toList : Multiset σ) = (table j).spark.toList := by
    intro j hj
    rw [Function.update_of_ne (Finset.ne_of_mem_erase hj)]
  rw [tableSparks, tableSparks, ← Finset.add_sum_erase _ _ hmem, ← Finset.add_sum_erase _ _ hmem,
    Finset.sum_congr rfl hrest, Function.update_self]
  ac_rfl

variable {table now}

/-- The sweep takes out the due sparks. -/
theorem tableSparks_sweep :
    tableSparks (sweep table now 0 maxScheduledTimers) + (dueSparks table now : Multiset σ) =
      tableSparks table := by
  have hdue : (dueSparks table now : Multiset σ) =
      ∑ j ∈ Finset.range maxScheduledTimers, ((dueSpark table now j).toList : Multiset σ) := by
    rw [dueSparks, dueFrom, ← List.range_eq_range', coe_filterMap]
    rfl
  rw [hdue, tableSparks, tableSparks, ← Finset.sum_add_distrib]
  apply Finset.sum_congr rfl
  intro j hj
  rw [Finset.mem_range] at hj
  rw [sweep, dueSpark]
  cases hle : timeLe (table j).triggerTimeTicks now with
  | true => simp [hj]
  | false => simp

end Table

namespace Core

variable {core core' : Core σ} {now : BitVec 64} {q : List σ}

/-- The sparks that will still be run. -/
def registered (core : Core σ) : Multiset σ :=
  tableSparks core.scheduledTimers + (core.pendingSparksFifo.contents maxSparks : Multiset σ)

theorem registered_eq (h : core.pendingSparksFifo.Holds maxSparks q) :
    core.registered = tableSparks core.scheduledTimers + (q : Multiset σ) := by
  rw [registered, h.contents_eq]

theorem setupTimerForNext_registered (h : core.pendingSparksFifo.Holds maxSparks q)
    (hok : core.setupTimerForNext now = .ok core') :
    (∃ q', core'.pendingSparksFifo.Holds maxSparks q') ∧ core'.registered = core.registered := by
  obtain ⟨fifo, rfl, hfifo⟩ := setupTimerForNext_ok h hok
  refine ⟨⟨_, hfifo⟩, ?_⟩
  have hqueue : (core.settled now fifo).pendingSparksFifo.Holds maxSparks
      (q ++ dueSparks core.scheduledTimers now) := hfifo
  have htable : (core.settled now fifo).scheduledTimers =
      sweep core.scheduledTimers now 0 maxScheduledTimers := rfl
  calc
    (core.settled now fifo).registered =
        tableSparks (sweep core.scheduledTimers now 0 maxScheduledTimers) +
          ((q : Multiset σ) + (dueSparks core.scheduledTimers now : Multiset σ)) := by
      rw [registered_eq hqueue, htable, Multiset.coe_add]
    _ = core.registered := by
      rw [add_comm (q : Multiset σ), ← add_assoc, tableSparks_sweep, registered_eq h]

theorem store_registered (h : core.pendingSparksFifo.Holds maxSparks q) {handle : Nat}
    (hlt : handle < maxScheduledTimers) (hempty : (core.scheduledTimers handle).spark = none)
    (time : BitVec 64) (spark : σ) :
    (core.store handle time spark).registered = spark ::ₘ core.registered := by
  have hupdate := tableSparks_update core.scheduledTimers hlt ⟨time, some spark⟩
  rw [hempty, Option.toList_none, Multiset.coe_nil, add_zero, Option.toList_some,
    Multiset.coe_singleton, add_comm, Multiset.singleton_add] at hupdate
  have hqueue : (core.store handle time spark).pendingSparksFifo.Holds maxSparks q := h
  rw [registered_eq hqueue, registered_eq h, store, hupdate, Multiset.cons_add]

theorem clear_registered (h : core.pendingSparksFifo.Holds maxSparks q) {handle : Nat}
    (hlt : handle < maxScheduledTimers) {spark : σ}
    (hspark : (core.scheduledTimers handle).spark = some spark) :
    spark ::ₘ (core.clear handle).registered = core.registered := by
  have hupdate := tableSparks_update core.scheduledTimers hlt
    { core.scheduledTimers handle with spark := none }
  rw [hspark, Option.toList_none, Multiset.coe_nil, add_zero, Option.toList_some,
    Multiset.coe_singleton, add_comm, Multiset.singleton_add] at hupdate
  have hqueue : (core.clear handle).pendingSparksFifo.Holds maxSparks q := h
  rw [registered_eq hqueue, registered_eq h, ← hupdate, Multiset.cons_add]
  rfl

/-- A spark that is scheduled is registered if and only if it gets a handle. -/
theorem scheduleSparkAtTime_registered (h : core.pendingSparksFifo.Holds maxSparks q)
    {time : BitVec 64} {spark : σ} {handle : Nat}
    (hok : core.scheduleSparkAtTime now time (some spark) = .ok (handle, core')) :
    (∃ q', core'.pendingSparksFifo.Holds maxSparks q') ∧
      ((core.findEmptyFrom maxScheduledTimers 0 = none ∧ core'.registered = core.registered) ∨
        (core.findEmptyFrom maxScheduledTimers 0 ≠ none ∧
          core'.registered = spark ::ₘ core.registered)) := by
  rcases scheduleSparkAtTime_ok hok with ⟨-, rfl, hfind⟩ | ⟨core₁, hfind, hsetup, rfl⟩
  · exact ⟨⟨q, h⟩, Or.inl ⟨hfind, rfl⟩⟩
  · obtain ⟨hlt, hempty⟩ := findEmptyFrom_some hfind
    obtain ⟨hqueue, heq⟩ := setupTimerForNext_registered (by exact h) hsetup
    refine ⟨hqueue, Or.inr ⟨by simp [hfind], ?_⟩⟩
    rw [store_registered h hlt hempty] at heq
    exact heq

theorem cancelSpark_registered (h : core.pendingSparksFifo.Holds maxSparks q) {handle : Nat}
    {found : Bool} (hok : core.cancelSpark now handle = .ok (found, core')) :
    (∃ q', core'.pendingSparksFifo.Holds maxSparks q') ∧
      (core'.registered = core.registered ∨
        ∃ spark, (core.scheduledTimers handle).spark = some spark ∧
          spark ::ₘ core'.registered = core.registered) := by
  rcases cancelSpark_ok hok with ⟨-, rfl, -⟩ | ⟨spark, -, hlt, hspark, hsetup⟩
  · exact ⟨⟨q, h⟩, Or.inl rfl⟩
  · obtain ⟨hqueue, heq⟩ := setupTimerForNext_registered (by exact h) hsetup
    refine ⟨hqueue, Or.inr ⟨spark, hspark, ?_⟩⟩
    rw [heq, clear_registered h hlt hspark]

theorem addSpark_registered (h : core.pendingSparksFifo.Holds maxSparks q) {spark : σ}
    (hok : core.addSpark spark = .ok core') :
    (∃ q', core'.pendingSparksFifo.Holds maxSparks q') ∧
      core'.registered = spark ::ₘ core.registered := by
  obtain ⟨fifo, rfl, hfifo⟩ := addSpark_ok h hok
  have hqueue : ({ core with pendingSparksFifo := fifo } : Core σ).pendingSparksFifo.Holds maxSparks
    (q ++ [spark]) := hfifo
  refine ⟨⟨_, hfifo⟩, ?_⟩
  rw [registered_eq hqueue, registered_eq h, ← Multiset.coe_add, Multiset.coe_singleton,
    ← add_assoc,
    add_comm, Multiset.singleton_add]

theorem getNextScheduledSpark_registered (h : core.pendingSparksFifo.Holds maxSparks q)
    {result : Option σ} (hok : core.getNextScheduledSpark = .ok (result, core')) :
    (∃ q', core'.pendingSparksFifo.Holds maxSparks q') ∧
      (result.toList : Multiset σ) + core'.registered = core.registered := by
  obtain ⟨fifo, rfl, rfl, hfifo⟩ := getNextScheduledSpark_ok h hok
  have hqueue : ({ core with pendingSparksFifo := fifo } : Core σ).pendingSparksFifo.Holds maxSparks
    q.tail := hfifo
  refine ⟨⟨_, hfifo⟩, ?_⟩
  rw [registered_eq hqueue, registered_eq h, add_left_comm, Multiset.coe_add]
  cases q with
  | nil => rfl
  | cons spark q => rfl

end Core

end RPiKernel.Timer
