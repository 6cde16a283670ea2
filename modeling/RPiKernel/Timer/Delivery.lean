import RPiKernel.Timer.CoreTimer

/-!
# The delivery of due sparks

`setupTimerForNext` walks over the table once. `setupTimerForNext_spec` says
what comes out: the due sparks are at the end of the queue, in the order of
their places, their places are empty and all others unchanged. With too many
due sparks the queue overflows (`setupTimerForNext_panics`).
-/

namespace RPiKernel.Timer

open Interleaving Machine Containers

section Time

/-- The ticks from the current time to a time, modulo the counter. -/
def ticksUntil (currentTime time : BitVec 64) : Nat := (time - currentTime).toNat

variable {now a b : BitVec 64}

theorem ticksUntil_lt (now a : BitVec 64) : ticksUntil now a < 18446744073709551616 :=
  (a - now).isLt

/-- Half of the times lie ahead. -/
theorem timeLe_iff : timeLe a now = true ↔
    ticksUntil now a = 0 ∨ 9223372036854775808 ≤ ticksUntil now a := by
  have hlt := ticksUntil_lt now a
  rw [timeLe, decide_eq_true_iff, BitVec.toInt_eq_toNat_cond]
  simp only [ticksUntil] at hlt ⊢
  split <;> omega

theorem not_timeLe_iff : timeLe a now = false ↔
    0 < ticksUntil now a ∧ ticksUntil now a < 9223372036854775808 := by
  rw [← Bool.not_eq_true, timeLe_iff]
  omega

/-- The difference of two times, from the current time on. -/
theorem sub_eq_sub_sub (now a b : BitVec 64) : a - b = (a - now) - (b - now) := by
  have ha := a.isLt
  have hb := b.isLt
  have hnow := now.isLt
  apply BitVec.eq_of_toNat_eq
  simp only [BitVec.toNat_sub]
  omega

/-- Times ahead are compared by their distance. -/
theorem timeLt_iff (ha : ticksUntil now a < 9223372036854775808)
    (hb : ticksUntil now b < 9223372036854775808) :
    timeLt a b = true ↔ ticksUntil now a < ticksUntil now b := by
  simp only [ticksUntil] at ha hb ⊢
  rw [timeLt, decide_eq_true_iff, sub_eq_sub_sub now, BitVec.toInt_eq_toNat_cond, BitVec.toNat_sub]
  split <;> omega

theorem timeLe_iff_of_ahead (ha : ticksUntil now a < 9223372036854775808)
    (hb : ticksUntil now b < 9223372036854775808) :
    timeLe a b = true ↔ ticksUntil now a ≤ ticksUntil now b := by
  simp only [ticksUntil] at ha hb ⊢
  rw [timeLe, decide_eq_true_iff, sub_eq_sub_sub now, BitVec.toInt_eq_toNat_cond, BitVec.toNat_sub]
  split <;> omega

theorem ticksUntil_farFuture (now : BitVec 64) :
    ticksUntil now (getFarFuturePerformanceTime now) = 4611686018427387903 := by
  rw [ticksUntil, getFarFuturePerformanceTime, BitVec.add_comm, BitVec.add_sub_cancel]
  decide

end Time

section Table

variable {σ : Type} (table : Nat → ScheduledTimer σ) (now : BitVec 64)

/-- The spark of a place, if it is due. -/
def dueSpark (i : Nat) : Option σ :=
  if timeLe (table i).triggerTimeTicks now then (table i).spark else none

/-- The due sparks of `n` places from the place `i` on. -/
def dueFrom (i n : Nat) : List σ := (List.range' i n).filterMap (dueSpark table now)

/-- The due sparks of the table. -/
def dueSparks : List σ := dueFrom table now 0 maxScheduledTimers

/-- The table without the due sparks of `n` places from the place `i` on. -/
def sweep (i n j : Nat) : ScheduledTimer σ :=
  if i ≤ j ∧ j < i + n ∧ timeLe (table j).triggerTimeTicks now then
    { table j with spark := none }
  else
    table j

/-- The place is occupied and its time lies ahead. -/
def Later (j : Nat) : Prop :=
  (table j).spark ≠ none ∧ timeLe (table j).triggerTimeTicks now = false

instance (j : Nat) : Decidable (Later table now j) :=
  inferInstanceAs (Decidable (_ ∧ _))

/-- The place and the time that the walk over `n` places from the place `i` on ends with. -/
def pickFrom : Nat → Nat → Nat → BitVec 64 → Nat
  | 0, _, nextTimer, _ => nextTimer
  | n + 1, i, nextTimer, earliestTime =>
      if Later table now i ∧ timeLt (table i).triggerTimeTicks earliestTime then
        pickFrom n (i + 1) i (table i).triggerTimeTicks
      else
        pickFrom n (i + 1) nextTimer earliestTime

/-- The place whose time the timer is programmed for, `invalidHandle` if there is none. -/
def nextPlace : Nat :=
  pickFrom table now maxScheduledTimers 0 invalidHandle (getFarFuturePerformanceTime now)

variable {table now}

theorem dueFrom_succ (i n : Nat) :
    dueFrom table now i (n + 1) = (dueSpark table now i).toList ++ dueFrom table now (i + 1) n := by
  rw [dueFrom, List.range'_succ, List.filterMap_cons]
  cases dueSpark table now i <;> rfl

section Congr

variable {table' : Nat → ScheduledTimer σ} {i : Nat}

/-- Places before the walk do not matter. -/
theorem dueFrom_congr (h : ∀ j, i ≤ j → table' j = table j) (n : Nat) :
    dueFrom table' now i n = dueFrom table now i n := by
  induction n generalizing i with
  | zero => rw [dueFrom, dueFrom, List.range'_zero, List.filterMap_nil, List.filterMap_nil]
  | succ n ih =>
      have hstep : ∀ j, i + 1 ≤ j → table' j = table j := fun j hj => h j (Nat.le_of_succ_le hj)
      have hspark : dueSpark table' now i = dueSpark table now i := by
        simp only [dueSpark, h i le_rfl]
      rw [dueFrom_succ, dueFrom_succ, ih hstep, hspark]

theorem pickFrom_congr (h : ∀ j, i ≤ j → table' j = table j) (n nextTimer : Nat)
    (earliestTime : BitVec 64) :
    pickFrom table' now n i nextTimer earliestTime =
      pickFrom table now n i nextTimer earliestTime := by
  induction n generalizing i nextTimer earliestTime with
  | zero => rw [pickFrom, pickFrom]
  | succ n ih =>
      have hstep : ∀ j, i + 1 ≤ j → table' j = table j := fun j hj => h j (by omega)
      have hlater : Later table' now i ↔ Later table now i := by rw [Later, Later, h i le_rfl]
      rw [pickFrom, pickFrom, ih hstep, ih hstep, h i le_rfl]
      exact if_congr (and_congr_left' hlater) rfl rfl

end Congr

/-- The walk from a place on begins with this place. -/
theorem sweep_succ (i n : Nat) :
    sweep (sweep table now i 1) now (i + 1) n = sweep table now i (n + 1) := by
  funext j
  simp only [sweep]
  by_cases hj : j = i
  · subst hj
    by_cases hdue : timeLe (table j).triggerTimeTicks now = true
    · simp [hdue]
    · simp [hdue]
  · have h₁ : ¬ (i ≤ j ∧ j < i + 1 ∧ timeLe (table j).triggerTimeTicks now = true) := by omega
    rw [if_neg h₁]
    by_cases hdue : timeLe (table j).triggerTimeTicks now = true
    · simp only [hdue, and_true]
      split <;> split <;> first | rfl | omega
    · simp [hdue]

theorem sweep_of_lt {i j : Nat} (h : i + 1 ≤ j) : sweep table now i 1 j = table j :=
  if_neg fun hj => absurd hj.2.1 (Nat.not_lt_of_le h)

theorem sweep_zero (i : Nat) : sweep table now i 0 = table := by
  funext j
  exact if_neg fun hj => absurd hj.2.1 (Nat.not_lt_of_le hj.1)

theorem sweep_eq_self (h : dueSpark table now i = none) : sweep table now i 1 = table := by
  funext j
  rw [sweep]
  split
  · next hj =>
      have hij : j = i := by omega
      subst hij
      rw [dueSpark, if_pos hj.2.2] at h
      rw [← h]
  · rfl

@[simp]
theorem sweep_triggerTimeTicks (i n j : Nat) :
    (sweep table now i n j).triggerTimeTicks = (table j).triggerTimeTicks := by
  rw [sweep]
  split <;> rfl

theorem Later.ticksUntil_lt {j : Nat} (h : Later table now j) :
    ticksUntil now (table j).triggerTimeTicks < 9223372036854775808 :=
  (not_timeLe_iff.mp h.2).2

/-- The walk ends with the first of the earliest places ahead of the time it began
with, or as it began when there is none. -/
theorem pickFrom_spec (table : Nat → ScheduledTimer σ) (n i nextTimer : Nat)
    (earliestTime : BitVec 64)
    (hearliest : ticksUntil now earliestTime < 9223372036854775808) :
    (pickFrom table now n i nextTimer earliestTime = nextTimer ∧
      ∀ j, i ≤ j → j < i + n → Later table now j →
        ticksUntil now earliestTime ≤ ticksUntil now (table j).triggerTimeTicks) ∨
    ∃ k, pickFrom table now n i nextTimer earliestTime = k ∧ i ≤ k ∧ k < i + n ∧
      Later table now k ∧
      ticksUntil now (table k).triggerTimeTicks < ticksUntil now earliestTime ∧
      ∀ j, i ≤ j → j < i + n → Later table now j →
        ticksUntil now (table k).triggerTimeTicks ≤
          ticksUntil now (table j).triggerTimeTicks := by
  induction n generalizing i nextTimer earliestTime with
  | zero => exact Or.inl ⟨rfl, fun j hj hjn => absurd hjn (Nat.not_lt_of_le hj)⟩
  | succ n ih =>
      rw [pickFrom]
      split
      · next hpick =>
        have hlt := (timeLt_iff hpick.1.ticksUntil_lt hearliest).mp hpick.2
        rcases ih (i + 1) i _ hpick.1.ticksUntil_lt with
          ⟨heq, hmin⟩ | ⟨k, heq, hik, hkn, hk, hless, hmin⟩
        · refine Or.inr ⟨i, heq, le_rfl, by omega, hpick.1, hlt, fun j hij hjn hj => ?_⟩
          rcases Nat.eq_or_lt_of_le hij with rfl | hij
          · exact le_rfl
          · exact hmin j hij (by omega) hj
        · refine Or.inr ⟨k, heq, by omega, by omega, hk, hless.trans hlt, fun j hij hjn hj => ?_⟩
          rcases Nat.eq_or_lt_of_le hij with rfl | hij
          · exact hless.le
          · exact hmin j hij (by omega) hj
      · next hpick =>
        have hfirst : Later table now i →
            ticksUntil now earliestTime ≤ ticksUntil now (table i).triggerTimeTicks := by
          intro hi
          by_contra hlt
          exact hpick ⟨hi, (timeLt_iff hi.ticksUntil_lt hearliest).mpr (Nat.lt_of_not_le hlt)⟩
        rcases ih (i + 1) nextTimer earliestTime hearliest with
          ⟨heq, hmin⟩ | ⟨k, heq, hik, hkn, hk, hless, hmin⟩
        · refine Or.inl ⟨heq, fun j hij hjn hj => ?_⟩
          rcases Nat.eq_or_lt_of_le hij with rfl | hij
          · exact hfirst hj
          · exact hmin j hij (by omega) hj
        · refine Or.inr ⟨k, heq, by omega, by omega, hk, hless, fun j hij hjn hj => ?_⟩
          rcases Nat.eq_or_lt_of_le hij with rfl | hij
          · exact hless.le.trans (hfirst hj)
          · exact hmin j hij (by omega) hj

/-- The timer is programmed for the earliest place, if its time is less than the far
future ahead, and for none otherwise. -/
theorem nextPlace_spec (table : Nat → ScheduledTimer σ) (now : BitVec 64) :
    (nextPlace table now = invalidHandle ∧ ∀ j < maxScheduledTimers, Later table now j →
      4611686018427387903 ≤ ticksUntil now (table j).triggerTimeTicks) ∨
    (nextPlace table now < maxScheduledTimers ∧ Later table now (nextPlace table now) ∧
      ticksUntil now (table (nextPlace table now)).triggerTimeTicks < 4611686018427387903 ∧
      ∀ j < maxScheduledTimers, Later table now j →
        ticksUntil now (table (nextPlace table now)).triggerTimeTicks ≤
          ticksUntil now (table j).triggerTimeTicks) := by
  have hfar := ticksUntil_farFuture now
  rcases pickFrom_spec table maxScheduledTimers 0 invalidHandle
      (getFarFuturePerformanceTime now) (by rw [hfar]; decide) with
    ⟨heq, hmin⟩ | ⟨k, rfl, -, hk, hlater, hless, hmin⟩
  · exact Or.inl ⟨heq, fun j hj hlater => hfar ▸ hmin j (Nat.zero_le j) (by simpa using hj) hlater⟩
  · refine Or.inr ⟨by simpa [nextPlace] using hk, hlater, hfar ▸ hless, fun j hj hl => ?_⟩
    exact hmin j (Nat.zero_le j) (by simpa using hj) hl

/-- A place is unchanged by the sweep, or its spark is due. -/
theorem sweep_eq_or_due (table : Nat → ScheduledTimer σ) (now : BitVec 64) (j : Nat) :
    sweep table now 0 maxScheduledTimers j = table j ∨
      ∃ spark, j < maxScheduledTimers ∧ (table j).spark = some spark ∧
        timeLe (table j).triggerTimeTicks now = true := by
  rw [sweep]
  split
  · next hdue =>
    rw [Nat.zero_add] at hdue
    cases hspark : (table j).spark with
    | none => exact Or.inl (by rw [← hspark])
    | some spark => exact Or.inr ⟨spark, hdue.2.1, rfl, hdue.2.2⟩
  · exact Or.inl rfl

end Table

namespace Core

variable {σ : Type} {core : Core σ} {now : BitVec 64} {q : List σ}

/-- The queue with room for a spark takes it. -/
theorem deliver_spec (now : BitVec 64) (h : core.pendingSparksFifo.Holds maxSparks q)
    (hroom : q.length + 1 < maxSparks) (i : Nat) (spark : σ) :
    ∃ fifo, core.deliver now i spark = .ok { core with
        scheduledTimers := Function.update core.scheduledTimers i
          { core.scheduledTimers i with spark := none }
        pendingSparksFifo := fifo
        handedOver := (spark, now) :: core.handedOver } ∧
      fifo.Holds maxSparks (q ++ [spark]) := by
  obtain ⟨fifo, hpush, hfifo⟩ := CircularFifo.push_spec spark h hroom
  refine ⟨fifo, ?_, hfifo⟩
  simp only [deliver, addSpark, hpush]
  rfl

theorem deliver_panics (now : BitVec 64) (h : core.pendingSparksFifo.Holds maxSparks q)
    (hfull : q.length + 1 = maxSparks) (i : Nat) (spark : σ) :
    ∃ message, core.deliver now i spark = .error (.panic message) := by
  refine ⟨CircularFifo.circularFifoName ++ " overflow", ?_⟩
  simp only [deliver, addSpark, CircularFifo.push_panics h hfull]
  rfl

/-- The table after one place, when its spark is due. -/
theorem update_eq_sweep {i : Nat} {spark : σ} (h : (core.scheduledTimers i).spark = some spark)
    (hdue : timeLe (core.scheduledTimers i).triggerTimeTicks now = true) :
    Function.update core.scheduledTimers i { core.scheduledTimers i with spark := none } =
      sweep core.scheduledTimers now i 1 := by
  funext j
  rw [sweep]
  by_cases hj : j = i
  · subst hj
    rw [Function.update_self, if_pos ⟨le_rfl, by omega, hdue⟩]
  · rw [Function.update_of_ne hj, if_neg (by omega)]

/-- The walk over `n` places from the place `i` on, when there is room for what is due. -/
theorem findNextFrom_spec (n i nextTimer : Nat) (earliestTime : BitVec 64)
    (h : core.pendingSparksFifo.Holds maxSparks q)
    (hroom : q.length + (dueFrom core.scheduledTimers now i n).length < maxSparks) :
    ∃ fifo, findNextFrom now n i core nextTimer earliestTime = .ok
        ({ core with
          scheduledTimers := sweep core.scheduledTimers now i n
          pendingSparksFifo := fifo
          handedOver := ((dueFrom core.scheduledTimers now i n).map (·, now)).reverse ++
            core.handedOver },
          pickFrom core.scheduledTimers now n i nextTimer earliestTime) ∧
      fifo.Holds maxSparks (q ++ dueFrom core.scheduledTimers now i n) := by
  induction n generalizing core i nextTimer earliestTime q with
  | zero =>
      refine ⟨core.pendingSparksFifo, ?_, ?_⟩
      · rw [sweep_zero]
        rfl
      · rw [dueFrom, List.range'_zero, List.filterMap_nil, List.append_nil]
        exact h
  | succ n ih =>
      rw [dueFrom_succ] at hroom ⊢
      rw [findNextFrom]
      split
      · next hnone =>
        have hdue : dueSpark core.scheduledTimers now i = none := by simp [dueSpark, hnone]
        have hlater : ¬ Later core.scheduledTimers now i := fun hl => hl.1 hnone
        rw [hdue, Option.toList_none, List.nil_append] at hroom ⊢
        rw [← sweep_succ, sweep_eq_self hdue, pickFrom, if_neg fun hl => hlater hl.1]
        exact ih (i + 1) nextTimer earliestTime h hroom
      · next spark hspark =>
        cases hle : timeLe (core.scheduledTimers i).triggerTimeTicks now with
        | true =>
            have hdue : dueSpark core.scheduledTimers now i = some spark := by
              rw [dueSpark, if_pos hle, hspark]
            have hlater : ¬ Later core.scheduledTimers now i := fun hl => by
              exact Bool.noConfusion (hl.2.symm.trans hle)
            rw [hdue, Option.toList_some, List.singleton_append, List.length_cons] at hroom
            obtain ⟨fifo, hdeliver, hfifo⟩ := deliver_spec now h (by omega) i spark
            rw [update_eq_sweep hspark hle] at hdeliver
            have hrest : ∀ j, i + 1 ≤ j →
                sweep core.scheduledTimers now i 1 j = core.scheduledTimers j :=
              fun j hj => sweep_of_lt hj
            obtain ⟨fifo', hwalk, hfifo'⟩ := @ih { core with
                scheduledTimers := sweep core.scheduledTimers now i 1
                pendingSparksFifo := fifo
                handedOver := (spark, now) :: core.handedOver } (q ++ [spark]) (i + 1) nextTimer
              earliestTime hfifo (by
                rw [dueFrom_congr hrest, List.length_append, List.length_singleton]
                omega)
            simp only [dueFrom_congr hrest, pickFrom_congr hrest, sweep_succ] at hwalk hfifo'
            refine ⟨fifo', ?_, ?_⟩
            · rw [if_pos hle, hdeliver, pickFrom, if_neg fun hl => hlater hl.1, hdue]
              simpa using hwalk
            · rw [hdue]
              simpa using hfifo'
        | false =>
            have hdue : dueSpark core.scheduledTimers now i = none := by
              rw [dueSpark, if_neg (Bool.not_eq_true _ ▸ hle)]
            have hlater : Later core.scheduledTimers now i :=
              ⟨hspark ▸ Option.some_ne_none spark, hle⟩
            rw [hdue, Option.toList_none, List.nil_append] at hroom ⊢
            rw [← sweep_succ, sweep_eq_self hdue, pickFrom, if_neg (by simp [hle])]
            cases hlt : timeLt (core.scheduledTimers i).triggerTimeTicks earliestTime with
            | true =>
                rw [if_pos rfl, if_pos ⟨hlater, rfl⟩]
                exact ih (i + 1) i _ h hroom
            | false =>
                rw [if_neg Bool.false_ne_true, if_neg fun hl => Bool.false_ne_true hl.2]
                exact ih (i + 1) nextTimer earliestTime h hroom

/-- Without room for what is due, the queue overflows. -/
theorem findNextFrom_panics (n i nextTimer : Nat) (earliestTime : BitVec 64)
    (h : core.pendingSparksFifo.Holds maxSparks q)
    (hroom : maxSparks ≤ q.length + (dueFrom core.scheduledTimers now i n).length) :
    ∃ message, findNextFrom now n i core nextTimer earliestTime = .error (.panic message) := by
  induction n generalizing core i nextTimer earliestTime q with
  | zero =>
      have hlength := h.length_lt
      rw [dueFrom, List.range'_zero, List.filterMap_nil, List.length_nil] at hroom
      omega
  | succ n ih =>
      rw [dueFrom_succ] at hroom
      rw [findNextFrom]
      split
      · next hnone =>
        rw [dueSpark, hnone, ite_self, Option.toList_none, List.nil_append] at hroom
        exact ih (i + 1) nextTimer earliestTime h hroom
      · next spark hspark =>
        cases hle : timeLe (core.scheduledTimers i).triggerTimeTicks now with
        | true =>
            rw [dueSpark, if_pos hle, hspark, Option.toList_some, List.singleton_append,
              List.length_cons] at hroom
            dsimp only
            rw [if_pos hle]
            by_cases hfull : q.length + 1 = maxSparks
            · obtain ⟨message, hpanic⟩ := deliver_panics now h hfull i spark
              exact ⟨message, by rw [hpanic]; rfl⟩
            · have hlength := h.length_lt
              obtain ⟨fifo, hdeliver, hfifo⟩ := deliver_spec now h (by omega) i spark
              rw [update_eq_sweep hspark hle] at hdeliver
              have hrest : ∀ j, i + 1 ≤ j →
                  sweep core.scheduledTimers now i 1 j = core.scheduledTimers j :=
                fun j hj => sweep_of_lt hj
              obtain ⟨message, hpanic⟩ := @ih { core with
                  scheduledTimers := sweep core.scheduledTimers now i 1
                  pendingSparksFifo := fifo
                  handedOver := (spark, now) :: core.handedOver } (q ++ [spark]) (i + 1) nextTimer
                earliestTime hfifo (by
                  rw [dueFrom_congr hrest, List.length_append, List.length_singleton]
                  omega)
              exact ⟨message, by rw [hdeliver]; exact hpanic⟩
        | false =>
            rw [dueSpark, hle, if_neg Bool.false_ne_true, Option.toList_none, List.nil_append]
              at hroom
            dsimp only
            rw [hle, if_neg Bool.false_ne_true]
            split
            · exact ih (i + 1) i _ h hroom
            · exact ih (i + 1) nextTimer earliestTime h hroom

/-- The core after the due sparks have been delivered to the queue. -/
def settled (core : Core σ) (now : BitVec 64) (fifo : CircularFifo σ) : Core σ :=
  let next := nextPlace core.scheduledTimers now
  { core with
    scheduledTimers := sweep core.scheduledTimers now 0 maxScheduledTimers
    timerIsEnabled := if next = invalidHandle then false else core.timerIsEnabled
    pendingSparksFifo := fifo
    virtualTimer := (core.timerWrites now next).foldl (VirtualTimer.write now) core.virtualTimer
    handedOver := ((dueSparks core.scheduledTimers now).map (·, now)).reverse ++ core.handedOver }

/-- The due sparks are delivered if the queue has room for them. -/
theorem setupTimerForNext_spec (now : BitVec 64) (h : core.pendingSparksFifo.Holds maxSparks q)
    (hroom : q.length + (dueSparks core.scheduledTimers now).length < maxSparks) :
    ∃ fifo, core.setupTimerForNext now = .ok (core.settled now fifo) ∧
      fifo.Holds maxSparks (q ++ dueSparks core.scheduledTimers now) := by
  obtain ⟨fifo, hwalk, hfifo⟩ := findNextFrom_spec maxScheduledTimers 0 invalidHandle
    (getFarFuturePerformanceTime now) h hroom
  refine ⟨fifo, ?_, hfifo⟩
  rw [setupTimerForNext, findNextScheduledTimerTriggerTime, hwalk]
  simp only [bind, Except.bind, pure, Except.pure, settled, timerWrites, sweep_triggerTimeTicks,
    nextPlace, dueSparks]
  rfl

/-- Otherwise the queue overflows. -/
theorem setupTimerForNext_panics (now : BitVec 64) (h : core.pendingSparksFifo.Holds maxSparks q)
    (hroom : maxSparks ≤ q.length + (dueSparks core.scheduledTimers now).length) :
    ∃ message, core.setupTimerForNext now = .error (.panic message) := by
  obtain ⟨message, hwalk⟩ := findNextFrom_panics maxScheduledTimers 0 invalidHandle
    (getFarFuturePerformanceTime now) h hroom
  refine ⟨message, ?_⟩
  rw [setupTimerForNext, findNextScheduledTimerTriggerTime, hwalk]
  rfl

end Core

end RPiKernel.Timer
