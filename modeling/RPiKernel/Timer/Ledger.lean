import RPiKernel.Timer.TimerSystem
import Mathlib.Data.List.Nodup

/-!
# The ledger of a core's timers

What a run of timer operations is about: the sparks that were accepted, and
where each of them is now. An accepted spark is at its place with its time, or
it has been handed over, or cancelled, and no two of these. `Sound` says so,
each change of the ledger keeps it, and every operation of a core is such a
change (`TimerState.next_ledger`).
-/

namespace RPiKernel.Timer

open Interleaving Machine Containers Transition

variable {σ : Type}

/-- The table together with the accounts of the run. -/
structure Ledger (σ : Type) where
  table : Nat → ScheduledTimer (Nat × σ)
  handedOver : List ((Nat × σ) × BitVec 64)
  calls : Nat
  accepted : List (Scheduling σ)
  cancelled : List Nat

namespace Ledger

/-- A spark with its number at a place. -/
def enter (l : Ledger σ) (number handle : Nat) (time : BitVec 64) (spark : σ) : Ledger σ :=
  { l with
    table := Function.update l.table handle ⟨time, some (number, spark)⟩
    accepted := ⟨number, time, spark, handle⟩ :: l.accepted }

/-- A new spark at a place. -/
def accept (l : Ledger σ) (handle : Nat) (time : BitVec 64) (spark : σ) : Ledger σ :=
  { l with
    table := Function.update l.table handle ⟨time, some (l.calls, spark)⟩
    calls := l.calls + 1
    accepted := ⟨l.calls, time, spark, handle⟩ :: l.accepted }

/-- The spark of a place is given up. -/
def giveUp (l : Ledger σ) (handle number : Nat) : Ledger σ :=
  { l with
    table := Function.update l.table handle { l.table handle with spark := none }
    cancelled := number :: l.cancelled }

/-- The due sparks are handed over. -/
def settle (l : Ledger σ) (now : BitVec 64) : Ledger σ :=
  { l with
    table := sweep l.table now 0 maxScheduledTimers
    handedOver := ((dueSparks l.table now).map (·, now)).reverse ++ l.handedOver }

/-- The ledger with sparks that are about to be handed over. -/
def withHand (l : Ledger σ) (hand : List ((Nat × σ) × BitVec 64)) : Ledger σ :=
  { l with handedOver := hand ++ l.handedOver }

/-- The spark of an accepted call is at its place. -/
def IsPending (l : Ledger σ) (a : Scheduling σ) : Prop :=
  l.table a.handle = ⟨a.time, some (a.number, a.spark)⟩

/-- The numbers of the sparks handed over. -/
def delivered (l : Ledger σ) : List Nat := l.handedOver.map fun entry => entry.1.1

/-- Every accepted spark is in one account, and nothing else is in any. -/
structure Sound (l : Ledger σ) : Prop where
  place : ∀ j number spark, (l.table j).spark = some (number, spark) → j < maxScheduledTimers ∧
    ⟨number, (l.table j).triggerTimeTicks, spark, j⟩ ∈ l.accepted ∧
    number ∉ l.delivered ∧ number ∉ l.cancelled
  complete : ∀ a ∈ l.accepted, l.IsPending a ∨ a.number ∈ l.delivered ∨ a.number ∈ l.cancelled
  number_lt : ∀ a ∈ l.accepted, a.number < l.calls
  unique : ∀ a ∈ l.accepted, ∀ b ∈ l.accepted, a.number = b.number → a = b
  handed : ∀ entry ∈ l.handedOver, entry.1.1 ∉ l.cancelled ∧
    ∃ a ∈ l.accepted, entry.1 = (a.number, a.spark)
  once : l.delivered.Nodup
  known : ∀ number ∈ l.cancelled, ∃ a ∈ l.accepted, a.number = number

/-- No spark is handed over by an operation whose reading has not reached its time. -/
def OnTime (l : Ledger σ) : Prop :=
  ∀ entry ∈ l.handedOver, ∀ a ∈ l.accepted, a.number = entry.1.1 → timeLe a.time entry.2 = true

variable {l : Ledger σ} {now : BitVec 64}

theorem mem_dueSparks {table : Nat → ScheduledTimer (Nat × σ)} {x : Nat × σ} :
    x ∈ dueSparks table now ↔ ∃ j < maxScheduledTimers, (table j).spark = some x ∧
      timeLe (table j).triggerTimeTicks now = true := by
  rw [dueSparks, dueFrom, List.mem_filterMap]
  constructor
  · rintro ⟨j, hj, hspark⟩
    rw [List.mem_range'_1, Nat.zero_add] at hj
    rw [dueSpark] at hspark
    split at hspark
    · next hle => exact ⟨j, hj.2, hspark, hle⟩
    · cases hspark
  · rintro ⟨j, hj, hspark, hle⟩
    refine ⟨j, ?_, ?_⟩
    · rw [List.mem_range'_1, Nat.zero_add]
      exact ⟨Nat.zero_le j, hj⟩
    · rw [dueSpark, if_pos hle, hspark]

/-- The numbers handed over grow by those of the due sparks. -/
theorem mem_delivered_settle {number : Nat} : number ∈ (l.settle now).delivered ↔
    (∃ j < maxScheduledTimers, ∃ spark, (l.table j).spark = some (number, spark) ∧
      timeLe (l.table j).triggerTimeTicks now = true) ∨ number ∈ l.delivered := by
  rw [delivered, settle, List.map_append, List.mem_append]
  refine or_congr_left ?_
  simp only [List.map_reverse, List.map_map, List.mem_reverse, List.mem_map, mem_dueSparks,
    Function.comp_apply, Prod.exists]
  constructor
  · rintro ⟨n, spark, ⟨j, hj, hspark, hle⟩, rfl⟩
    exact ⟨j, hj, spark, hspark, hle⟩
  · rintro ⟨j, hj, spark, hspark, hle⟩
    exact ⟨number, spark, ⟨j, hj, hspark, hle⟩, rfl⟩

/-- The accepted call of a spark determines its place. -/
theorem Sound.place_unique (h : l.Sound) {i j number : Nat} {spark spark' : σ}
    (hi : (l.table i).spark = some (number, spark))
    (hj : (l.table j).spark = some (number, spark')) : i = j := by
  have heq := h.unique _ (h.place i number spark hi).2.1 _ (h.place j number spark' hj).2.1 rfl
  exact congrArg Scheduling.handle heq

theorem Sound.delivered_known (h : l.Sound) {number : Nat} (hn : number ∈ l.delivered) :
    ∃ a ∈ l.accepted, a.number = number := by
  obtain ⟨entry, hentry, rfl⟩ := List.mem_map.mp hn
  obtain ⟨-, a, ha, heq⟩ := h.handed entry hentry
  exact ⟨a, ha, (congrArg Prod.fst heq).symm⟩

/-- The next number is new. -/
theorem Sound.number_ne_calls (h : l.Sound) {number : Nat}
    (hn : ∃ a ∈ l.accepted, a.number = number) : number ≠ l.calls := by
  obtain ⟨a, ha, rfl⟩ := hn
  exact (h.number_lt a ha).ne

/-- Numbers can be passed over. -/
theorem Sound.withCalls (h : l.Sound) {calls : Nat} (hle : l.calls ≤ calls) :
    ({ l with calls } : Ledger σ).Sound :=
  ⟨h.place, h.complete, fun a ha => (h.number_lt a ha).trans_le hle, h.unique, h.handed, h.once,
    h.known⟩

theorem Sound.enter (h : l.Sound) {number handle : Nat} (hlt : handle < maxScheduledTimers)
    (hempty : (l.table handle).spark = none) (hnumber : number < l.calls)
    (hfresh : ∀ a ∈ l.accepted, a.number ≠ number) (time : BitVec 64) (spark : σ) :
    (l.enter number handle time spark).Sound := by
  have hunknown : ¬ ∃ a ∈ l.accepted, a.number = number := fun ⟨a, ha, heq⟩ => hfresh a ha heq
  constructor
  case place =>
    intro j number' spark' hj
    dsimp only [Ledger.enter] at hj ⊢
    by_cases hjh : j = handle
    · subst hjh
      rw [Function.update_self] at hj ⊢
      cases hj
      exact ⟨hlt, List.mem_cons_self, fun hn => hunknown (h.delivered_known hn),
        fun hn => hunknown (h.known _ hn)⟩
    · rw [Function.update_of_ne hjh] at hj ⊢
      obtain ⟨hj64, hacc, hdel, hcan⟩ := h.place j number' spark' hj
      exact ⟨hj64, List.mem_cons_of_mem _ hacc, hdel, hcan⟩
  case complete =>
    intro a ha
    rcases List.mem_cons.mp ha with rfl | ha
    · exact Or.inl (Function.update_self handle _ l.table)
    · rcases h.complete a ha with hpending | hgone
      · refine Or.inl ?_
        have hne : a.handle ≠ handle := by
          intro heq
          rw [IsPending, heq] at hpending
          rw [hpending] at hempty
          cases hempty
        exact (Function.update_of_ne hne _ l.table).trans hpending
      · exact Or.inr hgone
  case number_lt =>
    intro a ha
    rcases List.mem_cons.mp ha with rfl | ha
    · exact hnumber
    · exact h.number_lt a ha
  case unique =>
    intro a ha b hb heq
    rcases List.mem_cons.mp ha with rfl | ha <;> rcases List.mem_cons.mp hb with rfl | hb
    · rfl
    · exact absurd heq.symm (hfresh b hb)
    · exact absurd heq (hfresh a ha)
    · exact h.unique a ha b hb heq
  case handed =>
    intro entry hentry
    obtain ⟨hcan, a, ha, heq⟩ := h.handed entry hentry
    exact ⟨hcan, a, List.mem_cons_of_mem _ ha, heq⟩
  case once => exact h.once
  case known =>
    intro number hn
    obtain ⟨a, ha, heq⟩ := h.known number hn
    exact ⟨a, List.mem_cons_of_mem _ ha, heq⟩

theorem Sound.accept (h : l.Sound) {handle : Nat} (hlt : handle < maxScheduledTimers)
    (hempty : (l.table handle).spark = none) (time : BitVec 64) (spark : σ) :
    (l.accept handle time spark).Sound :=
  (h.withCalls (Nat.le_succ l.calls)).enter hlt hempty (Nat.lt_succ_self l.calls)
    (fun a ha => (h.number_lt a ha).ne) time spark

theorem Sound.giveUp (h : l.Sound) {handle number : Nat} {spark : σ}
    (hspark : (l.table handle).spark = some (number, spark)) : (l.giveUp handle number).Sound := by
  obtain ⟨-, hacc, hdel, -⟩ := h.place handle number spark hspark
  constructor
  case place =>
    intro j number' spark' hj
    dsimp only [Ledger.giveUp] at hj ⊢
    by_cases hjh : j = handle
    · rw [hjh, Function.update_self] at hj
      cases hj
    · rw [Function.update_of_ne hjh] at hj ⊢
      obtain ⟨hj64, hacc', hdel', hcan'⟩ := h.place j number' spark' hj
      refine ⟨hj64, hacc', hdel', ?_⟩
      rw [List.mem_cons, not_or]
      refine ⟨?_, hcan'⟩
      rintro rfl
      exact hjh (h.place_unique hj hspark)
  case complete =>
    intro a ha
    rcases h.complete a ha with hpending | hgone | hgone
    · by_cases hah : a.handle = handle
      · refine Or.inr (Or.inr ?_)
        rw [IsPending, hah] at hpending
        rw [hpending] at hspark
        cases hspark
        exact List.mem_cons_self
      · exact Or.inl ((Function.update_of_ne hah _ l.table).trans hpending)
    · exact Or.inr (Or.inl hgone)
    · exact Or.inr (Or.inr (List.mem_cons_of_mem _ hgone))
  case number_lt => exact h.number_lt
  case unique => exact h.unique
  case handed =>
    intro entry hentry
    obtain ⟨hcan, hknown⟩ := h.handed entry hentry
    refine ⟨?_, hknown⟩
    dsimp only [Ledger.giveUp]
    rw [List.mem_cons, not_or]
    refine ⟨?_, hcan⟩
    rintro rfl
    exact hdel (List.mem_map_of_mem hentry)
  case once => exact h.once
  case known =>
    intro n hn
    rcases List.mem_cons.mp hn with rfl | hn
    · exact ⟨_, hacc, rfl⟩
    · exact h.known n hn

/-- A spark that is still there after the sweep was there before, and is not due. -/
theorem sweep_eq_of_some {table : Nat → ScheduledTimer σ} {j : Nat} {spark : σ}
    (h : (sweep table now 0 maxScheduledTimers j).spark = some spark) :
    sweep table now 0 maxScheduledTimers j = table j ∧
      (j < maxScheduledTimers → timeLe (table j).triggerTimeTicks now = false) := by
  rw [sweep] at h ⊢
  split at h
  · cases h
  · next hkeep =>
    rw [if_neg hkeep]
    refine ⟨rfl, fun hj => Bool.eq_false_iff.mpr fun hle => hkeep ⟨Nat.zero_le j, ?_, hle⟩⟩
    rwa [Nat.zero_add]

/-- The time of an empty place does not matter. -/
theorem Sound.retime (h : l.Sound) {handle : Nat} (hempty : (l.table handle).spark = none)
    (time : BitVec 64) :
    ({ l with
      table := Function.update l.table handle { l.table handle with triggerTimeTicks := time } } :
      Ledger σ).Sound := by
  constructor
  case place =>
    intro j number spark hj
    dsimp only at hj ⊢
    by_cases hjh : j = handle
    · subst hjh
      rw [Function.update_self] at hj
      rw [hempty] at hj
      cases hj
    · rw [Function.update_of_ne hjh] at hj ⊢
      exact h.place j number spark hj
  case complete =>
    intro a ha
    refine (h.complete a ha).imp_left fun hpending => ?_
    have hne : a.handle ≠ handle := by
      intro heq
      rw [IsPending, heq] at hpending
      rw [hpending] at hempty
      cases hempty
    exact (Function.update_of_ne hne _ l.table).trans hpending
  case number_lt => exact h.number_lt
  case unique => exact h.unique
  case handed => exact h.handed
  case once => exact h.once
  case known => exact h.known

/-- A single spark is handed over. -/
theorem Sound.take (h : l.Sound) {i number : Nat} {spark : σ}
    (hspark : (l.table i).spark = some (number, spark)) (now : BitVec 64) :
    ({ l with
      table := Function.update l.table i { l.table i with spark := none }
      handedOver := ((number, spark), now) :: l.handedOver } : Ledger σ).Sound := by
  obtain ⟨-, hacc, hdel, hcan⟩ := h.place i number spark hspark
  constructor
  case place =>
    intro j number' spark' hj
    dsimp only at hj ⊢
    by_cases hji : j = i
    · rw [hji, Function.update_self] at hj
      cases hj
    · rw [Function.update_of_ne hji] at hj ⊢
      obtain ⟨hlt, hacc', hdel', hcan'⟩ := h.place j number' spark' hj
      refine ⟨hlt, hacc', ?_, hcan'⟩
      intro hmem
      rcases List.mem_cons.mp hmem with rfl | hmem
      · exact hji (h.place_unique hj hspark)
      · exact hdel' hmem
  case complete =>
    intro a ha
    rcases h.complete a ha with hpending | hgone | hgone
    · by_cases hai : a.handle = i
      · refine Or.inr (Or.inl ?_)
        rw [IsPending, hai] at hpending
        rw [hpending] at hspark
        cases hspark
        exact List.mem_cons_self
      · exact Or.inl ((Function.update_of_ne hai _ l.table).trans hpending)
    · exact Or.inr (Or.inl (List.mem_cons_of_mem _ hgone))
    · exact Or.inr (Or.inr hgone)
  case number_lt => exact h.number_lt
  case unique => exact h.unique
  case handed =>
    intro entry hentry
    rcases List.mem_cons.mp hentry with rfl | hentry
    · exact ⟨hcan, _, hacc, rfl⟩
    · exact h.handed entry hentry
  case once => exact List.nodup_cons.mpr ⟨hdel, h.once⟩
  case known => exact h.known

theorem Sound.settle_once (h : l.Sound) (now : BitVec 64) : (l.settle now).delivered.Nodup := by
  have hdue : ((dueSparks l.table now).map Prod.fst).Nodup := by
    rw [dueSparks, dueFrom, List.map_filterMap]
    refine List.Nodup.filterMap ?_ List.nodup_range'
    intro i j number hi hj
    simp only [Option.mem_def, Option.map_eq_some_iff, Prod.exists, exists_and_right,
      exists_eq_right] at hi hj
    obtain ⟨spark, hi⟩ := hi
    obtain ⟨spark', hj⟩ := hj
    rw [dueSpark] at hi hj
    split at hi
    · split at hj
      · exact h.place_unique hi hj
      · cases hj
    · cases hi
  have hsplit : (l.settle now).delivered =
      ((dueSparks l.table now).map Prod.fst).reverse ++ l.delivered := by
    simp only [delivered, Ledger.settle, List.map_append, List.map_reverse, List.map_map]
    rfl
  rw [hsplit, List.nodup_append]
  refine ⟨List.nodup_reverse.mpr hdue, h.once, ?_⟩
  rintro number hn _ hdel rfl
  simp only [List.mem_reverse, List.mem_map, mem_dueSparks, Prod.exists, exists_and_right,
    exists_eq_right] at hn
  obtain ⟨spark, j, -, hspark, -⟩ := hn
  exact (h.place j number spark hspark).2.2.1 hdel

theorem Sound.settle (h : l.Sound) (now : BitVec 64) : (l.settle now).Sound := by
  constructor
  case place =>
    intro j number spark hj
    dsimp only [Ledger.settle] at hj
    obtain ⟨hsame, hahead⟩ := sweep_eq_of_some hj
    rw [hsame] at hj
    obtain ⟨hj64, hacc, hdel, hcan⟩ := h.place j number spark hj
    refine ⟨hj64, ?_, ?_, hcan⟩
    · dsimp only [Ledger.settle]
      rw [hsame]
      exact hacc
    · rw [mem_delivered_settle, not_or]
      refine ⟨?_, hdel⟩
      rintro ⟨i, -, spark', hi, hle⟩
      rw [h.place_unique hi hj, hahead hj64] at hle
      cases hle
  case complete =>
    intro a ha
    rcases h.complete a ha with hpending | hgone | hgone
    · rw [IsPending] at hpending
      have hspark : (l.table a.handle).spark = some (a.number, a.spark) := by rw [hpending]
      obtain ⟨hlt, -, -, -⟩ := h.place _ _ _ hspark
      cases hle : timeLe (l.table a.handle).triggerTimeTicks now with
      | true =>
          exact Or.inr (Or.inl (mem_delivered_settle.mpr
            (Or.inl ⟨a.handle, hlt, a.spark, hspark, hle⟩)))
      | false =>
          refine Or.inl (Eq.trans ?_ hpending)
          exact if_neg fun hdue => Bool.false_ne_true (hle.symm.trans hdue.2.2)
    · exact Or.inr (Or.inl (mem_delivered_settle.mpr (Or.inr hgone)))
    · exact Or.inr (Or.inr hgone)
  case number_lt => exact h.number_lt
  case unique => exact h.unique
  case handed =>
    intro entry hentry
    dsimp only [Ledger.settle] at hentry ⊢
    rw [List.mem_append, List.mem_reverse, List.mem_map] at hentry
    rcases hentry with ⟨⟨number, spark⟩, hdue, rfl⟩ | hentry
    · obtain ⟨j, -, hspark, -⟩ := mem_dueSparks.mp hdue
      obtain ⟨-, hacc, -, hcan⟩ := h.place j number spark hspark
      exact ⟨hcan, _, hacc, rfl⟩
    · exact h.handed entry hentry
  case once => exact h.settle_once now
  case known => exact h.known

theorem OnTime.accept (h : l.OnTime) (hsound : l.Sound) (handle : Nat) (time : BitVec 64)
    (spark : σ) : (l.accept handle time spark).OnTime := by
  intro entry hentry a ha heq
  rcases List.mem_cons.mp ha with rfl | ha
  · obtain ⟨-, b, hb, hnumber⟩ := hsound.handed entry hentry
    have hne := hsound.number_ne_calls ⟨b, hb, (congrArg Prod.fst hnumber).symm⟩
    exact absurd heq.symm hne
  · exact h entry hentry a ha heq

theorem OnTime.settle (h : l.OnTime) (hsound : l.Sound) (now : BitVec 64) :
    (l.settle now).OnTime := by
  intro entry hentry a ha heq
  dsimp only [Ledger.settle] at hentry
  rw [List.mem_append, List.mem_reverse, List.mem_map] at hentry
  rcases hentry with ⟨⟨number, spark⟩, hdue, rfl⟩ | hentry
  · obtain ⟨j, -, hspark, hle⟩ := mem_dueSparks.mp hdue
    obtain ⟨-, hacc, -, -⟩ := hsound.place j number spark hspark
    rw [hsound.unique a ha _ hacc heq]
    exact hle
  · exact h entry hentry a ha heq

/-- The order of the sparks handed over does not matter. -/
theorem Sound.perm (h : l.Sound) {handedOver : List ((Nat × σ) × BitVec 64)}
    (hp : l.handedOver.Perm handedOver) : ({ l with handedOver } : Ledger σ).Sound := by
  have hdelivered : l.delivered.Perm ({ l with handedOver } : Ledger σ).delivered :=
    List.Perm.map (fun entry : (Nat × σ) × BitVec 64 => entry.1.1) hp
  constructor
  case place =>
    intro j number spark hj
    obtain ⟨hlt, hacc, hdel, hcan⟩ := h.place j number spark hj
    exact ⟨hlt, hacc, fun hn => hdel (hdelivered.mem_iff.mpr hn), hcan⟩
  case complete =>
    intro a ha
    rcases h.complete a ha with hpending | hgone | hgone
    · exact Or.inl hpending
    · exact Or.inr (Or.inl (hdelivered.mem_iff.mp hgone))
    · exact Or.inr (Or.inr hgone)
  case number_lt => exact h.number_lt
  case unique => exact h.unique
  case handed => exact fun entry hentry => h.handed entry (hp.mem_iff.mpr hentry)
  case once => exact hdelivered.nodup_iff.mp h.once
  case known => exact h.known

/-- A set-up in between does not disturb the sparks that are about to be handed over. -/
theorem Sound.settle_withHand (l : Ledger σ) (hand : List ((Nat × σ) × BitVec 64))
    (h : (l.withHand hand).Sound) (now : BitVec 64) : ((l.settle now).withHand hand).Sound :=
  (h.settle now).perm (List.perm_append_comm_assoc _ hand l.handedOver)

theorem sound_empty : (⟨fun _ => {}, [], 0, [], []⟩ : Ledger σ).Sound := by
  constructor
  case place =>
    intro j number spark hj
    cases hj
  case complete => exact fun a ha => absurd ha List.not_mem_nil
  case number_lt => exact fun a ha => absurd ha List.not_mem_nil
  case unique => exact fun a ha => absurd ha List.not_mem_nil
  case handed => exact fun entry hentry => absurd hentry List.not_mem_nil
  case once => exact List.nodup_nil
  case known => exact fun number hn => absurd hn List.not_mem_nil

end Ledger

namespace TimerState

variable {s s' : TimerState σ}

/-- The ledger of a state. -/
def ledger (s : TimerState σ) : Ledger σ :=
  ⟨s.core.scheduledTimers, s.core.handedOver, s.calls, s.accepted, s.cancelled⟩

/-- What an operation does to the ledger. -/
inductive LedgerStep (s s' : TimerState σ) : TimerAction σ → Prop where
  | quiet {a : TimerAction σ} (calls : Nat) (hcalls : s.calls ≤ calls)
      (hsettled : s'.settledAt = none) (hledger : s'.ledger = { s.ledger with calls }) :
      LedgerStep s s' a
  | schedule {now time : BitVec 64} {spark : σ} (handle : Nat) (hlt : handle < maxScheduledTimers)
      (hempty : (s.core.scheduledTimers handle).spark = none) (hsettled : s'.settledAt = some now)
      (hledger : s'.ledger = (s.ledger.accept handle time spark).settle now) :
      LedgerStep s s' (.schedule now time (some spark))
  | cancel {now : BitVec 64} {handle : Nat} (number : Nat) (spark : σ)
      (hlt : handle < maxScheduledTimers)
      (hspark : (s.core.scheduledTimers handle).spark = some (number, spark))
      (hsettled : s'.settledAt = some now)
      (hledger : s'.ledger = (s.ledger.giveUp handle number).settle now) :
      LedgerStep s s' (.cancel now handle)
  | interrupt {now : BitVec 64} (hsettled : s'.settledAt = some now)
      (hledger : s'.ledger = s.ledger.settle now) : LedgerStep s s' (.interrupt now)

theorem next_ledger (hs : s.Wellformed) (a : TimerAction σ) (h : s.next a = .ok s') :
    LedgerStep s s' a := by
  obtain ⟨q, hq⟩ := hs.holds
  rcases next_cases hq a h with hquiet |
    ⟨now, time, spark, handle, core₁, rfl, hfind, hsetup, rfl⟩ |
    ⟨now, handle, ⟨number, spark⟩, core₁, rfl, hlt, hspark, hsetup, rfl⟩ |
    ⟨now, core₁, rfl, hsetup, rfl⟩
  · refine LedgerStep.quiet s'.calls hquiet.calls_le hquiet.settledAt_eq ?_
    rw [ledger, hquiet.core_eq, hquiet.accepted_eq, hquiet.cancelled_eq]
    rfl
  · obtain ⟨fifo, rfl, -⟩ := Core.setupTimerForNext_ok (by exact hq) hsetup
    obtain ⟨hlt, hempty⟩ := Core.findEmptyFrom_some hfind
    exact LedgerStep.schedule handle hlt hempty rfl rfl
  · obtain ⟨fifo, rfl, -⟩ := Core.setupTimerForNext_ok (by exact hq) hsetup
    exact LedgerStep.cancel number spark hlt hspark rfl rfl
  · obtain ⟨fifo, rfl, -⟩ := Core.setupTimerForNext_ok (by exact hq) hsetup
    exact LedgerStep.interrupt rfl rfl

/-- An operation keeps the ledger sound, whatever is about to be handed over. -/
theorem LedgerStep.sound_withHand {a : TimerAction σ} (h : LedgerStep s s' a)
    (hand : List ((Nat × σ) × BitVec 64)) (hs : (s.ledger.withHand hand).Sound) :
    (s'.ledger.withHand hand).Sound := by
  cases h with
  | quiet calls hcalls hsettled hledger => exact hledger ▸ hs.withCalls hcalls
  | schedule handle hlt hempty hsettled hledger =>
      exact hledger ▸ Ledger.Sound.settle_withHand (s.ledger.accept handle _ _) hand
        (hs.accept hlt hempty _ _) _
  | cancel number spark hlt hspark hsettled hledger =>
      exact hledger ▸ Ledger.Sound.settle_withHand (s.ledger.giveUp _ number) hand
        (hs.giveUp hspark) _
  | interrupt hsettled hledger =>
      exact hledger ▸ Ledger.Sound.settle_withHand s.ledger hand hs _

theorem LedgerStep.sound {a : TimerAction σ} (h : LedgerStep s s' a) (hs : s.ledger.Sound) :
    s'.ledger.Sound :=
  h.sound_withHand [] hs

/-- Numbers are given out in their order. -/
theorem LedgerStep.calls_le {a : TimerAction σ} (h : LedgerStep s s' a) :
    s.calls ≤ s'.calls ∧ ∀ b ∈ s'.accepted, b ∈ s.accepted ∨ s.calls ≤ b.number := by
  cases h with
  | quiet calls hcalls hsettled hledger =>
      have hacc : s'.accepted = s.accepted := congrArg Ledger.accepted hledger
      have hcalls' : s'.calls = calls := congrArg Ledger.calls hledger
      exact ⟨hcalls'.symm ▸ hcalls, fun b hb => Or.inl (hacc ▸ hb)⟩
  | schedule handle hlt hempty hsettled hledger =>
      have hcalls : s'.calls = s.calls + 1 := congrArg Ledger.calls hledger
      have hacc : s'.accepted = _ :: s.accepted := congrArg Ledger.accepted hledger
      refine ⟨hcalls ▸ Nat.le_succ _, fun b hb => ?_⟩
      rcases List.mem_cons.mp (hacc ▸ hb) with rfl | hb
      · exact Or.inr le_rfl
      · exact Or.inl hb
  | cancel number spark hlt hspark hsettled hledger =>
      have hcalls : s'.calls = s.calls := congrArg Ledger.calls hledger
      have hacc : s'.accepted = s.accepted := congrArg Ledger.accepted hledger
      exact ⟨hcalls.ge, fun b hb => Or.inl (hacc ▸ hb)⟩
  | interrupt hsettled hledger =>
      have hcalls : s'.calls = s.calls := congrArg Ledger.calls hledger
      have hacc : s'.accepted = s.accepted := congrArg Ledger.accepted hledger
      exact ⟨hcalls.ge, fun b hb => Or.inl (hacc ▸ hb)⟩

theorem LedgerStep.onTime {a : TimerAction σ} (h : LedgerStep s s' a) (hs : s.ledger.Sound)
    (htime : s.ledger.OnTime) : s'.ledger.OnTime := by
  cases h with
  | quiet calls hcalls hsettled hledger =>
      rw [hledger]
      exact htime
  | schedule handle hlt hempty hsettled hledger =>
      exact hledger ▸ (htime.accept hs _ _ _).settle (hs.accept hlt hempty _ _) _
  | cancel number spark hlt hspark hsettled hledger =>
      exact hledger ▸ Ledger.OnTime.settle (by exact htime) (hs.giveUp hspark) _
  | interrupt hsettled hledger => exact hledger ▸ htime.settle hs _

/-- In every reachable state the ledger is sound. -/
theorem sound (h : (timerSystem σ).Reachable s) : s.Wellformed ∧ s.ledger.Sound := by
  apply System.Reachable.invariant _ _ h
  · rintro s rfl
    exact ⟨wellformed_initial, Ledger.sound_empty⟩
  · rintro s a s' ⟨hwf, hsound⟩ hnext
    have hok := next_ok hnext
    exact ⟨hwf.next a hok, (next_ledger hwf a hok).sound hsound⟩

/-- In every reachable state no spark has been handed over too early. -/
theorem onTime (h : (timerSystem σ).Reachable s) : s.ledger.OnTime := by
  apply System.ReachableBy.invariant_of_reachable _ _ h
  · rintro s rfl
    exact fun entry hentry => absurd hentry List.not_mem_nil
  · intro s a s' hs htime _ hnext
    exact (next_ledger (wellformed hs) a (next_ok hnext)).onTime (sound hs).2 htime

end TimerState

end RPiKernel.Timer
