import RPiKernel.Timer.Ledger

/-!
# The life of a scheduled spark

In a run whose times all lie in one window of 2^62 ticks, the order of times is
the order of their distances from the beginning of the window. An accepted spark
waits at one place with its own time until it is handed over, once and not
before its time, or is cancelled.
-/

namespace RPiKernel.Timer

open Interleaving Machine Containers Transition

variable {σ : Type}

/-- The time lies in the window that begins at `base`. -/
def InWindow (base time : BitVec 64) : Prop := ticksUntil base time < 4611686018427387904

instance (base time : BitVec 64) : Decidable (InWindow base time) :=
  inferInstanceAs (Decidable (_ < _))

/-- The times of the operation lie in the window. -/
def TimesInWindow (base : BitVec 64) (_ : TimerState σ) : TimerAction σ → Prop
  | .schedule now time _ => InWindow base now ∧ InWindow base time
  | .cancel now _ => InWindow base now
  | .interrupt now => InWindow base now
  | .addSpark _ => True
  | .getNextScheduledSpark => True

instance (base : BitVec 64) (s : TimerState σ) (a : TimerAction σ) :
    Decidable (TimesInWindow base s a) :=
  match a with
  | .schedule now time _ => inferInstanceAs (Decidable (InWindow base now ∧ InWindow base time))
  | .cancel now _ => inferInstanceAs (Decidable (InWindow base now))
  | .interrupt now => inferInstanceAs (Decidable (InWindow base now))
  | .addSpark _ => isTrue trivial
  | .getNextScheduledSpark => isTrue trivial

/-- The life of the accepted sparks, with times counted from the beginning of the window. -/
structure Lifecycle (base : BitVec 64) (s : TimerState σ) : Prop where
  /-- No number is handed over twice. -/
  once : (s.core.handedOver.map fun entry => entry.1.1).Nodup
  /-- A spark is handed over by an operation whose reading has reached its time. -/
  due : ∀ a ∈ s.accepted, ∀ spark now, ((a.number, spark), now) ∈ s.core.handedOver →
    spark = a.spark ∧ ticksUntil base a.time ≤ ticksUntil base now
  /-- A cancelled spark is not handed over. -/
  cancelled : ∀ number ∈ s.cancelled, ∀ spark now,
    ((number, spark), now) ∉ s.core.handedOver
  /-- Any other spark is at exactly one place, with its own time. -/
  pending : ∀ a ∈ s.accepted, a.number ∉ s.cancelled →
    (∀ spark now, ((a.number, spark), now) ∉ s.core.handedOver) →
    ∃! j, j < maxScheduledTimers ∧ s.core.scheduledTimers j = ⟨a.time, some (a.number, a.spark)⟩
  /-- After a set-up, the times of all occupied places lie after the reading. -/
  settled : ∀ now, s.settledAt = some now → ∀ j < maxScheduledTimers,
    (s.core.scheduledTimers j).spark ≠ none →
    ticksUntil base now < ticksUntil base (s.core.scheduledTimers j).triggerTimeTicks

/-- The times of the ledger lie in the window, and those of occupied places ahead of the
last set-up. -/
structure Windowed (base : BitVec 64) (s : TimerState σ) : Prop where
  accepted : ∀ a ∈ s.accepted, InWindow base a.time
  handedOver : ∀ entry ∈ s.core.handedOver, InWindow base entry.2
  settledAt : ∀ now, s.settledAt = some now → InWindow base now
  ahead : ∀ now, s.settledAt = some now → ∀ j < maxScheduledTimers,
    (s.core.scheduledTimers j).spark ≠ none →
    timeLe (s.core.scheduledTimers j).triggerTimeTicks now = false

namespace TimerState

variable {base : BitVec 64} {s s' : TimerState σ}

/-- The entries that a set-up hands over carry its reading. -/
theorem handedOver_settle {l : Ledger σ} {now : BitVec 64} {entry : (Nat × σ) × BitVec 64}
    (h : entry ∈ (l.settle now).handedOver) : entry.2 = now ∨ entry ∈ l.handedOver := by
  rw [Ledger.settle, List.mem_append, List.mem_reverse, List.mem_map] at h
  rcases h with ⟨x, -, rfl⟩ | h
  · exact Or.inl rfl
  · exact Or.inr h

/-- A set-up leaves nothing due. -/
theorem ahead_of_settle {l : Ledger σ} {now : BitVec 64}
    (h : s'.ledger = l.settle now) (j : Nat) (hj : j < maxScheduledTimers)
    (hspark : (s'.core.scheduledTimers j).spark ≠ none) :
    timeLe (s'.core.scheduledTimers j).triggerTimeTicks now = false := by
  have htable : s'.core.scheduledTimers = sweep l.table now 0 maxScheduledTimers :=
    congrArg Ledger.table h
  rw [htable] at hspark ⊢
  obtain ⟨spark, hsome⟩ := Option.ne_none_iff_exists'.mp hspark
  obtain ⟨hsame, hahead⟩ := Ledger.sweep_eq_of_some hsome
  rw [hsame]
  exact hahead hj

/-- A set-up whose reading lies in the window. -/
theorem windowed_of_settle {l : Ledger σ} {now : BitVec 64} (hnow : InWindow base now)
    (hledger : s'.ledger = l.settle now) (hsettled : s'.settledAt = some now)
    (haccepted : ∀ a ∈ l.accepted, InWindow base a.time)
    (hhanded : ∀ entry ∈ l.handedOver, InWindow base entry.2) : Windowed base s' := by
  have hacc : s'.accepted = l.accepted := congrArg Ledger.accepted hledger
  have hover : s'.core.handedOver = (l.settle now).handedOver := congrArg Ledger.handedOver hledger
  constructor
  · exact hacc ▸ haccepted
  · intro entry hentry
    rw [hover] at hentry
    rcases handedOver_settle hentry with heq | hentry
    · exact heq ▸ hnow
    · exact hhanded entry hentry
  · intro now' hnow'
    cases hsettled.symm.trans hnow'
    exact hnow
  · intro now' hnow'
    cases hsettled.symm.trans hnow'
    exact ahead_of_settle hledger

theorem LedgerStep.windowed {a : TimerAction σ} (h : LedgerStep s s' a) (hs : Windowed base s)
    (ha : TimesInWindow base s a) : Windowed base s' := by
  cases h with
  | quiet calls hcalls hsettled hledger =>
      have hacc : s'.accepted = s.accepted := congrArg Ledger.accepted hledger
      have hover : s'.core.handedOver = s.core.handedOver := congrArg Ledger.handedOver hledger
      refine ⟨hacc ▸ hs.accepted, hover ▸ hs.handedOver, ?_, ?_⟩
      all_goals
        intro now hnow
        cases hsettled.symm.trans hnow
  | schedule handle hlt hempty hsettled hledger =>
      refine windowed_of_settle ha.1 hledger hsettled (fun b hb => ?_) hs.handedOver
      rcases List.mem_cons.mp hb with rfl | hb
      · exact ha.2
      · exact hs.accepted b hb
  | cancel number spark hlt hspark hsettled hledger =>
      exact windowed_of_settle ha hledger hsettled hs.accepted hs.handedOver
  | interrupt hsettled hledger =>
      exact windowed_of_settle ha hledger hsettled hs.accepted hs.handedOver

theorem windowed (h : (timerSystem σ).ReachableBy (TimesInWindow base) s) : Windowed base s := by
  apply System.ReachableBy.invariant_of_reachable _ _ h
  · rintro s rfl
    constructor
    · exact fun a ha => absurd ha List.not_mem_nil
    · exact fun entry hentry => absurd hentry List.not_mem_nil
    · exact fun now hnow => nomatch hnow
    · exact fun now hnow => nomatch hnow
  · intro s a s' hs hwindow ha hnext
    exact (next_ledger (wellformed hs) a (next_ok hnext)).windowed hwindow ha

end TimerState

/-- The order of the window is the order of the code. -/
theorem timeLe_iff_of_inWindow {base a b : BitVec 64} (ha : InWindow base a)
    (hb : InWindow base b) : timeLe a b = true ↔ ticksUntil base a ≤ ticksUntil base b := by
  rw [InWindow] at ha hb
  exact timeLe_iff_of_ahead (by omega) (by omega)

end RPiKernel.Timer
