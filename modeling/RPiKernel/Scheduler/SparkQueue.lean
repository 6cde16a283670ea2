import Mathlib.Data.List.Nodup
import RPiKernel.Timer.CoreTimer
import RPiKernel.Transition.System

/-!
# The spark queue under interrupts

A coroutine runs `AddSpark` with interrupts enabled, and the handlers run
`AddSpark` and `GetNextScheduledSpark` on the same queue. The queue keeps all
sparks as long as no handler adds one between the first read of `Head` and the
write of `Head`.

## Implementation notes

`AddSpark` of the coroutine is a sequence of single reads and writes, an
interrupt a list of complete calls between two of them. Sparks are numbered in
the order in which they are passed to `AddSpark`. A call is possible when it
leaves at most 63 sparks queued; a panic ends the run.
-/

namespace RPiKernel.Scheduler

open Interleaving Machine Containers Transition Timer

variable {σ : Type}

/-- Where the `AddSpark` of the coroutine stands: its next read, write or comparison. -/
inductive PushPoint (σ : Type) where
  | readHead (spark : Nat × σ)
  | writeData (spark : Nat × σ) (index : Nat)
  | readHeadAgain (spark : Nat × σ)
  | writeHead (spark : Nat × σ) (head : Nat)
  | compare (spark : Nat × σ)

/-- The queue, the `AddSpark` in progress, the sparks passed to `AddSpark` and what `Pop`
has returned, each with the latest first. -/
structure SparkQueue (σ : Type) where
  fifo : CircularFifo (Nat × σ) := {}
  addSpark : Option (PushPoint σ) := none
  passed : List (Nat × σ) := []
  returned : List (Option (Nat × σ)) := []
  panicked : Bool := false

/-- A complete call of an interrupt handler. -/
inductive HandlerCall (σ : Type) where
  | addSpark (spark : σ)
  | getNextScheduledSpark

inductive QueueAction (σ : Type) where
  | addSpark (spark : σ)
  | step
  | interrupt (calls : List (HandlerCall σ))

namespace SparkQueue

/-- The sparks that have been passed and not returned. -/
def queued (s : SparkQueue σ) : Nat := s.passed.length - s.returned.length

def call (s : SparkQueue σ) : HandlerCall σ → Option (SparkQueue σ)
  | .addSpark spark =>
      if s.queued + 1 < maxSparks then
        let passed := (s.passed.length, spark) :: s.passed
        match s.fifo.push maxSparks (s.passed.length, spark) with
        | .ok fifo => some { s with fifo, passed }
        | .error _ => some { s with passed, panicked := true }
      else
        none
  | .getNextScheduledSpark =>
      if s.fifo.isEmpty then
        some s
      else
        match s.fifo.pop maxSparks with
        | .ok (spark, fifo) => some { s with fifo, returned := spark :: s.returned }
        | .error _ => some { s with panicked := true }

/-- The calls of an interrupt, up to a panic. -/
def calls (s : SparkQueue σ) : List (HandlerCall σ) → Option (SparkQueue σ)
  | [] => some s
  | c :: cs =>
      match s.call c with
      | some s' => if s'.panicked then some s' else calls s' cs
      | none => none

/-- One read, write or comparison of the `AddSpark` in progress. -/
def step (s : SparkQueue σ) : Option (SparkQueue σ) :=
  match s.addSpark with
  | none => none
  | some (.readHead spark) => some { s with addSpark := some (.writeData spark s.fifo.head) }
  | some (.writeData spark index) => some { s with
      fifo := { s.fifo with data := Function.update s.fifo.data index (some spark) }
      addSpark := some (.readHeadAgain spark) }
  | some (.readHeadAgain spark) => some { s with addSpark := some (.writeHead spark s.fifo.head) }
  | some (.writeHead spark head) => some { s with
      fifo := { s.fifo with head := (head + 1) % maxSparks }
      addSpark := some (.compare spark) }
  | some (.compare _) =>
      if s.fifo.head = s.fifo.tail then some { s with panicked := true }
      else some { s with addSpark := none }

def next (s : SparkQueue σ) : QueueAction σ → Option (SparkQueue σ)
  | .addSpark spark =>
      if !s.panicked ∧ s.addSpark.isNone ∧ s.queued + 1 < maxSparks then
        some { s with
          addSpark := some (.readHead (s.passed.length, spark))
          passed := (s.passed.length, spark) :: s.passed }
      else
        none
  | .step => if s.panicked then none else s.step
  | .interrupt cs => if s.panicked then none else s.calls cs

/-- The coroutine stands between its first read of `Head` and its write of `Head`. -/
def insideAddSpark (s : SparkQueue σ) : Bool :=
  match s.addSpark with
  | some (.writeData _ _) => true
  | some (.readHeadAgain _) => true
  | some (.writeHead _ _) => true
  | _ => false

/-- The coroutine has written `Head` and not compared it. -/
def beforeCompare (s : SparkQueue σ) : Bool :=
  match s.addSpark with
  | some (.compare _) => true
  | _ => false

/-- The spark of the `AddSpark` in progress, until `Head` is written. -/
def inFlight (s : SparkQueue σ) : List (Nat × σ) :=
  match s.addSpark with
  | none => []
  | some (.readHead spark) => [spark]
  | some (.writeData spark _) => [spark]
  | some (.readHeadAgain spark) => [spark]
  | some (.writeHead spark _) => [spark]
  | some (.compare _) => []

end SparkQueue

def HandlerCall.isAddSpark : HandlerCall σ → Bool
  | .addSpark _ => true
  | .getNextScheduledSpark => false

/-- The runs of the queue of a core. -/
def queueSystem (σ : Type) : System (SparkQueue σ) (QueueAction σ) where
  Initial s := s = {}
  next := SparkQueue.next

/-- Without an interrupt, the steps of `AddSpark` are a push. -/
theorem steps_eq_push (s : SparkQueue σ) (spark : Nat × σ)
    (h : s.addSpark = some (.readHead spark)) :
    ((((s.step.bind SparkQueue.step).bind SparkQueue.step).bind SparkQueue.step).bind
      SparkQueue.step) =
    match s.fifo.push maxSparks spark with
    | .ok fifo => some { s with fifo, addSpark := none }
    | .error _ => some { s with
        fifo := { s.fifo with
          data := Function.update s.fifo.data s.fifo.head (some spark)
          head := (s.fifo.head + 1) % maxSparks }
        addSpark := some (.compare spark)
        panicked := true } := by
  simp only [SparkQueue.step, h, Option.bind_some, CircularFifo.push]
  by_cases heq : (s.fifo.head + 1) % maxSparks = s.fifo.tail
  · simp only [heq, if_true]
  · simp only [heq, if_false]

/-- What the sparks passed to `AddSpark` are owed: `Pop` returns only them, none of them
twice, and those that it has not returned are in the queue or still on their way. Once
no `AddSpark` is in progress, popping returns them all. -/
structure Intact (s : SparkQueue σ) : Prop where
  returned_passed : ∀ spark ∈ s.returned, ∃ x ∈ s.passed, spark = some x
  once : s.returned.Nodup
  kept : ∀ x ∈ s.passed, some x ∈ s.returned ∨ x ∈ s.fifo.contents maxSparks ∨ x ∈ s.inFlight
  drained : s.panicked = false → s.addSpark = none → ∃ n s',
    s.next (.interrupt (List.replicate n .getNextScheduledSpark)) = some s' ∧
      ∀ x ∈ s.passed, some x ∈ s'.returned

/-- What the step of the `AddSpark` in progress has found in the queue. -/
def PointSound (s : SparkQueue σ) : Prop :=
  match s.addSpark with
  | some (.writeData _ index) => index = s.fifo.head
  | some (.readHeadAgain spark) => s.fifo.data s.fifo.head = some spark
  | some (.writeHead spark head) => head = s.fifo.head ∧ s.fifo.data s.fifo.head = some spark
  | _ => True

/-- The sparks passed are those returned, those queued and the one on its way. -/
structure QueueSound (s : SparkQueue σ) (q r : List (Nat × σ)) : Prop where
  holds : s.fifo.Holds maxSparks q
  returned : s.returned = r.map some
  accounts : s.passed.Perm (r ++ q ++ s.inFlight)
  numbers : s.passed.map Prod.fst = (List.range s.passed.length).reverse
  room : s.queued < maxSparks
  point : PointSound s

namespace QueueSound

variable {s s' : SparkQueue σ} {q r : List (Nat × σ)}

theorem queued_eq (h : QueueSound s q r) : s.queued = q.length + s.inFlight.length := by
  have hlength := h.accounts.length_eq
  rw [List.length_append, List.length_append] at hlength
  rw [SparkQueue.queued, h.returned, List.length_map, hlength]
  omega

theorem nodup (h : QueueSound s q r) : s.passed.Nodup := by
  have hnumbers : (s.passed.map Prod.fst).Nodup := by
    rw [h.numbers, List.nodup_reverse]
    exact List.nodup_range
  exact hnumbers.of_map Prod.fst

theorem initial : QueueSound ({} : SparkQueue σ) [] [] :=
  ⟨CircularFifo.holds_empty (by decide), rfl, List.Perm.refl [], rfl, (by decide : 0 < maxSparks),
    trivial⟩

theorem numbers_cons (h : QueueSound s q r) (spark : σ) :
    ((s.passed.length, spark) :: s.passed).map Prod.fst =
      (List.range ((s.passed.length, spark) :: s.passed).length).reverse := by
  rw [List.map_cons, h.numbers, List.length_cons, List.range_succ, List.reverse_append]
  rfl

theorem pointSound_of_outside (h : s.insideAddSpark = false) : PointSound s := by
  rw [SparkQueue.insideAddSpark] at h
  rw [PointSound]
  split at h
  · cases h
  · cases h
  · cases h
  · exact trivial

/-- A pop by a handler. -/
theorem pop (h : QueueSound s q r) (hs : s.call .getNextScheduledSpark = some s') :
    s'.addSpark = s.addSpark ∧ s'.panicked = s.panicked ∧ s'.passed = s.passed ∧
      QueueSound s' q.tail (q.take 1 ++ r) := by
  rw [SparkQueue.call] at hs
  cases q with
  | nil =>
      rw [if_pos (h.holds.isEmpty_iff.mpr rfl)] at hs
      cases hs
      exact ⟨rfl, rfl, rfl, h⟩
  | cons spark q =>
      have hne : ¬ s.fifo.isEmpty = true := by
        rw [h.holds.isEmpty_iff]
        exact List.cons_ne_nil spark q
      obtain ⟨fifo, hpop, hfifo⟩ := CircularFifo.pop_spec h.holds
      rw [if_neg hne, hpop] at hs
      cases hs
      refine ⟨rfl, rfl, rfl, hfifo, ?_, ?_, h.numbers, ?_, ?_⟩
      · dsimp only
        rw [h.returned]
        rfl
      · refine h.accounts.trans ?_
        rw [List.append_assoc, List.append_assoc]
        exact List.perm_middle
      · refine lt_of_le_of_lt ?_ h.room
        exact Nat.sub_le_sub_left (Nat.le_succ _) _
      · have hframe := CircularFifo.pop_frame hpop
        have hpoint := h.point
        rw [PointSound] at hpoint ⊢
        dsimp only
        rw [hframe.1, hframe.2]
        exact hpoint

/-- An added spark of a handler, outside of the critical steps. -/
theorem add (h : QueueSound s q r) {spark : σ} (houtside : s.insideAddSpark = false)
    (hs : s.call (.addSpark spark) = some s') :
    s'.addSpark = s.addSpark ∧ s'.panicked = s.panicked ∧
      QueueSound s' (q ++ [(s.passed.length, spark)]) r := by
  rw [SparkQueue.call] at hs
  split at hs
  · next hroom =>
    have hqueued := h.queued_eq
    obtain ⟨fifo, hpush, hfifo⟩ := CircularFifo.push_spec (s.passed.length, spark) h.holds
      (by omega)
    rw [hpush] at hs
    cases hs
    refine ⟨rfl, rfl, hfifo, h.returned, ?_, numbers_cons h spark, ?_, ?_⟩
    · have hperm := (h.accounts.cons (s.passed.length, spark)).trans List.perm_middle.symm
      simpa [SparkQueue.inFlight] using hperm
    · rw [SparkQueue.queued] at hroom ⊢
      dsimp only
      rw [List.length_cons]
      omega
    · exact pointSound_of_outside houtside
  · cases hs

/-- The calls of a handler that adds sparks only outside of the critical steps. -/
theorem calls {cs : List (HandlerCall σ)} (h : QueueSound s q r) (hlive : s.panicked = false)
    (houtside : s.insideAddSpark = true → ∀ c ∈ cs, c.isAddSpark = false)
    (hs : s.calls cs = some s') :
    s'.addSpark = s.addSpark ∧ s'.panicked = false ∧ ∃ q' r', QueueSound s' q' r' := by
  induction cs generalizing s q r with
  | nil =>
      cases hs
      exact ⟨rfl, hlive, q, r, h⟩
  | cons c cs ih =>
      rw [SparkQueue.calls] at hs
      cases hcall : s.call c with
      | none =>
          rw [hcall] at hs
          cases hs
      | some s₁ =>
          have hstep : s₁.addSpark = s.addSpark ∧ s₁.panicked = s.panicked ∧
              ∃ q' r', QueueSound s₁ q' r' := by
            cases c with
            | addSpark spark =>
                have hout : s.insideAddSpark = false := by
                  by_contra hinside
                  have hfalse := houtside (Bool.eq_true_of_not_eq_false hinside) _ List.mem_cons_self
                  cases hfalse
                obtain ⟨hpoint, hpanicked, hsound⟩ := h.add hout hcall
                exact ⟨hpoint, hpanicked, _, _, hsound⟩
            | getNextScheduledSpark =>
                obtain ⟨hpoint, hpanicked, -, hsound⟩ := h.pop hcall
                exact ⟨hpoint, hpanicked, _, _, hsound⟩
          obtain ⟨hpoint, hpanicked, q₁, r₁, hsound⟩ := hstep
          have hlive₁ : s₁.panicked = false := hpanicked.trans hlive
          have hinside : s₁.insideAddSpark = s.insideAddSpark := by
            rw [SparkQueue.insideAddSpark, hpoint, SparkQueue.insideAddSpark]
          simp only [hcall, hlive₁, Bool.false_eq_true, if_false] at hs
          obtain ⟨hpoint', hlive', hsound'⟩ := ih hsound hlive₁
            (fun hin c hc => houtside (hinside ▸ hin) c (List.mem_cons_of_mem _ hc)) hs
          exact ⟨hpoint'.trans hpoint, hlive', hsound'⟩

/-- A step of the `AddSpark` in progress. -/
theorem step (h : QueueSound s q r) (hs : s.step = some s') : ∃ q', QueueSound s' q' r := by
  have hpoint := h.point
  have haccounts := h.accounts
  rw [SparkQueue.step] at hs
  rw [PointSound] at hpoint
  rw [SparkQueue.inFlight] at haccounts
  cases hadd : s.addSpark with
  | none =>
      rw [hadd] at hs
      cases hs
  | some point =>
      rw [hadd] at hs hpoint haccounts
      cases point with
      | readHead spark =>
          cases hs
          exact ⟨q, h.holds, h.returned, haccounts, h.numbers, h.room, rfl⟩
      | writeData spark index =>
          cases hs
          refine ⟨q, ?_, h.returned, haccounts, h.numbers, h.room, ?_⟩
          · dsimp only at hpoint ⊢
            rw [hpoint]
            exact h.holds.writeData _
          · dsimp only [PointSound] at hpoint ⊢
            rw [hpoint, Function.update_self]
      | readHeadAgain spark =>
          cases hs
          exact ⟨q, h.holds, h.returned, haccounts, h.numbers, h.room, rfl, hpoint⟩
      | writeHead spark head =>
          cases hs
          obtain ⟨rfl, hdata⟩ := hpoint
          have hqueued := h.queued_eq
          have hroom := h.room
          rw [SparkQueue.inFlight, hadd] at hqueued
          dsimp only [List.length_singleton] at hqueued
          refine ⟨q ++ [spark], ?_, h.returned, ?_, h.numbers, h.room, trivial⟩
          · have hwrite := h.holds.write spark (by omega)
            rw [← hdata, Function.update_eq_self] at hwrite
            exact hwrite
          · simpa [SparkQueue.inFlight] using haccounts
      | compare spark =>
          dsimp only at hs
          split at hs
          · cases hs
            exact ⟨q, h.holds, h.returned, haccounts, h.numbers, h.room, trivial⟩
          · cases hs
            exact ⟨q, h.holds, h.returned, haccounts, h.numbers, h.room, trivial⟩

theorem call_pop_isSome (s : SparkQueue σ) : ∃ s', s.call .getNextScheduledSpark = some s' := by
  rw [SparkQueue.call]
  split
  · exact ⟨s, rfl⟩
  · split <;> exact ⟨_, rfl⟩

/-- Popping as often as there are sparks in the queue empties it. -/
theorem calls_pop (h : QueueSound s q r) (hlive : s.panicked = false) :
    ∃ s' r', s.calls (List.replicate q.length .getNextScheduledSpark) = some s' ∧
      s'.passed = s.passed ∧ s'.addSpark = s.addSpark ∧ QueueSound s' [] r' := by
  induction q generalizing s r with
  | nil => exact ⟨s, r, rfl, rfl, rfl, h⟩
  | cons spark q ih =>
      obtain ⟨s₁, hcall⟩ := call_pop_isSome s
      obtain ⟨hpoint, hpanicked, hpassed, hsound⟩ := h.pop hcall
      have hlive₁ : s₁.panicked = false := hpanicked.trans hlive
      obtain ⟨s', r', hcalls, hpassed', hpoint', hsound'⟩ := ih hsound hlive₁
      refine ⟨s', r', ?_, hpassed'.trans hpassed, hpoint'.trans hpoint, hsound'⟩
      rw [List.length_cons, List.replicate_succ, SparkQueue.calls]
      simp only [hcall, hlive₁, Bool.false_eq_true, if_false]
      exact hcalls

theorem intact (h : QueueSound s q r) : Intact s := by
  have hmem : ∀ x, x ∈ s.passed ↔ x ∈ r ∨ x ∈ q ∨ x ∈ s.inFlight := by
    intro x
    rw [h.accounts.mem_iff, List.mem_append, List.mem_append, or_assoc]
  constructor
  · intro spark hspark
    rw [h.returned, List.mem_map] at hspark
    obtain ⟨x, hx, rfl⟩ := hspark
    exact ⟨x, (hmem x).mpr (Or.inl hx), rfl⟩
  · have hall := h.accounts.nodup_iff.mp h.nodup
    rw [List.append_assoc] at hall
    rw [h.returned]
    exact (List.nodup_append.mp hall).1.map (Option.some_injective _)
  · intro x hx
    rw [h.returned, h.holds.contents_eq, List.mem_map]
    rcases (hmem x).mp hx with hx | hx
    · exact Or.inl ⟨x, hx, rfl⟩
    · exact Or.inr hx
  · intro hlive hidle
    obtain ⟨s', r', hcalls, hpassed, hpoint, hsound⟩ := h.calls_pop hlive
    refine ⟨q.length, s', ?_, fun x hx => ?_⟩
    · simp only [SparkQueue.next, hlive, Bool.false_eq_true, if_false]
      exact hcalls
    · have hall := hsound.accounts
      have hnone : s'.inFlight = [] := by rw [SparkQueue.inFlight, hpoint.trans hidle]
      rw [hnone, List.append_nil, List.append_nil, hpassed] at hall
      rw [hsound.returned]
      exact List.mem_map_of_mem (hall.mem_iff.mp hx)

/-- An `AddSpark` of the coroutine begins. -/
theorem begins (h : QueueSound s q r) {spark : σ} (hs : s.next (.addSpark spark) = some s') :
    s'.panicked = false ∧ QueueSound s' q r := by
  rw [SparkQueue.next] at hs
  split at hs
  · next hready =>
    cases hs
    have hidle := Option.isNone_iff_eq_none.mp hready.2.1
    have haccounts := h.accounts
    rw [SparkQueue.inFlight, hidle] at haccounts
    refine ⟨by simpa using hready.1, h.holds, h.returned, ?_, numbers_cons h spark, ?_, trivial⟩
    · have hperm := haccounts.cons (s.passed.length, spark)
      rw [List.append_nil] at hperm
      exact hperm.trans (List.perm_append_singleton _ _).symm
    · have hroom := hready.2.2
      rw [SparkQueue.queued] at hroom ⊢
      dsimp only
      rw [List.length_cons]
      omega
  · cases hs

end QueueSound

/-- No handler adds a spark between the first read of `Head` and the write of `Head`. -/
def NoAddInside (s : SparkQueue σ) : QueueAction σ → Prop
  | .interrupt cs => s.insideAddSpark = true → ∀ c ∈ cs, c.isAddSpark = false
  | _ => True

/-- No interrupt between the write of `Head` and the comparison leaves the queue empty. -/
def NotEmptiedBeforeCompare (s : SparkQueue σ) : QueueAction σ → Prop
  | .interrupt cs => s.beforeCompare = true → ∀ s' ∈ s.calls cs, s'.fifo.isEmpty = false
  | _ => True

instance (s : SparkQueue σ) (a : QueueAction σ) : Decidable (NoAddInside s a) :=
  match a with
  | .addSpark _ => isTrue trivial
  | .step => isTrue trivial
  | .interrupt cs =>
      inferInstanceAs (Decidable (s.insideAddSpark = true → ∀ c ∈ cs, c.isAddSpark = false))

instance (s : SparkQueue σ) (a : QueueAction σ) : Decidable (NotEmptiedBeforeCompare s a) :=
  match a with
  | .addSpark _ => isTrue trivial
  | .step => isTrue trivial
  | .interrupt cs => inferInstanceAs (Decidable
      (s.beforeCompare = true → ∀ s' ∈ s.calls cs, s'.fifo.isEmpty = false))

/-- The next step does not find the queue empty. -/
def Live (s : SparkQueue σ) : Prop :=
  s.panicked = false ∧ (s.beforeCompare = true → s.fifo.isEmpty = false)

namespace QueueSound

variable {s s' : SparkQueue σ} {q r : List (Nat × σ)}

/-- The state after any action with no added spark in the critical steps. -/
theorem next (h : QueueSound s q r) (a : QueueAction σ) (ha : NoAddInside s a)
    (hs : s.next a = some s') : ∃ q' r', QueueSound s' q' r' := by
  cases a with
  | addSpark spark => exact ⟨q, r, (h.begins hs).2⟩
  | step =>
      rw [SparkQueue.next] at hs
      split at hs
      · cases hs
      · obtain ⟨q', hsound⟩ := h.step hs
        exact ⟨q', r, hsound⟩
  | interrupt cs =>
      rw [SparkQueue.next] at hs
      split at hs
      · cases hs
      · next hlive => exact (h.calls (Bool.eq_false_iff.mpr hlive) ha hs).2.2

theorem step_live (h : QueueSound s q r) (hlive : Live s) (hs : s.step = some s') : Live s' := by
  obtain ⟨q', hsound⟩ := h.step hs
  rw [SparkQueue.step] at hs
  split at hs
  · cases hs
  · cases hs
    exact ⟨hlive.1, fun hfalse => absurd hfalse Bool.false_ne_true⟩
  · cases hs
    exact ⟨hlive.1, fun hfalse => absurd hfalse Bool.false_ne_true⟩
  · cases hs
    exact ⟨hlive.1, fun hfalse => absurd hfalse Bool.false_ne_true⟩
  · next spark head hpoint =>
    cases hs
    -- the spark on its way has come into the queue
    have hbefore := h.queued_eq
    have hafter := hsound.queued_eq
    rw [SparkQueue.inFlight, hpoint, List.length_singleton] at hbefore
    have hsame : s.queued = q'.length := hafter
    refine ⟨hlive.1, fun _ => Bool.eq_false_iff.mpr fun hempty => ?_⟩
    rw [hsound.holds.isEmpty_iff.mp hempty, List.length_nil] at hsame
    omega
  · next spark hpoint =>
    have hne := hlive.2 (by rw [SparkQueue.beforeCompare, hpoint])
    rw [CircularFifo.isEmpty, beq_eq_false_iff_ne] at hne
    rw [if_neg fun heq => hne heq.symm] at hs
    cases hs
    exact ⟨hlive.1, fun hfalse => absurd hfalse Bool.false_ne_true⟩

theorem next_live (h : QueueSound s q r) (a : QueueAction σ) (hadd : NoAddInside s a)
    (hkept : NotEmptiedBeforeCompare s a) (hlive : Live s) (hs : s.next a = some s') : Live s' := by
  cases a with
  | addSpark spark =>
      obtain ⟨hpanicked, -⟩ := h.begins hs
      rw [SparkQueue.next] at hs
      split at hs
      · cases hs
        exact ⟨hpanicked, fun hfalse => absurd hfalse Bool.false_ne_true⟩
      · cases hs
  | step =>
      simp only [SparkQueue.next, hlive.1, Bool.false_eq_true, if_false] at hs
      exact h.step_live hlive hs
  | interrupt cs =>
      simp only [SparkQueue.next, hlive.1, Bool.false_eq_true, if_false] at hs
      obtain ⟨hpoint, hpanicked, -⟩ := h.calls hlive.1 hadd hs
      refine ⟨hpanicked, fun hcompare => hkept ?_ s' hs⟩
      rw [SparkQueue.beforeCompare, hpoint] at hcompare
      exact hcompare

end QueueSound

/-- In every run in which no handler adds a spark between the first read of `Head` and the
write of `Head`, the queue keeps every spark. If moreover no interrupt before the
comparison leaves the queue empty, no `AddSpark` panics. -/
theorem sparks_intact (actions : List (QueueAction σ)) {s : SparkQueue σ}
    (hrun : (queueSystem σ).run {} actions = some s) :
    ((queueSystem σ).StepsMeet NoAddInside {} actions → Intact s) ∧
    ((queueSystem σ).StepsMeet (fun s a => NoAddInside s a ∧ NotEmptiedBeforeCompare s a) {}
      actions → Intact s ∧ s.panicked = false) := by
  constructor
  · intro hmeet
    have hinitial : (queueSystem σ).ReachableBy NoAddInside {} := System.ReachableBy.initial rfl
    have hsound : ∃ q r, QueueSound s q r := by
      apply System.ReachableBy.invariant _ _ (hinitial.of_stepsMeet actions hrun hmeet)
      · rintro s rfl
        exact ⟨[], [], QueueSound.initial⟩
      · rintro s a s' ⟨q, r, h⟩ ha hs
        exact h.next a ha hs
    obtain ⟨q, r, h⟩ := hsound
    exact h.intact
  · intro hmeet
    have hinitial : (queueSystem σ).ReachableBy
        (fun s a => NoAddInside s a ∧ NotEmptiedBeforeCompare s a) {} :=
      System.ReachableBy.initial rfl
    have hsound : (∃ q r, QueueSound s q r) ∧ Live s := by
      apply System.ReachableBy.invariant _ _ (hinitial.of_stepsMeet actions hrun hmeet)
      · rintro s rfl
        exact ⟨⟨[], [], QueueSound.initial⟩, rfl, fun hfalse => absurd hfalse Bool.false_ne_true⟩
      · rintro s a s' ⟨⟨q, r, h⟩, hlive⟩ ⟨hadd, hkept⟩ hs
        exact ⟨h.next a hadd hs, h.next_live a hadd hkept hlive hs⟩
    obtain ⟨⟨q, r, h⟩, hlive⟩ := hsound
    exact ⟨h.intact, hlive.1⟩

/-- A handler takes a spark while another one is being added. -/
theorem sparks_intact_pop : ∃ s, (queueSystem Unit).run {}
    [.interrupt [.addSpark ()], .addSpark (), .step, .interrupt [.getNextScheduledSpark], .step,
      .step, .step, .step] = some s ∧ Intact s ∧ s.panicked = false := by
  obtain ⟨s, hs⟩ := Option.isSome_iff_exists.mp (show ((queueSystem Unit).run {}
    [.interrupt [.addSpark ()], .addSpark (), .step, .interrupt [.getNextScheduledSpark], .step,
      .step, .step, .step]).isSome = true by decide)
  exact ⟨s, hs, (sparks_intact _ hs).2 (by decide)⟩

/-- A handler adds a spark after the coroutine has read `Head` the first time. -/
theorem not_sparks_intact : ¬ ∀ actions s, (queueSystem Unit).run {} actions = some s →
    Intact s := by
  intro hall
  have hreturned : ((queueSystem Unit).run {} [.addSpark (), .step, .interrupt [.addSpark ()],
      .step, .step, .step, .step, .interrupt [.getNextScheduledSpark, .getNextScheduledSpark]]).map
        SparkQueue.returned = some [none, some (0, ())] := by decide
  obtain ⟨s, hs, heq⟩ := Option.map_eq_some_iff.mp hreturned
  obtain ⟨x, -, hx⟩ := (hall _ s hs).returned_passed none (heq ▸ List.mem_cons_self)
  cases hx

end RPiKernel.Scheduler
