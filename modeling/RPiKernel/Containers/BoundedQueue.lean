import RPiKernel.Containers.CircularFifo

/-!
# The ring buffer as a bounded queue

Every sequence of calls of a `CircularFifo` that starts out empty gets the replies of a queue with
room for as many items as the buffer has places, less one. A call panics exactly where the queue
refuses it.
-/

namespace RPiKernel.Containers

open Interleaving

/-- A call of the buffer. -/
inductive FifoCall (τ : Type) where
  | push (item : τ)
  | pop
  | isEmpty

/-- What a call returns. -/
inductive FifoReply (τ : Type) where
  | pushed
  | popped (item : Option τ)
  | empty (answer : Bool)

variable {τ : Type}

/-- The values that are pushed by a sequence of calls. -/
def pushes : List (FifoCall τ) → List τ
  | [] => []
  | .push item :: calls => item :: pushes calls
  | .pop :: calls => pushes calls
  | .isEmpty :: calls => pushes calls

/-- The values that are returned by the pops. -/
def pops : List (FifoReply τ) → List (Option τ)
  | [] => []
  | .pushed :: replies => pops replies
  | .popped item :: replies => item :: pops replies
  | .empty _ :: replies => pops replies

/-- A call of a queue with room for some items, where the queue does not refuse it. -/
def queueCall (room : Nat) (items : List τ) : FifoCall τ → Option (FifoReply τ × List τ)
  | .push item => if items.length < room then some (.pushed, items ++ [item]) else none
  | .pop =>
      match items with
      | [] => none
      | item :: items => some (.popped (some item), items)
  | .isEmpty => some (.empty items.isEmpty, items)

/-- The replies to a sequence of calls of a queue, and the items that are left. -/
def queueCalls (room : Nat) : List τ → List (FifoCall τ) → Option (List (FifoReply τ) × List τ)
  | items, [] => some ([], items)
  | items, call :: calls =>
      (queueCall room items call).bind fun (reply, items) =>
        (queueCalls room items calls).map fun (replies, items) => (reply :: replies, items)

namespace CircularFifo

/-- A call of the buffer, with its reply and the buffer afterwards. -/
def call (capacity : Nat) (f : CircularFifo τ) :
    FifoCall τ → Except Fault (FifoReply τ × CircularFifo τ)
  | .push item => (f.push capacity item).map fun f => (.pushed, f)
  | .pop => (f.pop capacity).map fun (item, f) => (.popped item, f)
  | .isEmpty => .ok (.empty f.isEmpty, f)

/-- The replies to a sequence of calls, and the buffer afterwards. -/
def calls (capacity : Nat) :
    CircularFifo τ → List (FifoCall τ) → Except Fault (List (FifoReply τ) × CircularFifo τ)
  | f, [] => .ok ([], f)
  | f, call :: rest =>
      match f.call capacity call with
      | .error fault => .error fault
      | .ok (reply, f) => (f.calls capacity rest).map fun (replies, f) => (reply :: replies, f)

/-- A call ends in a panic. -/
def Panics {α : Type} (outcome : Except Fault α) : Prop :=
  ∃ message, outcome = .error (.panic message)

end CircularFifo

section Queue

variable {room : Nat} {items items' : List τ} {sequence : List (FifoCall τ)}
  {replies : List (FifoReply τ)}

/-- What a queue has returned, and then what it still holds, is what has been pushed. -/
theorem pops_append_of_queueCalls
    (h : queueCalls room items sequence = some (replies, items')) :
    pops replies ++ items'.map some = (items ++ pushes sequence).map some := by
  induction sequence generalizing items replies with
  | nil =>
    cases h
    rw [pushes, List.append_nil, pops, List.nil_append]
  | cons call rest ih =>
    obtain ⟨⟨reply, items₁⟩, hcall, hrest⟩ := Option.bind_eq_some_iff.mp h
    obtain ⟨⟨replies₁, items₂⟩, hcalls, hend⟩ := Option.map_eq_some_iff.mp hrest
    cases hend
    have hlater := ih hcalls
    cases call with
    | push item =>
      rw [queueCall] at hcall
      split at hcall
      · cases hcall
        rw [pops, hlater, pushes, List.append_assoc, List.singleton_append]
      · cases hcall
    | pop =>
      cases items with
      | nil => cases hcall
      | cons item items =>
        cases hcall
        rw [pops, pushes, List.cons_append, hlater]
        rfl
    | isEmpty =>
      cases hcall
      rw [pops, hlater, pushes]

end Queue

namespace CircularFifo

variable {capacity : Nat} {f f' : CircularFifo τ} {items : List τ} {sequence : List (FifoCall τ)}
  {replies : List (FifoReply τ)}

/-- A full buffer is one place short of its capacity. -/
theorem Holds.push_panics_iff (h : Holds capacity f items) (item : τ) :
    Panics (f.push capacity item) ↔ items.length = capacity - 1 := by
  have hlt := h.length_lt
  constructor
  · rintro ⟨message, hpanic⟩
    by_contra hroom
    obtain ⟨f', hpush, -⟩ := push_spec item h (by omega)
    rw [hpush] at hpanic
    cases hpanic
  · exact fun hfull => ⟨_, push_panics h (by omega)⟩

theorem Holds.pop_panics_iff (h : Holds capacity f items) :
    Panics (f.pop capacity) ↔ items = [] := by
  constructor
  · rintro ⟨message, hpanic⟩
    cases items with
    | nil => rfl
    | cons item items =>
      obtain ⟨f', hpop, -⟩ := pop_spec h
      rw [hpop] at hpanic
      cases hpanic
  · rintro rfl
    exact ⟨_, pop_panics h⟩

/-- A call of the buffer does what the queue does with the items that the buffer holds, or both
refuse it. -/
theorem Holds.call_refines (h : Holds capacity f items) (call : FifoCall τ) :
    (∃ reply items' f', queueCall (capacity - 1) items call = some (reply, items') ∧
        f.call capacity call = .ok (reply, f') ∧ Holds capacity f' items') ∨
      queueCall (capacity - 1) items call = none ∧ Panics (f.call capacity call) := by
  have hlt := h.length_lt
  cases call with
  | push item =>
    by_cases hroom : items.length < capacity - 1
    · obtain ⟨f', hpush, hholds⟩ := push_spec item h (by omega)
      refine .inl ⟨.pushed, items ++ [item], f', if_pos hroom, ?_, hholds⟩
      rw [CircularFifo.call, hpush]
      rfl
    · refine .inr ⟨if_neg hroom, circularFifoName ++ " overflow", ?_⟩
      rw [CircularFifo.call, push_panics h (by omega)]
      rfl
  | pop =>
    cases items with
    | nil =>
      refine .inr ⟨rfl, circularFifoName ++ " is empty", ?_⟩
      rw [CircularFifo.call, pop_panics h]
      rfl
    | cons item items =>
      obtain ⟨f', hpop, hholds⟩ := pop_spec h
      refine .inl ⟨.popped (some item), items, f', rfl, ?_, hholds⟩
      rw [CircularFifo.call, hpop]
      rfl
  | isEmpty =>
    refine .inl ⟨.empty items.isEmpty, items, f, rfl, ?_, h⟩
    rw [CircularFifo.call, Bool.eq_iff_iff.mpr (h.isEmpty_iff.trans List.isEmpty_iff.symm)]

/-- A sequence of calls that does not panic gets the replies of the queue. -/
theorem Holds.calls_refine (h : Holds capacity f items)
    (hcalls : f.calls capacity sequence = .ok (replies, f')) :
    ∃ items', queueCalls (capacity - 1) items sequence = some (replies, items') ∧
      Holds capacity f' items' := by
  induction sequence generalizing f items replies with
  | nil =>
    cases hcalls
    exact ⟨items, rfl, h⟩
  | cons call rest ih =>
    rw [CircularFifo.calls] at hcalls
    obtain ⟨reply, items₁, f₁, hqueue, hcall, h₁⟩ | ⟨-, message, hpanic⟩ := h.call_refines call
    · rw [hcall] at hcalls
      dsimp only at hcalls
      cases hrest : f₁.calls capacity rest with
      | error fault =>
        rw [hrest] at hcalls
        cases hcalls
      | ok result =>
        obtain ⟨replies₁, f₂⟩ := result
        rw [hrest] at hcalls
        cases hcalls
        obtain ⟨items₂, hqueues, h₂⟩ := ih h₁ hrest
        refine ⟨items₂, ?_, h₂⟩
        rw [queueCalls, hqueue, Option.bind_some]
        dsimp only
        rw [hqueues]
        rfl
    · rw [hpanic] at hcalls
      cases hcalls

/-- After every sequence of calls without a panic, the pops have returned the first of the values
pushed, one after the other; the buffer holds the others, refuses another one exactly if it holds
one less than its capacity, and a pop exactly if it holds none, as `isEmpty` tells. -/
theorem calls_refine_queue (hcapacity : 2 ≤ capacity)
    (hcalls : ({} : CircularFifo τ).calls capacity sequence = .ok (replies, f)) :
    pops replies = ((pushes sequence).take (pops replies).length).map some ∧
      (∀ item, Panics (f.push capacity item) ↔
        ((pushes sequence).drop (pops replies).length).length = capacity - 1) ∧
      (Panics (f.pop capacity) ↔ (pushes sequence).drop (pops replies).length = []) ∧
      (f.isEmpty = true ↔ (pushes sequence).drop (pops replies).length = []) := by
  have hempty := @holds_empty τ capacity (by omega)
  obtain ⟨items, hqueue, hholds⟩ := hempty.calls_refine hcalls
  have hall := pops_append_of_queueCalls hqueue
  rw [List.nil_append] at hall
  have hheld : (pushes sequence).drop (pops replies).length = items := by
    have hdrop := congrArg (List.drop (pops replies).length) hall
    rw [List.drop_left, ← List.map_drop] at hdrop
    exact (List.map_injective_iff.mpr (Option.some_injective τ) hdrop).symm
  rw [hheld]
  refine ⟨?_, hholds.push_panics_iff, hholds.pop_panics_iff, hholds.isEmpty_iff⟩
  have htake := congrArg (List.take (pops replies).length) hall
  rwa [List.take_left, ← List.map_take] at htake

/-- Calls of a buffer with three places, for more than one lap. -/
def lapCalls : List (FifoCall Nat) :=
  [.push 1, .push 2, .pop, .push 3, .isEmpty, .pop, .pop, .push 4, .push 5]

theorem calls_refine_queue_lap : ∃ replies f,
    ({} : CircularFifo Nat).calls 3 lapCalls = .ok (replies, f) ∧
      pops replies = [some 1, some 2, some 3] ∧ Panics (f.push 3 6) := by
  refine ⟨_, _, rfl, rfl, ?_⟩
  have hrefine := @calls_refine_queue Nat 3 _ lapCalls _ (by decide) rfl
  exact (hrefine.2.1 6).mpr rfl

end CircularFifo

end RPiKernel.Containers
