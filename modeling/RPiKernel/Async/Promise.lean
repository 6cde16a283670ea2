import RPiKernel.Transition.System

/-!
# The promise of a task

`promise_base` is shared by two sides. The coroutine side stores the result and
executes `await_suspend` of `final_suspend`; the owner side polls with
`client_await_ready`, registers at most one awaiter with `client_await_suspend`
or `client_await_notify`, and ends with `abandon`. Every atomic operation on
`m_waiting`, every access to another member and every call of a callback is one
step, and the steps of both sides interleave in any order.

## Implementation notes

A program counter names the operation that its side executes next, together
with the local variables still needed. `touch` records accesses to a promise
whose frame has been destroyed. A failed assertion is the program counter
`panicked`. `left` is the end of `abandon` behind its last assertion, where
nothing has been marked or destroyed.
-/

namespace RPiKernel.Async

open Transition

/-- The largest `uintptr_t`. -/
def uintptrMax : Nat := 18446744073709551615

/-! The special values of `m_waiting`. -/

def running : Nat := uintptrMax
def completing : Nat := uintptrMax - 1
def completed : Nat := uintptrMax - 2
def abandoned : Nat := uintptrMax - 3

/-- The address of an object that waits for the task, or of its coroutine frame. -/
structure AwaiterAddress where
  val : Nat
  above : 16 < val
  below : val < abandoned

/-- The call that registers a callback for an awaiter. A null pointer registers none. -/
inductive Request (κ : Type) where
  | suspend (waiting : AwaiterAddress) (resumer : Option κ)
  | notify (waiting : AwaiterAddress) (notifier : Option κ)

namespace Request

variable {κ : Type}

def waiting : Request κ → AwaiterAddress
  | suspend waiting _ => waiting
  | notify waiting _ => waiting

def callback : Request κ → Option κ
  | suspend _ resumer => resumer
  | notify _ notifier => notifier

end Request

/-- The call of a callback, with its argument and whether the result was stored. -/
structure Call (κ : Type) where
  callback : κ
  waiting : Nat
  resultStored : Bool

/-- The next operation of the coroutine side. -/
inductive CoroutinePc (κ : Type) where
  | body
  | finalSuspend
  | markCompleted
  | readNotifier (waiting : Nat)
  | callNotifier (notifier : κ) (waiting : Nat)
  | readResumer (waiting : Nat)
  | complete (resumer : Option κ) (waiting : Nat)
  | callResumer (resumer : κ) (waiting : Nat)
  | destroy
  | done
  | panicked

/-- The next operation of the owner side. -/
inductive OwnerPc where
  | free
  | register
  | exchange (waiting : Nat)
  | restoreCompleting (waiting : Nat)
  | restoreCompleted
  | abandonRunning
  | abandonAwaiter (waiting : Nat)
  | checkNotifier
  | awaitCompletion
  | destroy
  | marked
  | destroyed
  | left
  | panicked

/-- The promise, the two sides and the history of a run. -/
structure PromiseState (κ : Type) where
  waiting : Nat := running
  notifier : Option κ := none
  resumer : Option κ := none
  resultStored : Bool := false
  coroutine : CoroutinePc κ := .body
  owner : OwnerPc := .free
  request : Option (Request κ) := none
  ready : Option Bool := none
  answer : Option Bool := none
  calls : List (Call κ) := []
  destroyCount : Nat := 0
  usedAfterDestroy : Bool := false

/-- A step of the coroutine, or a step of the owner within a call, or the start
of a call of the owner. -/
inductive PromiseAction (κ : Type) where
  | coroutine
  | poll
  | request (r : Request κ)
  | abandon
  | owner

namespace PromiseState

variable {κ : Type}

/-- An access to the promise. -/
def touch (s : PromiseState κ) : PromiseState κ :=
  { s with usedAfterDestroy := s.usedAfterDestroy || decide (0 < s.destroyCount) }

/-- One step of the body and of `await_suspend` in `final_suspend`. -/
def coroutineStep (s : PromiseState κ) : Option (PromiseState κ) :=
  match s.coroutine with
  | .body => some { s.touch with resultStored := true, coroutine := .finalSuspend }
  | .finalSuspend =>
      let s' := { s.touch with waiting := completing }
      if s.waiting = abandoned then
        some { s' with coroutine := .destroy }
      else if s.waiting = running then
        some { s' with coroutine := .markCompleted }
      else if s.waiting = completing ∨ s.waiting = completed then
        some { s' with coroutine := .panicked }
      else
        some { s' with coroutine := .readNotifier s.waiting }
  | .markCompleted =>
      let s' := { s.touch with waiting := completed }
      if s.waiting = abandoned then
        some { s' with coroutine := .destroy }
      else
        some { s' with coroutine := .done }
  | .readNotifier waiting =>
      match s.notifier with
      | some notifier => some { s.touch with coroutine := .callNotifier notifier waiting }
      | none => some { s.touch with coroutine := .readResumer waiting }
  | .callNotifier notifier waiting =>
      some { s with
        calls := ⟨notifier, waiting, s.resultStored⟩ :: s.calls
        coroutine := .readResumer waiting }
  | .readResumer waiting => some { s.touch with coroutine := .complete s.resumer waiting }
  | .complete resumer waiting =>
      if s.waiting = completing then
        match resumer with
        | some resumer =>
            some { s.touch with waiting := completed, coroutine := .callResumer resumer waiting }
        | none => some { s.touch with waiting := completed, coroutine := .done }
      else if s.waiting = abandoned then
        some { s.touch with coroutine := .destroy }
      else
        some { s.touch with coroutine := .panicked }
  | .callResumer resumer waiting =>
      some { s with
        calls := ⟨resumer, waiting, s.resultStored⟩ :: s.calls
        coroutine := .done }
  | .destroy =>
      some { s.touch with destroyCount := s.destroyCount + 1, coroutine := .done }
  | .done => none
  | .panicked => none

/-- `client_await_ready`, in one step. -/
def clientAwaitReady (s : PromiseState κ) : PromiseState κ :=
  if s.waiting = abandoned then
    { s.touch with owner := .panicked }
  else
    { s.touch with ready := some (decide (s.waiting = completing ∨ s.waiting = completed)) }

/-- The registration of the callback, before the exchange of `client_await_suspend`. -/
def registerCallback (s : PromiseState κ) : Request κ → PromiseState κ
  | .suspend waiting resumer =>
      if s.resumer.isNone ∧ s.notifier.isNone then
        { s.touch with resumer := resumer, owner := .exchange waiting.val }
      else
        { s.touch with owner := .panicked }
  | .notify waiting notifier =>
      if s.resumer.isNone ∧ s.notifier.isNone then
        { s.touch with notifier := notifier, owner := .exchange waiting.val }
      else
        { s.touch with owner := .panicked }

/-- One step of `client_await_suspend` or of `abandon`. -/
def ownerStep (s : PromiseState κ) : Option (PromiseState κ) :=
  match s.owner with
  | .register => s.request.map s.registerCallback
  | .exchange waiting =>
      let s' := { s.touch with waiting := waiting }
      if ¬ 16 < waiting then
        some { s with owner := .panicked }
      else if s.waiting = running then
        some { s' with owner := .free, answer := some true }
      else if s.waiting = completing then
        some { s' with owner := .restoreCompleting waiting }
      else if s.waiting = completed then
        some { s' with owner := .restoreCompleted }
      else
        some { s' with owner := .panicked }
  | .restoreCompleting waiting =>
      if s.waiting = waiting then
        some { s.touch with waiting := completing, owner := .free, answer := some false }
      else
        some { s.touch with owner := .free, answer := some false }
  | .restoreCompleted =>
      some { s.touch with waiting := completed, owner := .free, answer := some false }
  | .abandonRunning =>
      if s.waiting = running then
        some { s.touch with waiting := abandoned, owner := .marked }
      else if s.waiting = completed then
        some { s.touch with owner := .destroy }
      else if s.waiting = completing then
        some { s.touch with owner := .checkNotifier }
      else if s.waiting = abandoned then
        some { s.touch with owner := .panicked }
      else
        some { s.touch with owner := .abandonAwaiter s.waiting }
  | .abandonAwaiter waiting =>
      if s.waiting = waiting then
        some { s.touch with waiting := abandoned, owner := .marked }
      else if s.waiting = completed then
        some { s.touch with owner := .destroy }
      else if s.waiting = completing then
        some { s.touch with owner := .checkNotifier }
      else
        some { s.touch with owner := .panicked }
  | .checkNotifier =>
      if s.notifier.isSome then
        some { s.touch with owner := .awaitCompletion }
      else
        some { s.touch with owner := .left }
  | .awaitCompletion =>
      if s.waiting = completing then
        some s.touch
      else
        some { s.touch with owner := .left }
  | .destroy => some { s.touch with destroyCount := s.destroyCount + 1, owner := .destroyed }
  | .free | .marked | .destroyed | .left | .panicked => none

/-- The effect of an action, where it is possible. -/
def next (s : PromiseState κ) : PromiseAction κ → Option (PromiseState κ)
  | .coroutine => s.coroutineStep
  | .poll =>
      match s.owner with
      | .free => some s.clientAwaitReady
      | _ => none
  | .request r =>
      match s.owner, s.request with
      | .free, none => some { s with request := some r, owner := .register }
      | _, _ => none
  | .abandon =>
      match s.owner with
      | .free => some { s with owner := .abandonRunning }
      | _ => none
  | .owner => s.ownerStep

end PromiseState

/-- A task from the start of its body on. -/
def promiseSystem (κ : Type) : System (PromiseState κ) (PromiseAction κ) where
  Initial s := s = {}
  next := PromiseState.next

end RPiKernel.Async
