import RPiKernel.Transition.System
import RPiKernel.Uart.Printing

/-!
# Streams that lock the serial line

A `LockedStream` masks the interrupts of its core and takes the mutex of the serial line, so that
what it prints stays together. The cores of the machine and their exception handlers use streams in
any order.

## Implementation notes

A context is one computation: the code of a thread or of an exception handler. Which stream it
makes, uses or destroys next is an action; the accesses to `Mutex`, to the interrupt mask and to the
registers of the serial line that this takes are single steps (`go`), between which other contexts
run. `std::mutex` is the spinning lock of the library. `Mutex.lock()` tests the flag again without
setting it until it is clear. `Unlock` clears `locked` last; nobody else reads it, and it is cleared
at once here. The serial line has a queue of `depth` characters and loses what is written to a full
one.

`LockedStream.ticket`, `Context.enabled` and `State.sessions` are ghosts: they tell which of the
sessions a stream has, what a context itself last made of its interrupt mask, and what was to be
printed in each session.
-/

namespace RPiKernel.Uart

open Machine Transition

/-- What is asked of a stream, or of the functions in `Raw`. -/
inductive Call where
  | putc (c : UInt8)
  | puts (str : CString)
  | putHex (w : Nat) (value : BitVec w)
  | putBin (w : Nat) (value : BitVec w)
  | putDec (w : Nat) (value : BitVec w) (buffer : Vector UInt8 bufferSize)

/-- The characters that a call passes to `Raw::Putc`. -/
def Call.text : Call → Option (List UInt8)
  | putc c => some [c]
  | puts str => some str.bytes
  | putHex _ value => some (Uart.putHex value)
  | putBin _ value => some (Uart.putBin value)
  | putDec _ value buffer => Uart.putDec buffer value

/-- `LockedStream`. -/
structure LockedStream where
  locked : Bool
  wasEnabled : Bool
  ticket : Nat
  deriving DecidableEq, Repr

/-- How far a context has got. -/
inductive Doing where
  /-- Outside of the functions of a stream. -/
  | client
  /-- In the constructor, in front of `mrs %0, daif`. -/
  | disabling (tryOnly : Bool)
  /-- In the constructor, in front of `msr daifset, #2`. -/
  | masking (tryOnly wasEnabled : Bool)
  /-- In front of `flag_.test_and_set`. -/
  | testAndSet (tryOnly wasEnabled : Bool)
  /-- In front of `flag_.test`, in the loop of `Mutex.lock()`. -/
  | waiting (wasEnabled : Bool)
  /-- Behind a `Mutex.try_lock()` in vain. -/
  | givingUp (wasEnabled : Bool)
  /-- In front of `flag_.clear`. -/
  | clearing (wasEnabled : Bool)
  /-- In front of the `RestoreInterrupts` behind `Mutex.unlock()`. -/
  | restoring (wasEnabled : Bool)
  /-- In the loop of `Raw::Putc` that waits for room. -/
  | polling (c : UInt8) (text : List UInt8)
  /-- In front of the write of a character to the data register. -/
  | writing (c : UInt8) (text : List UInt8)
  deriving DecidableEq, Repr

/-- The print of some characters, from the first one on. -/
def Doing.send : List UInt8 → Doing
  | [] => .client
  | c :: text => .polling c text

/-- Where a context is. -/
inductive Place where
  | absent
  | running (core : Nat)
  | suspended
  | ended
  deriving DecidableEq, Repr

/-- A computation. -/
structure Context where
  place : Place := .absent
  /-- Whether interrupts are unmasked. -/
  irqEnabled : Bool := false
  enabled : Bool := false
  /-- The streams that it has, the youngest one first. -/
  streams : List LockedStream := []
  doing : Doing := .client
  deriving DecidableEq, Repr

/-- A computation that begins. -/
def Context.begin (place : Place) (enabled : Bool) : Context :=
  { place := place, irqEnabled := enabled, enabled := enabled }

structure State where
  useMutex : Bool
  flag : Bool
  /-- What the serial line has yet to transmit. -/
  queue : List UInt8
  /-- What the serial line has transmitted. -/
  wire : List UInt8
  created : Nat
  contexts : Nat → Context
  sessions : List (List UInt8)

def State.set (s : State) (i : Nat) (x : Context) : State :=
  { s with contexts := Function.update s.contexts i x }

/-- A new context on a core. -/
def State.enter (s : State) (core : Nat) : State :=
  { s.set s.created (.begin (.running core) false) with created := s.created + 1 }

inductive Action where
  /-- `LockedStream(tryOnly)`. -/
  | construct (i : Nat) (tryOnly : Bool)
  /-- A function of a stream that prints. -/
  | print (i k : Nat) (call : Call)
  /-- A function of `Raw` that prints. -/
  | raw (i : Nat) (call : Call)
  /-- `LockedStream::Unlock`. -/
  | unlock (i k : Nat)
  /-- `~LockedStream`, of the youngest stream. -/
  | destroy (i : Nat)
  /-- The next step of a function that a context is in. -/
  | go (i : Nat)
  /-- The code of a context masks or unmasks interrupts. -/
  | setInterrupts (i : Nat) (enabled : Bool)
  /-- A core takes an interrupt. -/
  | interrupt (i : Nat)
  /-- A core takes an exception that is no interrupt. -/
  | exception (i : Nat)
  /-- The end of a handler, which resumes a context. -/
  | eret (i j : Nat)
  /-- A new thread, which waits to be resumed. -/
  | create (enabled : Bool)
  /-- The serial line transmits a character. -/
  | transmit
  /-- `useMutex = true`. -/
  | setUseMutex

/-- The next step of a context. -/
def go (depth : Nat) (s : State) (i : Nat) : Option State :=
  let x := s.contexts i
  match x.doing with
  | .client => none
  | .disabling tryOnly => some (s.set i { x with doing := .masking tryOnly x.irqEnabled })
  | .masking tryOnly wasEnabled =>
      some (s.set i { x with irqEnabled := false, doing := .testAndSet tryOnly wasEnabled })
  | .testAndSet tryOnly wasEnabled =>
      if s.flag then
        let next := if tryOnly then .givingUp wasEnabled else .waiting wasEnabled
        some (s.set i { x with doing := next })
      else
        let stream := ⟨true, wasEnabled, s.sessions.length⟩
        some ({ s with flag := true, sessions := s.sessions ++ [[]] }.set i
          { x with streams := stream :: x.streams, doing := .client })
  | .waiting wasEnabled =>
      let next := if s.flag then .waiting wasEnabled else .testAndSet false wasEnabled
      some (s.set i { x with doing := next })
  | .givingUp wasEnabled =>
      let stream := ⟨false, wasEnabled, 0⟩
      some (s.set i
        { x with irqEnabled := wasEnabled, streams := stream :: x.streams, doing := .client })
  | .clearing wasEnabled =>
      some ({ s with flag := false }.set i { x with doing := .restoring wasEnabled })
  | .restoring wasEnabled =>
      some (s.set i { x with irqEnabled := wasEnabled, doing := .client })
  | .polling c text =>
      let next := if s.queue.length < depth then .writing c text else .polling c text
      some (s.set i { x with doing := next })
  | .writing c text =>
      let queue := if s.queue.length < depth then s.queue ++ [c] else s.queue
      some ({ s with queue := queue }.set i { x with doing := .send text })

section Go

variable {depth : Nat} {s : State} {i : Nat} {tryOnly wasEnabled : Bool} {c : UInt8}
  {text : List UInt8}

theorem go_disabling (h : (s.contexts i).doing = .disabling tryOnly) :
    go depth s i = some (s.set i
      { s.contexts i with doing := .masking tryOnly (s.contexts i).irqEnabled }) := by
  simp only [go, h]

theorem go_masking (h : (s.contexts i).doing = .masking tryOnly wasEnabled) :
    go depth s i = some (s.set i
      { s.contexts i with irqEnabled := false, doing := .testAndSet tryOnly wasEnabled }) := by
  simp only [go, h]

theorem go_testAndSet_free (h : (s.contexts i).doing = .testAndSet tryOnly wasEnabled)
    (hfree : s.flag = false) :
    go depth s i = some ({ s with flag := true, sessions := s.sessions ++ [[]] }.set i
      { s.contexts i with
        streams := ⟨true, wasEnabled, s.sessions.length⟩ :: (s.contexts i).streams
        doing := .client }) := by
  simp only [go, h, hfree, Bool.false_eq_true, if_false]

theorem go_testAndSet_taken (h : (s.contexts i).doing = .testAndSet tryOnly wasEnabled)
    (hflag : s.flag = true) :
    go depth s i = some (s.set i
      { s.contexts i with
        doing := if tryOnly then .givingUp wasEnabled else .waiting wasEnabled }) := by
  simp only [go, h, hflag, if_true]

theorem go_waiting (h : (s.contexts i).doing = .waiting wasEnabled) :
    go depth s i = some (s.set i
      { s.contexts i with
        doing := if s.flag then .waiting wasEnabled else .testAndSet false wasEnabled }) := by
  simp only [go, h]

theorem go_givingUp (h : (s.contexts i).doing = .givingUp wasEnabled) :
    go depth s i = some (s.set i
      { s.contexts i with
        irqEnabled := wasEnabled
        streams := ⟨false, wasEnabled, 0⟩ :: (s.contexts i).streams
        doing := .client }) := by
  simp only [go, h]

theorem go_clearing (h : (s.contexts i).doing = .clearing wasEnabled) :
    go depth s i = some ({ s with flag := false }.set i
      { s.contexts i with doing := .restoring wasEnabled }) := by
  simp only [go, h]

theorem go_restoring (h : (s.contexts i).doing = .restoring wasEnabled) :
    go depth s i = some (s.set i
      { s.contexts i with irqEnabled := wasEnabled, doing := .client }) := by
  simp only [go, h]

theorem go_polling (h : (s.contexts i).doing = .polling c text) :
    go depth s i = some (s.set i
      { s.contexts i with
        doing := if s.queue.length < depth then .writing c text else .polling c text }) := by
  simp only [go, h]

theorem go_writing (h : (s.contexts i).doing = .writing c text) :
    go depth s i = some ({ s with
        queue := if s.queue.length < depth then s.queue ++ [c] else s.queue }.set i
      { s.contexts i with doing := .send text }) := by
  simp only [go, h]

end Go

/-- `Mutex.unlock()` and `RestoreInterrupts`, if the stream has the lock. -/
def release (useMutex : Bool) (stream : LockedStream) : Doing :=
  if stream.locked && useMutex then .clearing stream.wasEnabled else .client

/-- The context whose code does an action, outside of the functions of a stream. -/
def Action.client : Action → Option Nat
  | .construct i _ => some i
  | .print i _ _ => some i
  | .raw i _ => some i
  | .unlock i _ => some i
  | .destroy i => some i
  | .setInterrupts i _ => some i
  | _ => none

/-- What the code of a running context does next, outside of the functions of a stream. -/
def perform (s : State) (i : Nat) (x : Context) : Action → Option State
  | .construct _ tryOnly =>
      if s.useMutex then some (s.set i { x with doing := .disabling tryOnly })
      else some (s.set i { x with streams := ⟨false, false, 0⟩ :: x.streams })
  | .print _ k call => do
      let stream ← x.streams[k]?
      if stream.locked then
        let text ← call.text
        let sessions := s.sessions.modify stream.ticket (· ++ text)
        some ({ s with sessions := sessions }.set i { x with doing := .send text })
      else some s
  | .raw _ call => do
      let text ← call.text
      some (s.set i { x with doing := .send text })
  | .unlock _ k => do
      let stream ← x.streams[k]?
      some (s.set i
        { x with
          streams := x.streams.set k { stream with locked := false }
          doing := release s.useMutex stream })
  | .destroy _ =>
      match x.streams with
      | [] => none
      | stream :: streams =>
          some (s.set i { x with streams := streams, doing := release s.useMutex stream })
  | .setInterrupts _ enabled =>
      some (s.set i { x with irqEnabled := enabled, enabled := enabled })
  | _ => none

/-- An action of the code of a context, which has to run. -/
def act (s : State) (i : Nat) (a : Action) : Option State :=
  match (s.contexts i).place, (s.contexts i).doing with
  | .running _, .client => perform s i (s.contexts i) a
  | _, _ => none

/-- The streams of the cores, which have a context each in the beginning. -/
def streams (cores depth : Nat) : System State Action where
  Initial s :=
    s.useMutex = false ∧ s.flag = false ∧ s.queue = [] ∧ s.wire = [] ∧ s.sessions = [] ∧
      s.created = cores ∧ (∀ i < cores, ∃ enabled, s.contexts i = .begin (.running i) enabled) ∧
      ∀ i, cores ≤ i → s.contexts i = {}
  next s a :=
    match a with
    | .go i =>
        match (s.contexts i).place with
        | .running _ => go depth s i
        | _ => none
    | .interrupt i =>
        match (s.contexts i).place with
        | .running core =>
            if (s.contexts i).irqEnabled then
              some ((s.set i { s.contexts i with place := .suspended }).enter core)
            else none
        | _ => none
    | .exception i =>
        match (s.contexts i).place with
        | .running core => some ((s.set i { s.contexts i with place := .suspended }).enter core)
        | _ => none
    | .eret i j =>
        match (s.contexts i).place, (s.contexts j).place with
        | .running core, .suspended =>
            if (s.contexts i).doing = .client ∧ (s.contexts i).streams = [] then
              some ((s.set i { s.contexts i with place := .ended }).set j
                { s.contexts j with place := .running core })
            else none
        | _, _ => none
    | .create enabled =>
        some { s.set s.created (.begin .suspended enabled) with created := s.created + 1 }
    | .transmit =>
        match s.queue with
        | [] => none
        | c :: queue => some { s with queue := queue, wire := s.wire ++ [c] }
    | .setUseMutex => some { s with useMutex := true }
    | a => do
        let i ← a.client
        act s i a

end RPiKernel.Uart
