import RPiKernel.Exceptions.ThreadContext
import RPiKernel.Transition.System

/-!
# Exceptions, sparks and thread switches

The control flow of `Boot.S`: an exception saves a context on the stack of the thread
that it interrupts, the handlers and sparks run, and `RestoreAllRegistersAndERet` resumes
a computation. `ThreadContextSwitchSpark` resumes one of another thread.

## Implementation notes

Between two calls of compiled functions the code of `Boot.S` runs with interrupts
masked, so a step of the system runs from one such call to the next. What a compiled
function does is an action with the core behind it; `Disciplined` says what the procedure
call standard and the functions promise of it. The link register that a call sets is not
modelled: no function promises to keep it. `suspended` records, for the `ThreadInfo` at an
address, the contexts of the computations that wait on the thread, latest first.
-/

namespace RPiKernel.Exceptions

open Aarch64 Transition

/-- The compiled functions that `Boot.S` calls. -/
inductive Callee where
  | interruptDispatcher
  | mainExceptionHandler
  | syscallDispatcher
  | getNextScheduledSpark
  | spark
  deriving DecidableEq, Repr

/-- Where the code goes on behind a call. -/
inductive Return where
  /-- `IrqExceptionVector`, behind the call of `InterruptDispatcher`. -/
  | irqDispatched
  /-- `IrqExceptionVector`, behind the call of a spark. -/
  | irqSparkDone
  /-- `SynchronousExceptionVector`, behind the call of `MainExceptionHandler`. -/
  | handled
  /-- `SynchronousExceptionVector`, behind the call of a spark. -/
  | handledSparkDone
  /-- `RunSpark`. -/
  | runSpark
  /-- `RunSpark`, behind the call of a spark. -/
  | sparkDone
  deriving DecidableEq, Repr

/-- Where a piece of `Boot.S` ends. -/
inductive Outcome where
  | call (f : Callee) (k : Return) (c : Core)
  /-- An `eret` into a user-mode spark. -/
  | enterSpark (c : Core)
  /-- An `eret` behind `RestoreParametersAndERet`. -/
  | resume (c : Core)

section Code

variable (addr : Symbol Label → Word)

def restoreAllRegistersAndERet (c : Core) : Outcome :=
  .resume (c.execAll addr restoreAllRegisters).eret

def threadContextSwitchSpark (c : Core) : Outcome :=
  restoreAllRegistersAndERet addr (c.execAll addr (saveSwitched ++ switchStack))

def enterUserModeSpark (c : Core) : Outcome := .enterSpark (c.execAll addr runUserModeSpark).eret

/-- `tbnz x1, #0, RunUserModeSpark` and `blr x1`. -/
def invokeSpark (k : Return) (c : Core) : Outcome :=
  if (c.reg (.x 1)).getLsbD 0 then
    enterUserModeSpark addr c
  else if c.reg (.x 1) = addr (.label .threadContextSwitchSpark) then
    threadContextSwitchSpark addr c
  else
    .call .spark k c

def getAndRunNextScheduledSpark (c : Core) : Outcome := .call .getNextScheduledSpark .runSpark c

def runSpark (c : Core) : Outcome :=
  if c.reg (.x 1) = 0 then restoreAllRegistersAndERet addr c else invokeSpark addr .sparkDone c

/-- What the code does behind a call. -/
def goOn (c : Core) : Return → Outcome
  | .irqDispatched =>
      if c.reg (.x 1) = 0 then getAndRunNextScheduledSpark c else invokeSpark addr .irqSparkDone c
  | .irqSparkDone =>
      if c.reg (.x 1) = 0 then
        .call .interruptDispatcher .irqDispatched (c.execAll addr irqDispatch)
      else
        invokeSpark addr .irqSparkDone c
  | .handled =>
      if c.reg (.x 1) = 0 then
        restoreAllRegistersAndERet addr c
      else
        invokeSpark addr .handledSparkDone c
  | .handledSparkDone =>
      if c.reg (.x 1) = 0 then
        restoreAllRegistersAndERet addr c
      else
        invokeSpark addr .handledSparkDone c
  | .runSpark => runSpark addr c
  | .sparkDone => if c.reg (.x 1) = 0 then getAndRunNextScheduledSpark c else runSpark addr c

def irqExceptionVector (c : Core) : Outcome :=
  .call .interruptDispatcher .irqDispatched (c.takeException.execAll addr irqEntry)

def dispatchToSyscall (c : Core) : Outcome :=
  let c := c.execAll addr detectSparkEnd
  if c.reg (.x 8) = 0 then
    getAndRunNextScheduledSpark c
  else
    .call .syscallDispatcher .runSpark (c.execAll addr syscallEntry)

def synchronousExceptionVector (syndrome : Word) (c : Core) : Outcome :=
  let c := (c.takeSynchronous syndrome).execAll addr detectSyscall
  if c.reg (.x 1) = 0 then
    dispatchToSyscall addr c
  else
    .call .mainExceptionHandler .handled (c.execAll addr synchronousEntry)

end Code

/-- `Syscall::Function`, the number of the `svc`. -/
def syscallNumber (syndrome : Word) : Word := bitField syndrome 0 16

/-- `esr_el1->ISS` -/
def instructionSyndrome (syndrome : Word) : Word := bitField syndrome 0 25

def isSyscall (syndrome : Word) : Prop := bitField syndrome 26 6 = 0x15

instance (syndrome : Word) : Decidable (isSyscall syndrome) :=
  inferInstanceAs (Decidable (_ = _))

def yieldToThread : Word := 2

def helloFromISS1 : Word := 1

/-- `Scheduler::ThreadInfo::ContextWhenSuspended` is the first field. -/
def contextWhenSuspended (thread : Word) : Word := thread

/-- `Spsr = { .SP = 1, .EL = 1, .D = 1 }` -/
def createdSpsr : Word := 0x205

/-- The context of a computation that takes an exception. -/
def Context.interrupted (c : Core) : Context := ⟨c.reg .sp - 784, c.takeException.reg⟩

/-- What `DispatchToSyscall` leaves in the context of the caller. -/
def Context.calledSystem (c : Core) : Context where
  base := c.reg .sp - 784
  reg r :=
    if keptBySyscall r then
      c.takeException.reg r
    else if r = .q 31 0 then
      c.reg (.x 0)
    else if r = .q 31 1 then
      c.reg (.x 1)
    else
      c.mem (c.reg .sp - 784 + BitVec.ofNat 64 ((slot r).getD 0))

/-- The same context with another first argument. -/
def Context.withArgument (ctx : Context) (argument : Word) : Context :=
  { ctx with reg := Function.update ctx.reg (.x 0) argument }

/-- The registers that a memory has in the slots of a context. -/
def Context.read (m : Word → Word) (base : Word) : Context where
  base := base
  reg r := m (base + BitVec.ofNat 64 ((slot r).getD 0))

/-- `Exception::Spark`, which a function returns in `x0` and `x1`. -/
structure Spark where
  context : Word := 0
  func : Word := 0
  deriving DecidableEq, Repr

section Functions

variable (addr : Symbol Label → Word)

/-- `MakeSpark(ThreadContext*)` -/
def makeSwitchSpark (threadContext : Word) : Spark :=
  ⟨threadContext, addr (.label .threadContextSwitchSpark)⟩

/-- The result of `SyscallDispatcher` and the memory behind it; a panic returns nothing. -/
def syscallDispatcher (m : Word → Word) (threadContext syndrome : Word) :
    Option (Spark × (Word → Word)) :=
  let func := instructionSyndrome syndrome
  if func = yieldToThread then
    let newThreadInfo := m (threadContext + BitVec.ofNat 64 (8 * 0))
    some (makeSwitchSpark addr (m (contextWhenSuspended newThreadInfo)),
      Function.update m (contextWhenSuspended newThreadInfo) 0)
  else if func = helloFromISS1 then
    some ({}, m)
  else
    none

/-- The result of `MainExceptionHandler` and the memory behind it; without a debugger
thread the core halts. -/
def mainExceptionHandler (debugger : Word) (m : Word → Word) (context : Word) :
    Option (Spark × (Word → Word)) :=
  if debugger ≠ 0 then
    let suspended := m (contextWhenSuspended debugger)
    some (makeSwitchSpark addr suspended,
      Function.update m (suspended + BitVec.ofNat 64 (8 * 0)) context)
  else
    none

end Functions

inductive Place where
  /-- Interruptible code: a thread or a user-mode spark. -/
  | code
  | calling (f : Callee) (k : Return)
  deriving DecidableEq, Repr

/-- A core, the threads that exist, and what is suspended on them. -/
structure Kernel where
  core : Core
  place : Place := .code
  /-- The `ThreadInfo`s. -/
  threads : List Word
  suspended : Word → List Context := fun _ => []

/-- The thread that runs, which `x18` names. -/
def Kernel.current (s : Kernel) : Word := s.core.reg (.x 18)

inductive Action where
  /-- Interruptible code runs. -/
  | run (c : Core)
  | createThread (info stackHigh function context : Word)
  | irq
  | synchronous (syndrome : Word)
  /-- A compiled function returns. -/
  | returned (c : Core)

/-- The memory behind `CreateThread`. -/
def createThread (m : Word → Word) (info stackHigh function context : Word) : Word → Word :=
  let base := stackHigh - 784
  let m := Function.update m (contextWhenSuspended info) base
  let m := Function.update m (base + BitVec.ofNat 64 (8 * 0)) context
  let m := Function.update m (base + BitVec.ofNat 64 (8 * 18)) info
  let m := Function.update m (base + BitVec.ofNat 64 threadContextSp) stackHigh
  let m := Function.update m (base + BitVec.ofNat 64 threadContextPc) function
  Function.update m (base + BitVec.ofNat 64 threadContextSpsr) createdSpsr

namespace Kernel

/-- A computation of the current thread is suspended. -/
def push (s : Kernel) (ctx : Context) : Kernel :=
  { s with suspended := Function.update s.suspended s.current (ctx :: s.suspended s.current) }

/-- The latest computation of a thread goes on. -/
def pop (s : Kernel) (thread : Word) : Kernel :=
  { s with suspended := Function.update s.suspended thread (s.suspended thread).tail }

/-- The latest computation of a thread gets a new first argument. -/
def setArgument (s : Kernel) (thread argument : Word) : Kernel :=
  { s with
    suspended := Function.update s.suspended thread
      ((s.suspended thread).modifyHead fun ctx => ctx.withArgument argument) }

theorem push_suspended (s : Kernel) (ctx : Context) (t : Word) :
    (s.push ctx).suspended t =
      if t = s.current then ctx :: s.suspended s.current else s.suspended t :=
  Function.update_apply s.suspended s.current _ t

theorem pop_suspended (s : Kernel) (thread t : Word) :
    (s.pop thread).suspended t =
      if t = thread then (s.suspended thread).tail else s.suspended t :=
  Function.update_apply s.suspended thread _ t

theorem setArgument_suspended (s : Kernel) (thread argument t : Word) :
    (s.setArgument thread argument).suspended t =
      if t = thread then (s.suspended thread).modifyHead fun ctx => ctx.withArgument argument
      else s.suspended t :=
  Function.update_apply s.suspended thread _ t

def enter (s : Kernel) : Outcome → Kernel
  | .call f k c => { s with core := c, place := .calling f k }
  | .enterSpark c => { s with core := c, place := .code }
  | .resume c => { s.pop (c.reg (.x 18)) with core := c, place := .code }

end Kernel

section System

variable (addr : Symbol Label → Word) (debugger : Word)

/-- What the vector code does in a step, and the state with the change to what is
suspended. -/
def effect (s : Kernel) : Action → Option (Kernel × Outcome)
  | .irq =>
      if s.place = .code then
        some (s.push (.interrupted s.core), irqExceptionVector addr s.core)
      else
        none
  | .synchronous syndrome =>
      if s.place = .code then
        let outcome := synchronousExceptionVector addr syndrome s.core
        if ¬ isSyscall syndrome then
          some (s.push (.interrupted s.core), outcome)
        else if syscallNumber syndrome = 0 then
          some (s, outcome)
        else
          some (s.push (.calledSystem s.core), outcome)
      else
        none
  | .returned c =>
      match s.place with
      | .code => none
      | .calling f k =>
          let s' := { s with core := c }
          if f = .mainExceptionHandler then
            some (s'.setArgument debugger (s.core.reg (.x 0)), goOn addr c k)
          else
            some (s', goOn addr c k)
  | _ => none

/-- The kernel of one core, with the debugger's thread. -/
def kernel : System Kernel Action where
  Initial s := s.place = .code ∧ s.threads = [s.current] ∧ ∀ t, s.suspended t = []
  next s a :=
    match a with
    | .run c => if s.place = .code then some { s with core := c } else none
    | .createThread info stackHigh function context =>
        if s.place = .code then
          let m := createThread s.core.mem info stackHigh function context
          some { s with
            core := { s.core with mem := m }
            threads := info :: s.threads
            suspended := Function.update s.suspended info [.read m (stackHigh - 784)] }
        else
          none
    | a => (effect addr debugger s a).map fun p => p.1.enter p.2

end System

end RPiKernel.Exceptions
