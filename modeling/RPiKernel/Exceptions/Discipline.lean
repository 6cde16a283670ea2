import RPiKernel.Exceptions.Vectors

/-!
# What the compiled code promises

Every compiled function follows the procedure call standard, nobody writes to the
contexts and the thread records that others wait in, and a stack on which an exception
is taken has room for a context.
-/

namespace RPiKernel.Exceptions

open Aarch64 Transition

namespace Kernel

/-- The words that only the vector code and the scheduler may change: the
`ContextWhenSuspended` of every thread, and the contexts of what is suspended. -/
def guarded (s : Kernel) : Set Word :=
  {a | (∃ t ∈ s.threads, a = contextWhenSuspended t) ∨ ∃ t, ∃ ctx ∈ s.suspended t, a ∈ frame ctx.base}

/-- There is room for a context below the stack pointer. -/
def Room (s : Kernel) : Prop := ∀ a ∈ frame (s.core.reg .sp - 784), a ∉ s.guarded

/-- The computation that was suspended last on the current thread has its context at an
address. -/
def SuspendedAt (s : Kernel) (base : Word) : Prop :=
  ∃ ctx rest, s.suspended s.current = ctx :: rest ∧ ctx.base = base

/-- Another thread, which therefore waits. -/
def Waits (s : Kernel) (thread : Word) : Prop := thread ∈ s.threads ∧ thread ≠ s.current

end Kernel

/-- What the procedure call standard keeps over a call, and the exception registers, which
compiled functions do not touch. -/
structure CalleeSaved (c c' : Core) : Prop where
  sp : c'.reg .sp = c.reg .sp
  regs : ∀ r, nonvolatile r → c'.reg r = c.reg r

section Contract

variable (addr : Symbol Label → Word) (debugger : Word)

/-- A spark is in the result registers, and the guarded words are those of a memory. -/
structure GivesSpark (s : Kernel) (c : Core) (p : Spark × (Word → Word)) : Prop where
  context : c.reg (.x 0) = p.1.context
  func : c.reg (.x 1) = p.1.func
  mem : ∀ a ∈ s.guarded, c.mem a = p.2 a

/-- What a compiled function returns. -/
def Returns (s : Kernel) (c : Core) : Callee → Prop
  | .syscallDispatcher =>
      (instructionSyndrome (s.core.reg .esr) = yieldToThread →
        s.Waits (s.core.mem (s.core.reg (.x 0) + BitVec.ofNat 64 (8 * 0)))) ∧
      ∃ p, syscallDispatcher addr s.core.mem (s.core.reg (.x 0)) (s.core.reg .esr) = some p ∧
        GivesSpark s c p
  | .mainExceptionHandler =>
      s.Waits debugger ∧
      ∃ p, mainExceptionHandler addr debugger s.core.mem (s.core.reg (.x 0)) = some p ∧
        GivesSpark s c p
  | _ => c.reg (.x 1) ≠ addr (.label .threadContextSwitchSpark) ∧
      ∀ a ∈ s.guarded, c.mem a = s.core.mem a

/-- What is promised of a step. -/
def Disciplined (s : Kernel) : Action → Prop
  | .run c => c.reg (.x 18) = s.core.reg (.x 18) ∧ ∀ a ∈ s.guarded, c.mem a = s.core.mem a
  | .createThread info stackHigh _ _ =>
      -- The allocator hands out memory that is not in use.
      info ∉ s.threads ∧ contextWhenSuspended info ∉ s.guarded ∧
        contextWhenSuspended info ∉ frame (stackHigh - 784) ∧
        ∀ a ∈ frame (stackHigh - 784), a ∉ s.guarded
  | .irq => s.Room
  | .synchronous syndrome =>
      s.Room ∧
        -- `UserModeSparkEnd` is reached by the return of a spark.
        (isSyscall syndrome → syscallNumber syndrome = 0 → s.SuspendedAt (s.core.reg .sp))
  | .returned c =>
      CalleeSaved s.core c ∧
        ∀ f k, s.place = .calling f k → Returns addr debugger s c f

end Contract

end RPiKernel.Exceptions
