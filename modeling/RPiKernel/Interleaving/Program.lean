import Mathlib.Logic.Function.Iterate

/-!
# Programs over a shared array of atomic words

A program touches the array one atomic step at a time: a load, a
compare-exchange or a store of one word. The same program has two meanings.
`run` executes it with nobody else around; `step` executes one atomic step, so
that several programs can be interleaved. `run_eq_steps` says that the first is
the second iterated without interference.

## Implementation notes

`compareExchangeLoop` is the retry loop `for (;;) { desired = f(current); if
(compare_exchange(current, desired)) break; }`. It is a constructor because
under contention it has no bound on its number of steps, so that it cannot be
unfolded into a finite tree.
-/

namespace RPiKernel.Interleaving

/-- The ways in which execution stops without a result. `panic` is the checked
stop of the program; `outOfBounds` and `undefinedShift` are undefined behaviour
of the language; `diverged` marks a loop that exceeded the bound given to it;
`unmapped` is an access to memory without a translation. -/
inductive Fault where
  | panic (message : String)
  | outOfBounds
  | undefinedShift
  | diverged
  | unmapped
  deriving DecidableEq, Repr

/-- A finite program over words of type `V` with result `α`. -/
inductive Program (V α : Type) where
  | done (a : α)
  | fault (e : Fault)
  | load (i : Nat) (next : V → Program V α)
  | compareExchange (i : Nat) (expected desired : V) (next : Bool → V → Program V α)
  | store (i : Nat) (v : V) (next : Program V α)
  | compareExchangeLoop (i : Nat) (current : V) (desired : V → Except Fault V)
      (next : Program V α)

namespace Program

variable {V α β γ : Type}

/-- Sequential composition of programs. -/
def bind : Program V α → (α → Program V β) → Program V β
  | done a, f => f a
  | fault e, _ => fault e
  | load i next, f => load i fun v => (next v).bind f
  | compareExchange i expected desired next, f =>
      compareExchange i expected desired fun ok v => (next ok v).bind f
  | store i v next, f => store i v (next.bind f)
  | compareExchangeLoop i current desired next, f =>
      compareExchangeLoop i current desired (next.bind f)

instance : Monad (Program V) where
  pure := done
  bind := bind

@[simp] theorem pure_def (a : α) : (pure a : Program V α) = done a := rfl

@[simp] theorem bind_def (p : Program V α) (f : α → Program V β) :
    p >>= f = p.bind f := rfl

@[simp] theorem bind_done (a : α) (f : α → Program V β) : (done a).bind f = f a := rfl

@[simp] theorem bind_fault (e : Fault) (f : α → Program V β) :
    (fault e : Program V α).bind f = fault e := rfl

@[simp] theorem bind_load (i : Nat) (next : V → Program V α) (f : α → Program V β) :
    (load i next).bind f = load i fun v => (next v).bind f := rfl

@[simp] theorem bind_compareExchange (i : Nat) (expected desired : V)
    (next : Bool → V → Program V α) (f : α → Program V β) :
    (compareExchange i expected desired next).bind f =
      compareExchange i expected desired fun ok v => (next ok v).bind f := rfl

@[simp] theorem bind_store (i : Nat) (v : V) (next : Program V α) (f : α → Program V β) :
    (store i v next).bind f = store i v (next.bind f) := rfl

@[simp] theorem bind_compareExchangeLoop (i : Nat) (current : V)
    (desired : V → Except Fault V) (next : Program V α) (f : α → Program V β) :
    (compareExchangeLoop i current desired next).bind f =
      compareExchangeLoop i current desired (next.bind f) := rfl

/-- The value of one word. -/
def read (i : Nat) : Program V V := load i done

/-- A computation on local variables only. -/
def ofExcept : Except Fault α → Program V α
  | .ok a => done a
  | .error e => fault e

@[simp] theorem bind_read (i : Nat) (f : V → Program V β) : (read i).bind f = load i f := rfl

@[simp] theorem bind_ofExcept_ok (a : α) (f : α → Program V β) :
    (ofExcept (.ok a) : Program V α).bind f = f a := rfl

@[simp] theorem bind_ofExcept_error (e : Fault) (f : α → Program V β) :
    (ofExcept (.error e) : Program V α).bind f = fault e := rfl

section Sequential

variable [DecidableEq V]

/-- Execution without interference, from the given array to the final one. -/
def run : Program V α → List V → Except Fault α × List V
  | done a, mem => (.ok a, mem)
  | fault e, mem => (.error e, mem)
  | load i next, mem =>
      match mem[i]? with
      | some v => (next v).run mem
      | none => (.error .outOfBounds, mem)
  | compareExchange i expected desired next, mem =>
      match mem[i]? with
      | some v =>
          if v = expected then (next true expected).run (mem.set i desired)
          else (next false v).run mem
      | none => (.error .outOfBounds, mem)
  | store i v next, mem =>
      match mem[i]? with
      | some _ => next.run (mem.set i v)
      | none => (.error .outOfBounds, mem)
  | compareExchangeLoop i current desired next, mem =>
      match desired current with
      | .error e => (.error e, mem)
      | .ok d =>
          match mem[i]? with
          | none => (.error .outOfBounds, mem)
          | some v =>
              if v = current then next.run (mem.set i d)
              else
                match desired v with
                | .error e => (.error e, mem)
                | .ok d' => next.run (mem.set i d')

@[simp] theorem run_done (a : α) (mem : List V) :
    (done a : Program V α).run mem = (.ok a, mem) := rfl

@[simp] theorem run_fault (e : Fault) (mem : List V) :
    (fault e : Program V α).run mem = (.error e, mem) := rfl

theorem run_load {i : Nat} {next : V → Program V α} {mem : List V} {v : V}
    (hv : mem[i]? = some v) : (load i next).run mem = (next v).run mem := by
  simp only [run, hv]

theorem run_compareExchange_same {i : Nat} {expected desired : V}
    {next : Bool → V → Program V α} {mem : List V} (hv : mem[i]? = some expected) :
    (compareExchange i expected desired next).run mem =
      (next true expected).run (mem.set i desired) := by
  simp only [run, hv, if_true]

theorem run_store {i : Nat} {v : V} {next : Program V α} {mem : List V}
    (hi : i < mem.length) : (store i v next).run mem = next.run (mem.set i v) := by
  simp only [run, List.getElem?_eq_getElem hi]

/-- A result of the first part is handed to the second together with its array. -/
theorem run_bind_ok {p : Program V α} {f : α → Program V β} {mem mem' : List V} {a : α}
    (hp : p.run mem = (.ok a, mem')) : (p.bind f).run mem = (f a).run mem' := by
  induction p generalizing mem with
  | done b =>
      obtain ⟨h₁, rfl⟩ := Prod.mk.inj hp
      rw [bind_done, Except.ok.inj h₁]
  | fault e => cases (Prod.mk.inj hp).1
  | load i next ih =>
      cases hv : mem[i]? with
      | none => simp [run, hv] at hp
      | some v =>
          simp only [bind_load, run, hv] at hp ⊢
          exact ih v hp
  | compareExchange i expected desired next ih =>
      cases hv : mem[i]? with
      | none => simp [run, hv] at hp
      | some v =>
          by_cases he : v = expected
          · simp only [bind_compareExchange, run, hv, he, if_true] at hp ⊢
            exact ih true expected hp
          · simp only [bind_compareExchange, run, hv, he, if_false] at hp ⊢
            exact ih false v hp
  | store i v next ih =>
      cases hv : mem[i]? with
      | none => simp [run, hv] at hp
      | some w =>
          simp only [bind_store, run, hv] at hp ⊢
          exact ih hp
  | compareExchangeLoop i current desired next ih =>
      cases hd : desired current with
      | error e => simp [run, hd] at hp
      | ok d =>
          cases hv : mem[i]? with
          | none => simp [run, hd, hv] at hp
          | some v =>
              by_cases he : v = current
              · simp only [bind_compareExchangeLoop, run, hd, hv, he, if_true] at hp ⊢
                exact ih hp
              · cases hd' : desired v with
                | error e => simp [run, hd, hv, he, hd'] at hp
                | ok d' =>
                    simp only [bind_compareExchangeLoop, run, hd, hv, he, if_false, hd'] at hp ⊢
                    exact ih hp

/-- A fault of the first part is the fault of the whole program. -/
theorem run_bind_error {p : Program V α} {f : α → Program V β} {mem mem' : List V} {e : Fault}
    (hp : p.run mem = (.error e, mem')) : (p.bind f).run mem = (.error e, mem') := by
  induction p generalizing mem with
  | done b => cases (Prod.mk.inj hp).1
  | fault e' =>
      obtain ⟨h₁, rfl⟩ := Prod.mk.inj hp
      rw [bind_fault, run_fault, Except.error.inj h₁]
  | load i next ih =>
      cases hv : mem[i]? with
      | none => simpa [run, hv] using hp
      | some v =>
          simp only [bind_load, run, hv] at hp ⊢
          exact ih v hp
  | compareExchange i expected desired next ih =>
      cases hv : mem[i]? with
      | none => simpa [run, hv] using hp
      | some v =>
          by_cases he : v = expected
          · simp only [bind_compareExchange, run, hv, he, if_true] at hp ⊢
            exact ih true expected hp
          · simp only [bind_compareExchange, run, hv, he, if_false] at hp ⊢
            exact ih false v hp
  | store i v next ih =>
      cases hv : mem[i]? with
      | none => simpa [run, hv] using hp
      | some w =>
          simp only [bind_store, run, hv] at hp ⊢
          exact ih hp
  | compareExchangeLoop i current desired next ih =>
      cases hd : desired current with
      | error e' => simpa [run, hd] using hp
      | ok d =>
          cases hv : mem[i]? with
          | none => simpa [run, hd, hv] using hp
          | some v =>
              by_cases he : v = current
              · simp only [bind_compareExchangeLoop, run, hd, hv, he, if_true] at hp ⊢
                exact ih hp
              · cases hd' : desired v with
                | error e' => simpa [run, hd, hv, he, hd'] using hp
                | ok d' =>
                    simp only [bind_compareExchangeLoop, run, hd, hv, he, if_false, hd'] at hp ⊢
                    exact ih hp

end Sequential

section SmallStep

variable [DecidableEq V]

/-- One atomic step. A finished or faulted program does not move. -/
def step : Program V α → List V → Program V α × List V
  | done a, mem => (done a, mem)
  | fault e, mem => (fault e, mem)
  | load i next, mem =>
      match mem[i]? with
      | some v => (next v, mem)
      | none => (fault .outOfBounds, mem)
  | compareExchange i expected desired next, mem =>
      match mem[i]? with
      | some v =>
          if v = expected then (next true expected, mem.set i desired) else (next false v, mem)
      | none => (fault .outOfBounds, mem)
  | store i v next, mem =>
      match mem[i]? with
      | some _ => (next, mem.set i v)
      | none => (fault .outOfBounds, mem)
  | compareExchangeLoop i current desired next, mem =>
      match desired current with
      | .error e => (fault e, mem)
      | .ok d =>
          match mem[i]? with
          | none => (fault .outOfBounds, mem)
          | some v =>
              if v = current then (next, mem.set i d)
              else (compareExchangeLoop i v desired next, mem)

/-- The program that has already come to the given outcome. -/
def halted : Except Fault α → Program V α
  | .ok a => done a
  | .error e => fault e

/-- The result of a finished program. -/
def result? : Program V α → Option α
  | done a => some a
  | _ => none

omit [DecidableEq V] in
theorem result?_eq_some {p : Program V α} {a : α} : p.result? = some a ↔ p = done a := by
  cases p <;> simp [result?]

/-- The result of `steps` atomic steps in a row. -/
def steps (n : Nat) (p : Program V α) (mem : List V) : Program V α × List V :=
  (fun c => step c.1 c.2)^[n] (p, mem)

theorem steps_succ (n : Nat) (p : Program V α) (mem : List V) :
    steps (n + 1) p mem = steps n (step p mem).1 (step p mem).2 := rfl

/-- Undisturbed small steps reach exactly the outcome and the array of `run`. -/
theorem run_eq_steps (p : Program V α) (mem : List V) :
    ∃ n, steps n p mem = (halted (p.run mem).1, (p.run mem).2) := by
  induction p generalizing mem with
  | done a => exact ⟨0, rfl⟩
  | fault e => exact ⟨0, rfl⟩
  | load i next ih =>
      cases hv : mem[i]? with
      | none => exact ⟨1, by simp [steps, step, run, hv, halted]⟩
      | some v =>
          obtain ⟨n, hn⟩ := ih v mem
          exact ⟨n + 1, by simpa [steps_succ, step, run, hv] using hn⟩
  | compareExchange i expected desired next ih =>
      cases hv : mem[i]? with
      | none => exact ⟨1, by simp [steps, step, run, hv, halted]⟩
      | some v =>
          by_cases he : v = expected
          · obtain ⟨n, hn⟩ := ih true expected (mem.set i desired)
            exact ⟨n + 1, by simpa [steps_succ, step, run, hv, he] using hn⟩
          · obtain ⟨n, hn⟩ := ih false v mem
            exact ⟨n + 1, by simpa [steps_succ, step, run, hv, he] using hn⟩
  | store i v next ih =>
      cases hv : mem[i]? with
      | none => exact ⟨1, by simp [steps, step, run, hv, halted]⟩
      | some w =>
          obtain ⟨n, hn⟩ := ih (mem.set i v)
          exact ⟨n + 1, by simpa [steps_succ, step, run, hv] using hn⟩
  | compareExchangeLoop i current desired next ih =>
      cases hd : desired current with
      | error e => exact ⟨1, by simp [steps, step, run, hd, halted]⟩
      | ok d =>
          cases hv : mem[i]? with
          | none => exact ⟨1, by simp [steps, step, run, hd, hv, halted]⟩
          | some v =>
              by_cases he : v = current
              · obtain ⟨n, hn⟩ := ih (mem.set i d)
                exact ⟨n + 1, by simpa [steps_succ, step, run, hd, hv, he] using hn⟩
              · cases hd' : desired v with
                | error e =>
                    refine ⟨2, ?_⟩
                    simp [steps, step, run, hd, hv, he, hd', halted]
                | ok d' =>
                    obtain ⟨n, hn⟩ := ih (mem.set i d')
                    refine ⟨n + 2, ?_⟩
                    simpa [steps_succ, step, run, hd, hv, he, hd'] using hn

end SmallStep

end Program

end RPiKernel.Interleaving
