import RPiKernel.Interleaving.Program

/-!
# Programs that avoid a kind of fault

`Avoids` says of a program that no fault of a kind stops it, whatever the words hold when it comes
to read them. Nothing is assumed about the other programs, so that the notion needs no invariant of
the array and is kept by every atomic step. `excluded` names the reads after which nothing is
promised: a load together with a value.

## Implementation notes

The excluded loads are compared with the rest of the whole program, which is why the rule for
sequential composition asks for a first part without excluded loads.
-/

namespace RPiKernel.Interleaving

namespace Program

variable {V α β : Type} (bad : Fault → Prop)

/-- No fault of the kind stops the program, unless a load reads a value that is excluded for it,
and its result meets the postcondition. -/
def Avoids (excluded : Program V α → V → Prop) (Q : α → Prop) : Program V α → Prop
  | done a => Q a
  | fault e => ¬ bad e
  | load i next => ∀ v, ¬ excluded (load i next) v → Avoids excluded Q (next v)
  | compareExchange _ _ _ next => ∀ ok v, Avoids excluded Q (next ok v)
  | store _ _ next => Avoids excluded Q next
  | compareExchangeLoop _ _ desired next =>
      (∀ v e, desired v = .error e → ¬ bad e) ∧ Avoids excluded Q next

variable {bad} {excluded : Program V α → V → Prop} {Q Q' : α → Prop} {p : Program V α}

/-- The consequence rule. -/
theorem Avoids.mono (hp : p.Avoids bad excluded Q) (hQ : ∀ a, Q a → Q' a) :
    p.Avoids bad excluded Q' := by
  induction p with
  | done a => exact hQ a hp
  | fault e => exact hp
  | load i next ih => exact fun v hv => ih v (hp v hv)
  | compareExchange i expected desired next ih => exact fun ok v => ih ok v (hp ok v)
  | store i v next ih => exact ih hp
  | compareExchangeLoop i current desired next ih => exact ⟨hp.1, ih hp.2⟩

/-- A program that avoids the faults after every read does so after those not excluded. -/
theorem Avoids.of_all (hp : p.Avoids bad (fun _ _ => False) Q) : p.Avoids bad excluded Q := by
  induction p with
  | done a => exact hp
  | fault e => exact hp
  | load i next ih => exact fun v _ => ih v (hp v not_false)
  | compareExchange i expected desired next ih => exact fun ok v => ih ok v (hp ok v)
  | store i v next ih => exact ih hp
  | compareExchangeLoop i current desired next ih => exact ⟨hp.1, ih hp.2⟩

/-- The rule for sequential composition, behind a part in which no load is excluded. -/
theorem Avoids.bind {excluded : Program V β → V → Prop} {Q : β → Prop} {f : α → Program V β}
    (hp : p.Avoids bad (fun _ _ => False) fun a => (f a).Avoids bad excluded Q) :
    (p.bind f).Avoids bad excluded Q := by
  induction p with
  | done a => exact hp
  | fault e => exact hp
  | load i next ih => exact fun v _ => ih v (hp v not_false)
  | compareExchange i expected desired next ih => exact fun ok v => ih ok v (hp ok v)
  | store i v next ih => exact ih hp
  | compareExchangeLoop i current desired next ih => exact ⟨hp.1, ih hp.2⟩

/-- The rule for a load. -/
theorem Avoids.load {i : Nat} {next : V → Program V α}
    (h : ∀ v, ¬ excluded (.load i next) v → (next v).Avoids bad excluded Q) :
    (Program.load i next).Avoids bad excluded Q :=
  h

/-- The rule for a read, whatever the word holds. -/
theorem Avoids.read {i : Nat} {f : V → Program V α} (h : ∀ v, (f v).Avoids bad excluded Q) :
    ((Program.read i).bind f).Avoids bad excluded Q :=
  fun v _ => h v

/-- The rule for a computation on local variables with a known result. -/
theorem Avoids.ofExcept {x : Except Fault β} {b : β} {f : β → Program V α} (hx : x = .ok b)
    (hf : (f b).Avoids bad excluded Q) :
    ((Program.ofExcept x).bind f).Avoids bad excluded Q := by
  rw [hx]
  exact hf

/-- What is not stopped by the fault of a kind has not stopped with it. -/
theorem Avoids.ne_fault {e : Fault} (hp : p.Avoids bad excluded Q) (he : bad e) :
    p ≠ .fault e := by
  rintro rfl
  exact hp he

/-- The next step of the program is a load that reads an excluded value. -/
def ReadsExcluded (excluded : Program V α → V → Prop) (mem : List V) (p : Program V α) : Prop :=
  ∃ i next v, p = .load i next ∧ mem[i]? = some v ∧ excluded p v

variable [DecidableEq V]

/-- An atomic step that reads no excluded value keeps the program away from the faults. -/
theorem Avoids.step {mem : List V} (hp : p.Avoids bad excluded Q) (hbounds : ¬ bad .outOfBounds)
    (hread : ¬ ReadsExcluded excluded mem p) : (p.step mem).1.Avoids bad excluded Q := by
  cases p with
  | done a => exact hp
  | fault e => exact hp
  | load i next =>
      cases hv : mem[i]? with
      | none =>
          simp only [Program.step, hv]
          exact hbounds
      | some v =>
          simp only [Program.step, hv]
          exact hp v fun hexcluded => hread ⟨i, next, v, rfl, hv, hexcluded⟩
  | compareExchange i expected desired next =>
      cases hv : mem[i]? with
      | none =>
          simp only [Program.step, hv]
          exact hbounds
      | some v =>
          simp only [Program.step, hv]
          split
          · exact hp true expected
          · exact hp false v
  | store i v next =>
      cases hv : mem[i]? with
      | none =>
          simp only [Program.step, hv]
          exact hbounds
      | some w =>
          simp only [Program.step, hv]
          exact hp
  | compareExchangeLoop i current desired next =>
      cases hd : desired current with
      | error e =>
          simp only [Program.step, hd]
          exact hp.1 current e hd
      | ok d =>
          cases hv : mem[i]? with
          | none =>
              simp only [Program.step, hd, hv]
              exact hbounds
          | some v =>
              simp only [Program.step, hd, hv]
              split
              · exact hp.2
              · exact hp

end Program

end RPiKernel.Interleaving
