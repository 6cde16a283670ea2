import Mathlib.Init

/-!
# Stateful computations with faults

How a sequence of two computations runs: the second one starts where the first one has ended,
and a fault of the first one ends both. A computation appends to a log that its state keeps if it
does so from every state, whether it ends with a value or with a fault.
-/

namespace RPiKernel.Machine

variable {ε σ α β : Type} {m : EStateM ε σ α} {f : α → EStateM ε σ β} {s s' : σ}

theorem run_bind_ok {a : α} (h : m.run s = .ok a s') : (m >>= f).run s = (f a).run s' := by
  rw [EStateM.run_bind, h]

theorem run_bind_error {e : ε} (h : m.run s = .error e s') :
    (m >>= f).run s = .error e s' := by
  rw [EStateM.run_bind, h]

/-- A sequence that ends with a value has come through the value of its beginning. -/
theorem exists_of_run_bind {b : β} (h : (m >>= f).run s = .ok b s') :
    ∃ a s₁, m.run s = .ok a s₁ ∧ (f a).run s₁ = .ok b s' := by
  cases hm : m.run s with
  | ok a s₁ =>
    rw [run_bind_ok hm] at h
    exact ⟨a, s₁, rfl, h⟩
  | error e s₁ =>
    rw [run_bind_error hm] at h
    cases h

/-- The state that a computation ends in. -/
def stateAfter (m : EStateM ε σ α) (s : σ) : σ :=
  match m.run s with
  | .ok _ s' => s'
  | .error _ s' => s'

theorem stateAfter_of_ok {a : α} (h : m.run s = .ok a s') : stateAfter m s = s' := by
  rw [stateAfter, h]

theorem stateAfter_of_error {e : ε} (h : m.run s = .error e s') : stateAfter m s = s' := by
  rw [stateAfter, h]

theorem stateAfter_bind_ok {a : α} (h : m.run s = .ok a s') :
    stateAfter (m >>= f) s = stateAfter (f a) s' := by
  rw [stateAfter, run_bind_ok h, stateAfter]

theorem stateAfter_bind_error {e : ε} (h : m.run s = .error e s') :
    stateAfter (m >>= f) s = s' :=
  stateAfter_of_error (run_bind_error h)

/-- A computation appends entries with a property to the log of its state. -/
def Appends {ω : Type} (log : σ → List ω) (P : ω → Prop) (m : EStateM ε σ α) : Prop :=
  ∀ s, ∃ entries, log (stateAfter m s) = log s ++ entries ∧ ∀ entry ∈ entries, P entry

section Appends

variable {ω : Type} {log : σ → List ω} {P : ω → Prop}

theorem appends_of_state_eq (h : ∀ s, stateAfter m s = s) : Appends log P m := by
  intro s
  refine ⟨[], ?_, fun entry hentry => by cases hentry⟩
  rw [h, List.append_nil]

theorem appends_pure (a : α) : Appends log P (pure a : EStateM ε σ α) :=
  appends_of_state_eq fun _ => rfl

theorem appends_throw (e : ε) : Appends log P (throw e : EStateM ε σ α) :=
  appends_of_state_eq fun _ => rfl

/-- What comes after a computation is only run with the values that this one ends with. -/
theorem Appends.bind_of_run (hm : Appends log P m)
    (hf : ∀ a s s', m.run s = .ok a s' → Appends log P (f a)) : Appends log P (m >>= f) := by
  intro s
  obtain ⟨first, hfirst, hall⟩ := hm s
  cases hrun : m.run s with
  | ok a s' =>
    obtain ⟨second, hsecond, hall'⟩ := hf a s s' hrun s'
    rw [stateAfter_of_ok hrun] at hfirst
    refine ⟨first ++ second, ?_, ?_⟩
    · rw [stateAfter_bind_ok hrun, hsecond, hfirst, List.append_assoc]
    · intro entry hentry
      obtain h | h := List.mem_append.mp hentry
      · exact hall entry h
      · exact hall' entry h
  | error e s' =>
    rw [stateAfter_of_error hrun] at hfirst
    refine ⟨first, ?_, hall⟩
    rw [stateAfter_bind_error hrun, hfirst]

theorem Appends.bind (hm : Appends log P m) (hf : ∀ a, Appends log P (f a)) :
    Appends log P (m >>= f) :=
  hm.bind_of_run fun a _ _ _ => hf a

theorem Appends.ite {c : Prop} [Decidable c] {m' : EStateM ε σ α} (hm : Appends log P m)
    (hm' : Appends log P m') : Appends log P (if c then m else m') := by
  split
  · exact hm
  · exact hm'

end Appends

end RPiKernel.Machine
