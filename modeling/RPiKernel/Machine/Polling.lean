import RPiKernel.Machine.Stateful

/-!
# Bounded computations and polling loops

A computation returns within a cost if it ends with a value, and a measure of its state has grown
by no more than that; the measure counts what a computation has done, such as the registers that it
has read. The bounds of a sequence add up. A polling loop that counts down returns within as many
costs of its guard as its counter says.
-/

namespace RPiKernel.Machine

variable {ε σ α β : Type}

/-- From a state, the computation returns within a cost. -/
def ReturnsWithin (cost : σ → Nat) (n : Nat) (m : EStateM ε σ α) (s : σ) : Prop :=
  ∃ a s', m.run s = .ok a s' ∧ cost s' ≤ cost s + n

/-- From every state, the computation returns within a cost. -/
def Within (cost : σ → Nat) (n : Nat) (m : EStateM ε σ α) : Prop :=
  ∀ s, ReturnsWithin cost n m s

section Rules

variable {cost : σ → Nat} {n k : Nat} {m m' : EStateM ε σ α} {f : α → EStateM ε σ β} {s : σ}

theorem ReturnsWithin.mono (h : ReturnsWithin cost n m s) (hle : n ≤ k) :
    ReturnsWithin cost k m s := by
  obtain ⟨a, s', hrun, hcost⟩ := h
  exact ⟨a, s', hrun, by omega⟩

/-- What comes behind a computation that has returned. -/
theorem ReturnsWithin.of_run {a : α} {s' : σ} (hrun : m.run s = .ok a s')
    (hcost : cost s' ≤ cost s + n) (h : ReturnsWithin cost k (f a) s') :
    ReturnsWithin cost (n + k) (m >>= f) s := by
  obtain ⟨b, s₁, hrun', hcost'⟩ := h
  exact ⟨b, s₁, (run_bind_ok hrun).trans hrun', by omega⟩

/-- A computation that stops without a value does not return. -/
theorem not_returnsWithin_of_error {e : ε} {s' : σ} (hrun : m.run s = .error e s') :
    ¬ ReturnsWithin cost n m s := by
  rintro ⟨a, s₁, hok, -⟩
  rw [hrun] at hok
  cases hok

theorem Within.mono (h : Within cost n m) (hle : n ≤ k) : Within cost k m :=
  fun s => (h s).mono hle

theorem Within.pure (a : α) : Within cost n (pure a : EStateM ε σ α) :=
  fun s => ⟨a, s, rfl, Nat.le_add_right _ _⟩

/-- The bounds of a sequence add up. -/
theorem Within.bind (hm : Within cost n m) (hf : ∀ a, Within cost k (f a)) :
    Within cost (n + k) (m >>= f) := by
  intro s
  obtain ⟨a, s', hrun, hcost⟩ := hm s
  exact ReturnsWithin.of_run hrun hcost (hf a s')

/-- What a computation without cost adds to a sequence is nothing. -/
theorem Within.bind_free (hm : Within cost 0 m) (hf : ∀ a, Within cost k (f a)) :
    Within cost k (m >>= f) := by
  have h := hm.bind hf
  rwa [Nat.zero_add] at h

/-- Behind the last computation with a cost. -/
theorem Within.bind_last (hm : Within cost n m) (hf : ∀ a, Within cost 0 (f a)) :
    Within cost n (m >>= f) :=
  hm.bind hf

theorem Within.ite {c : Prop} [Decidable c] (hm : Within cost n m) (hm' : Within cost n m') :
    Within cost n (if c then m else m') := by
  split
  · exact hm
  · exact hm'

end Rules

/-- From a state, the computation returns within a cost if a condition holds, and stops without a
value if not. -/
def ReturnsIf (cost : σ → Nat) (n : Nat) (c : Prop) (m : EStateM ε σ α) (s : σ) : Prop :=
  (c ∧ ReturnsWithin cost n m s) ∨ (¬ c ∧ ∃ e s', m.run s = .error e s')

section Conditions

variable {cost : σ → Nat} {n k : Nat} {c c' : Prop} {m : EStateM ε σ α}
  {f : α → EStateM ε σ β} {s : σ}

theorem ReturnsIf.iff (h : ReturnsIf cost n c m s) : ReturnsWithin cost n m s ↔ c := by
  rcases h with ⟨hc, hreturns⟩ | ⟨hc, e, s', hrun⟩
  · exact iff_of_true hreturns hc
  · exact iff_of_false (not_returnsWithin_of_error hrun) hc

theorem ReturnsIf.congr (h : ReturnsIf cost n c m s) (hc : c ↔ c') : ReturnsIf cost n c' m s := by
  rwa [ReturnsIf, ← hc]

theorem ReturnsIf.of_within (h : ReturnsWithin cost n m s) (hc : c) : ReturnsIf cost n c m s :=
  Or.inl ⟨hc, h⟩

/-- Behind a computation that has returned, the condition is that of the rest. -/
theorem ReturnsIf.of_run {a : α} {s' : σ} (hrun : m.run s = .ok a s')
    (hcost : cost s' ≤ cost s + n) (h : ReturnsIf cost k c (f a) s') :
    ReturnsIf cost (n + k) c (m >>= f) s := by
  rcases h with ⟨hc, hreturns⟩ | ⟨hc, e, s₁, hrun'⟩
  · exact Or.inl ⟨hc, ReturnsWithin.of_run hrun hcost hreturns⟩
  · exact Or.inr ⟨hc, e, s₁, (run_bind_ok hrun).trans hrun'⟩

/-- A computation that comes to the rest of another one. -/
theorem ReturnsIf.of_run_eq {m' : EStateM ε σ α} {s' : σ} (hrun : m.run s = m'.run s')
    (hcost : cost s' ≤ cost s + n) (h : ReturnsIf cost k c m' s') :
    ReturnsIf cost (n + k) c m s := by
  rcases h with ⟨hc, a, s₁, hrun', hcost'⟩ | ⟨hc, e, s₁, hrun'⟩
  · exact Or.inl ⟨hc, a, s₁, hrun.trans hrun', by omega⟩
  · exact Or.inr ⟨hc, e, s₁, hrun.trans hrun'⟩

/-- What returns in any case changes nothing about the condition. -/
theorem ReturnsIf.bind (h : ReturnsIf cost n c m s) (hf : ∀ a, Within cost k (f a)) :
    ReturnsIf cost (n + k) c (m >>= f) s := by
  rcases h with ⟨hc, a, s', hrun, hcost⟩ | ⟨hc, e, s', hrun⟩
  · exact Or.inl ⟨hc, ReturnsWithin.of_run hrun hcost (hf a s')⟩
  · exact Or.inr ⟨hc, e, s', run_bind_error hrun⟩

end Conditions

/-- The loop `while (guard && cnt--)`, with the counter that it leaves: the one that the guard has
been false at, or -1. -/
def pollWhile (guard : EStateM ε σ Bool) : Nat → EStateM ε σ Int
  | 0 => do
      if ← guard then
        return -1
      return 0
  | cnt + 1 => do
      if ← guard then
        pollWhile guard cnt
      else
        return Int.ofNat (cnt + 1)

/-- A polling loop evaluates its guard once more than its counter says at most. -/
theorem within_pollWhile {cost : σ → Nat} {n : Nat} {guard : EStateM ε σ Bool}
    (h : Within cost n guard) (cnt : Nat) :
    Within cost ((cnt + 1) * n) (pollWhile guard cnt) := by
  induction cnt with
  | zero =>
      rw [Nat.zero_add, Nat.one_mul]
      refine h.bind_last fun again => ?_
      exact Within.ite (Within.pure _) (Within.pure _)
  | succ cnt ih =>
      rw [Nat.succ_mul, Nat.add_comm]
      refine h.bind fun again => ?_
      exact Within.ite ih (Within.pure _)

end RPiKernel.Machine
