import Mathlib.Order.Basic

/-!
# Loops with fuel

A loop that need not end runs with fuel and says whether it has ended. What it has done so far is
there in either case, so that a property of the steps holds however far the loop gets.
-/

namespace RPiKernel.Machine

/-- Where a run has got to, and whether it has ended. -/
structure Progress (σ : Type) where
  state : σ
  ended : Bool

namespace Progress

variable {σ τ : Type}

/-- What comes behind a run that has ended. -/
def andThen (p : Progress σ) (next : σ → Progress σ) : Progress σ :=
  if p.ended then next p.state else p

/-- The same run, seen from its states. -/
def map (f : σ → τ) (p : Progress σ) : Progress τ := ⟨f p.state, p.ended⟩

end Progress

variable {σ : Type}

/-- `while (guard) body`. -/
def whileLoop (guard : σ → Bool) (body : σ → Progress σ) : Nat → σ → Progress σ
  | 0, s => ⟨s, false⟩
  | fuel + 1, s =>
      if guard s then (body s).andThen (whileLoop guard body fuel) else ⟨s, true⟩

section Rules

variable {guard : σ → Bool} {body : σ → Progress σ} {next : σ → Progress σ} {p : Progress σ}
  {I J : σ → Prop} {fuel : Nat} {s : σ}

/-- What both parts of a sequence keep. -/
theorem andThen_state (hfirst : I p.state) (hnext : p.ended = true → I (next p.state).state) :
    I (p.andThen next).state := by
  rw [Progress.andThen]
  split
  · next hended => exact hnext hended
  · exact hfirst

theorem ended_of_andThen (h : (p.andThen next).ended = true) :
    p.ended = true ∧ p.andThen next = next p.state := by
  rw [Progress.andThen] at h ⊢
  cases hended : p.ended with
  | true => exact ⟨rfl, if_pos rfl⟩
  | false =>
    rw [hended, if_neg Bool.false_ne_true] at h
    exact absurd (hended.symm.trans h) Bool.false_ne_true

/-- A loop keeps what its body keeps, also when it has not ended. -/
theorem whileLoop_state (hbody : ∀ s, I s → guard s = true → I (body s).state) (h : I s) :
    I (whileLoop guard body fuel s).state := by
  induction fuel generalizing s with
  | zero => exact h
  | succ fuel ih =>
    rw [whileLoop]
    split
    · next hguard => exact andThen_state (hbody s h hguard) fun _ => ih (hbody s h hguard)
    · exact h

/-- A loop that has ended has only gone through bodies that have ended. -/
theorem whileLoop_state_of_ended
    (hbody : ∀ s, I s → guard s = true → (body s).ended = true → I (body s).state) (h : I s)
    (hended : (whileLoop guard body fuel s).ended = true) :
    I (whileLoop guard body fuel s).state := by
  induction fuel generalizing s with
  | zero => exact h
  | succ fuel ih =>
    rw [whileLoop] at hended ⊢
    split
    · next hguard =>
      rw [if_pos hguard] at hended
      obtain ⟨hfirst, hnext⟩ := ended_of_andThen hended
      rw [hnext] at hended ⊢
      exact ih (hbody s h hguard hfirst) hended
    · exact h

/-- A loop that has ended has its guard false. -/
theorem guard_of_whileLoop (h : (whileLoop guard body fuel s).ended = true) :
    guard (whileLoop guard body fuel s).state = false := by
  induction fuel generalizing s with
  | zero => exact absurd h Bool.false_ne_true
  | succ fuel ih =>
    rw [whileLoop] at h ⊢
    split
    · next hguard =>
      rw [if_pos hguard] at h
      obtain ⟨-, hnext⟩ := ended_of_andThen h
      rw [hnext] at h ⊢
      exact ih h
    · next hguard => exact eq_false_of_ne_true hguard

/-- A loop ends if its body does, and lowers a measure. -/
theorem whileLoop_ended (measure : σ → Nat) (hbody : ∀ s, I s → guard s = true → I (body s).state ∧
      (body s).ended = true ∧ measure (body s).state < measure s)
    (h : I s) (hfuel : measure s < fuel) : (whileLoop guard body fuel s).ended = true := by
  induction fuel generalizing s with
  | zero => exact absurd hfuel (Nat.not_lt_zero _)
  | succ fuel ih =>
    rw [whileLoop]
    split
    · next hguard =>
      obtain ⟨hkept, hended, hlower⟩ := hbody s h hguard
      rw [Progress.andThen, if_pos hended]
      exact ih hkept (Nat.lt_of_lt_of_le hlower (Nat.lt_succ_iff.mp hfuel))
    · rfl

/-- A loop whose guard stays true does not end. -/
theorem not_whileLoop_ended (hguard : ∀ s, I s → guard s = true)
    (hbody : ∀ s, I s → I (body s).state) (h : I s) :
    (whileLoop guard body fuel s).ended = false := by
  have hkept : I (whileLoop guard body fuel s).state := whileLoop_state (fun s hs _ => hbody s hs) h
  by_contra hended
  have hfalse := guard_of_whileLoop (eq_true_of_ne_false hended)
  exact Bool.false_ne_true (hfalse.symm.trans (hguard _ hkept))

/-- A loop whose first body does not end does not end. -/
theorem not_whileLoop_ended_of_body (hguard : guard s = true) (hbody : (body s).ended = false) :
    (whileLoop guard body fuel s).ended = false := by
  cases fuel with
  | zero => rfl
  | succ fuel =>
    rw [whileLoop, if_pos hguard, Progress.andThen, if_neg (ne_true_of_eq_false hbody)]
    exact hbody

/-- A loop whose guard is false leaves the state. -/
theorem whileLoop_state_of_not (h : guard s = false) : (whileLoop guard body fuel s).state = s :=
  whileLoop_state (I := fun s' => s' = s)
    (fun _ hs hguard => absurd (h.symm.trans (hs ▸ hguard)) Bool.false_ne_true) rfl

theorem whileLoop_of_not (h : guard s = false) :
    whileLoop guard body (fuel + 1) s = ⟨s, true⟩ :=
  if_neg (ne_true_of_eq_false h)

/-- The first rounds of a loop. -/
theorem exists_whileLoop_add {I : Nat → σ → Prop} {n : Nat} (fuel : Nat)
    (hstep : ∀ i < n, ∀ s, I i s →
      guard s = true ∧ (body s).ended = true ∧ I (i + 1) (body s).state)
    (h : I 0 s) :
    ∃ s', I n s' ∧ whileLoop guard body (n + fuel) s = whileLoop guard body fuel s' := by
  induction n generalizing fuel with
  | zero => exact ⟨s, h, by rw [Nat.zero_add]⟩
  | succ n ih =>
    obtain ⟨s', hs', hloop⟩ := ih (1 + fuel) fun i hi => hstep i (Nat.lt_succ_of_lt hi)
    obtain ⟨hguard, hended, hnext⟩ := hstep n (Nat.lt_succ_self n) s' hs'
    refine ⟨(body s').state, hnext, ?_⟩
    rw [Nat.add_assoc, hloop, Nat.add_comm, whileLoop, if_pos hguard, Progress.andThen,
      if_pos hended]

end Rules

end RPiKernel.Machine
