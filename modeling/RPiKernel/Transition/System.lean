import Mathlib.Logic.Basic

/-!
# Transition systems

A system has initial states and a partial effect for every action. A state is
reachable when some run leads to it; `ReachableBy` restricts the runs to those
all of whose steps are allowed. `ReachableBy.invariant` is the induction over
runs, and `reachableBy_of_run` turns an evaluated run into reachability.
-/

namespace RPiKernel.Transition

/-- Initial states, and the state after an action where the action is possible. -/
structure System (σ α : Type*) where
  Initial : σ → Prop
  next : σ → α → Option σ

namespace System

variable {σ α : Type*} (S : System σ α)

/-- The states at the end of runs in which every step is allowed. -/
inductive ReachableBy (allowed : σ → α → Prop) : σ → Prop where
  | initial {s : σ} (h : S.Initial s) : ReachableBy allowed s
  | next {s s' : σ} (a : α) (h : ReachableBy allowed s) (ha : allowed s a)
      (hs : S.next s a = some s') : ReachableBy allowed s'

/-- The states at the end of runs. -/
def Reachable : σ → Prop := S.ReachableBy fun _ _ => True

/-- The state after a list of actions, if all of them are possible and pass a check. -/
def runWhere (check : σ → α → Bool) (s : σ) : List α → Option σ
  | [] => some s
  | a :: actions =>
      if check s a then
        match S.next s a with
        | some s' => runWhere check s' actions
        | none => none
      else
        none

/-- The state after a list of actions, if all of them are possible. -/
def run (s : σ) (actions : List α) : Option σ := S.runWhere (fun _ _ => true) s actions

/-- Every step of a run meets a condition on the state before it. -/
def StepsMeet (cond : σ → α → Prop) (s : σ) : List α → Prop
  | [] => True
  | a :: actions => cond s a ∧
      match S.next s a with
      | some s' => StepsMeet cond s' actions
      | none => True

instance decidableStepsMeet (cond : σ → α → Prop) [∀ s a, Decidable (cond s a)] (s : σ)
    (actions : List α) : Decidable (S.StepsMeet cond s actions) :=
  match actions with
  | [] => isTrue trivial
  | a :: actions =>
      match h : S.next s a with
      | some s' =>
          let _ := decidableStepsMeet cond s' actions
          decidable_of_iff (cond s a ∧ S.StepsMeet cond s' actions) (by simp [StepsMeet, h])
      | none => decidable_of_iff (cond s a) (by simp [StepsMeet, h])

variable {S} {allowed : σ → α → Prop}

/-- What holds initially and is kept by every allowed step holds in every state
that allowed steps reach. -/
theorem ReachableBy.invariant {I : σ → Prop} (hinitial : ∀ s, S.Initial s → I s)
    (hnext : ∀ s a s', I s → allowed s a → S.next s a = some s' → I s') {s : σ}
    (h : S.ReachableBy allowed s) : I s := by
  induction h with
  | initial h => exact hinitial _ h
  | next a _ ha hs ih => exact hnext _ a _ ih ha hs

theorem Reachable.invariant {I : σ → Prop} (hinitial : ∀ s, S.Initial s → I s)
    (hnext : ∀ s a s', I s → S.next s a = some s' → I s') {s : σ} (h : S.Reachable s) : I s :=
  ReachableBy.invariant hinitial (fun s a s' hs _ => hnext s a s' hs) h

/-- A step from a reachable state leads to a reachable state. -/
theorem Reachable.step {s s' : σ} (h : S.Reachable s) (a : α) (hs : S.next s a = some s') :
    S.Reachable s' :=
  ReachableBy.next a h trivial hs

theorem ReachableBy.reachable {s : σ} (h : S.ReachableBy allowed s) : S.Reachable s := by
  induction h with
  | initial h => exact ReachableBy.initial h
  | next a _ _ hs ih => exact ih.step a hs

/-- What is kept by every allowed step between reachable states holds in every state that
allowed steps reach. -/
theorem ReachableBy.invariant_of_reachable {I : σ → Prop} (hinitial : ∀ s, S.Initial s → I s)
    (hnext : ∀ s a s', S.Reachable s → I s → allowed s a → S.next s a = some s' → I s') {s : σ}
    (h : S.ReachableBy allowed s) : I s := by
  induction h with
  | initial h => exact hinitial _ h
  | next a h ha hs ih => exact hnext _ a _ h.reachable ih ha hs

/-- A checked run from a reachable state leads to a state that allowed steps reach. -/
theorem ReachableBy.runWhere {check : σ → α → Bool} (hcheck : ∀ s a, check s a = true → allowed s a)
    {s s' : σ} (h : S.ReachableBy allowed s) (actions : List α)
    (hs : S.runWhere check s actions = some s') : S.ReachableBy allowed s' := by
  induction actions generalizing s with
  | nil =>
      cases hs
      exact h
  | cons a actions ih =>
      simp only [System.runWhere] at hs
      split at hs
      · next ha =>
          cases hnext : S.next s a with
          | none => simp [hnext] at hs
          | some s₁ =>
              rw [hnext] at hs
              exact ih (ReachableBy.next a h (hcheck s a ha) hnext) hs
      · cases hs

/-- The first step of a run. -/
theorem run_cons {s s' : σ} {a : α} {actions : List α} (h : S.run s (a :: actions) = some s') :
    ∃ s₁, S.next s a = some s₁ ∧ S.run s₁ actions = some s' := by
  cases hnext : S.next s a with
  | none => simp [run, runWhere, hnext] at h
  | some s₁ => exact ⟨s₁, rfl, by simpa [run, runWhere, hnext] using h⟩

theorem run_cons_of_next {s s₁ : σ} {a : α} (hs : S.next s a = some s₁) (actions : List α) :
    S.run s (a :: actions) = S.run s₁ actions := by
  simp only [run, runWhere, if_true, hs]

theorem stepsMeet_cons {cond : σ → α → Prop} {s s₁ : σ} {a : α} (hs : S.next s a = some s₁)
    (actions : List α) :
    S.StepsMeet cond s (a :: actions) ↔ cond s a ∧ S.StepsMeet cond s₁ actions := by
  simp only [StepsMeet, hs]

theorem run_append {s s' : σ} {actions : List α} (h : S.run s actions = some s')
    (more : List α) : S.run s (actions ++ more) = S.run s' more := by
  induction actions generalizing s with
  | nil =>
      cases h
      rfl
  | cons a actions ih =>
      obtain ⟨s₁, hs₁, hrun⟩ := run_cons h
      have hrest := ih hrun
      simp only [run] at hrest
      simp only [run, List.cons_append, runWhere, if_true, hs₁, hrest]

theorem run_concat {s s₁ s₂ : σ} {actions : List α} {a : α} (h : S.run s actions = some s₁)
    (hs : S.next s₁ a = some s₂) : S.run s (actions ++ [a]) = some s₂ := by
  rw [run_append h]
  simp only [run, runWhere, if_true, hs]

/-- What is kept by every step that meets a condition holds at the end of a run whose steps
meet it. -/
theorem StepsMeet.invariant {cond : σ → α → Prop} {I : σ → Prop}
    (hnext : ∀ s a s', I s → cond s a → S.next s a = some s' → I s') {s s' : σ} {actions : List α}
    (hmeet : S.StepsMeet cond s actions) (hI : I s) (hrun : S.run s actions = some s') : I s' := by
  induction actions generalizing s with
  | nil =>
      cases hrun
      exact hI
  | cons a actions ih =>
      obtain ⟨s₁, hs₁, hrest⟩ := run_cons hrun
      obtain ⟨ha, hlater⟩ := (stepsMeet_cons hs₁ actions).mp hmeet
      exact ih hlater (hnext s a s₁ hI ha hs₁) hrest

theorem StepsMeet.and {cond cond' : σ → α → Prop} {s : σ} {actions : List α}
    (h : S.StepsMeet cond s actions) (h' : S.StepsMeet cond' s actions) :
    S.StepsMeet (fun s a => cond s a ∧ cond' s a) s actions := by
  induction actions generalizing s with
  | nil => trivial
  | cons a actions ih =>
      rw [StepsMeet] at h h' ⊢
      refine ⟨⟨h.1, h'.1⟩, ?_⟩
      cases hs : S.next s a with
      | none => trivial
      | some s₁ =>
          rw [hs] at h h'
          exact ih h.2 h'.2

theorem StepsMeet.of_append {cond : σ → α → Prop} {s s' : σ} {actions more : List α}
    (hrun : S.run s actions = some s') (h : S.StepsMeet cond s (actions ++ more)) :
    S.StepsMeet cond s' more := by
  induction actions generalizing s with
  | nil =>
      cases hrun
      exact h
  | cons a actions ih =>
      obtain ⟨s₁, hs₁, hrest⟩ := run_cons hrun
      exact ih hrest ((stepsMeet_cons hs₁ (actions ++ more)).mp h).2

theorem StepsMeet.left_of_append {cond : σ → α → Prop} {s : σ} {actions more : List α}
    (h : S.StepsMeet cond s (actions ++ more)) : S.StepsMeet cond s actions := by
  induction actions generalizing s with
  | nil => trivial
  | cons a actions ih =>
      rw [List.cons_append, StepsMeet] at h
      rw [StepsMeet]
      cases hs : S.next s a with
      | none => exact ⟨h.1, trivial⟩
      | some s₁ =>
          rw [hs] at h
          exact ⟨h.1, ih h.2⟩

/-- A run that fails a condition has a first step that fails it. -/
theorem exists_first_of_not_stepsMeet {cond : σ → α → Prop} {s s' : σ} {actions : List α}
    (hrun : S.run s actions = some s') (h : ¬ S.StepsMeet cond s actions) :
    ∃ before a after s₁ s₂, actions = before ++ a :: after ∧ S.run s before = some s₁ ∧
      S.StepsMeet cond s before ∧ ¬ cond s₁ a ∧ S.next s₁ a = some s₂ ∧
      S.run s₂ after = some s' := by
  induction actions generalizing s with
  | nil => exact absurd trivial h
  | cons a actions ih =>
      obtain ⟨s₁, hs₁, hrest⟩ := run_cons hrun
      by_cases ha : cond s a
      · have hlater : ¬ S.StepsMeet cond s₁ actions := by
          intro hmeet
          exact h ((stepsMeet_cons hs₁ actions).mpr ⟨ha, hmeet⟩)
        obtain ⟨before, a', after, s₂, s₃, rfl, hbefore, hmeet, hfails, hstep, hafter⟩ :=
          ih hrest hlater
        refine ⟨a :: before, a', after, s₂, s₃, rfl, ?_, ?_, hfails, hstep, hafter⟩
        · exact (run_cons_of_next hs₁ before).trans hbefore
        · exact (stepsMeet_cons hs₁ before).mpr ⟨ha, hmeet⟩
      · exact ⟨[], a, actions, s, s₁, rfl, rfl, trivial, ha, hs₁, hrest⟩

/-- A reachable state is the end of a run. -/
theorem Reachable.exists_run {s : σ} (h : S.Reachable s) :
    ∃ s₀ actions, S.Initial s₀ ∧ S.run s₀ actions = some s := by
  induction h with
  | @initial s h => exact ⟨s, [], h, rfl⟩
  | next a _ _ hs ih =>
      obtain ⟨s₀, actions, hinitial, hrun⟩ := ih
      exact ⟨s₀, actions ++ [a], hinitial, run_concat hrun hs⟩

/-- A run whose steps are allowed leads to a state that allowed steps reach. -/
theorem ReachableBy.of_stepsMeet {s s' : σ} (h : S.ReachableBy allowed s) (actions : List α)
    (hs : S.run s actions = some s') (hmeet : S.StepsMeet allowed s actions) :
    S.ReachableBy allowed s' := by
  have hnext : ∀ s a s', S.ReachableBy allowed s → allowed s a → S.next s a = some s' →
      S.ReachableBy allowed s' := by
    intro s a s' h ha hs
    exact ReachableBy.next a h ha hs
  exact hmeet.invariant hnext h hs

/-- Conditions that agree at every step of a run between states with an invariant. -/
theorem stepsMeet_congr {I : σ → Prop} {cond cond' : σ → α → Prop}
    (hnext : ∀ s a s', I s → S.next s a = some s' → I s')
    (hcond : ∀ s a s', I s → S.next s a = some s' → (cond s a ↔ cond' s a))
    {s s' : σ} (hI : I s) (actions : List α) (hs : S.run s actions = some s') :
    S.StepsMeet cond s actions ↔ S.StepsMeet cond' s actions := by
  induction actions generalizing s with
  | nil => exact Iff.rfl
  | cons a actions ih =>
      obtain ⟨s₁, hs₁, hrun⟩ := run_cons hs
      rw [stepsMeet_cons hs₁, stepsMeet_cons hs₁]
      exact and_congr (hcond s a s₁ hI hs₁) (ih (hnext s a s₁ hI hs₁) hrun)

/-- Conditions that agree in every state with an invariant that steps meeting them keep. -/
theorem stepsMeet_congr_of_keeps {I : σ → Prop} {cond cond' : σ → α → Prop}
    (hnext : ∀ s a s', I s → cond' s a → S.next s a = some s' → I s')
    (hcond : ∀ s a, I s → (cond s a ↔ cond' s a)) {s : σ} (hI : I s) (actions : List α) :
    S.StepsMeet cond s actions ↔ S.StepsMeet cond' s actions := by
  induction actions generalizing s with
  | nil => exact Iff.rfl
  | cons a actions ih =>
      rw [StepsMeet, StepsMeet, hcond s a hI]
      refine and_congr_right fun ha => ?_
      cases hs : S.next s a with
      | none => exact Iff.rfl
      | some s₁ => exact ih (hnext s a s₁ hI ha hs)

/-- What a step keeps exactly where it meets a condition holds in all states of a run exactly
when it holds at first and every step meets the condition. -/
theorem always_iff_stepsMeet {I : σ → Prop} {cond : σ → α → Prop}
    (hstep : ∀ s a s', I s → S.next s a = some s' → (I s' ↔ cond s a)) {s s' : σ}
    {actions : List α} (hrun : S.run s actions = some s') :
    (∀ before after s₁, actions = before ++ after → S.run s before = some s₁ → I s₁) ↔
      I s ∧ S.StepsMeet cond s actions := by
  induction actions generalizing s with
  | nil =>
      constructor
      · exact fun h => ⟨h [] [] s rfl rfl, trivial⟩
      · rintro ⟨hI, -⟩ before after s₁ happend hbefore
        obtain ⟨rfl, -⟩ := List.append_eq_nil_iff.mp happend.symm
        cases hbefore
        exact hI
  | cons a actions ih =>
      obtain ⟨s₁, hs₁, hrest⟩ := run_cons hrun
      have htail : (∀ before after s₂, a :: actions = before ++ after →
            S.run s before = some s₂ → I s₂) ↔
          I s ∧ ∀ before after s₂, actions = before ++ after → S.run s₁ before = some s₂ →
            I s₂ := by
        constructor
        · intro h
          refine ⟨h [] (a :: actions) s rfl rfl, fun before after s₂ happend hbefore => ?_⟩
          exact h (a :: before) after s₂ (congrArg (a :: ·) happend)
            ((run_cons_of_next hs₁ before).trans hbefore)
        · rintro ⟨hI, h⟩ before after s₂ happend hbefore
          cases before with
          | nil =>
              cases hbefore
              exact hI
          | cons a' before =>
              obtain ⟨rfl, hrest⟩ := List.cons.inj happend
              rw [run_cons_of_next hs₁] at hbefore
              exact h before after s₂ hrest hbefore
      rw [htail, ih hrest, stepsMeet_cons hs₁]
      exact and_congr_right fun hI => and_congr_left fun _ => hstep s a s₁ hI hs₁

/-- A mark that a step sets exactly where it fails a condition tells, at the end of
a run, whether all of its steps met the condition. -/
theorem mark_iff_not_stepsMeet {I Marked : σ → Prop} {cond : σ → α → Prop}
    (hnext : ∀ s a s', I s → S.next s a = some s' → I s')
    (hmark : ∀ s a s', I s → S.next s a = some s' → (Marked s' ↔ Marked s ∨ ¬ cond s a))
    {s s' : σ} (hI : I s) (actions : List α) (hs : S.run s actions = some s') :
    Marked s' ↔ Marked s ∨ ¬ S.StepsMeet cond s actions := by
  induction actions generalizing s with
  | nil =>
      cases hs
      simp [StepsMeet]
  | cons a actions ih =>
      obtain ⟨s₁, hs₁, hrun⟩ := run_cons hs
      have hmeet : S.StepsMeet cond s (a :: actions) ↔ cond s a ∧ S.StepsMeet cond s₁ actions :=
        stepsMeet_cons hs₁ actions
      calc
        Marked s' ↔ Marked s₁ ∨ ¬ S.StepsMeet cond s₁ actions := ih (hnext s a s₁ hI hs₁) hrun
        _ ↔ (Marked s ∨ ¬ cond s a) ∨ ¬ S.StepsMeet cond s₁ actions := by
          rw [hmark s a s₁ hI hs₁]
        _ ↔ Marked s ∨ ¬ S.StepsMeet cond s (a :: actions) := by
          rw [hmeet, not_and_or, or_assoc]

/-- A run from a reachable state leads to a reachable state. -/
theorem Reachable.run {s s' : σ} (h : S.Reachable s) (actions : List α)
    (hs : S.run s actions = some s') : S.Reachable s' :=
  ReachableBy.runWhere (fun _ _ _ => trivial) h actions hs

section Lockstep

variable {R : σ → σ → Prop}

/-- A run has a companion from a state whose steps follow those of the first. -/
theorem exists_run_of_lockstep
    (hstep : ∀ s u a s', R s u → S.next s a = some s' → ∃ u', S.next u a = some u' ∧ R s' u')
    {s u s' : σ} (h : R s u) {actions : List α} (hrun : S.run s actions = some s') :
    ∃ u', S.run u actions = some u' ∧ R s' u' := by
  induction actions generalizing s u with
  | nil =>
      cases hrun
      exact ⟨u, rfl, h⟩
  | cons a actions ih =>
      obtain ⟨s₁, hs₁, hrest⟩ := run_cons hrun
      obtain ⟨u₁, hu₁, h₁⟩ := hstep s u a s₁ h hs₁
      obtain ⟨u', hu', h'⟩ := ih h₁ hrest
      exact ⟨u', (run_cons_of_next hu₁ actions).trans hu', h'⟩

/-- A companion meets the conditions that a run meets. -/
theorem StepsMeet.of_lockstep {cond : σ → α → Prop}
    (hstep : ∀ s u a s', R s u → S.next s a = some s' → ∃ u', S.next u a = some u' ∧ R s' u')
    (hcond : ∀ s u a, R s u → cond s a → cond u a) {s u s' : σ} (h : R s u) {actions : List α}
    (hrun : S.run s actions = some s') (hmeet : S.StepsMeet cond s actions) :
    S.StepsMeet cond u actions := by
  induction actions generalizing s u with
  | nil => trivial
  | cons a actions ih =>
      obtain ⟨s₁, hs₁, hrest⟩ := run_cons hrun
      obtain ⟨u₁, hu₁, h₁⟩ := hstep s u a s₁ h hs₁
      obtain ⟨ha, hlater⟩ := (stepsMeet_cons hs₁ actions).mp hmeet
      exact (stepsMeet_cons hu₁ actions).mpr ⟨hcond s u a h ha, ih h₁ hrest hlater⟩

end Lockstep

section LeadsTo

variable (S) in
/-- A run of actions of some kind leads from one state to another. -/
def LeadsTo (kind : α → Prop) (s s' : σ) : Prop :=
  ∃ actions, (∀ a ∈ actions, kind a) ∧ S.run s actions = some s'

variable {kind : α → Prop} {s s₁ s' : σ}

theorem LeadsTo.refl : S.LeadsTo kind s s :=
  ⟨[], fun _ ha => absurd ha List.not_mem_nil, rfl⟩

/-- An action of the kind, and a run behind it. -/
theorem LeadsTo.head {a : α} (ha : kind a) (hs : S.next s a = some s₁)
    (h : S.LeadsTo kind s₁ s') : S.LeadsTo kind s s' := by
  obtain ⟨actions, hkind, hrun⟩ := h
  exact ⟨a :: actions, List.forall_mem_cons.mpr ⟨ha, hkind⟩,
    (run_cons_of_next hs actions).trans hrun⟩

theorem LeadsTo.single {a : α} (ha : kind a) (hs : S.next s a = some s') :
    S.LeadsTo kind s s' :=
  LeadsTo.head ha hs LeadsTo.refl

theorem LeadsTo.trans (h : S.LeadsTo kind s s₁) (h' : S.LeadsTo kind s₁ s') :
    S.LeadsTo kind s s' := by
  obtain ⟨actions, hkind, hrun⟩ := h
  obtain ⟨actions', hkind', hrun'⟩ := h'
  refine ⟨actions ++ actions', List.forall_mem_append.mpr ⟨hkind, hkind'⟩, ?_⟩
  rw [run_append hrun, hrun']

theorem LeadsTo.reachable (h : S.LeadsTo kind s s') (hs : S.Reachable s) : S.Reachable s' := by
  obtain ⟨actions, -, hrun⟩ := h
  exact hs.run actions hrun

theorem LeadsTo.reachableBy (hkind : ∀ s a, kind a → allowed s a) (h : S.LeadsTo kind s s')
    (hs : S.ReachableBy allowed s) : S.ReachableBy allowed s' := by
  obtain ⟨actions, hall, hrun⟩ := h
  induction actions generalizing s with
  | nil =>
      cases hrun
      exact hs
  | cons a actions ih =>
      obtain ⟨s₁, hs₁, hrest⟩ := run_cons hrun
      obtain ⟨ha, hall⟩ := List.forall_mem_cons.mp hall
      exact ih (ReachableBy.next a hs (hkind s a ha) hs₁) hall hrest

end LeadsTo

end System

end RPiKernel.Transition
