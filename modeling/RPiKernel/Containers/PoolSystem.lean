import RPiKernel.Containers.PoolAllocation
import RPiKernel.Containers.PoolDeallocation
import RPiKernel.Transition.System

/-!
# Any number of threads on one pool

Every thread executes `Allocate` and `Deallocate` calls one after another, and
the atomic steps of all threads interleave in any order. `live` lists the
blocks returned by completed allocations whose deallocation has not started.

## Implementation notes

A live block may be deallocated by any idle thread, not only by the one that
allocated it. The retry loop of `Allocate` is the step that starts a new attempt
from the hint of an attempt that lost a race.
-/

namespace RPiKernel.Containers

open Interleaving Machine Intervals Transition

/-- The call that a thread executes, with the rest of its program. -/
inductive ThreadState where
  | idle
  | allocating (count alignment : Nat) (rest : Program Word (Nat × Bool))
  | deallocating (rest : Program Word Unit)

structure PoolState (ι : Type*) where
  words : List Word
  live : List Span
  thread : ι → ThreadState

inductive PoolAction (ι : Type*) where
  | allocate (t : ι) (count alignment : Nat)
  | deallocate (t : ι) (b : Span)
  | step (t : ι)

section System

variable {ι : Type*} [DecidableEq ι] (pool : PoolParameters)

namespace PoolState

variable (σ : PoolState ι) (t : ι)

def setThread (state : ThreadState) : PoolState ι :=
  { σ with thread := Function.update σ.thread t state }

/-- One step of thread `t` within its call, or its return from the call. -/
def stepThread : ThreadState → Option (PoolState ι)
  | .idle => none
  | .allocating count alignment rest =>
      match rest.result? with
      | some (result, true) =>
          if result = uint32Max then
            some (σ.setThread t .idle)
          else
            some { σ.setThread t .idle with live := ⟨result, count⟩ :: σ.live }
      | some (result, false) =>
          some (σ.setThread t
            (.allocating count alignment (allocateInternal pool result count alignment)))
      | none =>
          let (rest, words) := rest.step σ.words
          some { σ.setThread t (.allocating count alignment rest) with words }
  | .deallocating rest =>
      match rest.result? with
      | some () => some (σ.setThread t .idle)
      | none =>
          let (rest, words) := rest.step σ.words
          some { σ.setThread t (.deallocating rest) with words }

/-- The effect of an action, where it is possible. -/
def next : PoolAction ι → Option (PoolState ι)
  | .allocate t count alignment =>
      match σ.thread t with
      | .idle =>
          if 0 < count ∧ count ≤ pool.size ∧ IsPowerOfTwo alignment then
            some (σ.setThread t
              (.allocating count alignment (allocateInternal pool 0 count alignment)))
          else
            none
      | _ => none
  | .deallocate t b =>
      match σ.thread t with
      | .idle =>
          if b ∈ σ.live then
            some { σ.setThread t (.deallocating (deallocate pool b.start)) with
              live := σ.live.erase b }
          else
            none
      | _ => none
  | .step t => stepThread pool σ t (σ.thread t)

/-- No call is in progress. -/
def Quiescent : Prop := ∀ t, σ.thread t = .idle

end PoolState

/-- The threads of `ι` on one pool, from the constructor on. -/
def poolSystem (ι : Type*) [DecidableEq ι] (pool : PoolParameters) :
    System (PoolState ι) (PoolAction ι) where
  Initial σ := pool.construct = .ok σ.words ∧ σ.live = [] ∧ σ.Quiescent
  next := PoolState.next pool

section Invariant

variable (leaky : Prop) (permitted : (Word → Except Fault Word) → Prop)

/-- What the owner of `g` has to guarantee about the rest of its call. -/
def ThreadInv (t : ι) : ThreadState → Option Span → Prop
  | .idle, g => g = none
  | .allocating count alignment rest, g =>
      (0 < count ∧ count ≤ pool.size ∧ IsPowerOfTwo alignment) ∧
        (poolProtocol ι pool leaky permitted).wp t rest g (Attempted count alignment)
  | .deallocating rest, g =>
      (poolProtocol ι pool leaky permitted).wp t rest g fun _ g => g = none

/-- The protocol holds for some ownership that all threads respect. -/
def PoolInv (σ : PoolState ι) : Prop :=
  ∃ γ, (poolProtocol ι pool leaky permitted).Inv σ.live σ.words γ ∧
    ∀ t, ThreadInv pool leaky permitted t (σ.thread t) (γ t)

variable (ι) in
/-- The next step of the thread enters no retry loop that is not permitted. -/
def ThreadState.MayStep : ThreadState → Prop
  | .idle => True
  | .allocating _ _ rest => (poolProtocol ι pool leaky permitted).MayStep rest
  | .deallocating rest => (poolProtocol ι pool leaky permitted).MayStep rest

variable {pool leaky permitted}

/-- A thread may change its own state together with its own span. -/
theorem forall_threadInv_update {thread : ι → ThreadState} {γ : ι → Option Span} (t : ι)
    {state : ThreadState} {g : Option Span}
    (h : ∀ t', ThreadInv pool leaky permitted t' (thread t') (γ t'))
    (hstate : ThreadInv pool leaky permitted t state g) (t' : ι) :
    ThreadInv pool leaky permitted t' (Function.update thread t state t')
      (Function.update γ t g t') := by
  by_cases ht : t' = t
  · subst ht
    rwa [Function.update_self, Function.update_self]
  · rw [Function.update_of_ne ht, Function.update_of_ne ht]
    exact h t'

theorem PoolInv.initial {σ : PoolState ι} (h : (poolSystem ι pool).Initial σ) :
    PoolInv pool leaky permitted σ := by
  obtain ⟨hwords, hlive, hidle⟩ := h
  refine ⟨fun _ => none, ⟨?_, ?_⟩, fun t => ?_⟩
  · rw [hlive]
    exact List.nodup_nil
  · apply Encodes.construct hwords
    rintro (b | t)
    · rw [hlive]
      rfl
    · rfl
  · rw [hidle t]
    rfl

theorem PoolInv.size_le {σ : PoolState ι} (h : PoolInv pool leaky permitted σ) :
    pool.size ≤ 4294967232 := by
  obtain ⟨γ, ⟨-, hF⟩, -⟩ := h
  exact hF.fits

/-- What a thread does inside a call keeps the invariant. -/
theorem PoolInv.stepThread {σ σ' : PoolState ι} {t : ι} (hundo : UndoAllowed leaky permitted)
    (h : PoolInv pool leaky permitted σ)
    (hmay : (σ.thread t).MayStep ι pool leaky permitted)
    (hs : σ.stepThread pool t (σ.thread t) = some σ') : PoolInv pool leaky permitted σ' := by
  have hfits := h.size_le
  obtain ⟨γ, hI, hthreads⟩ := h
  have ht := hthreads t
  have hkeep : γ t = none → (poolProtocol ι pool leaky permitted).Inv σ.live σ.words
      (Function.update γ t none) := by
    intro hg
    rwa [← hg, Function.update_eq_self]
  cases hstate : σ.thread t with
  | idle =>
      rw [hstate] at hs
      cases hs
  | allocating count alignment rest =>
      rw [hstate] at ht hs hmay
      obtain ⟨⟨hcount, hsize, ha⟩, hwp⟩ := ht
      cases hresult : rest.result? with
      | none =>
          simp only [PoolState.stepThread, hresult, Option.some.injEq] at hs
          subst hs
          obtain ⟨g', hI', hwp'⟩ := Protocol.wp_step hI hwp hmay
          exact ⟨_, hI', forall_threadInv_update t hthreads ⟨⟨hcount, hsize, ha⟩, hwp'⟩⟩
      | some r =>
          obtain ⟨result, decisive⟩ := r
          rw [Program.result?_eq_some.mp hresult] at hwp
          rcases hwp with ⟨hr, hg⟩ | ⟨hr, -, hg⟩ | ⟨hr, halign, hg⟩
          · cases hr
            simp only [PoolState.stepThread, hresult, if_true, Option.some.injEq] at hs
            subst hs
            exact ⟨_, hkeep hg, forall_threadInv_update t hthreads rfl⟩
          · have hmax : result ≠ uint32Max := by
              have hstop := hI.2.inside (k := Sum.inr t) hg
              simp only [Span.stop, uint32Max] at hstop ⊢
              omega
            subst hr
            simp only [PoolState.stepThread, hresult, hmax, if_false, Option.some.injEq] at hs
            subst hs
            exact ⟨_, inv_publish hI hg, forall_threadInv_update t hthreads rfl⟩
          · subst hr
            simp only [PoolState.stepThread, hresult, Option.some.injEq] at hs
            subst hs
            exact ⟨_, hkeep hg, forall_threadInv_update t hthreads ⟨⟨hcount, hsize, ha⟩,
              wp_allocateInternal hfits hundo hcount hsize ha halign⟩⟩
  | deallocating rest =>
      rw [hstate] at ht hs hmay
      cases hresult : rest.result? with
      | none =>
          simp only [PoolState.stepThread, hresult, Option.some.injEq] at hs
          subst hs
          obtain ⟨g', hI', hwp'⟩ := Protocol.wp_step hI ht hmay
          exact ⟨_, hI', forall_threadInv_update t hthreads hwp'⟩
      | some u =>
          simp only [PoolState.stepThread, hresult, Option.some.injEq] at hs
          subst hs
          rw [Program.result?_eq_some.mp hresult] at ht
          exact ⟨_, hkeep ht, forall_threadInv_update t hthreads rfl⟩

/-- Every action that enters no forbidden retry loop keeps the invariant. -/
theorem PoolInv.next {σ σ' : PoolState ι} {a : PoolAction ι} (hundo : UndoAllowed leaky permitted)
    (h : PoolInv pool leaky permitted σ)
    (hmay : ∀ t, a = .step t → (σ.thread t).MayStep ι pool leaky permitted)
    (hs : σ.next pool a = some σ') : PoolInv pool leaky permitted σ' := by
  cases a with
  | step t => exact h.stepThread hundo (hmay t rfl) hs
  | allocate t count alignment =>
      have hfits := h.size_le
      obtain ⟨γ, hI, hthreads⟩ := h
      cases hstate : σ.thread t with
      | idle =>
          simp only [PoolState.next, hstate] at hs
          split at hs
          · next harg =>
              obtain ⟨hcount, hsize, ha⟩ := harg
              cases hs
              have hidle := hthreads t
              rw [hstate] at hidle
              refine ⟨Function.update γ t none, ?_, forall_threadInv_update t hthreads
                ⟨⟨hcount, hsize, ha⟩, wp_allocateInternal hfits hundo hcount hsize ha
                  (Nat.zero_mod _)⟩⟩
              rw [← show γ t = none from hidle, Function.update_eq_self]
              exact hI
          · cases hs
      | allocating count' alignment' rest => simp [PoolState.next, hstate] at hs
      | deallocating rest => simp [PoolState.next, hstate] at hs
  | deallocate t b =>
      have hfits := h.size_le
      obtain ⟨γ, hI, hthreads⟩ := h
      cases hstate : σ.thread t with
      | idle =>
          simp only [PoolState.next, hstate] at hs
          split at hs
          · next hb =>
              cases hs
              have hidle := hthreads t
              rw [hstate] at hidle
              have hself : owners σ.live γ (Sum.inl b) = some b :=
                Family.ofList_eq_some.mpr ⟨hb, rfl⟩
              exact ⟨_, inv_takeOver hI hb hidle, forall_threadInv_update t hthreads
                (wp_deallocate hfits (hI.2.separated.pos hself) (hI.2.inside hself))⟩
          · cases hs
      | allocating count' alignment' rest => simp [PoolState.next, hstate] at hs
      | deallocating rest => simp [PoolState.next, hstate] at hs

end Invariant

end System

end RPiKernel.Containers
