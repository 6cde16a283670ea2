import Mathlib.Data.Sum.Basic
import RPiKernel.Containers.PoolWord
import RPiKernel.Interleaving.Protocol

/-!
# The ownership protocol of the pool allocator

The spans encoded by the words belong to the live blocks and, while a call is
in progress, to the participant that makes it: an allocation owns what it has
committed so far, a deallocation what it has not released yet. For each part of
`AllocateInternal`, `GetBlockSize` and `Deallocate` a weakest-precondition lemma
says what it owns before and after.

## Implementation notes

The undoing of a block that begins with a whole word leaves the top slot of the
word taken. The lemmas about allocations therefore assume that leaks are
allowed or that this retry loop is not permitted.
-/

namespace RPiKernel.Containers

open Interleaving Machine Intervals

variable {ι : Type*}

/-- The live blocks own themselves, and every participant what it holds. -/
def owners (live : List Span) (γ : ι → Option Span) : Family (Span ⊕ ι) :=
  Sum.elim (Family.ofList live) γ

/-- The protocol of a pool: the words encode the spans of all owners. -/
def poolProtocol (ι : Type*) (pool : PoolParameters) (leaky : Prop)
    (permitted : (Word → Except Fault Word) → Prop) :
    Protocol ι Word (Option Span) (List Span) where
  Inv live words γ := live.Nodup ∧ Encodes pool leaky words (owners live γ)
  Permitted := permitted

/-- Undoing an allocation leaks nothing, or may leak, or does not happen. -/
def UndoAllowed (leaky : Prop) (permitted : (Word → Except Fault Word) → Prop) : Prop :=
  leaky ∨ ¬ permitted (undoRest 0)

section Protocol

variable {pool : PoolParameters} {leaky : Prop}
  {permitted : (Word → Except Fault Word) → Prop} {t : ι}

theorem inBounds {g : Option Span} {i : Nat} (hi : i < pool.wordCount) :
    (poolProtocol ι pool leaky permitted).InBounds t g i := by
  rintro live words γ ⟨-, hF⟩ -
  rwa [hF.length]

/-- What a participant sees is a word of an encoding in which it owns its span. -/
theorem encodes_of_sees {g : Option Span} {i : Nat} {v : Word}
    (h : (poolProtocol ι pool leaky permitted).Sees t g i v) :
    ∃ (words : List Word) (F : Family (Span ⊕ ι)) (key : Span ⊕ ι),
      Encodes pool leaky words F ∧ F key = g ∧ words[i]? = some v := by
  obtain ⟨live, words, γ, ⟨-, hF⟩, hg, hv⟩ := h
  exact ⟨words, owners live γ, Sum.inr t, hF, hg, hv⟩

variable [DecidableEq ι]

theorem allows_of_encodes {g g' : Option Span} {i : Nat} {v v' : Word}
    (h : ∀ (words : List Word) (F : Family (Span ⊕ ι)) (key : Span ⊕ ι),
      Encodes pool leaky words F → F key = g → words[i]? = some v →
        Encodes pool leaky (words.set i v') (Function.update F key g')) :
    (poolProtocol ι pool leaky permitted).Allows t g i v v' g' := by
  rintro live words γ ⟨hlive, hF⟩ hg hv
  refine ⟨hlive, ?_⟩
  have hF' := h words (owners live γ) (Sum.inr t) hF hg hv
  rwa [owners, Sum.update_elim_inr] at hF'

theorem learns_of_encodes {g g' : Option Span} {i : Nat} {v : Word}
    (h : ∀ (words : List Word) (F : Family (Span ⊕ ι)) (key : Span ⊕ ι),
      Encodes pool leaky words F → F key = g → words[i]? = some v →
        Encodes pool leaky words (Function.update F key g')) :
    (poolProtocol ι pool leaky permitted).Learns t g i v g' := by
  rintro live words γ ⟨hlive, hF⟩ hg hv
  refine ⟨hlive, ?_⟩
  have hF' := h words (owners live γ) (Sum.inr t) hF hg hv
  rwa [owners, Sum.update_elim_inr] at hF'

/-- The block returned by an allocation owns itself from then on. -/
theorem inv_publish {live : List Span} {words : List Word} {γ : ι → Option Span} {b : Span}
    (h : (poolProtocol ι pool leaky permitted).Inv live words γ) (hb : γ t = some b) :
    (poolProtocol ι pool leaky permitted).Inv (b :: live) words (Function.update γ t none) := by
  obtain ⟨hlive, hF⟩ := h
  have hb' : owners live γ (Sum.inr t) = some b := hb
  have hmem : b ∉ live := by
    intro hmem
    have hself : owners live γ (Sum.inl b) = some b := Family.ofList_eq_some.mpr ⟨hmem, rfl⟩
    exact hF.separated.disjoint hself hb' Sum.inl_ne_inr b.start (hF.separated.start_mem hself)
      (hF.separated.start_mem hself)
  have hnone : owners live γ (Sum.inl b) = none := if_neg hmem
  refine ⟨List.nodup_cons.mpr ⟨hmem, hlive⟩, ?_⟩
  have hne : (Sum.inr t : Span ⊕ ι) ≠ Sum.inl b := Sum.inr_ne_inl
  have hover := hF.handOver hne hnone
  rwa [Family.handOver, hb', owners, Sum.update_elim_inr, Sum.update_elim_inl,
    ← Family.ofList_cons] at hover

/-- The participant that deallocates a block takes it over. -/
theorem inv_takeOver {live : List Span} {words : List Word} {γ : ι → Option Span} {b : Span}
    (h : (poolProtocol ι pool leaky permitted).Inv live words γ) (hb : b ∈ live)
    (hnone : γ t = none) :
    (poolProtocol ι pool leaky permitted).Inv (live.erase b) words
      (Function.update γ t (some b)) := by
  obtain ⟨hlive, hF⟩ := h
  have hself : owners live γ (Sum.inl b) = some b := Family.ofList_eq_some.mpr ⟨hb, rfl⟩
  have hnone' : owners live γ (Sum.inr t) = none := hnone
  refine ⟨hlive.erase b, ?_⟩
  have hne : (Sum.inl b : Span ⊕ ι) ≠ Sum.inr t := Sum.inl_ne_inr
  have hover := hF.handOver hne hnone'
  rwa [Family.handOver, hself, owners, Sum.update_elim_inl, Sum.update_elim_inr,
    ← Family.ofList_erase hlive] at hover

/-- Clearing whole words backwards gives the tail of the block back. -/
theorem wp_clearWords {start k s : Nat} (hfits : pool.size ≤ 4294967232)
    (hs : s < 64 * (start + 1)) (fuel : Nat) (hfuel : k ≤ start + fuel) (hk : start ≤ k)
    (hlt : k < pool.wordCount) :
    (poolProtocol ι pool leaky permitted).wp t (clearWords start fuel k)
      (some ⟨s, 64 * (k + 1) - s⟩) (fun _ g => g = some ⟨s, 64 * (start + 1) - s⟩) := by
  have hcount := PoolParameters.wordCount_le hfits
  induction fuel generalizing k with
  | zero =>
      have heq : k = start := by omega
      subst heq
      simp only [clearWords, ne_eq, not_true, if_false]
      rfl
  | succ fuel ih =>
      by_cases heq : k = start
      · subst heq
        simp only [clearWords, ne_eq, not_true, if_false]
        rfl
      · simp only [clearWords, ne_eq, heq, not_false_iff, if_true]
        rw [sub32_of_le (by omega) (by omega)]
        refine ⟨inBounds hlt, some ⟨s, 64 * k - s⟩, fun v _ => ?_, ?_⟩
        · apply allows_of_encodes
          intro words F key hF hg hv
          have hshrink := hF.shrinkWord (p := 0) (q := 64) {} hv hg le_rfl
            (by simp only [Span.stop]; omega) (by simp only; omega) (by omega)
            (fun j hj => Or.inl (by simp [hj])) (fun j hj => by simp [hj])
          rwa [if_neg (by simp only; omega)] at hshrink
        · have hpred : 64 * k = 64 * (k - 1 + 1) := by omega
          rw [hpred]
          exact ih (by omega) (by omega) (by omega)

/-- A rollback gives everything back that the attempt has committed. -/
theorem wp_rollback {k bitIndex stopped : Nat} {newWord : Word}
    (hfits : pool.size ≤ 4294967232) (hundo : UndoAllowed leaky permitted) (hbit : bitIndex < 64)
    (hk : k < stopped) (hstopped : stopped ≤ pool.wordCount) :
    (poolProtocol ι pool leaky permitted).wp t (rollback pool k bitIndex stopped newWord)
      (some ⟨64 * k + bitIndex, 64 * stopped - (64 * k + bitIndex)⟩)
      (fun _ g => g = none) := by
  have hcount := PoolParameters.wordCount_le hfits
  have hlast : 64 * stopped = 64 * (stopped - 1 + 1) := by omega
  simp only [rollback, Program.bind_def]
  rw [sub32_of_le (by omega) (by omega), hlast]
  refine Protocol.wp_bind (Protocol.wp_mono (wp_clearWords hfits (by omega) _ (by omega)
    (by omega) (by omega)) ?_)
  rintro - g rfl hperm
  refine ⟨inBounds (by omega), ?_, fun v hv => ?_⟩
  · obtain ⟨w, hw, -, -⟩ := undoRest_spec newWord hbit
    exact ⟨w, hw⟩
  · obtain ⟨w, hw, hbitmap, hstarts⟩ := undoRest_spec v hbit
    refine ⟨w, none, hw, allows_of_encodes ?_, rfl⟩
    intro words F key hF hg hv
    have hshrink := hF.shrinkWord (p := bitIndex) (q := 64) w hv hg le_rfl
      (by simp only [Span.stop]; omega) (by simp only; omega) (by omega) ?_ ?_
    · rwa [if_pos (by simp only)] at hshrink
    · intro j hj
      -- only for `bitIndex = 0` the mask of the source misses the top slot
      by_cases htop : bitIndex = 0 ∧ j = 63
      · obtain ⟨rfl, rfl⟩ := htop
        have hleaky : leaky := hundo.resolve_right (not_not_intro hperm)
        exact Or.inr ⟨hleaky, rfl, by rw [hbitmap _ hj]; simp⟩
      · refine Or.inl ?_
        have hrange : bitIndex ≤ j ∧ j < bitIndex + 63 ↔ bitIndex ≤ j ∧ j < 64 := by omega
        rw [hbitmap j hj]
        simp only [hrange]
    · intro j hj
      rw [hstarts j hj]
      by_cases hin : bitIndex ≤ j ∧ j < 64
      · have honly := hF.startBit_iff_of_mem (i := 64 * k + j) hg
          (by simp only [Span.mem_iff]; omega)
        rw [startBit_of_getElem? hv hj] at honly
        have hiff : v.starts.getLsbD j = true ↔ j = bitIndex := by
          rw [honly]
          simp only
          omega
        by_cases hj' : j = bitIndex
        · simp [hj', hbit]
        · have hfalse : v.starts.getLsbD j = false := by
            rw [← Bool.not_eq_true, hiff]
            exact hj'
          simp [hfalse]
      · have hj' : j ≠ bitIndex := by omega
        simp only [hin, hj', decide_false]

/-- Committing whole words appends them to the block, as far as it goes. -/
theorem wp_commitWords {last k s : Nat} (hlast : last ≤ pool.wordCount) (hs : s < 64 * k)
    (fuel : Nat) (hfuel : last ≤ k + fuel) (hk : k ≤ last) :
    (poolProtocol ι pool leaky permitted).wp t (commitWords last fuel k)
      (some ⟨s, 64 * k - s⟩)
      (fun r g => g = some ⟨s, 64 * r.1 - s⟩ ∧ k ≤ r.1 ∧ r.1 ≤ last ∧
        (r.2 = false → r.1 = last)) := by
  induction fuel generalizing k with
  | zero =>
      have hnot : ¬ k < last := by omega
      simp only [commitWords, hnot, if_false]
      exact ⟨rfl, le_rfl, hk, fun _ => by omega⟩
  | succ fuel ih =>
      by_cases hlt : k < last
      · simp only [commitWords, hlt, if_true]
        refine ⟨inBounds (by omega), fun _ => ⟨some ⟨s, 64 * (k + 1) - s⟩, ?_, ?_⟩,
          fun v _ _ => ⟨rfl, le_rfl, hk, fun h => by cases h⟩⟩
        · apply allows_of_encodes
          intro words F key hF hg hv
          exact hF.growWord (p := 0) (q := 64) false hv (by omega) le_rfl
            (Or.inr ⟨rfl, by omega, hg⟩) (fun j _ _ => by simp)
            (fun j hj => by simp [hj]) (fun j hj => by simp)
        · refine Protocol.wp_mono (ih (by omega) (by omega) (by omega)) ?_
          rintro r g ⟨hg, hr, hr', hend⟩
          exact ⟨hg, by omega, hr', hend⟩
      · simp only [commitWords, hlt, if_false]
        exact ⟨rfl, le_rfl, hk, fun _ => by omega⟩

end Protocol

end RPiKernel.Containers
