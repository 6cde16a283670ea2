import Mathlib.Logic.Function.Basic
import RPiKernel.Interleaving.Program

/-!
# Ownership protocols for interleaved programs

Every participant `t : ι` owns a ghost resource of type `G`; an invariant ties
all resources and a shared ghost value to the array. `Protocol.wp` is the
weakest precondition of a program run by participant `t`: at every access the
program may rely on what the invariant says about the word, given its own
resource, and must re-establish the invariant by changing its own resource
only. `Protocol.wp_step` is the soundness of one atomic step in the presence of
any other participants, `Protocol.run_of_wp` the soundness of a whole run
without them.

## Implementation notes

`Permitted` restricts the runs a proof is about: a retry loop whose update
function is not permitted is assumed not to be entered. A protocol that
permits every function makes no assumption.
-/

namespace RPiKernel.Interleaving

/-- The invariant of a shared array and the retry loops that runs may enter. -/
structure Protocol (ι V G L : Type*) where
  Inv : L → List V → (ι → G) → Prop
  Permitted : (V → Except Fault V) → Prop

namespace Protocol

variable {ι G L : Type*} {V α β : Type} [DecidableEq ι] (P : Protocol ι V G L) (t : ι)

/-- Word `i` can hold `v` while participant `t` owns `g`. -/
def Sees (g : G) (i : Nat) (v : V) : Prop :=
  ∃ l mem γ, P.Inv l mem γ ∧ γ t = g ∧ mem[i]? = some v

/-- Word `i` exists while participant `t` owns `g`. -/
def InBounds (g : G) (i : Nat) : Prop :=
  ∀ l mem γ, P.Inv l mem γ → γ t = g → i < mem.length

/-- Reading `v` from word `i` entitles the owner of `g` to own `g'` instead. -/
def Learns (g : G) (i : Nat) (v : V) (g' : G) : Prop :=
  ∀ l mem γ, P.Inv l mem γ → γ t = g → mem[i]? = some v →
    P.Inv l mem (Function.update γ t g')

/-- The owner of `g` may replace `v` in word `i` by `v'` and then owns `g'`. -/
def Allows (g : G) (i : Nat) (v v' : V) (g' : G) : Prop :=
  ∀ l mem γ, P.Inv l mem γ → γ t = g → mem[i]? = some v →
    P.Inv l (mem.set i v') (Function.update γ t g')

/-- What participant `t` has to own so that every interleaved run of the program
is free of faults, keeps the invariant and ends with the postcondition. -/
def wp : Program V α → G → (α → G → Prop) → Prop
  | .done a, g, Q => Q a g
  | .fault _, _, _ => False
  | .load i next, g, Q =>
      P.InBounds t g i ∧ ∀ v, P.Sees t g i v → ∃ g', P.Learns t g i v g' ∧ wp (next v) g' Q
  | .compareExchange i expected desired next, g, Q =>
      P.InBounds t g i ∧
      (P.Sees t g i expected →
        ∃ g', P.Allows t g i expected desired g' ∧ wp (next true expected) g' Q) ∧
      ∀ v, v ≠ expected → P.Sees t g i v → wp (next false v) g Q
  | .store i v' next, g, Q =>
      P.InBounds t g i ∧
      ∃ g', (∀ v, P.Sees t g i v → P.Allows t g i v v' g') ∧ wp next g' Q
  | .compareExchangeLoop i current desired next, g, Q =>
      P.Permitted desired → P.InBounds t g i ∧ (∃ d, desired current = .ok d) ∧
      ∀ v, P.Sees t g i v →
        ∃ d g', desired v = .ok d ∧ P.Allows t g i v d g' ∧ wp next g' Q

/-- The next step of the program is not a retry loop excluded by the protocol. -/
def MayStep : Program V α → Prop
  | .compareExchangeLoop _ _ desired _ => P.Permitted desired
  | _ => True

variable {P t}

omit [DecidableEq ι] in
/-- A protocol that permits every retry loop excludes no step. -/
theorem mayStep_of_forall (h : ∀ f, P.Permitted f) (p : Program V α) : P.MayStep p := by
  cases p with
  | compareExchangeLoop i current desired next => exact h desired
  | done a => trivial
  | fault e => trivial
  | load i next => trivial
  | compareExchange i expected desired next => trivial
  | store i v next => trivial

theorem Learns.refl (g : G) (i : Nat) (v : V) : P.Learns t g i v g := by
  intro l mem γ hI hg _
  rwa [← hg, Function.update_eq_self]

/-- The consequence rule. -/
theorem wp_mono {p : Program V α} {g : G} {Q Q' : α → G → Prop}
    (hp : P.wp t p g Q) (hQ : ∀ a g', Q a g' → Q' a g') : P.wp t p g Q' := by
  induction p generalizing g with
  | done a => exact hQ a g hp
  | fault e => exact hp
  | load i next ih =>
      refine ⟨hp.1, fun v hv => ?_⟩
      obtain ⟨g', hl, hn⟩ := hp.2 v hv
      exact ⟨g', hl, ih v hn⟩
  | compareExchange i expected desired next ih =>
      refine ⟨hp.1, fun he => ?_, fun v hne hv => ih false v (hp.2.2 v hne hv)⟩
      obtain ⟨g', ha, hn⟩ := hp.2.1 he
      exact ⟨g', ha, ih true expected hn⟩
  | store i v next ih =>
      obtain ⟨hb, g', ha, hn⟩ := hp
      exact ⟨hb, g', ha, ih hn⟩
  | compareExchangeLoop i current desired next ih =>
      intro hperm
      obtain ⟨hb, hc, hs⟩ := hp hperm
      refine ⟨hb, hc, fun v hv => ?_⟩
      obtain ⟨d, g', hd, ha, hn⟩ := hs v hv
      exact ⟨d, g', hd, ha, ih hn⟩

/-- The rule for sequential composition. -/
theorem wp_bind {p : Program V α} {f : α → Program V β} {g : G} {Q : β → G → Prop}
    (hp : P.wp t p g fun a g' => P.wp t (f a) g' Q) : P.wp t (p.bind f) g Q := by
  induction p generalizing g with
  | done a => exact hp
  | fault e => exact hp
  | load i next ih =>
      refine ⟨hp.1, fun v hv => ?_⟩
      obtain ⟨g', hl, hn⟩ := hp.2 v hv
      exact ⟨g', hl, ih v hn⟩
  | compareExchange i expected desired next ih =>
      refine ⟨hp.1, fun he => ?_, fun v hne hv => ih false v (hp.2.2 v hne hv)⟩
      obtain ⟨g', ha, hn⟩ := hp.2.1 he
      exact ⟨g', ha, ih true expected hn⟩
  | store i v next ih =>
      obtain ⟨hb, g', ha, hn⟩ := hp
      exact ⟨hb, g', ha, ih hn⟩
  | compareExchangeLoop i current desired next ih =>
      intro hperm
      obtain ⟨hb, hc, hs⟩ := hp hperm
      refine ⟨hb, hc, fun v hv => ?_⟩
      obtain ⟨d, g', hd, ha, hn⟩ := hs v hv
      exact ⟨d, g', hd, ha, ih hn⟩

/-- The rule for a load that changes no ownership. -/
theorem wp_load {i : Nat} {next : V → Program V α} {g : G} {Q : α → G → Prop}
    (hb : P.InBounds t g i) (hn : ∀ v, P.Sees t g i v → P.wp t (next v) g Q) :
    P.wp t (.load i next) g Q :=
  ⟨hb, fun v hv => ⟨g, Learns.refl g i v, hn v hv⟩⟩

/-- The rule for a read that changes no ownership. -/
theorem wp_read {i : Nat} {f : V → Program V α} {g : G} {Q : α → G → Prop}
    (hb : P.InBounds t g i) (hn : ∀ v, P.Sees t g i v → P.wp t (f v) g Q) :
    P.wp t ((Program.read i).bind f) g Q :=
  wp_load hb hn

/-- The rule for a read that changes the ownership of the reader. -/
theorem wp_read_learns {i : Nat} {f : V → Program V α} {g : G} {Q : α → G → Prop}
    (hb : P.InBounds t g i)
    (hn : ∀ v, P.Sees t g i v → ∃ g', P.Learns t g i v g' ∧ P.wp t (f v) g' Q) :
    P.wp t ((Program.read i).bind f) g Q :=
  ⟨hb, hn⟩

/-- The rule for a computation on local variables with a known result. -/
theorem wp_ofExcept {x : Except Fault α} {a : α} {f : α → Program V β} {g : G}
    {Q : β → G → Prop} (hx : x = .ok a) (hf : P.wp t (f a) g Q) :
    P.wp t ((Program.ofExcept x).bind f) g Q := by
  rw [hx]
  exact hf

variable [DecidableEq V]

/-- One atomic step of participant `t`, whatever the others own, keeps the
invariant and the weakest precondition of the rest of the program. -/
theorem wp_step {p : Program V α} {l : L} {mem : List V} {γ : ι → G} {Q : α → G → Prop}
    (hI : P.Inv l mem γ) (hp : P.wp t p (γ t) Q) (hs : P.MayStep p) :
    ∃ g', P.Inv l (p.step mem).2 (Function.update γ t g') ∧ P.wp t (p.step mem).1 g' Q := by
  have hsame : P.Inv l mem (Function.update γ t (γ t)) := by
    rwa [Function.update_eq_self]
  cases p with
  | done a => exact ⟨γ t, hsame, hp⟩
  | fault e => exact hp.elim
  | load i next =>
      have hv := List.getElem?_eq_getElem (hp.1 l mem γ hI rfl)
      obtain ⟨g', hl, hn⟩ := hp.2 _ ⟨l, mem, γ, hI, rfl, hv⟩
      simp only [Program.step, hv]
      exact ⟨g', hl l mem γ hI rfl hv, hn⟩
  | compareExchange i expected desired next =>
      have hv := List.getElem?_eq_getElem (hp.1 l mem γ hI rfl)
      simp only [Program.step, hv]
      split
      · next he =>
          rw [he] at hv
          obtain ⟨g', ha, hn⟩ := hp.2.1 ⟨l, mem, γ, hI, rfl, hv⟩
          exact ⟨g', ha l mem γ hI rfl hv, hn⟩
      · next he => exact ⟨γ t, hsame, hp.2.2 _ he ⟨l, mem, γ, hI, rfl, hv⟩⟩
  | store i v next =>
      obtain ⟨hb, g', ha, hn⟩ := hp
      have hv := List.getElem?_eq_getElem (hb l mem γ hI rfl)
      simp only [Program.step, hv]
      exact ⟨g', ha _ ⟨l, mem, γ, hI, rfl, hv⟩ l mem γ hI rfl hv, hn⟩
  | compareExchangeLoop i current desired next =>
      obtain ⟨hb, ⟨d, hd⟩, hsee⟩ := hp hs
      have hv := List.getElem?_eq_getElem (hb l mem γ hI rfl)
      obtain ⟨d', g', hd', ha, hn⟩ := hsee _ ⟨l, mem, γ, hI, rfl, hv⟩
      simp only [Program.step, hd, hv]
      split
      · next he =>
          rw [he, hd] at hd'
          cases hd'
          exact ⟨g', ha l mem γ hI rfl hv, hn⟩
      · exact ⟨γ t, hsame, fun _ => ⟨hb, ⟨d', hd'⟩, hsee⟩⟩

/-- A whole run without interference returns a result with the postcondition. -/
theorem run_of_wp {p : Program V α} {l : L} {mem : List V} {γ : ι → G} {Q : α → G → Prop}
    (hperm : ∀ f, P.Permitted f) (hI : P.Inv l mem γ) (hp : P.wp t p (γ t) Q) :
    ∃ a mem' g', p.run mem = (.ok a, mem') ∧
      P.Inv l mem' (Function.update γ t g') ∧ Q a g' := by
  induction p generalizing mem γ with
  | done a => exact ⟨a, mem, γ t, rfl, by rwa [Function.update_eq_self], hp⟩
  | fault e => exact hp.elim
  | load i next ih =>
      have hv := List.getElem?_eq_getElem (hp.1 l mem γ hI rfl)
      obtain ⟨g', hl, hn⟩ := hp.2 _ ⟨l, mem, γ, hI, rfl, hv⟩
      have hI' := hl l mem γ hI rfl hv
      obtain ⟨a, mem', g'', hr, hI'', hQ⟩ := ih _ hI' (by simpa using hn)
      exact ⟨a, mem', g'', by rw [Program.run_load hv, hr], by simpa using hI'', hQ⟩
  | compareExchange i expected desired next ih =>
      have hv := List.getElem?_eq_getElem (hp.1 l mem γ hI rfl)
      simp only [Program.run, hv]
      split
      · next he =>
          rw [he] at hv
          obtain ⟨g', ha, hn⟩ := hp.2.1 ⟨l, mem, γ, hI, rfl, hv⟩
          have hI' := ha l mem γ hI rfl hv
          obtain ⟨a, mem', g'', hr, hI'', hQ⟩ := ih _ _ hI' (by simpa using hn)
          exact ⟨a, mem', g'', hr, by simpa using hI'', hQ⟩
      · next he => exact ih _ _ hI (hp.2.2 _ he ⟨l, mem, γ, hI, rfl, hv⟩)
  | store i v next ih =>
      obtain ⟨hb, g', ha, hn⟩ := hp
      have hi := hb l mem γ hI rfl
      have hv := List.getElem?_eq_getElem hi
      have hI' := ha _ ⟨l, mem, γ, hI, rfl, hv⟩ l mem γ hI rfl hv
      obtain ⟨a, mem', g'', hr, hI'', hQ⟩ := ih hI' (by simpa using hn)
      exact ⟨a, mem', g'', by rw [Program.run_store hi, hr], by simpa using hI'', hQ⟩
  | compareExchangeLoop i current desired next ih =>
      obtain ⟨hb, ⟨d, hd⟩, hsee⟩ := hp (hperm desired)
      have hv := List.getElem?_eq_getElem (hb l mem γ hI rfl)
      obtain ⟨d', g', hd', ha, hn⟩ := hsee _ ⟨l, mem, γ, hI, rfl, hv⟩
      have hI' := ha l mem γ hI rfl hv
      obtain ⟨a, mem', g'', hr, hI'', hQ⟩ := ih hI' (by simpa using hn)
      refine ⟨a, mem', g'', ?_, by simpa using hI'', hQ⟩
      simp only [Program.run, hd, hv, hd']
      split
      · next he =>
          rw [he, hd] at hd'
          cases hd'
          exact hr
      · exact hr

end Protocol

end RPiKernel.Interleaving
