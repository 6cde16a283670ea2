import Mathlib.Data.BitVec
import RPiKernel.Machine.Congruential
import RPiKernel.Snake.Picture

/-!
# The numbers of the fruit

`rand` is a congruential generator whose seed runs through all 32-bit words, so that `SpawnFruit`
ends on every grid with three columns or three rows inside its border. But its lowest bit alternates.
As `SpawnFruit` takes two numbers at a time, one parity is all that the column of a fruit comes
from, and the other one all that its row comes from.

## Implementation notes

How many of the offered pairs a frame takes is left open in `seededSystem`, so that what holds in
all of its states holds for the number that the program takes.
-/

namespace RPiKernel.Snake

open Interleaving Machine Transition

/-- The seed at the start. -/
def initialSeed : BitVec 32 := 0xDEADBEEF

/-- The next seed. -/
def nextSeed (seed : BitVec 32) : BitVec 32 := (seed * 1103515245 + 12345) &&& 0xFFFFFFFF

/-- What `rand` returns with its new seed. -/
def randValue (seed : BitVec 32) : Nat := seed.toNat % 0xFFFFFFFF

/-- The numbers of the next calls of `rand`, in pairs. -/
def drawPairs (seed : BitVec 32) : Nat → List (Nat × Nat)
  | 0 => []
  | n + 1 =>
      let seed₁ := nextSeed seed
      let seed₂ := nextSeed seed₁
      (randValue seed₁, randValue seed₂) :: drawPairs seed₂ n

/-- The seed after pairs of calls. -/
def seedAfter (seed : BitVec 32) (pairs : Nat) : BitVec 32 := nextSeed^[2 * pairs] seed

section Seeds

variable {seed : BitVec 32} {n k : Nat}

theorem nextSeed_eq (seed : BitVec 32) : nextSeed seed = seed * 1103515245 + 12345 :=
  BitVec.and_allOnes

/-- The lowest bit of the seed alternates. -/
theorem nextSeed_mod_two (seed : BitVec 32) : (nextSeed seed).toNat % 2 = (seed.toNat + 1) % 2 := by
  have hlt := seed.isLt
  rw [nextSeed_eq, BitVec.toNat_add, BitVec.toNat_mul]
  change (seed.toNat * 1103515245 % 2 ^ 32 + 12345) % 2 ^ 32 % 2 = _
  omega

theorem iterate_nextSeed_mod_two (seed : BitVec 32) (n : Nat) :
    (nextSeed^[n] seed).toNat % 2 = (seed.toNat + n) % 2 := by
  induction n with
  | zero => rfl
  | succ n ih =>
      rw [Function.iterate_succ_apply', nextSeed_mod_two]
      omega

theorem exists_double (u : BitVec 32) : ∃ v : BitVec 32, u = 2 * v ∨ u = 1 + 2 * v := by
  refine ⟨BitVec.ofNat 32 (u.toNat / 2), ?_⟩
  have hlt := u.isLt
  rcases Nat.mod_two_eq_zero_or_one u.toNat with heven | hodd
  · refine Or.inl (BitVec.eq_of_toNat_eq ?_)
    rw [BitVec.toNat_mul, BitVec.toNat_ofNat]
    change u.toNat = 2 * (u.toNat / 2 % 2 ^ 32) % 2 ^ 32
    omega
  · refine Or.inr (BitVec.eq_of_toNat_eq ?_)
    rw [BitVec.toNat_add, BitVec.toNat_mul, BitVec.toNat_ofNat]
    change u.toNat = (1 + 2 * (u.toNat / 2 % 2 ^ 32) % 2 ^ 32) % 2 ^ 32
    omega

/-- Every seed comes up within `2 ^ 32` calls. -/
theorem exists_iterate_nextSeed (seed target : BitVec 32) :
    ∃ m < 2 ^ 32, nextSeed^[m] seed = target := by
  have hf (x : BitVec 32) : nextSeed x = (1 + 4 * 275878811) * x + (1 + 2 * 6172) := by
    rw [nextSeed_eq, BitVec.mul_comm]
    rfl
  have hzero : (2 : BitVec 32) ^ 32 = 0 := by decide
  exact exists_iterate_eq hf exists_double hzero seed target

/-- Every seed with the parity of a seed comes up within `2 ^ 31` pairs of calls. -/
theorem exists_seedAfter {target : BitVec 32} (h : target.toNat % 2 = seed.toNat % 2) :
    ∃ k < 2 ^ 31, seedAfter seed k = target := by
  obtain ⟨m, hm, htarget⟩ := exists_iterate_nextSeed seed target
  have hparity := iterate_nextSeed_mod_two seed m
  rw [htarget] at hparity
  refine ⟨m / 2, by omega, ?_⟩
  have hm : 2 * (m / 2) = m := by omega
  rw [seedAfter, hm, htarget]

theorem seedAfter_succ (seed : BitVec 32) (k : Nat) :
    seedAfter (nextSeed (nextSeed seed)) k = seedAfter seed (k + 1) := by
  rw [seedAfter, seedAfter, Nat.mul_succ, Function.iterate_add_apply]
  rfl

theorem nextSeed_seedAfter (seed : BitVec 32) (k : Nat) :
    nextSeed (seedAfter seed k) = seedAfter (nextSeed seed) k := by
  calc
    nextSeed (nextSeed^[2 * k] seed) = nextSeed^[2 * k + 1] seed :=
      (Function.iterate_succ_apply' nextSeed (2 * k) seed).symm
    _ = nextSeed^[2 * k] (nextSeed seed) := Function.iterate_succ_apply nextSeed (2 * k) seed

/-- Each pair of calls is among the pairs. -/
theorem mem_drawPairs (hk : k < n) :
    (randValue (nextSeed (seedAfter seed k)), randValue (nextSeed (nextSeed (seedAfter seed k)))) ∈
      drawPairs seed n := by
  induction n generalizing seed k with
  | zero => exact absurd hk (Nat.not_lt_zero k)
  | succ n ih =>
      rw [drawPairs]
      cases k with
      | zero => exact List.mem_cons_self
      | succ k =>
          rw [← seedAfter_succ]
          exact List.mem_cons_of_mem _ (ih (Nat.lt_of_succ_lt_succ hk))

/-- The first number of a pair comes from a seed of the other parity than the seed in front of it,
and the second one from one of the same parity. -/
theorem exists_seed_of_mem_drawPairs {p : Nat × Nat} (hp : p ∈ drawPairs seed n) :
    ∃ s₁ s₂ : BitVec 32, p = (randValue s₁, randValue s₂) ∧
      s₁.toNat % 2 = (seed.toNat + 1) % 2 ∧ s₂.toNat % 2 = seed.toNat % 2 := by
  induction n generalizing seed with
  | zero => exact absurd hp List.not_mem_nil
  | succ n ih =>
      have hfirst := nextSeed_mod_two seed
      have hsecond := nextSeed_mod_two (nextSeed seed)
      rw [drawPairs] at hp
      rcases List.mem_cons.mp hp with rfl | hp
      · exact ⟨_, _, rfl, hfirst, by omega⟩
      · obtain ⟨s₁, s₂, rfl, hs₁, hs₂⟩ := ih hp
        exact ⟨s₁, s₂, rfl, by omega, by omega⟩

end Seeds

section Spawn

variable {setup : Setup} {head : Cell} {draws : List (Nat × Nat)}

/-- The fruit from a pair of numbers. -/
def fruitOf (setup : Setup) (p : Nat × Nat) : Cell :=
  ⟨p.1 % (setup.gridWidth - 2) + 1, p.2 % (setup.gridHeight - 2) + 1⟩

theorem spawnFruit_cons (hplayable : setup.Playable) (p : Nat × Nat) :
    spawnFruit setup head (p :: draws) =
      if fruitOf setup p = head then spawnFruit setup head draws
      else .ok (fruitOf setup p, draws) := by
  have hw := gridWidth_lt setup
  have hh := gridHeight_lt setup
  have hw3 := hplayable.width
  have hh3 := hplayable.height
  have hx := Nat.mod_lt p.1 (by omega : 0 < setup.gridWidth - 2)
  have hy := Nat.mod_lt p.2 (by omega : 0 < setup.gridHeight - 2)
  have hcell : (⟨add32 (p.1 % sub32 setup.gridWidth 2) 1,
      add32 (p.2 % sub32 setup.gridHeight 2) 1⟩ : Cell) = fruitOf setup p := by
    rw [sub32_of_le (by omega) (by omega), sub32_of_le (by omega) (by omega),
      add32_of_lt (by omega), add32_of_lt (by omega)]
    rfl
  obtain ⟨x, y⟩ := p
  rw [spawnFruit, hcell]

/-- A pair that does not give the head ends `SpawnFruit`. -/
theorem exists_spawnFruit (hplayable : setup.Playable) {p : Nat × Nat} (hp : p ∈ draws)
    (hne : fruitOf setup p ≠ head) : ∃ r, spawnFruit setup head draws = .ok r := by
  induction draws with
  | nil => exact absurd hp List.not_mem_nil
  | cons q draws ih =>
      rw [spawnFruit_cons hplayable]
      split
      · next heq =>
        rcases List.mem_cons.mp hp with rfl | hp
        · exact absurd heq hne
        · exact ih hp
      · exact ⟨_, rfl⟩

/-- Two small numbers of one parity with different remainders. -/
theorem exists_small_seed {w : Nat} (hw : 3 ≤ w) (bit x : Nat) :
    ∃ s : BitVec 32, s.toNat % 2 = bit % 2 ∧ randValue s % w + 1 ≠ x := by
  have hbit : bit % 2 < 2 := Nat.mod_lt _ (by decide)
  have hvalue {v : Nat} (hv : v < 4) :
      (BitVec.ofNat 32 v).toNat = v ∧ randValue (BitVec.ofNat 32 v) = v := by
    have hnat : (BitVec.ofNat 32 v).toNat = v := by rw [BitVec.toNat_ofNat]; omega
    exact ⟨hnat, by rw [randValue, hnat]; omega⟩
  obtain ⟨hlow, hrandLow⟩ := hvalue (v := bit % 2) (by omega)
  obtain ⟨hhigh, hrandHigh⟩ := hvalue (v := bit % 2 + 2) (by omega)
  by_cases hx : bit % 2 % w + 1 = x
  · refine ⟨BitVec.ofNat 32 (bit % 2 + 2), by rw [hhigh]; omega, ?_⟩
    rw [hrandHigh]
    intro hsame
    have hmod : (bit % 2 + 2) % w = bit % 2 % w := by omega
    rw [Nat.mod_eq_of_lt (by omega : bit % 2 < w)] at hmod
    rcases Nat.lt_or_ge (bit % 2 + 2) w with hlt | hge
    · rw [Nat.mod_eq_of_lt hlt] at hmod
      omega
    · rw [Nat.mod_eq_sub_mod hge, Nat.mod_eq_of_lt (by omega)] at hmod
      omega
  · exact ⟨BitVec.ofNat 32 (bit % 2), by rw [hlow]; omega, by rwa [hrandLow]⟩

/-- `SpawnFruit` ends for every seed and every head, on a grid with three columns or three rows
inside its border. -/
theorem spawnFruit_ends (hplayable : setup.Playable)
    (hsize : 5 ≤ setup.gridWidth ∨ 5 ≤ setup.gridHeight) (seed : BitVec 32) (head : Cell) :
    ∃ r, spawnFruit setup head (drawPairs seed (2 ^ 31)) = .ok r := by
  rcases hsize with hwidth | hheight
  · obtain ⟨s, hparity, hne⟩ := exists_small_seed (w := setup.gridWidth - 2) (by omega)
      (seed.toNat + 1) head.x
    obtain ⟨k, hk, hs⟩ := exists_seedAfter (hparity.trans (nextSeed_mod_two seed).symm)
    have hpair : nextSeed (seedAfter seed k) = s := (nextSeed_seedAfter seed k).trans hs
    refine exists_spawnFruit hplayable (mem_drawPairs hk) fun heq => hne ?_
    rw [← hpair]
    exact congrArg Cell.x heq
  · obtain ⟨s, hparity, hne⟩ := exists_small_seed (w := setup.gridHeight - 2) (by omega)
      seed.toNat head.y
    have hfirst := nextSeed_mod_two seed
    have hsecond := nextSeed_mod_two (nextSeed seed)
    have htwice : s.toNat % 2 = (nextSeed (nextSeed seed)).toNat % 2 := by omega
    obtain ⟨k, hk, hs⟩ := exists_seedAfter htwice
    have hpair : nextSeed (nextSeed (seedAfter seed k)) = s := by
      rw [nextSeed_seedAfter, nextSeed_seedAfter, hs]
    refine exists_spawnFruit hplayable (mem_drawPairs hk) fun heq => hne ?_
    rw [← hpair]
    exact congrArg Cell.y heq

theorem spawnFruit_ends_smallScreen :
    ∃ r, spawnFruit smallScreen ⟨10, 7⟩ (drawPairs initialSeed (2 ^ 31)) = .ok r :=
  spawnFruit_ends smallScreen_playable (Or.inl (by decide)) initialSeed ⟨10, 7⟩

end Spawn

section Parity

variable {setup : Setup} {g : Game} {time : UInt64} {draws : List (Nat × Nat)} {old : Cell}

/-- The fruit is the old one, or comes from one of the pairs. -/
def FruitFrom (setup : Setup) (draws : List (Nat × Nat)) (old : Cell) (g : Game) : Prop :=
  g.fruit = old ∨ ∃ p ∈ draws, g.fruit = fruitOf setup p

theorem FruitFrom.mono {rest : List (Nat × Nat)} (h : FruitFrom setup rest old g)
    (hrest : rest ⊆ draws) : FruitFrom setup draws old g :=
  h.imp_right fun ⟨p, hp, hfruit⟩ => ⟨p, hrest hp, hfruit⟩

theorem yields_spawnFruit (hplayable : setup.Playable) (head : Cell) (draws : List (Nat × Nat)) :
    Yields (fun r => (∃ p ∈ draws, r.1 = fruitOf setup p) ∧ r.2 ⊆ draws)
      (spawnFruit setup head draws) := by
  induction draws with
  | nil =>
      intro r hr
      cases hr
  | cons p draws ih =>
      rw [spawnFruit_cons hplayable]
      split
      · intro r hr
        obtain ⟨⟨q, hq, hfruit⟩, hrest⟩ := ih r hr
        exact ⟨⟨q, List.mem_cons_of_mem p hq, hfruit⟩, List.subset_cons_of_subset p hrest⟩
      · exact Yields.pure ⟨⟨p, List.mem_cons_self, rfl⟩, List.subset_cons_self p draws⟩

theorem yields_resetSnake_fruit (hplayable : setup.Playable) :
    Yields (fun r => FruitFrom setup draws old r.1 ∧ r.2 ⊆ draws)
      (resetSnake setup time draws g) :=
  (yields_spawnFruit hplayable _ draws).bind fun _ hr => Yields.pure ⟨Or.inr hr.1, hr.2⟩

theorem Yields.skip {α β : Type} {x : Except Fault α} {f : α → Except Fault β} {Q : β → Prop}
    (h : ∀ a, Yields Q (f a)) : Yields Q (x >>= f) :=
  Yields.bind (Q := fun _ => True) (fun _ _ => trivial) fun a _ => h a

theorem yields_moveSnake_fruit : Yields (fun g' => g'.fruit = g.fruit) (moveSnake g) := by
  unfold moveSnake
  split
  · exact Yields.skip fun tail => Yields.skip fun tail => Yields.pure rfl
  · exact Yields.pure rfl

theorem yields_checkBounds_fruit (hplayable : setup.Playable) (h : g.fruit = old) :
    Yields (fun r => FruitFrom setup draws old r.1 ∧ r.2 ⊆ draws)
      (checkBounds setup time draws g) := by
  unfold checkBounds
  split
  · exact yields_resetSnake_fruit hplayable
  · exact Yields.pure ⟨Or.inl h, List.Subset.refl draws⟩

theorem yields_checkTail_fruit (hplayable : setup.Playable) {rest : List (Nat × Nat)}
    (h : FruitFrom setup draws old g) (hrest : rest ⊆ draws) :
    Yields (fun r => FruitFrom setup draws old r.1 ∧ r.2 ⊆ draws)
      (checkTail setup time rest g) := by
  unfold checkTail
  refine Yields.skip fun hit => ?_
  split
  · intro r hr
    obtain ⟨hfruit, hsub⟩ := yields_resetSnake_fruit hplayable r hr
    exact ⟨FruitFrom.mono hfruit hrest, fun p hp => hrest (hsub hp)⟩
  · exact Yields.pure ⟨h, hrest⟩

theorem yields_eatFruit_fruit (hplayable : setup.Playable) {rest : List (Nat × Nat)}
    (h : FruitFrom setup draws old g) (hrest : rest ⊆ draws) :
    Yields (FruitFrom setup draws old) (eatFruit setup rest g) := by
  unfold eatFruit
  split
  · refine (yields_spawnFruit hplayable g.head rest).bind ?_
    rintro ⟨fruit, rest'⟩ ⟨⟨p, hp, hfruit⟩, -⟩
    exact Yields.skip fun tail => Yields.pure (Or.inr ⟨p, hrest hp, hfruit⟩)
  · exact Yields.pure h

/-- A frame keeps the fruit, or takes one from the numbers. -/
theorem yields_frame_fruit (hplayable : setup.Playable) (input : Input) (g : Game) :
    Yields (fun r => FruitFrom setup input.draws g.fruit r.1) (frame setup input g) := by
  have hdraw (g' : Game) (hg' : FruitFrom setup input.draws g.fruit g') :
      Yields (fun r : Game × List Rectangle => FruitFrom setup input.draws g.fruit r.1) (do
        let picture ← draw setup g'
        return (g', picture)) := Yields.skip fun picture => Yields.pure hg'
  simp only [frame]
  split
  · refine Yields.bind (Yields.bind yields_moveSnake_fruit fun g₁ h₁ => ?_) hdraw
    refine (yields_checkBounds_fruit hplayable h₁).bind fun r₂ h₂ => ?_
    refine (yields_checkTail_fruit hplayable h₂.1 h₂.2).bind fun r₃ h₃ => ?_
    exact yields_eatFruit_fruit hplayable h₃.1 h₃.2
  · exact hdraw _ (Or.inl rfl)

/-- The game and the seed. -/
structure Seeded where
  game : Game
  seed : BitVec 32

/-- The input of a frame, the pairs of numbers that it is offered and how many of them it takes. -/
structure Round where
  input : Input
  offered : Nat
  used : Nat

/-- The game with its own numbers. -/
def seededSystem (setup : Setup) : System Seeded Round where
  Initial s := ∃ before time offered used rest, used ≤ offered ∧
    resetSnake setup time (drawPairs initialSeed offered) before = .ok (s.game, rest) ∧
    s.seed = seedAfter initialSeed used
  next s r :=
    if r.used ≤ r.offered then
      (frame setup { r.input with draws := drawPairs s.seed r.offered } s.game).toOption.map
        fun drawn => ⟨drawn.1, seedAfter s.seed r.used⟩
    else none

/-- Where the fruit can be: in an odd column if the number of columns is even, and in an even row or
the first one if the number of rows is even. -/
structure FruitPlaced (setup : Setup) (fruit : Cell) : Prop where
  column : setup.gridWidth % 2 = 0 → fruit.x % 2 = 1
  row : setup.gridHeight % 2 = 0 → fruit.y % 2 = 0 ∨ fruit.y = 1

theorem fruitPlaced_of_mem (hplayable : setup.Playable) {seed : BitVec 32}
    (hseed : seed.toNat % 2 = 1) {n : Nat} {p : Nat × Nat} (hp : p ∈ drawPairs seed n) :
    FruitPlaced setup (fruitOf setup p) := by
  obtain ⟨s₁, s₂, rfl, hs₁, hs₂⟩ := exists_seed_of_mem_drawPairs hp
  have hlt₁ := s₁.isLt
  have hlt₂ := s₂.isLt
  have hw3 := hplayable.width
  have hh3 := hplayable.height
  constructor
  case column =>
    intro heven
    have hvalue : randValue s₁ = s₁.toNat := Nat.mod_eq_of_lt (by omega)
    have hmod : s₁.toNat % (setup.gridWidth - 2) % 2 = s₁.toNat % 2 :=
      Nat.mod_mod_of_dvd _ (Nat.dvd_of_mod_eq_zero (by omega))
    change (randValue s₁ % (setup.gridWidth - 2) + 1) % 2 = 1
    rw [hvalue]
    omega
  case row =>
    intro heven
    change (randValue s₂ % (setup.gridHeight - 2) + 1) % 2 = 0 ∨
      randValue s₂ % (setup.gridHeight - 2) + 1 = 1
    by_cases hlast : s₂.toNat = 0xFFFFFFFF
    · have hvalue : randValue s₂ = 0 := by rw [randValue, hlast]
      rw [hvalue]
      exact Or.inr (by rw [Nat.zero_mod])
    · have hvalue : randValue s₂ = s₂.toNat := Nat.mod_eq_of_lt (by omega)
      have hmod : s₂.toNat % (setup.gridHeight - 2) % 2 = s₂.toNat % 2 :=
        Nat.mod_mod_of_dvd _ (Nat.dvd_of_mod_eq_zero (by omega))
      rw [hvalue]
      exact Or.inl (by omega)

theorem seedAfter_odd {seed : BitVec 32} (h : seed.toNat % 2 = 1) (k : Nat) :
    (seedAfter seed k).toNat % 2 = 1 := by
  rw [seedAfter, iterate_nextSeed_mod_two]
  omega

/-- What holds in the runs: the seed is odd, and the fruit is where it can be. -/
structure Seeded.Sound (setup : Setup) (s : Seeded) : Prop where
  odd : s.seed.toNat % 2 = 1
  placed : FruitPlaced setup s.game.fruit

theorem FruitFrom.placed (hplayable : setup.Playable) {seed : BitVec 32}
    (hseed : seed.toNat % 2 = 1) {n : Nat} (h : FruitFrom setup (drawPairs seed n) old g)
    (hold : FruitPlaced setup old) : FruitPlaced setup g.fruit := by
  rcases h with hkept | ⟨p, hp, hfruit⟩
  · rw [hkept]
    exact hold
  · rw [hfruit]
    exact fruitPlaced_of_mem hplayable hseed hp

theorem yields_resetSnake_placed (hplayable : setup.Playable) {seed : BitVec 32}
    (hseed : seed.toNat % 2 = 1) (n : Nat) :
    Yields (fun r => FruitPlaced setup r.1.fruit)
      (resetSnake setup time (drawPairs seed n) g) := by
  refine (yields_spawnFruit hplayable _ _).bind ?_
  rintro r ⟨⟨p, hp, hfruit⟩, -⟩
  refine Yields.pure ?_
  change FruitPlaced setup r.1
  rw [hfruit]
  exact fruitPlaced_of_mem hplayable hseed hp

theorem sound_of_initial (hplayable : setup.Playable) {s : Seeded}
    (h : (seededSystem setup).Initial s) : s.Sound setup := by
  obtain ⟨before, time, offered, used, rest, -, hreset, hseed⟩ := h
  have hodd : initialSeed.toNat % 2 = 1 := by decide
  constructor
  case odd =>
    rw [hseed]
    exact seedAfter_odd hodd used
  case placed => exact yields_resetSnake_placed hplayable hodd offered _ hreset

/-- A frame that comes to its end keeps the seed odd and the fruit where it can be. -/
theorem Seeded.Sound.next (hplayable : setup.Playable) {s s' : Seeded} {r : Round}
    (h : s.Sound setup) (hstep : (seededSystem setup).next s r = some s') : s'.Sound setup := by
  change (if r.used ≤ r.offered then _ else none) = some s' at hstep
  split at hstep
  · obtain ⟨drawn, hdrawn, rfl⟩ := Option.map_eq_some_iff.mp hstep
    constructor
    case odd => exact seedAfter_odd h.odd r.used
    case placed =>
      cases hframe : frame setup { r.input with draws := drawPairs s.seed r.offered } s.game with
      | ok a =>
          rw [hframe] at hdrawn
          cases hdrawn
          have hfrom := yields_frame_fruit hplayable _ _ _ hframe
          exact hfrom.placed hplayable h.odd h.placed
      | error e =>
          rw [hframe] at hdrawn
          cases hdrawn
  · cases hstep

theorem sound_of_reachable (hplayable : setup.Playable) {s : Seeded}
    (h : (seededSystem setup).Reachable s) : s.Sound setup :=
  h.invariant (fun _ => sound_of_initial hplayable) fun _ _ _ hs hstep => hs.next hplayable hstep

/-- In every run of the game, whatever is pressed and whatever the frames take of the numbers, the
fruit keeps to every other column and every other row of an even grid. -/
theorem fruit_placed (hplayable : setup.Playable) {s : Seeded}
    (h : (seededSystem setup).Reachable s) : FruitPlaced setup s.game.fruit :=
  (sound_of_reachable hplayable h).placed

/-- The game in front of its first frame, with the first numbers. -/
def firstSeeded : Seeded where
  game := ⟨⟨10, 7⟩, fun _ => ⟨0, 0⟩, 0, ⟨11, 2⟩, .none, 0⟩
  seed := seedAfter initialSeed 1

theorem fruit_placed_smallScreen : FruitPlaced smallScreen firstSeeded.game.fruit := by
  have hspawn : spawnFruit smallScreen ⟨smallScreen.gridWidth / 2, smallScreen.gridHeight / 2⟩
      (drawPairs initialSeed 1) = .ok (⟨11, 2⟩, []) := by decide +kernel
  have hreset : resetSnake smallScreen 0 (drawPairs initialSeed 1) firstSeeded.game =
      .ok (firstSeeded.game, []) := by
    rw [resetSnake, hspawn]
    rfl
  refine fruit_placed smallScreen_playable (System.ReachableBy.initial ?_)
  exact ⟨firstSeeded.game, 0, 1, 1, [], le_rfl, hreset, rfl⟩

end Parity

end RPiKernel.Snake
