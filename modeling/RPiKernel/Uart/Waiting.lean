import RPiKernel.Uart.Sessions

/-!
# Who waits for the serial line

Nothing interrupts the context that has the lock, so that a core does not wait for itself: whoever
waits waits for another core, and that one can go on until the lock is free.

## Implementation notes

A context can stop its own core if it makes a stream that waits while it has the lock, or suspends
itself by an exception with it. `Careful` excludes both.
-/

namespace RPiKernel.Uart

open Machine Transition

/-- On the way to a `Mutex.lock()`. -/
def Doing.blocks : Doing → Bool
  | .disabling tryOnly => !tryOnly
  | .masking tryOnly _ => !tryOnly
  | .testAndSet tryOnly _ => !tryOnly
  | .waiting _ => true
  | _ => false

@[simp] theorem Doing.blocks_send (text : List UInt8) : (Doing.send text).blocks = false := by
  cases text <;> rfl

/-- Orderly, and a context with the lock makes no stream that waits for it, and takes no exception
but interrupts. -/
def Careful (s : State) : Action → Prop
  | .construct i tryOnly => tryOnly = false → (s.contexts i).lockedStreams = 0
  | .exception i => (s.contexts i).held = 0
  | a => Orderly s a

instance (s : State) (a : Action) : Decidable (Careful s a) :=
  match a with
  | .construct i tryOnly =>
      inferInstanceAs (Decidable (tryOnly = false → (s.contexts i).lockedStreams = 0))
  | .exception i => inferInstanceAs (Decidable ((s.contexts i).held = 0))
  | .raw i call => inferInstanceAs (Decidable (Orderly s (.raw i call)))
  | .setInterrupts i enabled => inferInstanceAs (Decidable (Orderly s (.setInterrupts i enabled)))
  | .print _ _ _ => inferInstanceAs (Decidable True)
  | .unlock _ _ => inferInstanceAs (Decidable True)
  | .destroy _ => inferInstanceAs (Decidable True)
  | .go _ => inferInstanceAs (Decidable True)
  | .interrupt _ => inferInstanceAs (Decidable True)
  | .eret _ _ => inferInstanceAs (Decidable True)
  | .create _ => inferInstanceAs (Decidable True)
  | .transmit => inferInstanceAs (Decidable True)
  | .setUseMutex => inferInstanceAs (Decidable True)

theorem Careful.orderly {s : State} {a : Action} (h : Careful s a) : Orderly s a := by
  cases a with
  | construct i tryOnly => trivial
  | exception i => trivial
  | _ => exact h

/-- Every core runs one context. The context with the lock runs, and does not wait. -/
structure Placed (s : State) : Prop where
  alone : ∀ i j core, (s.contexts i).place = .running core → (s.contexts j).place = .running core →
    i = j
  runs : ∀ i, 0 < (s.contexts i).held → ∃ core, (s.contexts i).place = .running core
  goes : ∀ i, 0 < (s.contexts i).lockedStreams → (s.contexts i).doing.blocks = false

/-- A context goes on where it is, and is on the way to a `Mutex.lock()` without the lock only. -/
def GoesOn (s s' : State) (i : Nat) : Prop :=
  ∃ x, s'.contexts = Function.update s.contexts i x ∧ x.place = (s.contexts i).place ∧
    (0 < x.lockedStreams → x.doing.blocks = true → 0 < (s.contexts i).lockedStreams ∧
      (s.contexts i).doing.blocks = true)

section Steps

variable {cores depth : Nat} {s s' : State} {owner : Option Nat} {i : Nat}

theorem goesOn_go (hs : go depth s i = some s') : GoesOn s s' i := by
  rw [go] at hs
  cases hdoing : (s.contexts i).doing with
  | client => simp [hdoing] at hs
  | disabling tryOnly =>
      simp only [hdoing, Option.some.injEq] at hs
      subst hs
      exact ⟨_, rfl, rfl, fun hpos hblocks => ⟨hpos, hdoing ▸ hblocks⟩⟩
  | masking tryOnly wasEnabled =>
      simp only [hdoing, Option.some.injEq] at hs
      subst hs
      exact ⟨_, rfl, rfl, fun hpos hblocks => ⟨hpos, hdoing ▸ hblocks⟩⟩
  | testAndSet tryOnly wasEnabled =>
      simp only [hdoing] at hs
      split at hs
      · rw [Option.some.injEq] at hs
        subst hs
        refine ⟨_, rfl, rfl, fun hpos hblocks => ⟨hpos, ?_⟩⟩
        rw [hdoing]
        cases tryOnly with
        | true => cases hblocks
        | false => rfl
      · rw [Option.some.injEq] at hs
        subst hs
        exact ⟨_, rfl, rfl, fun _ hblocks => by cases hblocks⟩
  | waiting wasEnabled =>
      simp only [hdoing, Option.some.injEq] at hs
      subst hs
      exact ⟨_, rfl, rfl, fun hpos _ => ⟨hpos, hdoing ▸ rfl⟩⟩
  | givingUp wasEnabled =>
      simp only [hdoing, Option.some.injEq] at hs
      subst hs
      exact ⟨_, rfl, rfl, fun _ hblocks => by cases hblocks⟩
  | clearing wasEnabled =>
      simp only [hdoing, Option.some.injEq] at hs
      subst hs
      exact ⟨_, rfl, rfl, fun _ hblocks => by cases hblocks⟩
  | restoring wasEnabled =>
      simp only [hdoing, Option.some.injEq] at hs
      subst hs
      exact ⟨_, rfl, rfl, fun _ hblocks => by cases hblocks⟩
  | polling c text =>
      simp only [hdoing, Option.some.injEq] at hs
      subst hs
      refine ⟨_, rfl, rfl, fun _ hblocks => ?_⟩
      simp only at hblocks
      split at hblocks <;> cases hblocks
  | writing c text =>
      simp only [hdoing, Option.some.injEq] at hs
      subst hs
      refine ⟨_, rfl, rfl, fun _ hblocks => ?_⟩
      rw [Doing.blocks_send] at hblocks
      cases hblocks

theorem not_blocks_release {useMutex : Bool} {stream : LockedStream} :
    (release useMutex stream).blocks ≠ true := by
  rw [release]
  split
  · exact Bool.false_ne_true
  · exact Bool.false_ne_true

theorem goesOn_perform (hclient : (s.contexts i).doing = .client) {a : Action}
    (hactor : a.client = some i) (ha : Careful s a)
    (hs : perform s i (s.contexts i) a = some s') : GoesOn s s' i := by
  have hblocks : (s.contexts i).doing.blocks ≠ true := by
    rw [hclient]
    exact Bool.false_ne_true
  cases a with
  | construct j tryOnly =>
      obtain rfl := Option.some.inj hactor
      simp only [perform] at hs
      split at hs
      · rw [Option.some.injEq] at hs
        subst hs
        refine ⟨_, rfl, rfl, fun hpos hcon => ?_⟩
        cases tryOnly with
        | true => cases hcon
        | false => exact absurd hpos (Nat.not_lt.mpr (ha rfl).le)
      · rw [Option.some.injEq] at hs
        subst hs
        exact ⟨_, rfl, rfl, fun _ hcon => absurd hcon hblocks⟩
  | print j k call =>
      simp only [perform, Option.bind_eq_bind] at hs
      obtain ⟨stream, -, hs⟩ := Option.bind_eq_some_iff.mp hs
      split at hs
      · obtain ⟨text, -, hs⟩ := Option.bind_eq_some_iff.mp hs
        rw [Option.some.injEq] at hs
        subst hs
        refine ⟨_, rfl, rfl, fun _ hcon => ?_⟩
        rw [Doing.blocks_send] at hcon
        cases hcon
      · rw [Option.some.injEq] at hs
        subst hs
        exact ⟨_, (Function.update_eq_self i s.contexts).symm, rfl, fun _ hcon => absurd hcon hblocks⟩
  | raw j call => exact ha.elim
  | unlock j k =>
      simp only [perform, Option.bind_eq_bind] at hs
      obtain ⟨stream, -, hs⟩ := Option.bind_eq_some_iff.mp hs
      rw [Option.some.injEq] at hs
      subst hs
      exact ⟨_, rfl, rfl, fun _ hcon => absurd hcon not_blocks_release⟩
  | destroy j =>
      simp only [perform] at hs
      split at hs
      · cases hs
      · rw [Option.some.injEq] at hs
        subst hs
        exact ⟨_, rfl, rfl, fun _ hcon => absurd hcon not_blocks_release⟩
  | setInterrupts j enabled =>
      rw [perform, Option.some.injEq] at hs
      subst hs
      exact ⟨_, rfl, rfl, fun _ hcon => absurd hcon hblocks⟩
  | go j => cases hs
  | interrupt j => cases hs
  | exception j => cases hs
  | eret j j' => cases hs
  | create enabled => cases hs
  | transmit => cases hs
  | setUseMutex => cases hs

/-- The context with the lock does not wait for it. -/
theorem Placed.goes_of_held (h : Placed s) (hheld : 0 < (s.contexts i).held) :
    (s.contexts i).doing.blocks = false := by
  obtain hnone | hlocked := Nat.eq_zero_or_pos (s.contexts i).lockedStreams
  · rw [Context.held, hnone, Nat.zero_add] at hheld
    cases hdoing : (s.contexts i).doing with
    | clearing wasEnabled => rfl
    | _ =>
        rw [hdoing] at hheld
        cases hheld
  · exact h.goes i hlocked

/-- A context that goes on stays where it is. -/
theorem Placed.goOn (h : Placed s) (hgoes : GoesOn s s' i) {core : Nat}
    (hplace : (s.contexts i).place = .running core) : Placed s' := by
  obtain ⟨x, hcontexts, hx, hblocks⟩ := hgoes
  have hself : s'.contexts i = x := by rw [hcontexts, Function.update_self]
  have hother (j : Nat) (hj : j ≠ i) : s'.contexts j = s.contexts j := by
    rw [hcontexts, Function.update_of_ne hj]
  have hsame (j : Nat) : (s'.contexts j).place = (s.contexts j).place := by
    by_cases hj : j = i
    · rw [hj, hself, hx]
    · rw [hother j hj]
  constructor
  case alone =>
    intro j k core hj hk
    exact h.alone j k core ((hsame j).symm.trans hj) ((hsame k).symm.trans hk)
  case runs =>
    intro j hj
    rw [hsame j]
    by_cases hij : j = i
    · exact ⟨core, hij ▸ hplace⟩
    · exact h.runs j (hother j hij ▸ hj)
  case goes =>
    intro j hj
    by_cases hij : j = i
    · subst hij
      rw [hself] at hj ⊢
      refine Bool.eq_false_iff.mpr fun hcon => ?_
      obtain ⟨hpos, hwas⟩ := hblocks hj hcon
      rw [h.goes j hpos] at hwas
      cases hwas
    · rw [hother j hij] at hj ⊢
      exact h.goes j hj

/-- A core leaves a context without the lock for another one. -/
theorem Placed.switch (h : Placed s) {core j : Nat} {place : Place} {y : Context}
    (hi : (s.contexts i).place = .running core) (hheld : (s.contexts i).held = 0)
    (hplace : ∀ core, place ≠ .running core)
    (hy : y.place = .running core) (hgoes : 0 < y.lockedStreams → y.doing.blocks = false)
    (hcontexts : s'.contexts =
      Function.update (Function.update s.contexts i { s.contexts i with place := place }) j y) :
    Placed s' := by
  have hj : s'.contexts j = y := by rw [hcontexts, Function.update_self]
  have hleft (hne : i ≠ j) : s'.contexts i = { s.contexts i with place := place } := by
    rw [hcontexts, Function.update_of_ne hne, Function.update_self]
  have hother (k : Nat) (hki : k ≠ i) (hkj : k ≠ j) : s'.contexts k = s.contexts k := by
    rw [hcontexts, Function.update_of_ne hkj, Function.update_of_ne hki]
  have hrunning (k core' : Nat) (hk : (s'.contexts k).place = .running core') :
      k = j ∧ core' = core ∨ k ≠ i ∧ k ≠ j ∧ (s.contexts k).place = .running core' := by
    by_cases hkj : k = j
    · rw [hkj, hj, hy] at hk
      exact .inl ⟨hkj, (Place.running.inj hk).symm⟩
    · by_cases hki : k = i
      · rw [hki, hleft fun heq => hkj (hki.trans heq)] at hk
        exact absurd hk (hplace core')
      · exact .inr ⟨hki, hkj, by rwa [hother k hki hkj] at hk⟩
  constructor
  case alone =>
    intro k l core' hk hl
    obtain ⟨rfl, rfl⟩ | ⟨hki, hkj, hk⟩ := hrunning k core' hk
    · obtain ⟨rfl, -⟩ | ⟨hli, -, hl⟩ := hrunning l core' hl
      · rfl
      · exact absurd (h.alone l i core' hl hi) hli
    · obtain ⟨rfl, rfl⟩ | ⟨-, -, hl⟩ := hrunning l core' hl
      · exact absurd (h.alone k i core' hk hi) hki
      · exact h.alone k l core' hk hl
  case runs =>
    intro k hk
    by_cases hkj : k = j
    · exact ⟨core, by rw [hkj, hj, hy]⟩
    · by_cases hki : k = i
      · rw [hki, hleft fun heq => hkj (hki.trans heq)] at hk
        exact absurd hheld (Nat.ne_of_gt hk)
      · rw [hother k hki hkj] at hk ⊢
        exact h.runs k hk
  case goes =>
    intro k hk
    by_cases hkj : k = j
    · rw [hkj, hj] at hk ⊢
      exact hgoes hk
    · by_cases hki : k = i
      · rw [hki, hleft fun heq => hkj (hki.trans heq)] at hk ⊢
        exact h.goes i hk
      · rw [hother k hki hkj] at hk ⊢
        exact h.goes k hk

/-- The contexts are where they were. -/
theorem Placed.of_contexts_eq (h : Placed s) (hcontexts : s'.contexts = s.contexts) :
    Placed s' := by
  constructor
  case alone => exact hcontexts ▸ h.alone
  case runs => exact hcontexts ▸ h.runs
  case goes => exact hcontexts ▸ h.goes

/-- A new context waits to be resumed. -/
theorem Placed.create (h : Placed s) (enabled : Bool) :
    Placed { s.set s.created (.begin .suspended enabled) with created := s.created + 1 } := by
  have hself : (s.set s.created (.begin .suspended enabled)).contexts s.created =
      .begin .suspended enabled := set_contexts_self
  have hcases (k : Nat) : k = s.created ∨
      (s.set s.created (.begin .suspended enabled)).contexts k = s.contexts k :=
    (eq_or_ne k s.created).imp_right set_contexts_of_ne
  have hrunning (k core : Nat)
      (hk : ((s.set s.created (.begin .suspended enabled)).contexts k).place = .running core) :
      (s.contexts k).place = .running core := by
    obtain rfl | heq := hcases k
    · rw [hself] at hk
      cases hk
    · rwa [heq] at hk
  constructor
  case alone => exact fun k l core hk hl => h.alone k l core (hrunning k core hk) (hrunning l core hl)
  case runs =>
    intro k hk
    obtain rfl | heq := hcases k
    · change 0 < ((s.set s.created _).contexts s.created).held at hk
      rw [hself] at hk
      cases hk
    · change 0 < ((s.set s.created _).contexts k).held at hk
      change ∃ core, ((s.set s.created _).contexts k).place = _
      rw [heq] at hk ⊢
      exact h.runs k hk
  case goes =>
    intro k hk
    obtain rfl | heq := hcases k
    · change 0 < ((s.set s.created _).contexts s.created).lockedStreams at hk
      rw [hself] at hk
      cases hk
    · change 0 < ((s.set s.created _).contexts k).lockedStreams at hk
      change ((s.set s.created _).contexts k).doing.blocks = _
      rw [heq] at hk ⊢
      exact h.goes k hk

/-- Every careful step leaves the context with the lock on its core. -/
theorem Placed.next (h : Placed s) (howned : Owned depth s owner) {a : Action}
    (ha : Careful s a) (hs : (streams cores depth).next s a = some s') : Placed s' := by
  have hclient {i : Nat} (hactor : a.client = some i) (hs : act s i a = some s') : Placed s' := by
    rw [act] at hs
    split at hs
    · next hplace hdoing => exact h.goOn (goesOn_perform hdoing hactor ha hs) hplace
    · cases hs
  have henter {i core : Nat} (hplace : (s.contexts i).place = .running core)
      (hheld : (s.contexts i).held = 0) :
      Placed ((s.set i { s.contexts i with place := .suspended }).enter core) :=
    h.switch hplace hheld (fun _ heq => by cases heq) rfl
      (fun hpos => by cases hpos) rfl
  cases a with
  | construct i tryOnly => exact hclient rfl hs
  | print i k call => exact hclient rfl hs
  | raw i call => exact hclient rfl hs
  | unlock i k => exact hclient rfl hs
  | destroy i => exact hclient rfl hs
  | setInterrupts i enabled => exact hclient rfl hs
  | go i =>
      simp only [streams] at hs
      split at hs
      · next hplace => exact h.goOn (goesOn_go hs) hplace
      · cases hs
  | interrupt i =>
      simp only [streams] at hs
      split at hs
      · next hplace =>
        split at hs
        · next henabled =>
          exact Option.some.inj hs ▸ henter hplace ((howned.sound i).not_held henabled)
        · cases hs
      · cases hs
  | exception i =>
      simp only [streams] at hs
      split at hs
      · next hplace => exact Option.some.inj hs ▸ henter hplace ha
      · cases hs
  | eret i j =>
      simp only [streams] at hs
      split at hs
      · next core hi hj =>
        split at hs
        · next hdone =>
          rw [Option.some.injEq] at hs
          subst hs
          have hended : ∀ core', Place.ended ≠ .running core' := fun _ heq => by cases heq
          refine h.switch (y := { s.contexts j with place := .running core }) hi ?_ hended rfl
            (h.goes j) rfl
          rw [Context.held, Context.lockedStreams, hdone.1, hdone.2]
          rfl
        · cases hs
      · cases hs
  | create enabled => exact Option.some.inj hs ▸ h.create enabled
  | transmit =>
      simp only [streams] at hs
      split at hs
      · cases hs
      · exact Option.some.inj hs ▸ h.of_contexts_eq rfl
  | setUseMutex => exact Option.some.inj hs ▸ h.of_contexts_eq rfl

theorem placed_initial (h : (streams cores depth).Initial s) : Placed s := by
  obtain ⟨-, -, -, -, -, -, hcores, hblank⟩ := h
  have hbegin (i : Nat) : ∃ place enabled, s.contexts i = .begin place enabled ∧
      ∀ core, place = .running core → core = i := by
    obtain hlt | hle := Nat.lt_or_ge i cores
    · obtain ⟨enabled, hi⟩ := hcores i hlt
      exact ⟨.running i, enabled, hi, fun core heq => (Place.running.inj heq).symm⟩
    · exact ⟨.absent, false, hblank i hle, fun core heq => by cases heq⟩
  constructor
  case alone =>
    intro i j core hi hj
    obtain ⟨place, enabled, hbi, hpi⟩ := hbegin i
    obtain ⟨place', enabled', hbj, hpj⟩ := hbegin j
    rw [hbi] at hi
    rw [hbj] at hj
    exact (hpi core hi).symm.trans (hpj core hj)
  case runs =>
    intro i hi
    obtain ⟨place, enabled, hbi, -⟩ := hbegin i
    rw [hbi] at hi
    cases hi
  case goes =>
    intro i hi
    obtain ⟨place, enabled, hbi, -⟩ := hbegin i
    rw [hbi] at hi
    cases hi

theorem exists_owned_placed (h : (streams cores depth).ReachableBy Careful s) :
    ∃ owner, Owned depth s owner ∧ Placed s := by
  induction h with
  | initial h => exact ⟨none, owned_initial h, placed_initial h⟩
  | next a _ ha hs ih =>
      obtain ⟨owner, howned, hplaced⟩ := ih
      obtain ⟨owner', howned'⟩ := howned.next ha.orderly hs
      exact ⟨owner', howned', hplaced.next howned ha hs⟩

/-- How many steps the functions of a stream are from their end, if none waits for the lock. -/
def Doing.rank : Doing → Nat
  | client => 0
  | clearing _ => 0
  | restoring _ => 1
  | givingUp _ => 1
  | waiting _ => 2
  | testAndSet _ _ => 3
  | masking _ _ => 4
  | disabling _ => 5
  | writing _ text => 2 * text.length + 1
  | polling _ text => 2 * text.length + 2

theorem Doing.rank_send (text : List UInt8) : (Doing.send text).rank ≤ 2 * text.length := by
  cases text with
  | nil => exact Nat.le_refl 0
  | cons c text => exact (Nat.mul_succ 2 text.length).ge

/-- What contexts and the serial line do on their way to a free lock. -/
def Progress : Action → Prop
  | .go _ => True
  | .unlock _ _ => True
  | .transmit => True
  | _ => False

theorem careful_of_progress (s : State) (a : Action) (ha : Progress a) : Careful s a := by
  cases a with
  | go i => trivial
  | unlock i k => trivial
  | transmit => trivial
  | _ => exact ha.elim

theorem next_go {core : Nat} (hplace : (s.contexts i).place = .running core) :
    (streams cores depth).next s (.go i) = go depth s i := by
  simp only [streams, hplace]

variable (cores)

/-- The serial line has room, when it has transmitted enough. -/
theorem exists_room (hdepth : 0 < depth) :
    ∃ s₁, (streams cores depth).LeadsTo Progress s s₁ ∧ s₁.queue.length < depth ∧
      s₁.contexts = s.contexts ∧ s₁.flag = s.flag := by
  generalize hqueue : s.queue = queue
  induction queue generalizing s with
  | nil => exact ⟨s, .refl, hqueue ▸ hdepth, rfl, rfl⟩
  | cons c queue ih =>
      obtain ⟨s₁, hleads, hroom, hcontexts, hflag⟩ :=
        ih (s := { s with queue := queue, wire := s.wire ++ [c] }) rfl
      refine ⟨s₁, .head (a := .transmit) trivial ?_ hleads, hroom, hcontexts, hflag⟩
      simp only [streams, hqueue]

/-- What a step of the functions of a stream gets on with. -/
theorem step_of_go {s₁ : State} {core : Nat} (hplace : (s.contexts i).place = .running core)
    (hs : go depth s i = some s₁) (hflag : s₁.flag = true)
    (hrank : (s₁.contexts i).doing.rank < (s.contexts i).doing.rank) :
    ∃ s₁, (streams cores depth).LeadsTo Progress s s₁ ∧ s₁.flag = true ∧
      (∀ j, j ≠ i → s₁.contexts j = s.contexts j) ∧ (s₁.contexts i).place = .running core ∧
      (s₁.contexts i).doing.rank < (s.contexts i).doing.rank := by
  obtain ⟨x, hcontexts, hx, -⟩ := goesOn_go hs
  refine ⟨s₁, .single (a := .go i) trivial ((next_go hplace).trans hs), hflag, fun j hj => ?_, ?_,
    hrank⟩
  · rw [hcontexts, Function.update_of_ne hj]
  · rw [hcontexts, Function.update_self, hx, hplace]

/-- The context with the lock gets on with what it is doing. -/
theorem exists_step (hdepth : 0 < depth) {core : Nat}
    (hplace : (s.contexts i).place = .running core) (hflag : s.flag = true)
    (hblocks : (s.contexts i).doing.blocks = false) (hrank : (s.contexts i).doing.rank ≠ 0) :
    ∃ s₁, (streams cores depth).LeadsTo Progress s s₁ ∧ s₁.flag = true ∧
      (∀ j, j ≠ i → s₁.contexts j = s.contexts j) ∧ (s₁.contexts i).place = .running core ∧
      (s₁.contexts i).doing.rank < (s.contexts i).doing.rank := by
  cases hdoing : (s.contexts i).doing with
  | client => exact absurd (by rw [hdoing]; rfl) hrank
  | clearing wasEnabled => exact absurd (by rw [hdoing]; rfl) hrank
  | waiting wasEnabled =>
      rw [hdoing] at hblocks
      cases hblocks
  | disabling tryOnly =>
      rw [← hdoing]
      refine step_of_go cores hplace (go_disabling hdoing) hflag ?_
      rw [set_contexts_self, hdoing]
      exact Nat.lt_succ_self 4
  | masking tryOnly wasEnabled =>
      rw [← hdoing]
      refine step_of_go cores hplace (go_masking hdoing) hflag ?_
      rw [set_contexts_self, hdoing]
      exact Nat.lt_succ_self 3
  | testAndSet tryOnly wasEnabled =>
      rw [← hdoing]
      refine step_of_go cores hplace (go_testAndSet_taken hdoing hflag) hflag ?_
      rw [set_contexts_self, hdoing]
      rw [hdoing] at hblocks
      cases tryOnly with
      | true => exact (by decide : 1 < 3)
      | false => cases hblocks
  | givingUp wasEnabled =>
      rw [← hdoing]
      refine step_of_go cores hplace (go_givingUp hdoing) hflag ?_
      rw [set_contexts_self, hdoing]
      exact Nat.lt_succ_self 0
  | restoring wasEnabled =>
      rw [← hdoing]
      refine step_of_go cores hplace (go_restoring hdoing) hflag ?_
      rw [set_contexts_self, hdoing]
      exact Nat.lt_succ_self 0
  | polling c text =>
      rw [← hdoing]
      obtain ⟨s₁, hleads, hroom, hcontexts, hflag₁⟩ := exists_room cores hdepth
      have hdoing₁ : (s₁.contexts i).doing = .polling c text := by rw [hcontexts, hdoing]
      have hplace₁ : (s₁.contexts i).place = .running core := by rw [hcontexts, hplace]
      have hgo : go depth s₁ i = _ := go_polling hdoing₁
      obtain ⟨s₂, hleads₂, hflag₂, hother, hplace₂, hrank₂⟩ :=
        step_of_go cores hplace₁ hgo
          (hflag₁.trans hflag) (by
            rw [set_contexts_self, if_pos hroom, hdoing₁]
            exact Nat.lt_succ_self _)
      rw [hcontexts] at hother hrank₂
      exact ⟨s₂, hleads.trans hleads₂, hflag₂, hother, hplace₂, hrank₂⟩
  | writing c text =>
      rw [← hdoing]
      refine step_of_go cores hplace (go_writing hdoing) hflag ?_
      rw [set_contexts_self, hdoing]
      exact Nat.lt_succ_of_le (Doing.rank_send text)

/-- The one context that can have the lock, while the others are as they were. -/
theorem held_of_others {s₁ : State} (h : (streams cores depth).ReachableBy Careful s)
    (h₁ : (streams cores depth).ReachableBy Careful s₁) (hheld : 0 < (s.contexts i).held)
    (hflag : s₁.flag = true) (hother : ∀ j, j ≠ i → s₁.contexts j = s.contexts j) :
    0 < (s₁.contexts i).held := by
  obtain ⟨owner, howned, -⟩ := exists_owned_placed h
  obtain ⟨owner₁, howned₁, -⟩ := exists_owned_placed h₁
  have hone : ∃ j, owner₁ = some j := by
    rw [← Option.isSome_iff_exists, ← howned₁.flag, hflag]
  obtain ⟨j, rfl⟩ := hone
  have hj : (s₁.contexts j).held = 1 := by rw [howned₁.held j, if_pos rfl]
  by_cases hij : j = i
  · rw [← hij, hj]
    exact Nat.one_pos
  · -- another context would have had the lock already
    rw [hother j hij] at hj
    have hsame := howned.owner_of_held (i := j) (hj ▸ Nat.one_pos)
    exact absurd (Option.some.inj (hsame.symm.trans (howned.owner_of_held hheld))) hij

/-- The context with the lock comes to the end of what it is doing, or gives the lock back. -/
theorem exists_finish (hdepth : 0 < depth) {core : Nat}
    (h : (streams cores depth).ReachableBy Careful s)
    (hplace : (s.contexts i).place = .running core) (hflag : s.flag = true)
    (hheld : 0 < (s.contexts i).held) :
    ∃ s₁, (streams cores depth).LeadsTo Progress s s₁ ∧ s₁.flag = true ∧
      (∀ j, j ≠ i → s₁.contexts j = s.contexts j) ∧ (s₁.contexts i).place = .running core ∧
      (s₁.contexts i).doing.rank = 0 := by
  generalize hn : (s.contexts i).doing.rank = n
  induction n using Nat.strongRecOn generalizing s with
  | ind n ih =>
      obtain rfl | hpos := Nat.eq_zero_or_pos n
      · exact ⟨s, .refl, hflag, fun _ _ => rfl, hplace, hn⟩
      · have hblocks : (s.contexts i).doing.blocks = false := by
          obtain ⟨owner, -, hplaced⟩ := exists_owned_placed h
          exact hplaced.goes_of_held hheld
        obtain ⟨s₁, hleads, hflag₁, hother, hplace₁, hrank⟩ :=
          exists_step cores hdepth hplace hflag hblocks (by omega)
        have h₁ := hleads.reachableBy careful_of_progress h
        obtain ⟨s₂, hleads₂, hflag₂, hother₂, hplace₂, hrank₂⟩ :=
          ih _ (hn ▸ hrank) h₁ hplace₁ hflag₁ (held_of_others cores h h₁ hheld hflag₁ hother) rfl
        exact ⟨s₂, hleads.trans hleads₂, hflag₂,
          fun j hj => (hother₂ j hj).trans (hother j hj), hplace₂, hrank₂⟩

/-- The last step of `Mutex.unlock()`. -/
theorem exists_clear {core : Nat} (hplace : (s.contexts i).place = .running core)
    {wasEnabled : Bool} (hdoing : (s.contexts i).doing = .clearing wasEnabled) :
    ∃ s₁, (streams cores depth).LeadsTo Progress s s₁ ∧ s₁.flag = false ∧
      ∀ j, j ≠ i → s₁.contexts j = s.contexts j :=
  ⟨_, .single (a := .go i) trivial ((next_go hplace).trans (go_clearing hdoing)), rfl,
    fun _ hj => set_contexts_of_ne hj⟩

/-- The context with the lock can give it back when it has come to an end with what it was doing. -/
theorem exists_unlock {core : Nat} (howned : Owned depth s owner)
    (hplace : (s.contexts i).place = .running core) (hclient : (s.contexts i).doing = .client)
    (hheld : 0 < (s.contexts i).held) :
    ∃ s₁ wasEnabled, (streams cores depth).LeadsTo Progress s s₁ ∧
      (∀ j, j ≠ i → s₁.contexts j = s.contexts j) ∧ (s₁.contexts i).place = .running core ∧
      (s₁.contexts i).doing = .clearing wasEnabled := by
  have hlocked : 0 < (s.contexts i).lockedStreams := by
    rw [Context.held, hclient] at hheld
    exact hheld
  obtain ⟨stream, hmem, htrue⟩ := List.countP_pos_iff.mp hlocked
  obtain ⟨k, hk⟩ := List.mem_iff_getElem?.mp hmem
  have hmutex : s.useMutex = true := (howned.sound i).mutex (.inl hheld)
  have hrelease : release s.useMutex stream = .clearing stream.wasEnabled := by
    rw [release, htrue, hmutex]
    rfl
  have hnext : (streams cores depth).next s (.unlock i k) = some (s.set i
      { s.contexts i with
        streams := (s.contexts i).streams.set k { stream with locked := false }
        doing := .clearing stream.wasEnabled }) := by
    change act s i (.unlock i k) = _
    simp only [act, hplace, hclient, perform, hk, hrelease, Option.bind_eq_bind, Option.bind_some]
  refine ⟨_, stream.wasEnabled, .single (a := .unlock i k) trivial hnext,
    fun j hj => set_contexts_of_ne hj, ?_, ?_⟩
  · rw [set_contexts_self]
    exact hplace
  · rw [set_contexts_self]

/-- The lock becomes free, if the context that has it gives it back. -/
theorem exists_free (hdepth : 0 < depth) (h : (streams cores depth).ReachableBy Careful s)
    (hheld : 0 < (s.contexts i).held) :
    ∃ s₁, (streams cores depth).LeadsTo Progress s s₁ ∧ s₁.flag = false ∧
      ∀ j, j ≠ i → s₁.contexts j = s.contexts j := by
  obtain ⟨owner, howned, hplaced⟩ := exists_owned_placed h
  obtain ⟨core, hplace⟩ := hplaced.runs i hheld
  have hflag : s.flag = true := by
    rw [howned.flag, howned.owner_of_held hheld]
    rfl
  obtain ⟨s₁, hleads, hflag₁, hother, hplace₁, hrank⟩ :=
    exists_finish cores hdepth h hplace hflag hheld
  have h₁ := hleads.reachableBy careful_of_progress h
  have hheld₁ := held_of_others cores h h₁ hheld hflag₁ hother
  obtain ⟨owner₁, howned₁, -⟩ := exists_owned_placed h₁
  cases hdoing : (s₁.contexts i).doing with
  | client =>
      obtain ⟨s₂, wasEnabled, hleads₂, hother₂, hplace₂, hdoing₂⟩ :=
        exists_unlock cores howned₁ hplace₁ hdoing hheld₁
      obtain ⟨s₃, hleads₃, hflag₃, hother₃⟩ := exists_clear cores hplace₂ hdoing₂
      exact ⟨s₃, (hleads.trans hleads₂).trans hleads₃, hflag₃, fun j hj =>
        ((hother₃ j hj).trans (hother₂ j hj)).trans (hother j hj)⟩
  | clearing wasEnabled =>
      obtain ⟨s₂, hleads₂, hflag₂, hother₂⟩ := exists_clear cores hplace₁ hdoing
      exact ⟨s₂, hleads.trans hleads₂, hflag₂, fun j hj => (hother₂ j hj).trans (hother j hj)⟩
  | _ =>
      rw [hdoing] at hrank
      cases hrank

/-- A context that waits takes a free lock. -/
theorem exists_acquire {core : Nat} {wasEnabled : Bool}
    (hplace : (s.contexts i).place = .running core) (hfree : s.flag = false)
    (hdoing : (s.contexts i).doing = .waiting wasEnabled ∨
      (s.contexts i).doing = .testAndSet false wasEnabled) :
    ∃ s₁, (streams cores depth).LeadsTo Progress s s₁ ∧ 0 < (s₁.contexts i).lockedStreams := by
  have htake {s : State} (hplace : (s.contexts i).place = .running core) (hfree : s.flag = false)
      (hdoing : (s.contexts i).doing = .testAndSet false wasEnabled) :
      ∃ s₁, (streams cores depth).LeadsTo Progress s s₁ ∧ 0 < (s₁.contexts i).lockedStreams := by
    refine ⟨_, .single (a := .go i) trivial
      ((next_go hplace).trans (go_testAndSet_free hdoing hfree)), ?_⟩
    rw [set_contexts_self]
    exact lockedStreams_pos List.mem_cons_self rfl
  obtain hdoing | hdoing := hdoing
  · have hnext : (streams cores depth).next s (.go i) = some (s.set i
        { s.contexts i with doing := .testAndSet false wasEnabled }) := by
      rw [next_go hplace, go_waiting hdoing, hfree]
      rfl
    obtain ⟨s₁, hleads, hlocked⟩ := htake (s := s.set i
      { s.contexts i with doing := .testAndSet false wasEnabled })
      (by rw [set_contexts_self]; exact hplace) hfree (by rw [set_contexts_self])
    exact ⟨s₁, .head (a := .go i) trivial hnext hleads, hlocked⟩
  · exact htake hplace hfree hdoing

end Steps

section Main

variable {cores depth : Nat} {s : State} {i core : Nat} {wasEnabled : Bool}

/-- A context that waits for the lock waits for one on another core, which nothing interrupts, and
gets the lock after steps that this one, the serial line and itself can take. -/
structure GetsLock (cores depth : Nat) (s : State) (i core : Nat) : Prop where
  elsewhere : ∀ j, 0 < (s.contexts j).held →
    (∃ core', core' ≠ core ∧ (s.contexts j).place = .running core') ∧
      (s.contexts j).doing.blocks = false ∧ (streams cores depth).next s (.interrupt j) = none
  gets : ∃ s', (streams cores depth).LeadsTo Progress s s' ∧ 0 < (s'.contexts i).lockedStreams

/-- The second core waits for the first one. -/
def waitingRun : List Action :=
  [.setUseMutex, .construct 0 false, .construct 1 false, .go 0, .go 0, .go 0, .go 1, .go 1, .go 1]

end Main

end RPiKernel.Uart
