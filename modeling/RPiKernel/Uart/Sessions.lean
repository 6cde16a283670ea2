import RPiKernel.Uart.LockedStream

/-!
# What comes out of the serial line

The mutex has an owner, the one context with a locked stream. The owner alone prints, so that the
characters on the serial line are those of the sessions, one session behind the other, and none is
lost.
-/

namespace RPiKernel.Uart

open Machine Transition

/-- The streams of a context that have the lock. -/
def Context.lockedStreams (x : Context) : Nat := x.streams.countP (·.locked)

namespace Doing

/-- A lock that is given back, but not yet free. -/
def holds : Doing → Nat
  | clearing _ => 1
  | _ => 0

/-- What is still to be written. -/
def unsent : Doing → List UInt8
  | polling c text => c :: text
  | writing c text => c :: text
  | _ => []

/-- The interrupt mask that is to be restored. -/
def saved : Doing → Option Bool
  | masking _ wasEnabled => some wasEnabled
  | testAndSet _ wasEnabled => some wasEnabled
  | waiting wasEnabled => some wasEnabled
  | givingUp wasEnabled => some wasEnabled
  | clearing wasEnabled => some wasEnabled
  | restoring wasEnabled => some wasEnabled
  | _ => none

/-- Between `DisableInterrupts` and `RestoreInterrupts`. -/
def masked : Doing → Bool
  | testAndSet _ _ => true
  | waiting _ => true
  | givingUp _ => true
  | clearing _ => true
  | restoring _ => true
  | _ => false

/-- In a constructor that takes the mutex. -/
def constructs : Doing → Bool
  | disabling _ => true
  | masking _ _ => true
  | testAndSet _ _ => true
  | waiting _ => true
  | givingUp _ => true
  | _ => false

@[simp] theorem unsent_send (text : List UInt8) : (send text).unsent = text := by
  cases text <;> rfl

@[simp] theorem holds_send (text : List UInt8) : (send text).holds = 0 := by
  cases text <;> rfl

@[simp] theorem saved_send (text : List UInt8) : (send text).saved = none := by
  cases text <;> rfl

@[simp] theorem masked_send (text : List UInt8) : (send text).masked = false := by
  cases text <;> rfl

theorem send_ne_writing (text : List UInt8) (c : UInt8) (more : List UInt8) :
    send text ≠ writing c more := by
  cases text <;> exact fun h => by cases h

end Doing

/-- How often a context has the lock. -/
def Context.held (x : Context) : Nat := x.lockedStreams + x.doing.holds

/-- A context prints with the lock only, and its interrupts are masked as it has made them, or while
one of its streams has masked them. -/
structure Sound (depth : Nat) (s : State) (x : Context) : Prop where
  unsent : x.doing.unsent ≠ [] → 0 < x.lockedStreams
  room : ∀ c text, x.doing = .writing c text → s.queue.length < depth
  mask : x.irqEnabled = (x.enabled && !(x.doing.masked || decide (0 < x.lockedStreams)))
  saved : ∀ wasEnabled, x.doing.saved = some wasEnabled →
    wasEnabled = (x.enabled && decide (x.lockedStreams = 0))
  mutex : 0 < x.held ∨ x.doing.constructs = true → s.useMutex = true
  stream : ∀ stream ∈ x.streams, stream.locked = true →
    stream.wasEnabled = x.enabled ∧ stream.ticket + 1 = s.sessions.length

/-- The state of the streams while the mutex has an owner, or none. -/
structure Owned (depth : Nat) (s : State) (owner : Option Nat) : Prop where
  flag : s.flag = owner.isSome
  held : ∀ i, (s.contexts i).held = if owner = some i then 1 else 0
  sound : ∀ i, Sound depth s (s.contexts i)
  output : s.wire ++ s.queue ++ owner.elim [] (fun i => (s.contexts i).doing.unsent) =
    s.sessions.flatten
  blank : ∀ i, s.created ≤ i → s.contexts i = {}

section Contexts

variable {s : State} {i j : Nat} {x : Context}

@[simp] theorem set_contexts_self : (s.set i x).contexts i = x := Function.update_self ..

theorem set_contexts_of_ne (h : j ≠ i) : (s.set i x).contexts j = s.contexts j :=
  Function.update_of_ne h ..

/-- What holds of a context that is set, and of the others, holds of all. -/
theorem forall_set_contexts {P : Nat → Context → Prop} (hi : P i x)
    (hother : ∀ j, j ≠ i → P j (s.contexts j)) (j : Nat) : P j ((s.set i x).contexts j) := by
  by_cases hj : j = i
  · subst hj
    rwa [set_contexts_self]
  · rw [set_contexts_of_ne hj]
    exact hother j hj

theorem lockedStreams_pos {stream : LockedStream} (h : stream ∈ x.streams)
    (hlocked : stream.locked = true) : 0 < x.lockedStreams :=
  List.countP_pos_iff.mpr ⟨stream, h, hlocked⟩

/-- A context stays sound while the state changes around it. -/
theorem Sound.change {depth : Nat} {s' : State} (h : Sound depth s x)
    (hroom : ∀ c text, x.doing = .writing c text → s'.queue.length < depth)
    (hmutex : s.useMutex = true → s'.useMutex = true)
    (hsessions : 0 < x.lockedStreams → s'.sessions.length = s.sessions.length) :
    Sound depth s' x where
  unsent := h.unsent
  room := hroom
  mask := h.mask
  saved := h.saved
  mutex hcase := hmutex (h.mutex hcase)
  stream stream hmem hlocked := by
    rw [hsessions (lockedStreams_pos hmem hlocked)]
    exact h.stream stream hmem hlocked

/-- A context with the lock prints. -/
theorem Sound.send {depth : Nat} (h : Sound depth s x) (hmasked : x.doing.masked = false)
    (hpos : 0 < x.lockedStreams) (text : List UInt8) :
    Sound depth s { x with doing := .send text } where
  unsent _ := hpos
  room c more hw := absurd hw (Doing.send_ne_writing _ _ _)
  mask := by
    have hmask := h.mask
    rw [hmasked] at hmask
    rw [Doing.masked_send]
    exact hmask
  saved w hw := by simp at hw
  mutex _ := h.mutex (.inl (Nat.lt_of_lt_of_le hpos (Nat.le_add_right _ _)))
  stream := h.stream

theorem Sound.masked {depth : Nat} (h : Sound depth s x) (hmasked : x.doing.masked = true) :
    x.irqEnabled = false := by
  rw [h.mask, hmasked, Bool.true_or, Bool.not_true, Bool.and_false]

theorem Sound.unmasked {depth : Nat} (h : Sound depth s x) (hmasked : x.doing.masked = false) :
    x.irqEnabled = (x.enabled && decide (x.lockedStreams = 0)) := by
  rw [h.mask, hmasked, Bool.false_or]
  cases x.lockedStreams <;> rfl

/-- A context that has the lock is not interrupted. -/
theorem Sound.not_held {depth : Nat} (h : Sound depth s x) (henabled : x.irqEnabled = true) :
    x.held = 0 := by
  have hmask := h.mask
  rw [henabled, eq_comm, Bool.and_eq_true, Bool.not_eq_true', Bool.or_eq_false_iff,
    decide_eq_false_iff_not, Nat.not_lt, Nat.le_zero] at hmask
  obtain ⟨-, hmasked, hlocked⟩ := hmask
  rw [Context.held, hlocked, Nat.zero_add]
  cases hdoing : x.doing with
  | clearing wasEnabled =>
      rw [hdoing] at hmasked
      cases hmasked
  | _ => rfl

end Contexts

section Steps

variable {depth : Nat} {s s' : State} {owner : Option Nat} {i : Nat} {x : Context}

theorem Owned.lt_created (h : Owned depth s owner) (hplace : (s.contexts i).place ≠ .absent) :
    i < s.created := by
  by_contra hle
  exact hplace (congrArg Context.place (h.blank i (Nat.le_of_not_lt hle)))

theorem Owned.held_le (h : Owned depth s owner) (i : Nat) : (s.contexts i).held ≤ 1 := by
  rw [h.held i]
  split <;> decide

/-- A context that prints is the owner. -/
theorem Owned.owner_of_held (h : Owned depth s owner) (hheld : 0 < (s.contexts i).held) :
    owner = some i := by
  by_contra hne
  rw [h.held i, if_neg hne] at hheld
  exact absurd hheld (Nat.lt_irrefl 0)

theorem Owned.unlocked_of_ne (h : Owned depth s owner) (hne : owner ≠ some i) :
    (s.contexts i).lockedStreams = 0 := by
  have hheld := h.held i
  rw [if_neg hne, Context.held] at hheld
  omega

theorem Owned.blank_set (h : Owned depth s owner) (hi : i < s.created) (x : Context) {j : Nat}
    (hj : s.created ≤ j) : (s.set i x).contexts j = {} := by
  rw [set_contexts_of_ne (Nat.ne_of_gt (Nat.lt_of_lt_of_le hi hj))]
  exact h.blank j hj

/-- A step of a context that neither takes nor gives back the lock, nor prints. -/
theorem Owned.set (h : Owned depth s owner) (hi : i < s.created)
    (hheld : x.held = (s.contexts i).held) (hsound : Sound depth s x)
    (hunsent : x.doing.unsent = (s.contexts i).doing.unsent) :
    Owned depth (s.set i x) owner := by
  constructor
  case flag => exact h.flag
  case held =>
    exact forall_set_contexts (P := fun i x => x.held = if owner = some i then 1 else 0)
      (hheld.trans (h.held i)) fun j _ => h.held j
  case sound =>
    exact forall_set_contexts (P := fun _ y => Sound depth (s.set i x) y)
      (hsound.change hsound.room id fun _ => rfl)
      fun j _ => (h.sound j).change (h.sound j).room id fun _ => rfl
  case output =>
    refine Eq.trans ?_ h.output
    congr 1
    cases owner with
    | none => rfl
    | some j =>
        exact forall_set_contexts (P := fun j x => x.doing.unsent = (s.contexts j).doing.unsent)
          hunsent (fun j _ => rfl) j
  case blank => exact fun j hj => h.blank_set hi _ hj

/-- A step that changes what a context is doing, and its interrupt mask. -/
theorem Owned.setDoing (h : Owned depth s owner) (hi : i < s.created) {doing : Doing}
    {irqEnabled : Bool} (hholds : doing.holds = (s.contexts i).doing.holds)
    (hmask : irqEnabled = if doing.masked then false
      else ((s.contexts i).enabled && decide ((s.contexts i).lockedStreams = 0)))
    (hsaved : ∀ wasEnabled, doing.saved = some wasEnabled →
      wasEnabled = ((s.contexts i).enabled && decide ((s.contexts i).lockedStreams = 0)))
    (hconstructs : doing.constructs = true → s.useMutex = true)
    (hunsent : doing.unsent = (s.contexts i).doing.unsent)
    (hroom : ∀ c text, doing = .writing c text → s.queue.length < depth) :
    Owned depth (s.set i { s.contexts i with irqEnabled := irqEnabled, doing := doing }) owner := by
  have hsound := h.sound i
  have hheld : Context.held { s.contexts i with irqEnabled := irqEnabled, doing := doing } =
      (s.contexts i).held := congrArg ((s.contexts i).lockedStreams + ·) hholds
  refine h.set hi hheld ?_ hunsent
  exact {
    unsent := fun hne => hsound.unsent (hunsent ▸ hne)
    room := hroom
    mask := by
      change irqEnabled = ((s.contexts i).enabled &&
        !(doing.masked || decide (0 < (s.contexts i).lockedStreams)))
      rw [hmask]
      cases doing.masked <;> cases (s.contexts i).lockedStreams <;> simp
    saved := hsaved
    mutex := fun hcase => hcase.elim (fun hpos => hsound.mutex (.inl (hheld ▸ hpos))) hconstructs
    stream := hsound.stream }

/-- The lock is free, and a context takes it. -/
theorem Owned.acquire (h : Owned depth s owner) (hi : i < s.created) (hfree : s.flag = false)
    {tryOnly wasEnabled : Bool} (hdoing : (s.contexts i).doing = .testAndSet tryOnly wasEnabled) :
    Owned depth ({ s with flag := true, sessions := s.sessions ++ [[]] }.set i
      { s.contexts i with
        streams := ⟨true, wasEnabled, s.sessions.length⟩ :: (s.contexts i).streams
        doing := .client }) (some i) := by
  have hnone : owner = none := by
    rw [h.flag] at hfree
    exact Option.not_isSome_iff_eq_none.mp (by simp [hfree])
  subst hnone
  have hheld (j : Nat) : (s.contexts j).held = 0 := h.held j
  have hsound := h.sound i
  have hunlocked : (s.contexts i).lockedStreams = 0 := h.unlocked_of_ne (by simp)
  have hpos : 0 < Context.lockedStreams { s.contexts i with
      streams := ⟨true, wasEnabled, s.sessions.length⟩ :: (s.contexts i).streams
      doing := .client } := lockedStreams_pos List.mem_cons_self rfl
  constructor
  case flag => rfl
  case held =>
    refine forall_set_contexts (P := fun j x => x.held = if some i = some j then 1 else 0) ?_ ?_
    · rw [if_pos rfl, Context.held, Context.lockedStreams, List.countP_cons_of_pos rfl]
      change (s.contexts i).lockedStreams + 1 + 0 = 1
      rw [hunlocked]
    · intro j hj
      rw [if_neg fun heq => hj (Option.some.inj heq).symm]
      exact hheld j
  case sound =>
    refine forall_set_contexts (P := fun _ x => Sound depth _ x) ?_ ?_
    · have hlength : (s.sessions ++ [[]]).length = s.sessions.length + 1 := List.length_append
      have hwas : wasEnabled = (s.contexts i).enabled := by
        have hsaved := hsound.saved wasEnabled (by rw [hdoing]; rfl)
        rwa [hunlocked, decide_eq_true rfl, Bool.and_true] at hsaved
      have hmasked : (s.contexts i).irqEnabled = false :=
        hsound.masked (by rw [hdoing]; rfl)
      exact {
        unsent := fun hne => absurd rfl hne
        room := fun c text hwriting => by cases hwriting
        mask := by
          rw [decide_eq_true hpos, Bool.or_true, Bool.not_true, Bool.and_false]
          exact hmasked
        saved := fun w hw => by cases hw
        mutex := fun _ => hsound.mutex (.inr (by rw [hdoing]; rfl))
        stream := by
          intro stream hmem hlocked
          obtain rfl | hmem := List.mem_cons.mp hmem
          · exact ⟨hwas, hlength.symm⟩
          · exact absurd (lockedStreams_pos hmem hlocked) (by omega) }
    · intro j _
      refine (h.sound j).change (h.sound j).room id fun hlocked => ?_
      have hle : (s.contexts j).lockedStreams ≤ (s.contexts j).held := Nat.le_add_right _ _
      rw [hheld j] at hle
      omega
  case output =>
    have hflatten : (s.sessions ++ [[]]).flatten = s.sessions.flatten := by simp
    refine Eq.trans ?_ (h.output.trans hflatten.symm)
    congr 1
    exact congrArg (Doing.unsent ∘ Context.doing) set_contexts_self
  case blank => exact fun j hj => h.blank_set hi _ hj

/-- The lock is given back. -/
theorem Owned.clear (h : Owned depth s owner) (hi : i < s.created) {wasEnabled : Bool}
    (hdoing : (s.contexts i).doing = .clearing wasEnabled) :
    Owned depth ({ s with flag := false }.set i
      { s.contexts i with doing := .restoring wasEnabled }) none := by
  have hsound := h.sound i
  have hholds : (s.contexts i).held = (s.contexts i).lockedStreams + 1 := by
    rw [Context.held, hdoing, Doing.holds]
  have howner : owner = some i := h.owner_of_held (by omega)
  have hunlocked : (s.contexts i).lockedStreams = 0 := by
    have hle := h.held_le i
    omega
  constructor
  case flag => rfl
  case held =>
    refine forall_set_contexts (P := fun j x => x.held = if none = some j then 1 else 0) ?_ ?_
    · exact hunlocked
    · intro j hj
      refine (h.held j).trans (if_neg ?_)
      rw [howner]
      exact fun heq => hj (Option.some.inj heq).symm
  case sound =>
    refine forall_set_contexts (P := fun _ x => Sound depth _ x) ?_ ?_
    · exact {
        unsent := fun hne => absurd rfl hne
        room := fun c text hwriting => by cases hwriting
        mask := by
          change (s.contexts i).irqEnabled = ((s.contexts i).enabled && false)
          rw [hsound.masked (by rw [hdoing]; rfl), Bool.and_false]
        saved := fun w hw => by
          cases hw
          exact hsound.saved wasEnabled (by rw [hdoing]; rfl)
        mutex := fun _ => hsound.mutex (.inl (by omega))
        stream := hsound.stream }
    · exact fun j _ => (h.sound j).change (h.sound j).room id fun _ => rfl
  case output =>
    have houtput := h.output
    rw [howner] at houtput
    refine Eq.trans ?_ houtput
    change s.wire ++ s.queue ++ [] = s.wire ++ s.queue ++ (s.contexts i).doing.unsent
    rw [hdoing]
    rfl
  case blank => exact fun j hj => h.blank_set hi _ hj

/-- What is put behind the last session is put behind all of them. -/
theorem flatten_modify_last {sessions : List (List UInt8)} {k : Nat}
    (h : k + 1 = sessions.length) (text : List UInt8) :
    (sessions.modify k (· ++ text)).flatten = sessions.flatten ++ text := by
  induction sessions generalizing k with
  | nil => cases h
  | cons session sessions ih =>
      cases k with
      | zero =>
          obtain rfl := List.length_eq_zero_iff.mp (Nat.succ.inj h).symm
          simp
      | succ k =>
          rw [List.modify_succ_cons, List.flatten_cons, List.flatten_cons, ih (Nat.succ.inj h),
            List.append_assoc]

/-- The context with the lock prints. -/
theorem Owned.print (h : Owned depth s owner) (hi : i < s.created)
    (hclient : (s.contexts i).doing = .client) {stream : LockedStream}
    (hmem : stream ∈ (s.contexts i).streams) (hlocked : stream.locked = true)
    (text : List UInt8) :
    Owned depth ({ s with sessions := s.sessions.modify stream.ticket (· ++ text) }.set i
      { s.contexts i with doing := .send text }) owner := by
  have hsound := h.sound i
  have hpos := lockedStreams_pos hmem hlocked
  have howner : owner = some i :=
    h.owner_of_held (Nat.lt_of_lt_of_le hpos (Nat.le_add_right _ _))
  have hlength : (s.sessions.modify stream.ticket (· ++ text)).length = s.sessions.length :=
    List.length_modify ..
  have hheld : Context.held { s.contexts i with doing := .send text } = (s.contexts i).held := by
    rw [Context.held, Context.held, hclient, Doing.holds_send]
    rfl
  constructor
  case flag => exact h.flag
  case held =>
    exact forall_set_contexts (P := fun j x => x.held = if owner = some j then 1 else 0)
      (hheld.trans (h.held i)) fun j _ => h.held j
  case sound =>
    refine forall_set_contexts (P := fun _ x => Sound depth _ x) ?_ ?_
    · exact (hsound.send (by rw [hclient]; rfl) hpos text).change
        (fun c more hw => absurd hw (Doing.send_ne_writing _ _ _)) id fun _ => hlength
    · exact fun j _ => (h.sound j).change (h.sound j).room id fun _ => hlength
  case output =>
    have houtput := h.output
    rw [howner] at houtput
    calc
      s.wire ++ s.queue ++ owner.elim [] (fun j => ((s.set i _).contexts j).doing.unsent) =
          s.wire ++ s.queue ++ text := by
        rw [howner, Option.elim_some, set_contexts_self, Doing.unsent_send]
      _ = s.sessions.flatten ++ text := by
        rw [← houtput, Option.elim_some, hclient]
        simp [Doing.unsent]
      _ = (s.sessions.modify stream.ticket (· ++ text)).flatten :=
        (flatten_modify_last (hsound.stream stream hmem hlocked).2 text).symm
  case blank => exact fun j hj => h.blank_set hi _ hj

/-- A character goes into the queue of the serial line. -/
theorem Owned.write (h : Owned depth s owner) (hi : i < s.created) {c : UInt8}
    {text : List UInt8} (hdoing : (s.contexts i).doing = .writing c text) :
    Owned depth ({ s with queue := s.queue ++ [c] }.set i
      { s.contexts i with doing := .send text }) owner := by
  have hsound := h.sound i
  have hpos : 0 < (s.contexts i).lockedStreams := hsound.unsent (by rw [hdoing]; exact List.cons_ne_nil _ _)
  have howner : owner = some i :=
    h.owner_of_held (Nat.lt_of_lt_of_le hpos (Nat.le_add_right _ _))
  have hheld : Context.held { s.contexts i with doing := .send text } = (s.contexts i).held := by
    rw [Context.held, Context.held, hdoing, Doing.holds_send]
    rfl
  constructor
  case flag => exact h.flag
  case held =>
    exact forall_set_contexts (P := fun j x => x.held = if owner = some j then 1 else 0)
      (hheld.trans (h.held i)) fun j _ => h.held j
  case sound =>
    refine forall_set_contexts (P := fun _ x => Sound depth _ x) ?_ ?_
    · exact (hsound.send (by rw [hdoing]; rfl) hpos text).change
        (fun c more hw => absurd hw (Doing.send_ne_writing _ _ _)) id fun _ => rfl
    · -- no other context is about to write
      intro j hj
      refine (h.sound j).change (fun c more hw => ?_) id fun _ => rfl
      have hlocked : 0 < (s.contexts j).lockedStreams :=
        (h.sound j).unsent (by rw [hw]; exact List.cons_ne_nil _ _)
      rw [h.unlocked_of_ne fun heq => hj (Option.some.inj (heq.symm.trans howner))] at hlocked
      exact absurd hlocked (Nat.lt_irrefl 0)
  case output =>
    have houtput := h.output
    rw [howner, Option.elim_some, hdoing] at houtput
    calc
      s.wire ++ (s.queue ++ [c]) ++ owner.elim [] (fun j => ((s.set i _).contexts j).doing.unsent) =
          s.wire ++ (s.queue ++ [c]) ++ text := by
        rw [howner, Option.elim_some, set_contexts_self, Doing.unsent_send]
      _ = s.wire ++ s.queue ++ c :: text := by simp
      _ = s.sessions.flatten := houtput
  case blank => exact fun j hj => h.blank_set hi _ hj

/-- The steps of the functions of a stream keep the owner, or change it. -/
theorem Owned.go (h : Owned depth s owner) (hi : i < s.created) (hs : go depth s i = some s') :
    ∃ owner', Owned depth s' owner' := by
  have hsound := h.sound i
  rw [Uart.go] at hs
  cases hdoing : (s.contexts i).doing with
  | client => simp [hdoing] at hs
  | disabling tryOnly =>
      simp only [hdoing, Option.some.injEq] at hs
      have hmask := hsound.unmasked (by rw [hdoing]; rfl)
      refine ⟨owner, hs ▸ h.setDoing hi (by rw [hdoing]; rfl) hmask ?_ ?_ (by rw [hdoing]; rfl) ?_⟩
      · rintro w ⟨⟩
        exact hmask
      · exact fun _ => hsound.mutex (.inr (by rw [hdoing]; rfl))
      · exact fun c text hw => by cases hw
  | masking tryOnly wasEnabled =>
      simp only [hdoing, Option.some.injEq] at hs
      refine ⟨owner, hs ▸ h.setDoing hi (by rw [hdoing]; rfl) rfl ?_ ?_ (by rw [hdoing]; rfl) ?_⟩
      · rintro w ⟨⟩
        exact hsound.saved wasEnabled (by rw [hdoing]; rfl)
      · exact fun _ => hsound.mutex (.inr (by rw [hdoing]; rfl))
      · exact fun c text hw => by cases hw
  | testAndSet tryOnly wasEnabled =>
      have hmask := hsound.masked (by rw [hdoing]; rfl)
      have hsaved := hsound.saved wasEnabled (by rw [hdoing]; rfl)
      have hmutex := hsound.mutex (.inr (by rw [hdoing]; rfl))
      simp only [hdoing] at hs
      split at hs
      · rw [← Option.some.inj hs]
        refine ⟨owner, ?_⟩
        cases tryOnly with
        | true =>
            refine h.setDoing hi (by rw [hdoing]; rfl) hmask ?_ (fun _ => hmutex)
              (by rw [hdoing]; rfl) fun c text hw => by cases hw
            rintro w ⟨⟩
            exact hsaved
        | false =>
            refine h.setDoing hi (by rw [hdoing]; rfl) hmask ?_ (fun _ => hmutex)
              (by rw [hdoing]; rfl) fun c text hw => by cases hw
            rintro w ⟨⟩
            exact hsaved
      · next hfree =>
        rw [← Option.some.inj hs]
        exact ⟨some i, h.acquire hi (Bool.eq_false_iff.mpr hfree) hdoing⟩
  | waiting wasEnabled =>
      have hmask := hsound.masked (by rw [hdoing]; rfl)
      have hsaved := hsound.saved wasEnabled (by rw [hdoing]; rfl)
      have hmutex := hsound.mutex (.inr (by rw [hdoing]; rfl))
      simp only [hdoing, Option.some.injEq] at hs
      refine ⟨owner, hs ▸ ?_⟩
      split
      · refine h.setDoing hi (by rw [hdoing]) hmask ?_ (fun _ => hmutex)
          (by rw [hdoing]) fun c text hw => by cases hw
        rintro w ⟨⟩
        exact hsaved
      · refine h.setDoing hi (by rw [hdoing]; rfl) hmask ?_ (fun _ => hmutex)
          (by rw [hdoing]; rfl) fun c text hw => by cases hw
        rintro w ⟨⟩
        exact hsaved
  | givingUp wasEnabled =>
      simp only [hdoing, Option.some.injEq] at hs
      have hsaved := hsound.saved wasEnabled (by rw [hdoing]; rfl)
      have hlocked : Context.lockedStreams { s.contexts i with
          irqEnabled := wasEnabled
          streams := ⟨false, wasEnabled, 0⟩ :: (s.contexts i).streams
          doing := .client } = (s.contexts i).lockedStreams :=
        List.countP_cons_of_neg Bool.false_ne_true
      refine ⟨owner, hs ▸ h.set hi ?_ ?_ (by rw [hdoing]; rfl)⟩
      · rw [Context.held, Context.held, hlocked, hdoing]
        rfl
      · exact {
          unsent := fun hne => absurd rfl hne
          room := fun c text hw => by cases hw
          mask := by
            rw [hlocked]
            change wasEnabled = ((s.contexts i).enabled &&
              !(false || decide (0 < (s.contexts i).lockedStreams)))
            rw [hsaved]
            cases (s.contexts i).lockedStreams <;> rfl
          saved := fun w hw => by cases hw
          mutex := fun _ => hsound.mutex (.inr (by rw [hdoing]; rfl))
          stream := by
            intro stream hmem htrue
            obtain rfl | hmem := List.mem_cons.mp hmem
            · cases htrue
            · exact hsound.stream stream hmem htrue }
  | clearing wasEnabled =>
      simp only [hdoing, Option.some.injEq] at hs
      exact ⟨none, hs ▸ h.clear hi hdoing⟩
  | restoring wasEnabled =>
      simp only [hdoing, Option.some.injEq] at hs
      refine ⟨owner, hs ▸ h.setDoing hi (by rw [hdoing]; rfl) ?_ ?_ (fun hcon => by cases hcon)
        (by rw [hdoing]; rfl) ?_⟩
      · exact hsound.saved wasEnabled (by rw [hdoing]; rfl)
      · exact fun w hw => by cases hw
      · exact fun c text hw => by cases hw
  | polling c text =>
      simp only [hdoing, Option.some.injEq] at hs
      have hmask := hsound.unmasked (by rw [hdoing]; rfl)
      refine ⟨owner, hs ▸ ?_⟩
      split
      · next hroom =>
        exact h.setDoing hi (by rw [hdoing]; rfl) hmask (fun w hw => by cases hw)
          (fun hcon => by cases hcon) (by rw [hdoing]; rfl) fun _ _ _ => hroom
      · exact h.setDoing hi (by rw [hdoing]) hmask (fun w hw => by cases hw)
          (fun hcon => by cases hcon) (by rw [hdoing]) fun c text hw => by cases hw
  | writing c text =>
      simp only [hdoing, if_pos (hsound.room c text hdoing), Option.some.injEq] at hs
      exact ⟨owner, hs ▸ h.write hi hdoing⟩

/-- A stream of which the lock is given back is no longer locked. -/
theorem Owned.release (h : Owned depth s owner) (hi : i < s.created)
    (hclient : (s.contexts i).doing = .client) {stream : LockedStream}
    (hmem : stream ∈ (s.contexts i).streams) {streams : List LockedStream}
    (hcount : streams.countP (·.locked) + (if stream.locked then 1 else 0) =
      (s.contexts i).lockedStreams)
    (hold : ∀ other ∈ streams, other.locked = true → other ∈ (s.contexts i).streams) :
    Owned depth (s.set i
      { s.contexts i with streams := streams, doing := release s.useMutex stream }) owner := by
  have hsound := h.sound i
  have hunmasked := hsound.unmasked (by rw [hclient]; rfl)
  have hheld : (s.contexts i).held = (s.contexts i).lockedStreams := by
    rw [Context.held, hclient]
    rfl
  have hle := h.held_le i
  cases hlocked : stream.locked with
  | false =>
      have hdoing : Uart.release s.useMutex stream = .client := by
        rw [Uart.release, hlocked]
        rfl
      have hsame : streams.countP (·.locked) = (s.contexts i).lockedStreams := by
        rwa [hlocked, if_neg Bool.false_ne_true, Nat.add_zero] at hcount
      rw [hdoing]
      refine h.set hi ?_ ?_ (by rw [hclient])
      · rw [hheld, ← hsame]
        rfl
      · exact {
          unsent := fun hne => absurd rfl hne
          room := fun c text hw => by cases hw
          mask := by
            change (s.contexts i).irqEnabled = ((s.contexts i).enabled &&
              !(false || decide (0 < streams.countP (·.locked))))
            rw [hunmasked, hsame]
            cases (s.contexts i).lockedStreams <;> rfl
          saved := fun w hw => by cases hw
          mutex := fun hcase => by
            refine hsound.mutex (.inl ?_)
            rw [hheld, ← hsame]
            exact hcase.resolve_right fun hcon => by cases hcon
          stream := fun other hother htrue =>
            hsound.stream other (hold other hother htrue) htrue }
  | true =>
      have hpos := lockedStreams_pos hmem hlocked
      have hmutex : s.useMutex = true := hsound.mutex (.inl (hheld ▸ hpos))
      have hnone : streams.countP (·.locked) = 0 := by
        rw [hlocked, if_pos rfl] at hcount
        omega
      have hdoing : Uart.release s.useMutex stream = .clearing stream.wasEnabled := by
        rw [Uart.release, hlocked, hmutex]
        rfl
      rw [hdoing]
      refine h.set hi ?_ ?_ (by rw [hclient]; rfl)
      · change streams.countP (·.locked) + 1 = _
        omega
      · exact {
          unsent := fun hne => absurd rfl hne
          room := fun c text hw => by cases hw
          mask := by
            change (s.contexts i).irqEnabled = ((s.contexts i).enabled && false)
            rw [hunmasked, Bool.and_false, decide_eq_false (Nat.ne_of_gt hpos), Bool.and_false]
          saved := by
            rintro w ⟨⟩
            change _ = ((s.contexts i).enabled && decide (streams.countP (·.locked) = 0))
            rw [hnone, decide_eq_true rfl, Bool.and_true]
            exact (hsound.stream stream hmem hlocked).1
          mutex := fun _ => hmutex
          stream := fun other hother htrue =>
            hsound.stream other (hold other hother htrue) htrue }

/-- The code of a context keeps to the streams, and does not change its interrupt mask while one
of its streams has the lock. -/
def Orderly (s : State) : Action → Prop
  | .raw _ _ => False
  | .setInterrupts i _ => (s.contexts i).lockedStreams = 0
  | _ => True

instance (s : State) (a : Action) : Decidable (Orderly s a) :=
  match a with
  | .raw _ _ => inferInstanceAs (Decidable False)
  | .setInterrupts i _ => inferInstanceAs (Decidable ((s.contexts i).lockedStreams = 0))
  | .construct _ _ => inferInstanceAs (Decidable True)
  | .print _ _ _ => inferInstanceAs (Decidable True)
  | .unlock _ _ => inferInstanceAs (Decidable True)
  | .destroy _ => inferInstanceAs (Decidable True)
  | .go _ => inferInstanceAs (Decidable True)
  | .interrupt _ => inferInstanceAs (Decidable True)
  | .exception _ => inferInstanceAs (Decidable True)
  | .eret _ _ => inferInstanceAs (Decidable True)
  | .create _ => inferInstanceAs (Decidable True)
  | .transmit => inferInstanceAs (Decidable True)
  | .setUseMutex => inferInstanceAs (Decidable True)

theorem Owned.perform (h : Owned depth s owner) (hi : i < s.created)
    (hclient : (s.contexts i).doing = .client) {a : Action} (hactor : a.client = some i)
    (ha : Orderly s a) (hs : perform s i (s.contexts i) a = some s') :
    Owned depth s' owner := by
  have hsound := h.sound i
  have hunmasked := hsound.unmasked (by rw [hclient]; rfl)
  cases a with
  | construct j tryOnly =>
      simp only [Uart.perform] at hs
      split at hs
      · next hmutex =>
        rw [← Option.some.inj hs]
        exact h.setDoing hi (by rw [hclient]; rfl) hunmasked (fun w hw => by cases hw)
          (fun _ => hmutex) (by rw [hclient]; rfl) fun c text hw => by cases hw
      · rw [← Option.some.inj hs]
        have hlocked : Context.lockedStreams { s.contexts i with
            streams := ⟨false, false, 0⟩ :: (s.contexts i).streams } =
              (s.contexts i).lockedStreams := List.countP_cons_of_neg Bool.false_ne_true
        refine h.set hi (by rw [Context.held, Context.held, hlocked]) ?_ rfl
        exact {
          unsent := fun hne => hlocked ▸ hsound.unsent hne
          room := hsound.room
          mask := hlocked ▸ hsound.mask
          saved := hlocked ▸ hsound.saved
          mutex := by
            rw [Context.held, hlocked]
            exact hsound.mutex
          stream := by
            intro stream hmem htrue
            obtain rfl | hmem := List.mem_cons.mp hmem
            · cases htrue
            · exact hsound.stream stream hmem htrue }
  | print j k call =>
      simp only [Uart.perform, Option.bind_eq_bind] at hs
      obtain ⟨stream, hstream, hs⟩ := Option.bind_eq_some_iff.mp hs
      split at hs
      · next hlocked =>
        obtain ⟨text, -, hs⟩ := Option.bind_eq_some_iff.mp hs
        rw [← Option.some.inj hs]
        exact h.print hi hclient (List.mem_of_getElem? hstream) hlocked text
      · exact Option.some.inj hs ▸ h
  | raw j call => exact ha.elim
  | unlock j k =>
      simp only [Uart.perform, Option.bind_eq_bind] at hs
      obtain ⟨stream, hstream, hs⟩ := Option.bind_eq_some_iff.mp hs
      rw [← Option.some.inj hs]
      obtain ⟨hk, hget⟩ := List.getElem?_eq_some_iff.mp hstream
      refine h.release hi hclient (List.mem_of_getElem? hstream) ?_ ?_
      · rw [List.countP_set hk, hget]
        have hpos : stream.locked = true → 0 < (s.contexts i).streams.countP (·.locked) :=
          lockedStreams_pos (List.mem_of_getElem? hstream)
        cases hlocked : stream.locked with
        | false => rfl
        | true =>
            have hpos := hpos hlocked
            simp only [Context.lockedStreams, if_true, Bool.false_eq_true, if_false]
            omega
      · intro other hother htrue
        obtain hmem | rfl := List.mem_or_eq_of_mem_set hother
        · exact hmem
        · cases htrue
  | destroy j =>
      simp only [Uart.perform] at hs
      split at hs
      · cases hs
      · next stream streams hstreams =>
        rw [← Option.some.inj hs]
        refine h.release hi hclient (hstreams ▸ List.mem_cons_self) ?_ ?_
        · rw [Context.lockedStreams, hstreams, List.countP_cons]
        · intro other hother _
          rw [hstreams]
          exact List.mem_cons_of_mem stream hother
  | setInterrupts j enabled =>
      obtain rfl := Option.some.inj hactor
      have hnone : (s.contexts j).lockedStreams = 0 := ha
      rw [Uart.perform] at hs
      rw [← Option.some.inj hs]
      refine h.set hi rfl ?_ rfl
      exact {
        unsent := hsound.unsent
        room := hsound.room
        mask := by
          change enabled = (enabled && !((s.contexts j).doing.masked ||
            decide (0 < (s.contexts j).lockedStreams)))
          rw [hnone, hclient]
          cases enabled <;> rfl
        saved := fun w hw => by
          change (s.contexts j).doing.saved = some w at hw
          rw [hclient] at hw
          cases hw
        mutex := hsound.mutex
        stream := fun stream hmem htrue =>
          absurd (lockedStreams_pos hmem htrue) (Nat.not_lt.mpr hnone.le) }
  | go j => cases hs
  | interrupt j => cases hs
  | exception j => cases hs
  | eret j j' => cases hs
  | create enabled => cases hs
  | transmit => cases hs
  | setUseMutex => cases hs

/-- A context is suspended, resumed, or ended. -/
theorem Owned.setPlace (h : Owned depth s owner) (hi : i < s.created) (place : Place) :
    Owned depth (s.set i { s.contexts i with place := place }) owner := by
  refine h.set hi rfl ?_ rfl
  exact {
    unsent := (h.sound i).unsent
    room := (h.sound i).room
    mask := (h.sound i).mask
    saved := (h.sound i).saved
    mutex := (h.sound i).mutex
    stream := (h.sound i).stream }

theorem sound_begin (place : Place) (enabled : Bool) :
    Sound depth s (.begin place enabled) where
  unsent hne := absurd rfl hne
  room c text hw := by cases hw
  mask := by cases enabled <;> rfl
  saved w hw := by cases hw
  mutex hcase := hcase.elim (fun hpos => by cases hpos) fun hcon => by cases hcon
  stream stream hmem := by cases hmem

/-- A context begins. -/
theorem Owned.create (h : Owned depth s owner) (place : Place) (enabled : Bool) :
    Owned depth { s.set s.created (.begin place enabled) with created := s.created + 1 } owner := by
  have hne : owner ≠ some s.created := by
    intro heq
    have hheld := h.held s.created
    rw [h.blank s.created le_rfl, if_pos heq] at hheld
    cases hheld
  constructor
  case flag => exact h.flag
  case held =>
    refine forall_set_contexts (P := fun j x => x.held = if owner = some j then 1 else 0) ?_
      fun j _ => h.held j
    rw [if_neg hne]
    rfl
  case sound =>
    refine forall_set_contexts (P := fun _ x => Sound depth _ x) (sound_begin place enabled)
      fun j _ => (h.sound j).change (h.sound j).room id fun _ => rfl
  case output =>
    refine Eq.trans ?_ h.output
    congr 1
    cases owner with
    | none => rfl
    | some j =>
        refine congrArg (fun x : Context => x.doing.unsent) (set_contexts_of_ne ?_)
        rintro rfl
        exact hne rfl
  case blank =>
    intro j hj
    refine (set_contexts_of_ne ?_).trans (h.blank j (Nat.le_of_succ_le hj))
    exact Nat.ne_of_gt hj

/-- The serial line transmits a character. -/
theorem Owned.transmit (h : Owned depth s owner) {c : UInt8} {queue : List UInt8}
    (hqueue : s.queue = c :: queue) :
    Owned depth { s with queue := queue, wire := s.wire ++ [c] } owner := by
  constructor
  case flag => exact h.flag
  case held => exact h.held
  case sound =>
    refine fun j => (h.sound j).change (fun c' text hw => ?_) id fun _ => rfl
    have hroom := (h.sound j).room c' text hw
    rw [hqueue] at hroom
    exact Nat.lt_of_succ_lt hroom
  case output =>
    refine Eq.trans ?_ h.output
    rw [hqueue]
    simp
  case blank => exact h.blank

theorem Owned.setUseMutex (h : Owned depth s owner) :
    Owned depth { s with useMutex := true } owner where
  flag := h.flag
  held := h.held
  sound j := (h.sound j).change (h.sound j).room (fun _ => rfl) fun _ => rfl
  output := h.output
  blank := h.blank

variable {cores : Nat}

/-- Every orderly step keeps the mutex with its owner, or hands it over. -/
theorem Owned.next (h : Owned depth s owner) {a : Action} (ha : Orderly s a)
    (hs : (streams cores depth).next s a = some s') : ∃ owner', Owned depth s' owner' := by
  have hrunning {i core : Nat} (hplace : (s.contexts i).place = .running core) : i < s.created :=
    h.lt_created (by rw [hplace]; exact fun heq => by cases heq)
  have hclient {i : Nat} (hactor : a.client = some i) (hs : act s i a = some s') :
      ∃ owner', Owned depth s' owner' := by
    rw [act] at hs
    split at hs
    · next hplace hdoing => exact ⟨owner, h.perform (hrunning hplace) hdoing hactor ha hs⟩
    · cases hs
  have henter {i core : Nat} (hplace : (s.contexts i).place = .running core) :
      Owned depth ((s.set i { s.contexts i with place := .suspended }).enter core) owner :=
    (h.setPlace (hrunning hplace) .suspended).create (.running core) false
  cases a with
  | construct i tryOnly => exact hclient rfl hs
  | print i k call => exact hclient rfl hs
  | raw i call => exact hclient rfl hs
  | unlock i k => exact hclient rfl hs
  | destroy i => exact hclient rfl hs
  | setInterrupts i enabled => exact hclient rfl hs
  | go i =>
      simp only [streams] at hs
      split at hs
      · next hplace => exact h.go (hrunning hplace) hs
      · cases hs
  | interrupt i =>
      simp only [streams] at hs
      split at hs
      · next hplace =>
        split at hs
        · exact ⟨owner, Option.some.inj hs ▸ henter hplace⟩
        · cases hs
      · cases hs
  | exception i =>
      simp only [streams] at hs
      split at hs
      · next hplace => exact ⟨owner, Option.some.inj hs ▸ henter hplace⟩
      · cases hs
  | eret i j =>
      simp only [streams] at hs
      split at hs
      · next core hi hj =>
        split at hs
        · refine ⟨owner, Option.some.inj hs ▸ ?_⟩
          have hne : j ≠ i := by
            rintro rfl
            rw [hi] at hj
            cases hj
          have hplaced := h.setPlace (hrunning hi) .ended
          have hplace : (s.contexts j).place ≠ .absent := by
            rw [hj]
            exact fun heq => by cases heq
          have hresumed := hplaced.setPlace (i := j) (h.lt_created hplace) (.running core)
          rwa [set_contexts_of_ne hne] at hresumed
        · cases hs
      · cases hs
  | create enabled => exact ⟨owner, Option.some.inj hs ▸ h.create .suspended enabled⟩
  | transmit =>
      simp only [streams] at hs
      split at hs
      · cases hs
      · next c queue hqueue => exact ⟨owner, Option.some.inj hs ▸ h.transmit hqueue⟩
  | setUseMutex => exact ⟨owner, Option.some.inj hs ▸ h.setUseMutex⟩

theorem owned_initial (h : (streams cores depth).Initial s) : Owned depth s none := by
  obtain ⟨-, hflag, hqueue, hwire, hsessions, hcreated, hcores, hblank⟩ := h
  have hbegin (i : Nat) : ∃ place enabled, s.contexts i = .begin place enabled := by
    obtain hlt | hle := Nat.lt_or_ge i cores
    · obtain ⟨enabled, hi⟩ := hcores i hlt
      exact ⟨.running i, enabled, hi⟩
    · exact ⟨.absent, false, hblank i hle⟩
  constructor
  case flag => exact hflag
  case held =>
    intro i
    obtain ⟨place, enabled, hi⟩ := hbegin i
    rw [hi]
    rfl
  case sound =>
    intro i
    obtain ⟨place, enabled, hi⟩ := hbegin i
    rw [hi]
    exact sound_begin place enabled
  case output =>
    rw [hqueue, hwire, hsessions]
    rfl
  case blank => exact fun i hi => hblank i (hcreated ▸ hi)

/-- In every state that orderly steps lead to, the mutex has an owner, or is free. -/
theorem exists_owned (h : (streams cores depth).ReachableBy Orderly s) :
    ∃ owner, Owned depth s owner := by
  induction h with
  | initial h => exact ⟨none, owned_initial h⟩
  | next a _ ha hs ih =>
      obtain ⟨owner, howned⟩ := ih
      exact howned.next ha hs

end Steps

/-- One context at most has the lock, and has it once. The serial line has been given the sessions,
one behind the other, but for what the context with the lock is still to write. Interrupts are masked
with the lock, and without it as the context itself has left them. -/
structure Together (s : State) : Prop where
  alone : ∀ i j, 0 < (s.contexts i).held → 0 < (s.contexts j).held → i = j
  once : ∀ i, (s.contexts i).held ≤ 1
  flag : s.flag = true ↔ ∃ i, 0 < (s.contexts i).held
  output : ∃ unsent, s.wire ++ s.queue ++ unsent = s.sessions.flatten ∧
    (unsent = [] ∨ ∃ i, 0 < (s.contexts i).lockedStreams ∧ (s.contexts i).doing.unsent = unsent)
  interrupts : ∀ i, (0 < (s.contexts i).held → (s.contexts i).irqEnabled = false) ∧
    ((s.contexts i).doing = .client → (s.contexts i).lockedStreams = 0 →
      (s.contexts i).irqEnabled = (s.contexts i).enabled)

section Main

variable {cores depth : Nat} {s : State}

/-- Whatever the cores do with their streams, and whenever handlers interrupt them, what is printed
in one session stays together, and no character is lost. -/
theorem sessions_stay_together (h : (streams cores depth).ReachableBy Orderly s) : Together s := by
  obtain ⟨owner, howned⟩ := exists_owned h
  constructor
  case alone =>
    intro i j hi hj
    exact Option.some.inj ((howned.owner_of_held hi).symm.trans (howned.owner_of_held hj))
  case once => exact howned.held_le
  case flag =>
    rw [howned.flag, Option.isSome_iff_exists]
    refine exists_congr fun i => ⟨fun heq => ?_, howned.owner_of_held⟩
    rw [howned.held i, if_pos heq]
    exact Nat.one_pos
  case output =>
    refine ⟨_, howned.output, ?_⟩
    cases owner with
    | none => exact .inl rfl
    | some i =>
        rw [Option.elim_some]
        obtain hnil | hne := eq_or_ne (s.contexts i).doing.unsent []
        · exact .inl hnil
        · exact .inr ⟨i, (howned.sound i).unsent hne, rfl⟩
  case interrupts =>
    intro i
    refine ⟨fun hheld => Bool.eq_false_iff.mpr fun henabled => ?_, fun hclient hnone => ?_⟩
    · rw [(howned.sound i).not_held henabled] at hheld
      exact absurd hheld (Nat.lt_irrefl 0)
    · rw [(howned.sound i).unmasked (by rw [hclient]; rfl), hnone, decide_eq_true rfl, Bool.and_true]

/-- Two cores and a queue for one character. -/
def twoCores : State :=
  { useMutex := false
    flag := false
    queue := []
    wire := []
    created := 2
    contexts := fun i => if i < 2 then .begin (.running i) true else {}
    sessions := [] }

/-- The second core prints while the first one has the lock, and an interrupt handler on the second
core prints in between. -/
def twoCoresRun : List Action :=
  [.setUseMutex, .construct 0 false, .construct 1 false, .go 0, .go 0, .go 0, .interrupt 1,
    .construct 2 true, .go 2, .go 2, .go 2, .go 2, .print 2 0 (.putc 0x43), .destroy 2, .eret 2 1,
    .go 1, .go 1, .go 1, .print 0 0 (.putDec 8 0x12 (Vector.replicate bufferSize 0)), .go 0, .go 0,
    .transmit, .go 0, .go 0, .destroy 0, .go 0, .go 1, .go 1, .print 1 0 (.putc 0x42)]

theorem initial_twoCores (depth : Nat) : (streams 2 depth).Initial twoCores := by
  refine ⟨rfl, rfl, rfl, rfl, rfl, rfl, fun i hi => ⟨true, if_pos hi⟩, fun i hi => ?_⟩
  exact if_neg (Nat.not_lt.mpr hi)

theorem sessions_stay_together_twoCores :
    ∃ s, (streams 2 1).runWhere (fun s a => decide (Orderly s a)) twoCores twoCoresRun = some s ∧
      (s.wire, s.queue, s.sessions) = ([0x31], [0x38], [[0x31, 0x38], [0x42]]) ∧ Together s := by
  have hrun : ((streams 2 1).runWhere (fun s a => decide (Orderly s a)) twoCores twoCoresRun).map
      (fun s => (s.wire, s.queue, s.sessions)) = some ([0x31], [0x38], [[0x31, 0x38], [0x42]]) := by
    decide +kernel
  obtain ⟨s, hs, hprinted⟩ := Option.map_eq_some_iff.mp hrun
  have hreachable : (streams 2 1).ReachableBy Orderly s :=
    System.ReachableBy.runWhere (fun _ _ h => of_decide_eq_true h) (.initial (initial_twoCores 1))
      twoCoresRun hs
  exact ⟨s, hs, hprinted, sessions_stay_together hreachable⟩

end Main

end RPiKernel.Uart
