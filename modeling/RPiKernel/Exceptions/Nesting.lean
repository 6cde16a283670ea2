import RPiKernel.Exceptions.Resumption

/-!
# Runs of the kernel

Over every run, with interrupts, user-mode sparks, system calls and thread switches in any
order: what a thread resumes is what was suspended last on it. An interrupted computation
therefore goes on with the registers it had. A system call, which is meant to keep the
callee-saved registers, keeps `d8` to `d15` only by chance.
-/

namespace RPiKernel.Exceptions

open Aarch64 Transition

variable {addr : Symbol Label → Word} {debugger : Word} {s s' s₁ : Kernel} {a : Action} {c : Core}
  {ctx : Context} {o : Outcome}

theorem next_of_effect (he : effect addr debugger s a = some (s₁, o)) :
    (kernel addr debugger).next s a = some (s₁.enter o) := by
  cases a with
  | run c => cases he
  | createThread info stackHigh function context => cases he
  | _ => exact congrArg (Option.map fun p => p.1.enter p.2) he

theorem inv_initial (h : (kernel addr debugger).Initial s) : Inv s := by
  obtain ⟨hplace, hthreads, hsuspended⟩ := h
  have hnone : ∀ {t ctx}, ctx ∉ s.suspended t := by
    intro t ctx hctx
    rw [hsuspended] at hctx
    cases hctx
  refine ⟨⟨?_, ?_, ?_, ?_, ?_, ?_, ?_, ?_, ?_⟩, ?_⟩
  · exact fun t ctx hctx => absurd hctx hnone
  · exact fun t ctx hctx => absurd hctx hnone
  · exact fun t ctx hctx => absurd hctx hnone
  · intro t
    rw [hsuspended]
    exact List.Pairwise.nil
  · exact fun t t' _ ctx hctx => absurd hctx hnone
  · exact fun i _ t ctx hctx => absurd hctx hnone
  · exact fun t ht => absurd (hsuspended t) ht
  · rw [hthreads]
    exact List.mem_singleton_self _
  · intro t ht hidle
    rw [hthreads] at ht
    exact absurd (List.mem_singleton.mp ht) hidle
  · intro f k hcalling
    rw [hplace] at hcalling
    cases hcalling

theorem inv_next (haddr : Aligned addr) (h : Inv s) (hd : Disciplined addr debugger s a)
    (hs : (kernel addr debugger).next s a = some s') : Inv s' := by
  have heffect : ∀ s₁ o, effect addr debugger s a = some (s₁, o) → Inv (s₁.enter o) :=
    fun s₁ o he => (effect_sound haddr h hd he).inv
  cases a with
  | run c =>
      simp only [kernel] at hs
      split at hs
      · next hplace =>
          cases hs
          obtain ⟨hthread, hmem⟩ := hd
          refine ⟨?_, fun f k hcalling => by cases hplace.symm.trans hcalling⟩
          change Stacks { s with core := c, place := s.place } (· = c.reg (.x 18))
          rw [hthread]
          exact h.contexts.change hthread (fun a ha _ => hmem a ha)
            fun t ht => ht ▸ h.contexts.current
      · cases hs
  | createThread info stackHigh function context =>
      simp only [kernel] at hs
      split at hs
      · next hplace =>
          cases hs
          obtain ⟨hnew, hrecord, hinside, hstack⟩ := hd
          exact ⟨h.contexts.create hnew hrecord hinside hstack,
            fun f k hcalling => by cases hplace.symm.trans hcalling⟩
      · cases hs
  | _ =>
      obtain ⟨⟨s₁, o⟩, he, rfl⟩ := Option.map_eq_some_iff.mp hs
      exact heffect s₁ o he

theorem inv_of_reachable (haddr : Aligned addr)
    (h : (kernel addr debugger).ReachableBy (Disciplined addr debugger) s) : Inv s :=
  h.invariant (fun _ => inv_initial) fun _ _ _ hs ha hnext => inv_next haddr hs ha hnext

section NoSpark

/-- A function returns an empty spark. -/
def noSpark (c : Core) : Core := (c.setReg (.x 0) 0).setReg (.x 1) 0

theorem noSpark_reg (c : Core) {r : Reg} (h₀ : r ≠ .x 0) (h₁ : r ≠ .x 1) :
    (noSpark c).reg r = c.reg r := by
  rw [noSpark, Core.setReg_reg, if_neg h₁, Core.setReg_reg, if_neg h₀]

theorem noSpark_func (c : Core) : (noSpark c).reg (.x 1) = 0 := by
  rw [noSpark, Core.setReg_reg, if_pos rfl]

theorem calleeSaved_noSpark (c : Core) : CalleeSaved c (noSpark c) where
  sp := noSpark_reg c (by decide) (by decide)
  regs r hr := by
    refine noSpark_reg c ?_ ?_
    · rintro rfl
      cases hr
    · rintro rfl
      cases hr

variable {f : Callee} {k : Return}

theorem disciplined_noSpark (haddr : Aligned addr) (hplace : s.place = .calling f k)
    (hmain : f ≠ .mainExceptionHandler) (hsyscall : f ≠ .syscallDispatcher) :
    Disciplined addr debugger s (.returned (noSpark s.core)) := by
  refine ⟨calleeSaved_noSpark s.core, fun f' k' hplace' => ?_⟩
  obtain ⟨rfl, rfl⟩ := Place.calling.inj (hplace.symm.trans hplace')
  have hfunc : (noSpark s.core).reg (.x 1) ≠ addr (.label .threadContextSwitchSpark) := by
    rw [noSpark_func]
    exact (haddr.ne_zero _).symm
  cases f with
  | mainExceptionHandler => exact absurd rfl hmain
  | syscallDispatcher => exact absurd rfl hsyscall
  | _ => exact ⟨hfunc, fun a _ => rfl⟩

theorem effect_noSpark (hplace : s.place = .calling f k) (hmain : f ≠ .mainExceptionHandler) :
    effect addr debugger s (.returned (noSpark s.core)) =
      some ({ s with core := noSpark s.core }, goOn addr (noSpark s.core) k) := by
  simp only [effect, hplace, hmain, if_false]

/-- Without a spark the interrupt vector asks the scheduler for one. -/
theorem next_dispatched (hplace : s.place = .calling .interruptDispatcher .irqDispatched) :
    (kernel addr debugger).next s (.returned (noSpark s.core)) =
      some { s with core := noSpark s.core, place := .calling .getNextScheduledSpark .runSpark } := by
  have he : effect addr debugger s (.returned (noSpark s.core)) =
      some ({ s with core := noSpark s.core },
        .call .getNextScheduledSpark .runSpark (noSpark s.core)) := by
    rw [effect_noSpark hplace (by decide), goOn, if_pos (noSpark_func s.core)]
    rfl
  exact next_of_effect he

/-- Without a spark from there it resumes. -/
theorem effect_runSpark (hplace : s.place = .calling f .runSpark)
    (hmain : f ≠ .mainExceptionHandler) :
    effect addr debugger s (.returned (noSpark s.core)) = some ({ s with core := noSpark s.core },
      .resume ((noSpark s.core).execAll addr restoreAllRegisters).eret) := by
  rw [effect_noSpark hplace hmain, goOn, runSpark, if_pos (noSpark_func s.core)]
  rfl

end NoSpark

section Idle

/-- The main thread of a core that has just started its scheduler. -/
def idleThread : Word := 0x100

def idleAddress (_ : Symbol Label) : Word := 0x1000

/-- A core that runs the main thread. -/
def idleCore : Core where
  reg r := if r = .sp then 0x80000 else if r = .x 18 then idleThread else 1
  mem _ := 0
  pc := 0x81000
  pstate := 0x5

def idle : Kernel where
  core := idleCore
  threads := [idleThread]

theorem idleAddress_aligned : Aligned idleAddress where
  ne_zero _ := by
    change (0x1000 : Word) ≠ 0
    decide
  aligned _ := by
    change (0x1000 : Word).getLsbD 0 = false
    decide

theorem room_idle : idle.Room := by
  intro a ha hguarded
  rcases hguarded with ⟨t, ht, rfl⟩ | ⟨t, ctx, hctx, -⟩
  · obtain rfl := List.mem_singleton.mp ht
    revert ha
    change ¬ (idleThread - (0x80000 - 784)).toNat < threadContextSize
    decide
  · cases hctx

theorem initial_idle : (kernel idleAddress 0).Initial idle := ⟨rfl, rfl, fun _ => rfl⟩

theorem reachable_idle :
    (kernel idleAddress 0).ReachableBy (Disciplined idleAddress 0) idle :=
  System.ReachableBy.initial initial_idle

/-- The main thread has been interrupted. -/
def interrupted : Kernel :=
  (idle.push (.interrupted idleCore)).enter (irqExceptionVector idleAddress idleCore)

/-- No handler had a spark. -/
def dispatched : Kernel :=
  { interrupted with
    core := noSpark interrupted.core, place := .calling .getNextScheduledSpark .runSpark }

/-- The functions return, and nobody has a spark. -/
def quiet : List Action := [.returned (noSpark interrupted.core), .returned (noSpark dispatched.core)]

theorem next_irq : (kernel idleAddress 0).next idle .irq = some interrupted := rfl

theorem next_interrupted :
    (kernel idleAddress 0).next interrupted (.returned (noSpark interrupted.core)) =
      some dispatched :=
  next_dispatched rfl

theorem reachable_dispatched :
    (kernel idleAddress 0).ReachableBy (Disciplined idleAddress 0) dispatched := by
  refine System.ReachableBy.next _ (System.ReachableBy.next .irq reachable_idle room_idle next_irq)
    ?_ next_interrupted
  exact disciplined_noSpark idleAddress_aligned rfl (by decide) (by decide)

theorem disciplined_dispatched :
    Disciplined idleAddress 0 dispatched (.returned (noSpark dispatched.core)) :=
  disciplined_noSpark idleAddress_aligned rfl (by decide) (by decide)

/-- The main thread goes on. -/
def resumed : Kernel :=
  Kernel.enter { dispatched with core := noSpark dispatched.core }
    (.resume ((noSpark dispatched.core).execAll idleAddress restoreAllRegisters).eret)

theorem effect_dispatched :
    effect idleAddress 0 dispatched (.returned (noSpark dispatched.core)) =
      some ({ dispatched with core := noSpark dispatched.core },
        .resume ((noSpark dispatched.core).execAll idleAddress restoreAllRegisters).eret) :=
  effect_runSpark rfl (by decide)

theorem run_quiet : (kernel idleAddress 0).run idle (.irq :: quiet) = some resumed := by
  have hlast : (kernel idleAddress 0).next dispatched (.returned (noSpark dispatched.core)) =
      some resumed := next_of_effect effect_dispatched
  rw [System.run_cons_of_next next_irq, quiet, System.run_cons_of_next next_interrupted]
  exact System.run_cons_of_next hlast []

theorem stepsMeet_quiet :
    (kernel idleAddress 0).StepsMeet (Disciplined idleAddress 0) idle (.irq :: quiet) := by
  rw [System.stepsMeet_cons next_irq, quiet, System.stepsMeet_cons next_interrupted]
  refine ⟨room_idle, disciplined_noSpark idleAddress_aligned rfl (by decide) (by decide), ?_⟩
  rw [System.StepsMeet]
  refine ⟨disciplined_dispatched, ?_⟩
  split
  · trivial
  · trivial

/-- The depth of the main thread's stack on the way. -/
theorem deeper_quiet : ∀ before after s₁, quiet = before ++ after → after ≠ [] →
    (kernel idleAddress 0).run idle (.irq :: before) = some s₁ →
      0 < (s₁.suspended idleThread).length := by
  intro before after s₁ happend hafter hrun
  rw [System.run_cons_of_next next_irq] at hrun
  match before with
  | [] =>
      cases hrun
      exact Nat.zero_lt_one
  | [a] =>
      obtain ⟨rfl, -⟩ := List.cons.inj happend
      rw [System.run_cons_of_next next_interrupted] at hrun
      cases hrun
      exact Nat.zero_lt_one
  | _ :: _ :: before =>
      have hlength := congrArg List.length happend
      have hpos := List.length_pos_iff.mpr hafter
      simp only [quiet, List.length_cons, List.length_append, List.length_nil] at hlength
      omega

/-- Only the main thread has something suspended, once. -/
theorem only_idleThread {s : Kernel} {ctx₀ : Context} {t : Word} {rest : List Context}
    (hs : s.suspended = Function.update idle.suspended idleThread [ctx₀])
    (h : s.suspended t = ctx :: rest) : t = idleThread := by
  by_contra hne
  have hnone : s.suspended t = [] := by
    rw [hs]
    exact Function.update_of_ne hne _ _
  exact absurd (hnone.symm.trans h) (List.cons_ne_nil _ _).symm

theorem depth_enter {s : Kernel} {ctx₀ : Context} {c : Core}
    (hs : s.suspended = Function.update idle.suspended idleThread [ctx₀])
    (h : c.reg (.x 18) = idleThread) :
    ((s.enter (.resume c)).suspended idleThread).length = 0 := by
  change ((s.pop (c.reg (.x 18))).suspended idleThread).length = 0
  rw [Kernel.pop_suspended, if_pos h.symm, h, hs, Function.update_self]
  rfl

theorem depth_resumed : (resumed.suspended idleThread).length = 0 := by
  obtain ⟨ctx, rest, hstack, -⟩ := (effect_sound idleAddress_aligned
    (inv_of_reachable idleAddress_aligned reachable_dispatched) disciplined_dispatched
    effect_dispatched).resumes _ rfl
  have hthread := only_idleThread rfl hstack
  rw [resumed]
  exact depth_enter rfl hthread

/-- The syndrome of a `svc #1`. -/
def helloSyndrome : Word := 0x56000001

/-- The main thread has called the system. -/
def called : Kernel :=
  (idle.push (.calledSystem idleCore)).enter (.call .syscallDispatcher .runSpark
    ((idleCore.takeSynchronous helloSyndrome).execAll idleAddress syscallCode))

theorem next_synchronous :
    (kernel idleAddress 0).next idle (.synchronous helloSyndrome) = some called := by
  have he : effect idleAddress 0 idle (.synchronous helloSyndrome) =
      some (idle.push (.calledSystem idleCore), .call .syscallDispatcher .runSpark
        ((idleCore.takeSynchronous helloSyndrome).execAll idleAddress syscallCode)) := by
    rw [← synchronousExceptionVector_syscall (by decide) (by decide)]
    rfl
  exact next_of_effect he

theorem disciplined_called :
    Disciplined idleAddress 0 called (.returned (noSpark called.core)) := by
  have hsyndrome : called.core.reg .esr = helloSyndrome :=
    syscallCode_syndrome idleCore helloSyndrome
  refine ⟨calleeSaved_noSpark called.core, fun f k hplace => ?_⟩
  obtain ⟨rfl, rfl⟩ := Place.calling.inj hplace
  refine ⟨fun hyield => ?_, ({}, called.core.mem), ?_, ?_⟩
  · rw [hsyndrome] at hyield
    exact absurd hyield (by decide)
  · rw [syscallDispatcher, hsyndrome, if_neg (by decide), if_pos (by decide)]
  · exact ⟨rfl, noSpark_func called.core, fun a _ => rfl⟩

/-- The main thread is back from the call. -/
def returned : Kernel :=
  Kernel.enter { called with core := noSpark called.core }
    (.resume ((noSpark called.core).execAll idleAddress restoreAllRegisters).eret)

theorem effect_called :
    effect idleAddress 0 called (.returned (noSpark called.core)) =
      some ({ called with core := noSpark called.core },
        .resume ((noSpark called.core).execAll idleAddress restoreAllRegisters).eret) :=
  effect_runSpark rfl (by decide)

theorem disciplined_hello : Disciplined idleAddress 0 idle (.synchronous helloSyndrome) :=
  ⟨room_idle, fun _ hnumber => absurd hnumber (by decide)⟩

theorem run_hello : (kernel idleAddress 0).run idle
    [.synchronous helloSyndrome, .returned (noSpark called.core)] = some returned := by
  rw [System.run_cons_of_next next_synchronous]
  exact System.run_cons_of_next (next_of_effect effect_called) []

theorem stepsMeet_hello : (kernel idleAddress 0).StepsMeet (Disciplined idleAddress 0) idle
    [.synchronous helloSyndrome, .returned (noSpark called.core)] := by
  rw [System.stepsMeet_cons next_synchronous, System.StepsMeet]
  refine ⟨disciplined_hello, disciplined_called, ?_⟩
  split
  · trivial
  · trivial

theorem depth_returned : (returned.suspended idleThread).length = 0 := by
  have hinv : Inv called := inv_next idleAddress_aligned
    (inv_of_reachable idleAddress_aligned reachable_idle) disciplined_hello next_synchronous
  obtain ⟨ctx, rest, hstack, -⟩ :=
    (effect_sound idleAddress_aligned hinv disciplined_called effect_called).resumes _ rfl
  have hthread := only_idleThread rfl hstack
  rw [returned]
  exact depth_enter rfl hthread

end Idle

/-- In every run, what the code resumes is the computation that was suspended last on the
thread that goes on, with every register of its context. -/
theorem resumes_latest (haddr : Aligned addr)
    (h : (kernel addr debugger).ReachableBy (Disciplined addr debugger) s)
    (hd : Disciplined addr debugger s a) (he : effect addr debugger s a = some (s', .resume c)) :
    ∃ ctx rest, s'.suspended (c.reg (.x 18)) = ctx :: rest ∧ Resumed ctx c ∧
      (s'.enter (.resume c)).suspended (c.reg (.x 18)) = rest := by
  obtain ⟨ctx, rest, hstack, hresumed⟩ :=
    (effect_sound haddr (inv_of_reachable haddr h) hd he).resumes c rfl
  refine ⟨ctx, rest, hstack, hresumed, ?_⟩
  change (s'.pop (c.reg (.x 18))).suspended (c.reg (.x 18)) = rest
  rw [Kernel.pop_suspended, if_pos rfl, hstack]
  rfl

theorem resumes_latest_dispatched :
    ∃ ctx, Resumed ctx ((noSpark dispatched.core).execAll idleAddress restoreAllRegisters).eret := by
  obtain ⟨ctx, _, -, hresumed, -⟩ :=
    resumes_latest idleAddress_aligned reachable_dispatched disciplined_dispatched effect_dispatched
  exact ⟨ctx, hresumed⟩

/-- A step suspends at most one computation of a thread. -/
theorem effect_suspended {t : Word} (ht : t ≠ debugger)
    (he : effect addr debugger s a = some (s₁, o)) :
    ∃ pushed, s₁.suspended t = pushed ++ s.suspended t := by
  have hpush : ∀ ctx, ∃ pushed, (s.push ctx).suspended t = pushed ++ s.suspended t := by
    intro ctx
    rw [Kernel.push_suspended]
    split
    · next heq => exact ⟨[ctx], by rw [heq]; rfl⟩
    · exact ⟨[], rfl⟩
  cases a with
  | run c => cases he
  | createThread info stackHigh function context => cases he
  | irq =>
      rw [effect] at he
      split at he
      · obtain ⟨rfl, rfl⟩ := Prod.mk.inj (Option.some.inj he)
        exact hpush _
      · cases he
  | synchronous syndrome =>
      simp only [effect] at he
      split at he
      · split at he
        · obtain ⟨rfl, rfl⟩ := Prod.mk.inj (Option.some.inj he)
          exact hpush _
        · split at he
          · obtain ⟨rfl, rfl⟩ := Prod.mk.inj (Option.some.inj he)
            exact ⟨[], rfl⟩
          · obtain ⟨rfl, rfl⟩ := Prod.mk.inj (Option.some.inj he)
            exact hpush _
      · cases he
  | returned c =>
      simp only [effect] at he
      split at he
      · cases he
      · split at he
        · obtain ⟨rfl, rfl⟩ := Prod.mk.inj (Option.some.inj he)
          exact ⟨[], by rw [Kernel.setArgument_suspended, if_neg ht]; rfl⟩
        · obtain ⟨rfl, rfl⟩ := Prod.mk.inj (Option.some.inj he)
          exact ⟨[], rfl⟩

/-- A computation that waits on a thread still waits after a step, or the step resumes it. -/
theorem waits_or_resumes (haddr : Aligned addr) (h : Inv s) {t : Word} {below : List Context}
    (ht : t ≠ debugger) (hwaits : ctx :: below <:+ s.suspended t)
    (hd : Disciplined addr debugger s a) (hs : (kernel addr debugger).next s a = some s') :
    ctx :: below <:+ s'.suspended t ∨
      s'.place = .code ∧ s'.current = t ∧ s'.suspended t = below ∧ Resumed ctx s'.core := by
  have hknown : t ∈ s.threads := by
    refine h.contexts.known t fun hnil => ?_
    rw [hnil] at hwaits
    exact absurd (List.suffix_nil.mp hwaits) (List.cons_ne_nil _ _)
  have heffect : ∀ s₁ o, effect addr debugger s a = some (s₁, o) →
      ctx :: below <:+ (s₁.enter o).suspended t ∨
        (s₁.enter o).place = .code ∧ (s₁.enter o).current = t ∧
          (s₁.enter o).suspended t = below ∧ Resumed ctx (s₁.enter o).core := by
    intro s₁ o he
    obtain ⟨pushed, hpushed⟩ := effect_suspended ht he
    have hstill : ctx :: below <:+ s₁.suspended t := by
      rw [hpushed]
      exact hwaits.trans (List.suffix_append pushed _)
    cases o with
    | call f k c => exact Or.inl hstill
    | enterSpark c => exact Or.inl hstill
    | resume c =>
        obtain ⟨latest, rest, hstack, hresumed⟩ := (effect_sound haddr h hd he).resumes c rfl
        change ctx :: below <:+ (s₁.pop (c.reg (.x 18))).suspended t ∨
          _ ∧ _ ∧ (s₁.pop (c.reg (.x 18))).suspended t = below ∧ _
        rw [Kernel.pop_suspended]
        by_cases hthread : t = c.reg (.x 18)
        · rw [if_pos hthread, hstack]
          rw [hthread, hstack] at hstill
          rcases List.suffix_cons_iff.mp hstill with heq | hsuffix
          · obtain ⟨rfl, rfl⟩ := List.cons.inj heq
            exact Or.inr ⟨rfl, hthread.symm, rfl, hresumed⟩
          · exact Or.inl hsuffix
        · rw [if_neg hthread]
          exact Or.inl hstill
  cases a with
  | run c =>
      simp only [kernel] at hs
      split at hs
      · cases hs
        exact Or.inl hwaits
      · cases hs
  | createThread info stackHigh function context =>
      simp only [kernel] at hs
      split at hs
      · cases hs
        obtain ⟨hnew, -⟩ := hd
        have hne : t ≠ info := fun heq => hnew (heq ▸ hknown)
        refine Or.inl ?_
        change ctx :: below <:+ Function.update s.suspended info _ t
        rw [Function.update_of_ne hne]
        exact hwaits
      · cases hs
  | _ =>
      obtain ⟨⟨s₁, o⟩, he, rfl⟩ := Option.map_eq_some_iff.mp hs
      exact heffect s₁ o he

/-- A computation that is suspended waits until the run comes back to the depth at which it
was suspended; that step resumes it. -/
theorem resumed_of_depth (haddr : Aligned addr) {t : Word} {below : List Context}
    (ht : t ≠ debugger) {actions : List Action} (h : Inv s)
    (hwaits : ctx :: below <:+ s.suspended t)
    (hmeet : (kernel addr debugger).StepsMeet (Disciplined addr debugger) s actions)
    (hrun : (kernel addr debugger).run s actions = some s')
    (hdeeper : ∀ before after s₁, actions = before ++ after → after ≠ [] →
      (kernel addr debugger).run s before = some s₁ → below.length < (s₁.suspended t).length)
    (hdepth : (s'.suspended t).length = below.length) :
    s'.place = .code ∧ s'.current = t ∧ Resumed ctx s'.core := by
  induction actions generalizing s with
  | nil =>
      cases hrun
      have hle := hwaits.length_le
      rw [List.length_cons] at hle
      omega
  | cons a actions ih =>
      obtain ⟨s₁, hs₁, hrest⟩ := System.run_cons hrun
      obtain ⟨ha, hlater⟩ := (System.stepsMeet_cons hs₁ actions).mp hmeet
      have hinv : Inv s₁ := inv_next haddr h ha hs₁
      rcases waits_or_resumes haddr h ht hwaits ha hs₁ with hstill | hresumed
      · refine ih hinv hstill hlater hrest fun before after s₂ happend hafter hbefore => ?_
        exact hdeeper (a :: before) after s₂ (congrArg (a :: ·) happend) hafter
          ((System.run_cons_of_next hs₁ before).trans hbefore)
      · obtain ⟨hplace, hcurrent, hbelow, hregs⟩ := hresumed
        cases actions with
        | nil =>
            cases hrest
            exact ⟨hplace, hcurrent, hregs⟩
        | cons a' actions =>
            have hlt := hdeeper [a] (a' :: actions) s₁ rfl (List.cons_ne_nil _ _)
              (System.run_cons_of_next hs₁ [])
            rw [hbelow] at hlt
            exact absurd hlt (lt_irrefl _)

end RPiKernel.Exceptions
