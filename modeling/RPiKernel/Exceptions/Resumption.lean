import RPiKernel.Exceptions.Stacks

/-!
# Exceptions nest on every thread

Every `eret` behind `RestoreParametersAndERet` gives back the registers of the computation
that was suspended last on the thread that it resumes: of an interrupted one all of them,
of one that called the system those that `DispatchToSyscall` writes.
-/

namespace RPiKernel.Exceptions

open Aarch64 Transition

/-- The registers of a context are back. -/
structure Resumed (ctx : Context) (c : Core) : Prop where
  regs : ∀ r off, slot r = some off → c.reg r = ctx.reg r
  pc : c.pc = ctx.reg .elr
  pstate : c.pstate = ctx.reg .spsr

/-- What holds while a compiled function runs for the vector code: the stack pointer is at
the context that was pushed last, and the handler of a synchronous exception has been
passed that context and finds the registers of the interrupted computation. -/
structure Serving (f : Callee) (k : Return) (c : Core) (ctx : Context) : Prop where
  sp : c.reg .sp = ctx.base
  fresh : f = .mainExceptionHandler ∨ f = .syscallDispatcher →
    (∀ r, nonvolatile r → c.reg r = ctx.reg r) ∧ c.reg (.x 0) = ctx.base
  main : f = .mainExceptionHandler → k = .handled
  syscall : f = .syscallDispatcher → k = .runSpark

/-- The invariant of the kernel. -/
structure Inv (s : Kernel) : Prop where
  contexts : s.OneRuns
  serving : ∀ f k, s.place = .calling f k →
    ∃ ctx rest, s.suspended s.current = ctx :: rest ∧ Serving f k s.core ctx

/-- A step keeps the invariant, and what it resumes is what was suspended last. -/
structure Sound (s : Kernel) (o : Outcome) : Prop where
  inv : Inv (s.enter o)
  resumes : ∀ c, o = .resume c →
    ∃ ctx rest, s.suspended (c.reg (.x 18)) = ctx :: rest ∧ Resumed ctx c

/-- The vector code runs on the context that was pushed last. -/
structure Handling (s : Kernel) (ctx : Context) (rest : List Context) : Prop where
  contexts : s.OneRuns
  stack : s.suspended s.current = ctx :: rest
  sp : s.core.reg .sp = ctx.base

variable {addr : Symbol Label → Word} {debugger : Word} {s s' : Kernel} {c : Core}
  {ctx ctx' : Context} {rest rest' : List Context} {o : Outcome}

/-- The core before the code ran does not matter. -/
theorem Sound.of_core (h : Sound { s with core := c } o) : Sound s o := by
  cases o with
  | _ => exact ⟨h.inv, h.resumes⟩

theorem resumed_restore (hholds : Holds c.mem ctx) (hbase : c.reg .sp = ctx.base)
    (hsp : ctx.reg .sp = ctx.base + 784) :
    Resumed ctx (c.execAll addr restoreAllRegisters).eret := by
  have hload : ∀ r off, slot r = some off → r ≠ .sp →
      (c.execAll addr restoreAllRegisters).reg r = ctx.reg r := by
    intro r off hslot hr
    rw [restoreAllRegisters_reg c hslot hr, hbase]
    exact hholds r off hslot
  constructor
  · intro r off hslot
    rw [Core.eret_reg]
    by_cases hr : r = .sp
    · rw [hr, restoreAllRegisters_sp, hbase, hsp]
    · exact hload r off hslot hr
  · rw [Core.eret_pc]
    exact hload .elr threadContextPc rfl (by decide)
  · rw [Core.eret_pstate]
    exact hload .spsr threadContextSpsr rfl (by decide)

/-- The computation that was suspended last on a thread goes on, where no other thread is
busy. -/
theorem sound_resume {busy : Word → Prop} {t : Word} {c₁ : Core}
    (h : Stacks { s with core := c₁, place := .code } busy) (hbusy : ∀ t', busy t' → t' = t)
    (htarget : s.suspended t = ctx :: rest) (hresumed : Resumed ctx c) (hmem : c.mem = c₁.mem) :
    Sound s (.resume c) := by
  have hctx : ctx ∈ s.suspended t := htarget ▸ List.mem_cons_self
  have hthread : c.reg (.x 18) = t := (hresumed.regs (.x 18) _ rfl).trans (h.thread t ctx hctx)
  have hpop : Stacks { s.pop t with core := c, place := .code } (· = t) :=
    h.pop (h.known t (List.ne_nil_of_mem hctx)) hthread hmem
      fun t' _ hne hbusy' => absurd (hbusy t' hbusy') hne
  refine ⟨⟨?_, fun f k hplace => by cases hplace⟩, ?_⟩
  · change Stacks { s.pop (c.reg (.x 18)) with core := c, place := .code } (· = c.reg (.x 18))
    rw [hthread]
    exact hpop
  · rintro c' hc
    obtain rfl := Outcome.resume.inj hc
    refine ⟨ctx, rest, ?_, hresumed⟩
    rw [hthread]
    exact htarget

namespace Handling

variable (h : Handling s ctx rest)

include h

theorem mem_suspended : ctx ∈ s.suspended s.current := h.stack ▸ List.mem_cons_self

theorem restore : Sound s (restoreAllRegistersAndERet addr s.core) := by
  have hresumed : Resumed ctx (s.core.execAll addr restoreAllRegisters).eret :=
    resumed_restore (h.contexts.holds s.current ctx h.mem_suspended) h.sp
      (h.contexts.sp s.current ctx h.mem_suspended)
  rw [restoreAllRegistersAndERet]
  have hcontexts : Stacks { s with core := s.core, place := .code } (· = s.current) :=
    { h.contexts with }
  refine sound_resume hcontexts (fun _ ht => ht) h.stack hresumed ?_
  rw [Core.eret_mem, restoreAllRegisters_mem]

/-- A call of a function that needs nothing but the context. -/
theorem call {f : Callee} {k : Return} (hmain : f ≠ .mainExceptionHandler)
    (hsyscall : f ≠ .syscallDispatcher) (hsp : c.reg .sp = s.core.reg .sp)
    (hthread : c.reg (.x 18) = s.current) (hmem : c.mem = s.core.mem) :
    Sound s (.call f k c) := by
  have hstacks : Stacks { s with core := c, place := .calling f k } (· = s.current) := by
    refine h.contexts.change hthread (fun a _ _ => congrFun hmem a) ?_
    rintro t rfl
    exact h.contexts.current
  have hcurrent : Kernel.current { s with core := c, place := .calling f k } = s.current := hthread
  refine ⟨⟨?_, ?_⟩, fun c hc => by cases hc⟩
  · change Stacks _ (· = Kernel.current { s with core := c, place := .calling f k })
    rw [hcurrent]
    exact hstacks
  · intro f' k' hplace
    obtain ⟨rfl, rfl⟩ := Place.calling.inj hplace
    refine ⟨ctx, rest, hcurrent ▸ h.stack, ⟨hsp.trans h.sp, ?_, ?_, ?_⟩⟩
    · rintro (hf | hf)
      · exact absurd hf hmain
      · exact absurd hf hsyscall
    · exact fun hf => absurd hf hmain
    · exact fun hf => absurd hf hsyscall

theorem nextScheduled : Sound s (getAndRunNextScheduledSpark s.core) :=
  h.call (by decide) (by decide) rfl rfl rfl

theorem enterSpark : Sound s (enterUserModeSpark addr s.core) := by
  have hthread : (s.core.execAll addr runUserModeSpark).eret.reg (.x 18) = s.current := by
    simp [runUserModeSpark, Core.execAll, Core.exec, Core.eret, Core.setReg_reg, Kernel.current]
  have hstacks : Stacks
      { s with core := (s.core.execAll addr runUserModeSpark).eret, place := .code }
      (· = s.current) := by
    refine h.contexts.change hthread (fun a _ _ => rfl) ?_
    rintro t rfl
    exact h.contexts.current
  refine ⟨⟨?_, fun f k hplace => by cases hplace⟩, fun c hc => by cases hc⟩
  change Stacks _ (· = (s.core.execAll addr runUserModeSpark).eret.reg (.x 18))
  rw [hthread]
  exact hstacks

section Sparks

variable (hspark : s.core.reg (.x 1) ≠ addr (.label .threadContextSwitchSpark))

include hspark

theorem invoke (k : Return) : Sound s (invokeSpark addr k s.core) := by
  rw [invokeSpark]
  split
  · exact h.enterSpark
  · exact h.call (by decide) (by decide) rfl rfl rfl

theorem runSpark : Sound s (Exceptions.runSpark addr s.core) := by
  rw [Exceptions.runSpark]
  split
  · exact h.restore
  · exact h.invoke hspark .sparkDone

/-- The code goes on behind a function that does not ask for another thread. -/
theorem goOn (k : Return) : Sound s (Exceptions.goOn addr s.core k) := by
  cases k with
  | irqDispatched =>
      rw [Exceptions.goOn]
      split
      · exact h.nextScheduled
      · exact h.invoke hspark .irqSparkDone
  | irqSparkDone =>
      rw [Exceptions.goOn]
      split
      · refine h.call (by decide) (by decide) ?_ ?_ rfl
        · simp [irqDispatch, Core.execAll, Core.exec, Core.setReg_reg]
        · simp [irqDispatch, Core.execAll, Core.exec, Core.setReg_reg, Kernel.current]
      · exact h.invoke hspark .irqSparkDone
  | handled =>
      rw [Exceptions.goOn]
      split
      · exact h.restore
      · exact h.invoke hspark .handledSparkDone
  | handledSparkDone =>
      rw [Exceptions.goOn]
      split
      · exact h.restore
      · exact h.invoke hspark .handledSparkDone
  | runSpark => exact h.runSpark hspark
  | sparkDone =>
      rw [Exceptions.goOn]
      split
      · exact h.nextScheduled
      · exact h.runSpark hspark

end Sparks

end Handling

variable (addr) in
/-- The memory behind the two stores of `ThreadContextSwitchSpark`, and the registers. -/
theorem saveAndSwitch (c : Core) :
    let saved := c.execAll addr saveSwitched
    let switched := c.execAll addr (saveSwitched ++ switchStack)
    switched.mem = Function.update saved.mem (c.reg (.x 18)) (c.reg .sp) ∧
      switched.reg .sp = c.reg (.x 0) ∧ switched.reg (.x 18) = c.reg (.x 18) := by
  intro saved switched
  have hthread : saved.reg (.x 18) = c.reg (.x 18) := saveSwitched_reg c (by decide)
  have hspark : saved.reg (.x 0) = c.reg (.x 0) := saveSwitched_reg c (by decide)
  have hpointer : saved.reg (.x 8) = c.reg .sp := saveSwitched_pointer c
  have hswitched : switched = (saved.store (saved.reg (.x 18) + BitVec.ofNat 64 0)
      (saved.reg (.x 8))).setReg .sp (saved.reg (.x 0)) := Core.execAll_append addr c _ _
  rw [hswitched, hthread, hspark, hpointer]
  refine ⟨?_, ?_, ?_⟩
  · change Function.update saved.mem (c.reg (.x 18) + 0) (c.reg .sp) = _
    rw [add_zero]
  · rw [Core.setReg_reg, if_pos rfl]
  · rw [Core.setReg_reg, if_neg (by decide)]
    exact hthread

/-- `ThreadContextSwitchSpark` with the context of a thread that waits. -/
theorem sound_switch {busy : Word → Prop} {t : Word} (h : Stacks s busy)
    (hbusy : ∀ t', busy t' → t' = s.current ∨ t' = t) (hstack : s.suspended s.current = ctx :: rest)
    (htarget : s.suspended t = ctx' :: rest')
    (hsp : s.core.reg .sp = ctx.base) (hregs : ∀ r, nonvolatile r → s.core.reg r = ctx.reg r)
    (hargument : s.core.reg (.x 0) = ctx'.base) :
    Sound s (threadContextSwitchSpark addr s.core) := by
  have hctx : ctx ∈ s.suspended s.current := hstack ▸ List.mem_cons_self
  have hctx' : ctx' ∈ s.suspended t := htarget ▸ List.mem_cons_self
  have hfar : s.core.reg (.x 18) ∉ frame ctx.base :=
    h.records s.current h.current s.current ctx hctx
  have hsaved : Holds (s.core.execAll addr saveSwitched).mem ctx :=
    saveSwitched_holds (h.holds s.current ctx hctx) hsp (h.sp s.current ctx hctx) hregs
  have houtside : ∀ a ∉ frame ctx.base,
      (s.core.execAll addr saveSwitched).mem a = s.core.mem a :=
    fun a ha => saveSwitched_outside s.core (hsp ▸ ha)
  obtain ⟨hmem, hpointer, hthread⟩ := saveAndSwitch addr s.core
  rw [threadContextSwitchSpark, restoreAllRegistersAndERet]
  generalize s.core.execAll addr (saveSwitched ++ switchStack) = switched at hmem hpointer hthread
  have hholds : Holds switched.mem ctx := by
    refine hsaved.congr fun a ha => ?_
    have hne : a ≠ s.core.reg (.x 18) := fun heq => hfar (heq ▸ ha)
    rw [hmem, Function.update_of_ne hne]
  have hsave : Stacks { s with core := switched, place := .code }
      (fun t' => busy t' ∧ t' ≠ s.current) := by
    apply h.save hstack hthread hholds
    · rw [hmem]
      exact (Function.update_self _ _ _).trans hsp
    · intro a hframe hrecord
      have hne : a ≠ s.core.reg (.x 18) := hrecord
      rw [hmem, Function.update_of_ne hne]
      exact houtside a hframe
  have hresumed : Resumed ctx' (switched.execAll addr restoreAllRegisters).eret :=
    resumed_restore (hsave.holds t ctx' hctx') (hpointer.trans hargument) (h.sp t ctx' hctx')
  refine sound_resume hsave ?_ htarget hresumed ?_
  · rintro t' ⟨hbusy', hother⟩
    exact (hbusy t' hbusy').resolve_left hother
  · rw [Core.eret_mem, restoreAllRegisters_mem]

section Entry

/-- An exception that pushes a context. -/
theorem sound_entry {code : Code} {saved : List Reg} {f : Callee} {k : Return} (h : s.OneRuns)
    (hroom : s.Room) (hcode : EntryCode code saved) (hsp : c.reg .sp = s.core.reg .sp)
    (hthread : c.reg (.x 18) = s.current) (hmem : c.mem = s.core.mem)
    (hbase : ctx.base = s.core.reg .sp - 784) (hctxSp : ctx.reg .sp = c.reg .sp)
    (hregs : ∀ r, nonvolatile r → ctx.reg r = c.reg r)
    (hholds : Holds (c.execAll addr code).mem ctx)
    (hmain : f = .mainExceptionHandler → k = .handled)
    (hsyscall : f = .syscallDispatcher → k = .runSpark) :
    Sound (s.push ctx) (.call f k (c.execAll addr code)) := by
  have hentered : (c.execAll addr code).reg (.x 18) = s.current :=
    (hcode.nonvolatile_eq c (by decide)).trans hthread
  have hcontext : ctx.reg (.x 18) = s.current := (hregs _ (by decide)).trans hthread
  have hpush : Stacks { s.push ctx with core := c.execAll addr code, place := .calling f k }
      (· = s.current) := by
    refine h.push hroom hbase ?_ hcontext hholds hentered ?_
    · rw [hctxSp, hsp, hbase, sub_add_cancel]
    · intro a ha
      rw [hcode.outside c (hsp ▸ ha), hmem]
  have hsp' : (c.execAll addr code).reg .sp = ctx.base := by rw [hcode.sp_eq, hsp, hbase]
  have hargument : (c.execAll addr code).reg (.x 0) = ctx.base := by
    rw [hcode.context_eq, hsp, hbase]
  have hkeeps : ∀ r, nonvolatile r → (c.execAll addr code).reg r = ctx.reg r :=
    fun r hr => (hcode.nonvolatile_eq c hr).trans (hregs r hr).symm
  generalize c.execAll addr code = entered at *
  refine ⟨⟨?_, ?_⟩, fun c hc => by cases hc⟩
  · change Stacks _ (· = entered.reg (.x 18))
    rw [hentered]
    exact hpush
  · intro f' k' hplace
    obtain ⟨rfl, rfl⟩ := Place.calling.inj hplace
    refine ⟨ctx, s.suspended s.current, ?_, ⟨hsp', fun _ => ⟨hkeeps, hargument⟩, hmain, hsyscall⟩⟩
    change (s.push ctx).suspended (entered.reg (.x 18)) = _
    rw [hentered, Kernel.push_suspended, if_pos rfl]

theorem takeException_sp (c : Core) : c.takeException.reg .sp = c.reg .sp :=
  c.takeException_reg (by decide) (by decide)

theorem takeSynchronous_sp (c : Core) (syndrome : Word) :
    (c.takeSynchronous syndrome).reg .sp = c.reg .sp :=
  (c.takeSynchronous_reg syndrome (by decide)).trans (takeException_sp c)

theorem takeSynchronous_thread (c : Core) (syndrome : Word) :
    (c.takeSynchronous syndrome).reg (.x 18) = c.reg (.x 18) :=
  (c.takeSynchronous_reg syndrome (by decide)).trans (c.takeException_reg (by decide) (by decide))

theorem ne_esr {r : Reg} {off : Nat} (hslot : slot r = some off) : r ≠ .esr := by
  rintro rfl
  cases hslot

theorem nonvolatile_ne_esr {r : Reg} (h : nonvolatile r) : r ≠ .esr := by
  rintro rfl
  cases h

theorem sound_irq (h : s.OneRuns) (hroom : s.Room) :
    Sound (s.push (.interrupted s.core)) (irqExceptionVector addr s.core) := by
  refine sound_entry h hroom irqEntry_code (takeException_sp s.core)
    (s.core.takeException_reg (by decide) (by decide)) rfl rfl rfl (fun _ _ => rfl) ?_ ?_ ?_
  · intro r off hslot
    have hsaved : (s.core.takeException.execAll addr irqEntry).mem
        (s.core.takeException.reg .sp - 784 + BitVec.ofNat 64 off) = s.core.takeException.reg r :=
      irqEntry_code.saved_eq s.core.takeException (mem_contextRegs hslot) hslot
    rwa [takeException_sp] at hsaved
  · exact fun hf => by cases hf
  · exact fun hf => by cases hf

/-- The first branch of `SynchronousExceptionVector`. -/
theorem detectSyscall_class (syndrome : Word) (c : Core) :
    ((c.takeSynchronous syndrome).execAll addr detectSyscall).reg (.x 1) = 0 ↔
      isSyscall syndrome := by
  obtain ⟨hknown, hclass, -⟩ := detect_code
  have hesr : (c.takeSynchronous syndrome).reg .esr = syndrome := by
    rw [Core.takeSynchronous, Core.setReg_reg, if_pos rfl]
  rw [(describes_summaryOf hknown _).reg, hclass, Value.eval, Value.eval, Value.eval, hesr, add_zero,
    ← sub_eq_add_neg, sub_eq_zero]
  rfl

/-- The second one. -/
theorem detectSparkEnd_number (syndrome : Word) (c : Core) :
    (((c.takeSynchronous syndrome).execAll addr detectSyscall).execAll addr detectSparkEnd).reg
      (.x 8) = syscallNumber syndrome := by
  obtain ⟨-, -, hknown, hnumber, -⟩ := detect_code
  have hesr : (c.takeSynchronous syndrome).reg .esr = syndrome := by
    rw [Core.takeSynchronous, Core.setReg_reg, if_pos rfl]
  rw [← Core.execAll_append, (describes_summaryOf hknown _).reg, hnumber, Value.eval, Value.eval,
    hesr, add_zero]
  rfl

theorem sound_synchronous (h : s.OneRuns) (hroom : s.Room) {syndrome : Word}
    (hclass : ¬ isSyscall syndrome) :
    Sound (s.push (.interrupted s.core)) (synchronousExceptionVector addr syndrome s.core) := by
  rw [synchronousExceptionVector, if_neg (mt (detectSyscall_class syndrome s.core).mp hclass),
    ← Core.execAll_append]
  refine sound_entry h hroom synchronousEntry_code (takeSynchronous_sp s.core syndrome)
    (takeSynchronous_thread s.core syndrome) rfl rfl ?_ ?_ ?_ ?_ ?_
  · exact (takeException_sp s.core).trans (takeSynchronous_sp s.core syndrome).symm
  · exact fun r hr => (s.core.takeSynchronous_reg syndrome (nonvolatile_ne_esr hr)).symm
  · intro r off hslot
    have hsaved : ((s.core.takeSynchronous syndrome).execAll addr
        (detectSyscall ++ synchronousEntry)).mem
          ((s.core.takeSynchronous syndrome).reg .sp - 784 + BitVec.ofNat 64 off) =
        (s.core.takeSynchronous syndrome).reg r :=
      synchronousEntry_code.saved_eq _ (mem_contextRegs hslot) hslot
    rw [takeSynchronous_sp, s.core.takeSynchronous_reg syndrome (ne_esr hslot)] at hsaved
    exact hsaved
  · exact fun _ => rfl
  · exact fun hf => by cases hf

/-- What lies in the context of a computation that called the system. -/
theorem holds_calledSystem (c : Core) (syndrome : Word) :
    Holds ((c.takeSynchronous syndrome).execAll addr syscallCode).mem (.calledSystem c) := by
  intro r off hslot
  have hdescribes : (summaryOf syscallCode).Describes addr (c.takeSynchronous syndrome)
      ((c.takeSynchronous syndrome).execAll addr syscallCode) :=
    describes_summaryOf syscallEntry_code.known _
  have hsp := takeSynchronous_sp c syndrome
  obtain ⟨hlow, hhigh, -, hleaves⟩ := syscallCode_leaves
  have hword := hdescribes.word (-784 + BitVec.ofNat 64 off)
  rw [hsp, ← add_assoc, ← sub_eq_add_neg] at hword
  change _ = if keptBySyscall r then _ else _
  by_cases hkept : keptBySyscall r
  · rw [if_pos hkept]
    have hsaved := syscallEntry_code.saves.word_eq hdescribes
      (List.mem_filter.mpr ⟨mem_contextRegs hslot, hkept⟩) hslot
    rw [hsp, ← sub_eq_add_neg] at hsaved
    exact hsaved.trans (c.takeSynchronous_reg syndrome (ne_esr hslot))
  · rw [if_neg hkept]
    by_cases hq0 : r = .q 31 0
    · subst hq0
      obtain rfl : 768 = off := Option.some.inj hslot
      have hslot' : (-784 : Word) + BitVec.ofNat 64 768 = -16 := by decide
      rw [hslot', hlow, Value.eval, add_zero,
        c.takeSynchronous_reg syndrome (by decide), c.takeException_reg (by decide) (by decide)]
        at hword
      rw [if_pos rfl]
      exact hword
    · by_cases hq1 : r = .q 31 1
      · subst hq1
        obtain rfl : 776 = off := Option.some.inj hslot
        have hslot' : (-784 : Word) + BitVec.ofNat 64 776 = -8 := by decide
        rw [hslot', hhigh, Value.eval, add_zero,
          c.takeSynchronous_reg syndrome (by decide), c.takeException_reg (by decide) (by decide)]
          at hword
        rw [if_neg (by decide), if_pos rfl]
        exact hword
      · rw [if_neg hq0, if_neg hq1, hslot]
        rw [hleaves r (mem_contextRegs hslot) hkept hq0 hq1 off hslot] at hword
        rw [Value.eval, hsp, ← add_assoc, ← sub_eq_add_neg] at hword
        exact hword

/-- `SyscallDispatcher` finds the syndrome of the `svc`. -/
theorem syscallCode_syndrome (c : Core) (syndrome : Word) :
    ((c.takeSynchronous syndrome).execAll addr syscallCode).reg .esr = syndrome := by
  obtain ⟨-, -, hkeeps, -⟩ := syscallCode_leaves
  rw [hkeeps.reg_eq (describes_summaryOf syscallEntry_code.known _) (by decide),
    Core.takeSynchronous, Core.setReg_reg, if_pos rfl]

/-- A `svc` other than `svc #0` leads to `SyscallDispatcher`. -/
theorem synchronousExceptionVector_syscall {syndrome : Word} (hclass : isSyscall syndrome)
    (hnumber : syscallNumber syndrome ≠ 0) (c : Core) :
    synchronousExceptionVector addr syndrome c = .call .syscallDispatcher .runSpark
      ((c.takeSynchronous syndrome).execAll addr syscallCode) := by
  rw [synchronousExceptionVector, if_pos ((detectSyscall_class syndrome c).mpr hclass),
    dispatchToSyscall, detectSparkEnd_number, if_neg hnumber, ← Core.execAll_append,
    ← Core.execAll_append]
  rfl

theorem sound_syscall (h : s.OneRuns) (hroom : s.Room) {syndrome : Word}
    (hclass : isSyscall syndrome) (hnumber : syscallNumber syndrome ≠ 0) :
    Sound (s.push (.calledSystem s.core)) (synchronousExceptionVector addr syndrome s.core) := by
  rw [synchronousExceptionVector_syscall hclass hnumber]
  refine sound_entry h hroom syscallEntry_code (takeSynchronous_sp s.core syndrome)
    (takeSynchronous_thread s.core syndrome) rfl rfl ?_ ?_ (holds_calledSystem s.core syndrome) ?_ ?_
  · exact (takeException_sp s.core).trans (takeSynchronous_sp s.core syndrome).symm
  · intro r hr
    have hkept : keptBySyscall r := kept_of_nonvolatile hr
    exact (if_pos hkept).trans (s.core.takeSynchronous_reg syndrome (nonvolatile_ne_esr hr)).symm
  · exact fun hf => by cases hf
  · exact fun _ => rfl

/-- The `svc #0` behind a user-mode spark, which pushes nothing. -/
theorem sound_sparkEnd (h : s.OneRuns) (hroom : s.Room) {syndrome : Word}
    (hclass : isSyscall syndrome) (hnumber : syscallNumber syndrome = 0)
    (hspark : s.SuspendedAt (s.core.reg .sp)) :
    Sound s (synchronousExceptionVector addr syndrome s.core) := by
  obtain ⟨ctx, rest, hstack, hbase⟩ := hspark
  obtain ⟨-, -, hknown, -, hkeeps, hwithin⟩ := detect_code
  rw [synchronousExceptionVector, if_pos ((detectSyscall_class syndrome s.core).mpr hclass),
    dispatchToSyscall, detectSparkEnd_number, if_pos hnumber, ← Core.execAll_append]
  have hdescribes : (summaryOf (detectSyscall ++ detectSparkEnd)).Describes addr
      (s.core.takeSynchronous syndrome)
      ((s.core.takeSynchronous syndrome).execAll addr (detectSyscall ++ detectSparkEnd)) :=
    describes_summaryOf hknown _
  have hsp : ((s.core.takeSynchronous syndrome).execAll addr
      (detectSyscall ++ detectSparkEnd)).reg .sp = s.core.reg .sp :=
    (hkeeps.reg_eq hdescribes (by decide)).trans (takeSynchronous_sp s.core syndrome)
  have hthread : ((s.core.takeSynchronous syndrome).execAll addr
      (detectSyscall ++ detectSparkEnd)).reg (.x 18) = s.current :=
    (hkeeps.reg_eq hdescribes (by decide)).trans (takeSynchronous_thread s.core syndrome)
  have hmem : ∀ a ∈ s.guarded, ((s.core.takeSynchronous syndrome).execAll addr
      (detectSyscall ++ detectSparkEnd)).mem a = s.core.mem a := by
    intro a ha
    apply hdescribes.outside hwithin
    rw [takeSynchronous_sp, ← sub_eq_add_neg]
    exact not_lt.mp fun hframe => hroom a hframe ha
  generalize (s.core.takeSynchronous syndrome).execAll addr (detectSyscall ++ detectSparkEnd) = c
    at hsp hthread hmem
  have hcontexts : Stacks { s with core := c, place := s.place } (· = c.reg (.x 18)) := by
    rw [hthread]
    exact h.change hthread (fun a ha _ => hmem a ha) fun t ht => ht ▸ h.current
  have hhandling : Handling { s with core := c } ctx rest := by
    refine ⟨hcontexts, ?_, hsp.trans hbase.symm⟩
    change s.suspended (c.reg (.x 18)) = _
    rw [hthread]
    exact hstack
  exact hhandling.nextScheduled.of_core

end Entry

/-- The code labels are addresses of instructions. -/
structure Aligned (addr : Symbol Label → Word) : Prop where
  ne_zero : ∀ label, addr (.label label) ≠ 0
  aligned : ∀ label, (addr (.label label)).getLsbD 0 = false

section Returned

variable (haddr : Aligned addr)

include haddr

/-- A spark that switches threads is called at once. -/
theorem goOn_switch {k : Return} (hk : k = .handled ∨ k = .runSpark)
    (hfunc : c.reg (.x 1) = addr (.label .threadContextSwitchSpark)) :
    goOn addr c k = threadContextSwitchSpark addr c := by
  have hne : c.reg (.x 1) ≠ 0 := hfunc ▸ haddr.ne_zero _
  have hinvoke : ∀ k, invokeSpark addr k c = threadContextSwitchSpark addr c := by
    intro k
    rw [invokeSpark, hfunc, haddr.aligned]
    simp
  obtain rfl | rfl := hk
  · rw [goOn, if_neg hne, hinvoke]
  · rw [goOn, runSpark, if_neg hne, hinvoke]

omit haddr in
/-- A function that asks for no other thread returns. -/
theorem sound_returned {f : Callee} {k : Return} (h : s.OneRuns)
    (hstack : s.suspended s.current = ctx :: rest) (hserving : Serving f k s.core ctx)
    (hsaved : CalleeSaved s.core c) (hmem : ∀ a ∈ s.guarded, c.mem a = s.core.mem a)
    (hspark : c.reg (.x 1) ≠ addr (.label .threadContextSwitchSpark)) :
    Sound { s with core := c } (goOn addr c k) := by
  have hthread : c.reg (.x 18) = s.current := hsaved.regs (.x 18) (by decide)
  have hcontexts : Stacks { s with core := c, place := s.place } (· = c.reg (.x 18)) := by
    rw [hthread]
    exact h.change hthread (fun a ha _ => hmem a ha) fun t ht => ht ▸ h.current
  have hhandling : Handling { s with core := c } ctx rest := by
    refine ⟨hcontexts, ?_, hsaved.sp.trans hserving.sp⟩
    change s.suspended (c.reg (.x 18)) = _
    rw [hthread]
    exact hstack
  exact hhandling.goOn hspark k

theorem sound_syscallDispatcher {k : Return} (h : s.OneRuns)
    (hstack : s.suspended s.current = ctx :: rest)
    (hserving : Serving .syscallDispatcher k s.core ctx) (hsaved : CalleeSaved s.core c)
    (hreturns : Returns addr debugger s c .syscallDispatcher) :
    Sound { s with core := c } (goOn addr c k) := by
  obtain ⟨hwaits, ⟨spark, m⟩, hresult, hspark⟩ := hreturns
  have hthread : c.reg (.x 18) = s.current := hsaved.regs (.x 18) (by decide)
  by_cases hyield : instructionSyndrome (s.core.reg .esr) = yieldToThread
  · obtain ⟨ht, hne⟩ := hwaits hyield
    rw [syscallDispatcher, if_pos hyield] at hresult
    obtain ⟨rfl, rfl⟩ := Prod.mk.inj (Option.some.inj hresult)
    generalize s.core.mem (s.core.reg (.x 0) + BitVec.ofNat 64 (8 * 0)) = t at ht hne hspark
    obtain ⟨ctx', rest', htarget, hrecord⟩ := h.waiting t ht hne
    rw [goOn_switch haddr (Or.inr (hserving.syscall rfl)) hspark.func]
    have hcontexts : Stacks { s with core := c, place := s.place }
        (fun t' => t' = s.current ∨ t' = t) := by
      refine (h.mono fun _ ht' => Or.inl ht').change hthread ?_ ?_
      · intro a ha hfree
        exact (hspark.mem a ha).trans (Function.update_of_ne (hfree t (Or.inr rfl)) _ _)
      · rintro t' (rfl | rfl)
        · exact h.current
        · exact ht
    obtain ⟨hfresh, -⟩ := hserving.fresh (Or.inr rfl)
    have hcurrent : s.suspended (c.reg (.x 18)) = ctx :: rest := by
      rw [hthread]
      exact hstack
    refine sound_switch hcontexts ?_ hcurrent htarget
      (hsaved.sp.trans hserving.sp) (fun r hr => (hsaved.regs r hr).trans (hfresh r hr))
      (hspark.context.trans hrecord)
    rintro t' (rfl | rfl)
    · exact Or.inl hthread.symm
    · exact Or.inr rfl
  · have hm : m = s.core.mem ∧ spark = {} := by
      rw [syscallDispatcher, if_neg hyield] at hresult
      split at hresult
      · obtain ⟨rfl, rfl⟩ := Prod.mk.inj (Option.some.inj hresult)
        exact ⟨rfl, rfl⟩
      · cases hresult
    obtain ⟨rfl, rfl⟩ := hm
    refine sound_returned h hstack hserving hsaved hspark.mem ?_
    rw [hspark.func]
    exact (haddr.ne_zero _).symm

theorem sound_mainExceptionHandler {k : Return} (h : s.OneRuns)
    (hstack : s.suspended s.current = ctx :: rest)
    (hserving : Serving .mainExceptionHandler k s.core ctx) (hsaved : CalleeSaved s.core c)
    (hreturns : Returns addr debugger s c .mainExceptionHandler) :
    Sound (Kernel.setArgument { s with core := c } debugger (s.core.reg (.x 0)))
      (goOn addr c k) := by
  obtain ⟨⟨ht, hne⟩, ⟨spark, m⟩, hresult, hspark⟩ := hreturns
  have hthread : c.reg (.x 18) = s.current := hsaved.regs (.x 18) (by decide)
  rw [mainExceptionHandler] at hresult
  split at hresult
  · obtain ⟨rfl, rfl⟩ := Prod.mk.inj (Option.some.inj hresult)
    obtain ⟨ctx', rest', htarget, hrecord⟩ := h.waiting debugger ht hne
    rw [hrecord] at hspark
    rw [goOn_switch haddr (Or.inl (hserving.main rfl)) hspark.func]
    have hcontexts : Stacks
        { s.setArgument debugger (s.core.reg (.x 0)) with core := c, place := s.place }
        (· = s.current) := h.setArgument htarget hthread hspark.mem
    have hstacks' : ∀ t, (s.setArgument debugger (s.core.reg (.x 0))).suspended t =
        if t = debugger then ctx'.withArgument (s.core.reg (.x 0)) :: rest' else s.suspended t := by
      intro t
      rw [Kernel.setArgument_suspended, htarget]
      rfl
    obtain ⟨hfresh, -⟩ := hserving.fresh (Or.inl rfl)
    have hcurrent : (s.setArgument debugger (s.core.reg (.x 0))).suspended (c.reg (.x 18)) =
        ctx :: rest := by
      rw [hstacks', hthread, if_neg (Ne.symm hne)]
      exact hstack
    exact sound_switch hcontexts (fun t' ht' => Or.inl (ht'.trans hthread.symm)) hcurrent
      ((hstacks' debugger).trans (if_pos rfl)) (hsaved.sp.trans hserving.sp)
      (fun r hr => (hsaved.regs r hr).trans (hfresh r hr)) hspark.context
  · cases hresult

end Returned

theorem effect_sound (haddr : Aligned addr) (h : Inv s) {a : Action}
    (hd : Disciplined addr debugger s a) (he : effect addr debugger s a = some (s', o)) :
    Sound s' o := by
  cases a with
  | run c => cases he
  | createThread info stackHigh function context => cases he
  | irq =>
      rw [effect] at he
      split at he
      · obtain ⟨rfl, rfl⟩ := Prod.mk.inj (Option.some.inj he)
        exact sound_irq h.contexts hd
      · cases he
  | synchronous syndrome =>
      obtain ⟨hroom, hspark⟩ := hd
      simp only [effect] at he
      split at he
      · split at he
        · next hclass =>
            obtain ⟨rfl, rfl⟩ := Prod.mk.inj (Option.some.inj he)
            exact sound_synchronous h.contexts hroom hclass
        · next hclass =>
            split at he
            · next hnumber =>
                obtain ⟨rfl, rfl⟩ := Prod.mk.inj (Option.some.inj he)
                exact sound_sparkEnd h.contexts hroom (not_not.mp hclass) hnumber
                  (hspark (not_not.mp hclass) hnumber)
            · next hnumber =>
                obtain ⟨rfl, rfl⟩ := Prod.mk.inj (Option.some.inj he)
                exact sound_syscall h.contexts hroom (not_not.mp hclass) hnumber
      · cases he
  | returned c =>
      obtain ⟨hsaved, hreturns⟩ := hd
      simp only [effect] at he
      split at he
      · cases he
      · next f k hplace =>
          obtain ⟨ctx, rest, hstack, hserving⟩ := h.serving f k hplace
          have hreturned := hreturns f k hplace
          split at he
          · next hf =>
              subst hf
              obtain ⟨rfl, rfl⟩ := Prod.mk.inj (Option.some.inj he)
              exact sound_mainExceptionHandler haddr h.contexts hstack hserving hsaved hreturned
          · next hf =>
              obtain ⟨rfl, rfl⟩ := Prod.mk.inj (Option.some.inj he)
              cases f with
              | mainExceptionHandler => exact absurd rfl hf
              | syscallDispatcher =>
                  exact sound_syscallDispatcher haddr h.contexts hstack hserving hsaved hreturned
              | _ => exact sound_returned h.contexts hstack hserving hsaved hreturned.2 hreturned.1

end RPiKernel.Exceptions
