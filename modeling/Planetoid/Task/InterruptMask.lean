import Planetoid.Task.Inert
import Planetoid.Task.Machine

namespace Planetoid.Task

open Planetoid Program Links Arch

/-! The interrupt mask of a task across its calls of `yield`, `sleep` and
`lock`. -/

/-- A task that `eret` resumes runs with no mask bit set. -/
def ResumesUnmasked (state : State) : Prop :=
  ∀ task, (state.tasks task).cpuContext.pstate.daif = 0

structure MaskIs (daif : Nat) (state : State) : Prop where
  resumes : ResumesUnmasked state
  daif : state.daif = daif

theorem resumesUnmasked_inert : Inert ResumesUnmasked := by
  intro before after _ _ hpstate h task
  rw [hpstate]
  exact h task

theorem maskIs_inert (daif : Nat) : Inert (MaskIs daif) := by
  intro before after hdaif hlocked hpstate h
  exact ⟨resumesUnmasked_inert before after hdaif hlocked hpstate h.resumes,
    hdaif.trans h.daif⟩

/-- The `eret` at the end of an interrupt goes on with no mask bit set. -/
def EretUnmasks (frame : ExceptionContext) (state : State) : Prop :=
  ResumesUnmasked state ∧ frame.spsr.daif = 0

theorem MaskIs.masked {daif : Nat} {state : State} (h : MaskIs daif state) :
    MaskIs (daif ||| Interrupts.irqBit) state.masked :=
  ⟨h.resumes, congrArg (· ||| Interrupts.irqBit) h.daif⟩

theorem MaskIs.restore {masked : Nat} {state : State}
    (h : MaskIs masked state) (daif : Nat) :
    MaskIs daif (state.withDaif daif) :=
  ⟨h.resumes, rfl⟩

/-- After a function that masks interrupts: restored when it returned, still
masked when it chose another task. -/
def MaskLeft (daif : Nat) (exit : Exit) (state : State) : Prop :=
  match exit with
  | .returned => MaskIs daif state
  | .switched _ _ => MaskIs (daif ||| Interrupts.irqBit) state

namespace Scheduler

theorem switchToIdle_ends {daif : Nat} {state : State}
    (h : MaskIs (daif ||| Interrupts.irqBit) state) (previous : TaskRef) :
    (switchToIdle previous).Ends (MaskLeft daif) state := by
  have inert := maskIs_inert (daif ||| Interrupts.irqBit)
  refine (keeps_read _).ends_bind h fun idle first hfirst => ?_
  refine (keeps_deref idle).ends_bind hfirst fun task second hsecond => ?_
  refine (inert.keeps (quiet_setState task .running)).ends_bind hsecond
    fun _ third hthird => ?_
  refine (keeps_read _).ends_bind hthird fun idle fourth hfourth => ?_
  refine (keeps_setCurrentTask inert idle).ends_bind hfourth
    fun _ fifth hfifth => ?_
  refine (keeps_read _).ends_bind hfifth fun idle sixth hsixth => ?_
  exact (keeps_deref idle).ends_bind hsixth fun _ _ hlast => hlast

theorem take_ends {daif : Nat} {state : State}
    (h : MaskIs (daif ||| Interrupts.irqBit) state)
    (previous next : TaskRef) :
    (do
      setState next .running
      setCurrentTask (some next)
      pure (Exit.switched previous next)).Ends (MaskLeft daif) state := by
  have inert := maskIs_inert (daif ||| Interrupts.irqBit)
  refine (inert.keeps (quiet_setState next .running)).ends_bind h
    fun _ after hafter => ?_
  exact (keeps_setCurrentTask inert (some next)).ends_bind hafter
    fun _ _ hlast => hlast

theorem yield_ends {daif : Nat} {state : State} (h : MaskIs daif state)
    (budget : Nat) : (yield budget).Ends (MaskLeft daif) state := by
  have inert := maskIs_inert (daif ||| Interrupts.irqBit)
  have hsaved : state.daif = daif := h.daif
  refine ends_bind.mpr (ends_irqSave.mpr ?_)
  refine (keeps_read _).ends_bind h.masked fun current first hfirst => ?_
  cases current with
  | none =>
      rw [hsaved]
      exact hfirst.restore daif
  | some current =>
      refine (keeps_load current _).ends_bind hfirst
        fun start second hsecond => ?_
      have scanning := inert.keeps
        (quiet_scanReady (quiet_read (·.currentTask)) budget start)
      refine scanning.ends_bind hsecond fun next third hthird => ?_
      refine (keeps_read _).ends_bind hthird fun current fourth hfourth => ?_
      split
      · rw [hsaved]
        exact hfourth.restore daif
      · refine (keeps_read _).ends_bind hfourth
          fun current fifth hfifth => ?_
        refine (keeps_deref current).ends_bind hfifth
          fun task sixth hsixth => ?_
        refine (inert.keeps (quiet_setState task .ready)).ends_bind hsixth
          fun _ seventh hseventh => ?_
        refine (keeps_deref next).ends_bind hseventh
          fun next eighth heighth => ?_
        refine (inert.keeps (quiet_setState next .running)).ends_bind heighth
          fun _ ninth hninth => ?_
        refine (keeps_read _).ends_bind hninth fun current tenth htenth => ?_
        refine (keeps_deref current).ends_bind htenth
          fun previous last hlast => ?_
        exact (keeps_setCurrentTask inert (some next)).ends_bind hlast
          fun _ _ hdone => hdone

theorem sleep_ends {daif : Nat} {state : State} (h : MaskIs daif state)
    (budget ticks : Nat) : (sleep budget ticks).Ends (MaskLeft daif) state := by
  have inert := maskIs_inert (daif ||| Interrupts.irqBit)
  refine (keeps_read _).ends_bind h fun current first hfirst => ?_
  cases current with
  | none => exact hfirst
  | some current =>
      dsimp only
      split
      · exact hfirst
      · refine ends_bind.mpr (ends_irqSave.mpr ?_)
        refine (keeps_read _).ends_bind hfirst.masked
          fun current second hsecond => ?_
        refine (keeps_deref current).ends_bind hsecond
          fun previous third hthird => ?_
        refine (keeps_read _).ends_bind hthird fun now fourth hfourth => ?_
        have waking : (store previous fun fields => { fields with
            wakeTick := (now + ticks) % Timer.ticksModulus }).Keeps
              (MaskIs (daif ||| Interrupts.irqBit)) :=
          inert.keeps_store fun _ => rfl
        refine waking.ends_bind hfourth fun _ fifth hfifth => ?_
        refine (inert.keeps (quiet_setState previous .sleeping)).ends_bind
          hfifth fun _ sixth hsixth => ?_
        refine (keeps_load previous _).ends_bind hsixth
          fun start seventh hseventh => ?_
        have scanning := inert.keeps
          (quiet_scanReady (respects_pure (some previous)) budget start)
        refine scanning.ends_bind hseventh fun next eighth heighth => ?_
        split
        · exact switchToIdle_ends heighth previous
        · refine (keeps_deref next).ends_bind heighth
            fun next ninth hninth => ?_
          exact take_ends hninth previous next

theorem addTask_ends {daif : Nat} {state : State} (h : MaskIs daif state)
    (task : TaskRef) :
    (addTask (some task)).Ends (fun _ => MaskIs daif) state := by
  have inert := maskIs_inert (daif ||| Interrupts.irqBit)
  have hsaved : state.daif = daif := h.daif
  refine ends_bind.mpr (ends_irqSave.mpr ?_)
  refine (inert.keeps (quiet_setState task .ready)).ends_bind h.masked
    fun _ first hfirst => ?_
  refine (keeps_read _).ends_bind hfirst fun list second hsecond => ?_
  cases list with
  | none =>
      refine (inert.keeps (quiet_setTaskList (some task))).ends_bind hsecond
        fun _ third hthird => ?_
      refine (inert.keeps (quiet_setNextTask task (some task))).ends_bind hthird
        fun _ last hlast => ?_
      rw [hsaved]
      exact hlast.restore daif
  | some head =>
      refine (keeps_load head _).ends_bind hsecond
        fun next third hthird => ?_
      refine (inert.keeps (quiet_setNextTask task next)).ends_bind hthird
        fun _ fourth hfourth => ?_
      refine (inert.keeps (quiet_setNextTask head (some task))).ends_bind
        hfourth fun _ last hlast => ?_
      rw [hsaved]
      exact hlast.restore daif

theorem restoreContext_ends {state : State} (h : ResumesUnmasked state)
    (task : TaskRef) (context : ExceptionContext) :
    (restoreContext task context).Ends EretUnmasks state := by
  refine ends_iff.mpr fun frame after ended => ?_
  obtain ⟨saved, middle, hload, hended⟩ := run_bind_eq_ok.mp ended
  by_cases valid : state.Valid task
  · rw [run_load valid] at hload
    cases hload
    cases hended
    exact ⟨h, h task⟩
  · simp [load, valid] at hload

theorem resume_ends {state : State} (h : ResumesUnmasked state)
    (next : TaskRef) (context : ExceptionContext) :
    (do
      setState next .running
      setCurrentTask (some next)
      restoreContext next context).Ends EretUnmasks state := by
  have inert := resumesUnmasked_inert
  refine (inert.keeps (quiet_setState next .running)).ends_bind h
    fun _ first hfirst => ?_
  refine (keeps_setCurrentTask inert (some next)).ends_bind hfirst
    fun _ last hlast => ?_
  exact restoreContext_ends hlast next context

theorem preempt_ends {state : State} (h : ResumesUnmasked state)
    {context : ExceptionContext} (hcontext : context.spsr.daif = 0)
    (budget : Nat) :
    (preempt budget context).Ends EretUnmasks state := by
  have inert := resumesUnmasked_inert
  refine (keeps_read _).ends_bind h fun current first hfirst => ?_
  cases current with
  | none => exact ⟨hfirst, hcontext⟩
  | some current =>
      refine (inert.keeps_calm calm_cleanupTerminatedTask).ends_bind hfirst
        fun _ second hsecond => ?_
      refine (keeps_read _).ends_bind hsecond fun current third hthird => ?_
      refine (keeps_read _).ends_bind hthird fun idle fourth hfourth => ?_
      split
      · refine (keeps_read _).ends_bind hfourth fun list fifth hfifth => ?_
        refine (inert.keeps (quiet_scanFromIdle budget list)).ends_bind hfifth
          fun found sixth hsixth => ?_
        cases found with
        | none => exact ⟨hsixth, hcontext⟩
        | some next => exact resume_ends hsixth next context
      · refine (keeps_read _).ends_bind hfourth
          fun current fifth hfifth => ?_
        refine (keeps_deref current).ends_bind hfifth
          fun task sixth hsixth => ?_
        refine (keeps_load task _).ends_bind hsixth
          fun value seventh hseventh => ?_
        split
        · exact ⟨hseventh, hcontext⟩
        · have saving : (saveContext task context).Keeps ResumesUnmasked := by
            refine keeps_store fun before hbefore other => ?_
            by_cases heq : other = task
            · subst other
              simp [hcontext]
            · rw [State.setTask_of_ne _ _ _ _ heq]
              exact hbefore other
          refine saving.ends_bind hseventh fun _ eighth heighth => ?_
          refine (inert.keeps (quiet_setState task .ready)).ends_bind heighth
            fun _ ninth hninth => ?_
          refine (keeps_load task _).ends_bind hninth
            fun start tenth htenth => ?_
          have scanning := inert.keeps
            (quiet_scanReady (quiet_read (·.currentTask)) budget start)
          refine scanning.ends_bind htenth fun next found hfound => ?_
          refine (keeps_read _).ends_bind hfound fun current last hlast => ?_
          split
          · refine (inert.keeps (quiet_setState task .running)).ends_bind hlast
              fun _ after hafter => ?_
            exact ⟨hafter, hcontext⟩
          · refine (keeps_deref next).ends_bind hlast
              fun next after hafter => ?_
            exact resume_ends hafter next context

end Scheduler

theorem onTimerInterrupt_ends {state : State} (h : ResumesUnmasked state)
    {context : ExceptionContext} (hcontext : context.spsr.daif = 0)
    (budget : Nat) :
    (onTimerInterrupt budget context).Ends EretUnmasks state := by
  have inert := resumesUnmasked_inert
  have ticking : Timer.onInterrupt.Keeps ResumesUnmasked :=
    inert.keeps_write (fun _ => rfl) (fun _ => rfl) fun _ => rfl
  refine ticking.ends_bind h fun _ first hfirst => ?_
  refine (inert.keeps (Scheduler.quiet_updateSleepingTasks budget)).ends_bind
    hfirst fun _ second hsecond => ?_
  exact Scheduler.preempt_ends hsecond hcontext budget

namespace Mutex

structure TakenAt (mutex : MutexRef) (daif : Nat) (state : State) : Prop
    extends MaskIs daif state where
  taken : state.locked mutex = true

theorem takenAt_inert (mutex : MutexRef) (daif : Nat) :
    Inert (TakenAt mutex daif) := by
  intro before after hdaif hlocked hpstate h
  refine ⟨maskIs_inert daif before after hdaif hlocked hpstate h.toMaskIs, ?_⟩
  rw [hlocked]
  exact h.taken

theorem lockRound_ends {mutex : MutexRef} {daif : Nat} {state : State}
    (h : MaskIs daif state) (budget : Nat) :
    (lockRound budget mutex).Ends (fun exit after => match exit with
      | none => state.locked mutex = false ∧ MaskIs daif after
      | some _ => TakenAt mutex (daif ||| Interrupts.irqBit) after) state := by
  have hsaved : state.daif = daif := h.daif
  refine ends_bind.mpr (ends_irqSave.mpr ?_)
  refine ends_bind.mpr ((ends_read _).mpr ?_)
  cases hlocked : state.locked mutex with
  | false =>
      have hmasked : state.masked.locked mutex = false := hlocked
      rw [if_pos hmasked]
      refine ends_bind.mpr ((ends_write _).mpr ?_)
      refine ends_bind.mpr ((ends_write _).mpr ?_)
      exact ⟨rfl, h.resumes, hsaved⟩
  | true =>
      have hmasked : state.masked.locked mutex = true := hlocked
      rw [if_neg (by simp [hmasked])]
      have taken : TakenAt mutex (daif ||| Interrupts.irqBit) state.masked :=
        ⟨h.masked, hlocked⟩
      exact (WaitQueue.keeps_blockCurrent (takenAt_inert mutex _) budget
        mutex).ends_bind taken fun _ _ hafter => hafter

theorem unlock_ends {mutex : MutexRef} {daif : Nat} {state : State}
    (h : MaskIs daif state) :
    (unlock (some mutex)).Ends (fun _ => MaskIs daif) state := by
  have inert := maskIs_inert (daif ||| Interrupts.irqBit)
  have hsaved : state.daif = daif := h.daif
  have unlocking : (setLocked mutex false).Keeps
      (MaskIs (daif ||| Interrupts.irqBit)) :=
    keeps_write fun _ hbefore => ⟨hbefore.resumes, hbefore.daif⟩
  refine ends_bind.mpr (ends_irqSave.mpr ?_)
  refine unlocking.ends_bind h.masked fun _ first hfirst => ?_
  refine (keeps_read _).ends_bind hfirst fun head second hsecond => ?_
  dsimp only
  split
  · refine (inert.keeps (WaitQueue.quiet_wakeOne mutex)).ends_bind hsecond
      fun _ last hlast => ?_
    rw [hsaved]
    exact hlast.restore daif
  · rw [hsaved]
    exact hsecond.restore daif

end Mutex

end Planetoid.Task
