import Planetoid.Task.Quiet

namespace Planetoid.Task

open Planetoid Program

/-! Which task has the processor after a scheduler function. -/

structure Chosen (before : State) (next : TaskRef) (after : State) : Prop
    extends SameContexts before after where
  current : after.currentTask = some next

/-- The function returned, or it chose another task than the current one. -/
def PassesOn (before : State) (exit : Exit) (after : State) : Prop :=
  match exit with
  | .returned => SameThread before after
  | .switched previous next =>
    before.currentTask = some previous ∧ Chosen before next after

section

variable {before : State} {next : TaskRef}

theorem keeps_sameThread {program : Sched α}
    (quiet : program.Respects Quiet) : program.Keeps (SameThread before) :=
  quiet.keeps fun _ _ same h => h.trans same.toSameThread

theorem keeps_chosen {program : Sched α} (quiet : program.Respects Quiet) :
    program.Keeps (Chosen before next) :=
  quiet.keeps fun _ _ same h =>
    ⟨h.toSameContexts.trans same.toSameContexts,
      same.current.trans h.current⟩

theorem SameThread.choose {state : State} (same : SameThread before state)
    (next : TaskRef) :
    Chosen before next (state.withCurrentTask (some next)) :=
  ⟨{ same.toSameContexts with }, rfl⟩

theorem SameThread.ends_read {state : State} (same : SameThread before state)
    {post : α → State → Prop} {rest : Option TaskRef → Sched α}
    (h : (rest before.currentTask).Ends post state) :
    (read (·.currentTask) >>= rest).Ends post state := by
  rw [← same.current] at h
  exact h

end

namespace Scheduler

variable {before state : State} {previous : TaskRef}

theorem take_passes (same : SameThread before state)
    (hprevious : before.currentTask = some previous) (next : TaskRef) :
    (do
      setState next .running
      setCurrentTask (some next)
      pure (Exit.switched previous next)).Ends (PassesOn before) state := by
  refine (keeps_sameThread (quiet_setState next .running)).ends_bind same
    fun _ after hafter => ?_
  exact ends_bind.mpr ⟨hprevious, hafter.choose next⟩

theorem switchToIdle_passes (same : SameThread before state)
    (hprevious : before.currentTask = some previous) :
    (switchToIdle previous).Ends (PassesOn before) state := by
  refine (keeps_sameThread (quiet_read _)).ends_bind same
    fun idle first hfirst => ?_
  refine (keeps_sameThread (respects_deref idle)).ends_bind hfirst
    fun task second hsecond => ?_
  refine (keeps_sameThread (quiet_setState task .running)).ends_bind hsecond
    fun _ third hthird => ?_
  refine ends_bind.mpr ((ends_read _).mpr ?_)
  rcases Option.eq_none_or_eq_some third.idleTask with hidle | ⟨idle, hidle⟩
  · rw [hidle]
    refine ends_bind.mpr ((ends_write _).mpr ?_)
    show (deref third.idleTask >>= _).Ends _ (third.withCurrentTask none)
    rw [hidle]
    exact trivial
  · rw [hidle]
    refine ends_bind.mpr ((ends_write _).mpr ?_)
    show (deref third.idleTask >>= _).Ends _
      (third.withCurrentTask (some idle))
    rw [hidle]
    exact ⟨hprevious, hthird.choose idle⟩

theorem yield_passes (budget : Nat) (before : State) :
    (yield budget).Ends (PassesOn before) before := by
  refine ends_bind.mpr (ends_irqSave.mpr ?_)
  have masked : SameThread before before.masked :=
    { SameThread.refl before with }
  refine masked.ends_read ?_
  cases hcurrent : before.currentTask with
  | none => exact { SameThread.refl before with }
  | some current =>
      refine (keeps_sameThread (quiet_load current _)).ends_bind masked
        fun start first hfirst => ?_
      have scanning := @keeps_sameThread before _ _
        (quiet_scanReady (quiet_read (·.currentTask)) budget start)
      refine scanning.ends_bind hfirst fun next second hsecond => ?_
      refine hsecond.ends_read ?_
      split
      · exact { hsecond with }
      · refine hsecond.ends_read ?_
        rw [hcurrent]
        refine (keeps_sameThread (quiet_setState current .ready)).ends_bind
          hsecond fun _ third hthird => ?_
        refine (keeps_sameThread (respects_deref next)).ends_bind hthird
          fun next fourth hfourth => ?_
        refine (keeps_sameThread (quiet_setState next .running)).ends_bind
          hfourth fun _ last hlast => ?_
        refine hlast.ends_read ?_
        rw [hcurrent]
        exact ⟨hcurrent, hlast.choose next⟩

theorem sleep_passes (budget ticks : Nat) (before : State) :
    (sleep budget ticks).Ends (PassesOn before) before := by
  refine ends_bind.mpr ((ends_read _).mpr ?_)
  cases hcurrent : before.currentTask with
  | none => exact SameThread.refl before
  | some current =>
      dsimp only
      split
      · exact SameThread.refl before
      · refine ends_bind.mpr (ends_irqSave.mpr ?_)
        have masked : SameThread before before.masked :=
          { SameThread.refl before with }
        refine masked.ends_read ?_
        rw [hcurrent]
        refine (keeps_sameThread (quiet_read _)).ends_bind masked
          fun now first hfirst => ?_
        have waking : (store current fun fields => { fields with
            wakeTick := (now + ticks) % Timer.ticksModulus }).Respects
              Quiet := quiet_store fun _ => ⟨rfl, rfl, rfl⟩
        refine (keeps_sameThread waking).ends_bind hfirst
          fun _ second hsecond => ?_
        refine (keeps_sameThread (quiet_setState current .sleeping)).ends_bind
          hsecond fun _ third hthird => ?_
        refine (keeps_sameThread (quiet_load current _)).ends_bind hthird
          fun start fourth hfourth => ?_
        have scanning := @keeps_sameThread before _ _
          (quiet_scanReady (respects_pure (some current)) budget start)
        refine scanning.ends_bind hfourth fun next fifth hfifth => ?_
        split
        · exact switchToIdle_passes hfifth hcurrent
        · refine (keeps_sameThread (respects_deref next)).ends_bind hfifth
            fun next last hlast => ?_
          exact take_passes hlast hcurrent next

theorem blockCurrentTask_passes (same : SameThread before state)
    (budget : Nat) : (blockCurrentTask budget).Ends (PassesOn before) state := by
  refine same.ends_read ?_
  cases hcurrent : before.currentTask with
  | none => exact same
  | some previous =>
      refine (keeps_sameThread (quiet_load previous _)).ends_bind same
        fun start first hfirst => ?_
      have scanning := @keeps_sameThread before _ _
        (quiet_scanReady (quiet_read (·.currentTask)) budget start)
      refine scanning.ends_bind hfirst fun next second hsecond => ?_
      refine hsecond.ends_read ?_
      split
      · refine ends_bind.mpr ((ends_read _).mpr ?_)
        rcases Option.eq_none_or_eq_some second.idleTask with hidle |
          ⟨idle, hidle⟩
        · rw [hidle]
          refine ends_bind.mpr ((ends_write _).mpr ?_)
          show (deref second.idleTask >>= _).Ends _
            (second.withCurrentTask none)
          rw [hidle]
          exact trivial
        · rw [hidle]
          refine ends_bind.mpr ((ends_write _).mpr ?_)
          show (deref second.idleTask >>= _).Ends _
            (second.withCurrentTask (some idle))
          rw [hidle]
          have chosen := hsecond.choose idle
          refine (keeps_chosen (quiet_setState idle .running)).ends_bind
            chosen fun _ third hthird => ?_
          refine ends_bind.mpr ((ends_read _).mpr ?_)
          show (deref third.idleTask >>= _).Ends _ third
          rw [hthird.idle, ← hsecond.idle, hidle]
          exact ⟨hcurrent, hthird⟩
      · refine (keeps_sameThread (respects_deref next)).ends_bind hsecond
          fun next last hlast => ?_
        exact take_passes hlast hcurrent next

end Scheduler

theorem WaitQueue.blockCurrent_passes {before state : State}
    (same : SameThread before state) (budget : Nat) (queue : QueueRef) :
    (blockCurrent budget (some queue)).Ends (PassesOn before) state := by
  refine same.ends_read ?_
  cases before.currentTask with
  | none => exact same
  | some task =>
      refine (keeps_sameThread
        (Scheduler.quiet_setState task .blocked)).ends_bind same
          fun _ first hfirst => ?_
      refine (keeps_sameThread (quiet_setWaitNext task none)).ends_bind hfirst
        fun _ second hsecond => ?_
      refine (keeps_sameThread (quiet_read _)).ends_bind hsecond
        fun tail third hthird => ?_
      cases tail with
      | none =>
          refine (keeps_sameThread (quiet_setHead queue _)).ends_bind hthird
            fun _ fourth hfourth => ?_
          refine (keeps_sameThread (quiet_setTail queue _)).ends_bind hfourth
            fun _ last hlast => ?_
          exact Scheduler.blockCurrentTask_passes hlast budget
      | some tail =>
          refine (keeps_sameThread (quiet_setWaitNext tail _)).ends_bind
            hthird fun _ fourth hfourth => ?_
          refine (keeps_sameThread (quiet_setTail queue _)).ends_bind hfourth
            fun _ last hlast => ?_
          exact Scheduler.blockCurrentTask_passes hlast budget

theorem Mutex.lockRound_passes {before state : State}
    (same : SameThread before state) (budget : Nat) (mutex : MutexRef) :
    (lockRound budget mutex).Ends (fun exit after => match exit with
      | none => SameThread before after
      | some exit => PassesOn before exit after) state := by
  have saving : Interrupts.irqSave.Keeps (SameThread before) :=
    respects_irqSave.keeps fun _ _ same h => h.trans same
  have taking : (setLocked mutex true).Keeps (SameThread before) :=
    keeps_write fun _ h => { h with }
  refine saving.ends_bind same fun daif first hfirst => ?_
  refine (keeps_sameThread (quiet_read _)).ends_bind hfirst
    fun locked second hsecond => ?_
  split
  · refine taking.ends_bind hsecond fun _ third hthird => ?_
    refine ends_bind.mpr ((ends_write _).mpr ?_)
    exact { hthird with }
  · refine ends_bind.mpr ((WaitQueue.blockCurrent_passes hsecond budget
      mutex).weaken fun exit after hafter => ?_)
    exact hafter

end Planetoid.Task
