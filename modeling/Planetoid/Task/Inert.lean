import Planetoid.Task.Quiet

namespace Planetoid.Task

open Planetoid Program

/-! The parts of the scheduler that leave the interrupt mask, the flags of the
mutexes and every saved PSTATE as they are. -/

def Inert (invariant : State → Prop) : Prop :=
  ∀ before after : State, after.daif = before.daif →
    after.locked = before.locked →
    (∀ task, (after.tasks task).cpuContext.pstate =
      (before.tasks task).cpuContext.pstate) →
    invariant before → invariant after

section

variable {invariant : State → Prop}

theorem keeps_deref (task : Option TaskRef) :
    (deref task).Keeps invariant := by
  cases task with
  | none => exact keeps_fail _
  | some task => exact keeps_pure task

theorem keeps_load (task : TaskRef) (field : TaskState → α) :
    (load task field).Keeps invariant := by
  intro _ _ state hstate
  refine ⟨hstate, ?_⟩
  by_cases valid : state.Valid task
  · simp only [if_pos valid]
    exact hstate
  · simp only [if_neg valid]
    exact trivial

theorem keeps_store {task : TaskRef} {update : TaskState → TaskState}
    (h : ∀ state, invariant state → invariant (state.setTask task update)) :
    (store task update).Keeps invariant := by
  intro _ _ state hstate
  have hafter := h state hstate
  refine ⟨hafter, ?_⟩
  by_cases valid : state.Valid task
  · simp only [if_pos valid]
    exact hafter
  · simp only [if_neg valid]
    exact trivial

variable (inert : Inert invariant)

include inert

theorem Inert.keeps_store {task : TaskRef} {update : TaskState → TaskState}
    (h : ∀ fields, (update fields).cpuContext.pstate =
      fields.cpuContext.pstate) :
    (store task update).Keeps invariant := by
  refine Task.keeps_store fun state hstate => inert state _ rfl rfl ?_ hstate
  intro other
  by_cases heq : other = task
  · subst other
    simp [h]
  · rw [State.setTask_of_ne _ _ _ _ heq]

theorem Inert.keeps {program : Sched α} (quiet : program.Respects Quiet) :
    program.Keeps invariant :=
  Respects.keeps quiet fun before after same hbefore =>
    inert before after same.daif same.locked
      (fun task => congrArg CPUContext.pstate (same.contexts task)) hbefore

theorem Inert.keeps_calm {program : Sched α} (calm : program.Respects Calm) :
    program.Keeps invariant :=
  inert.keeps (quiet_of_calm calm)

theorem Inert.keeps_write {update : State → State}
    (hdaif : ∀ state, (update state).daif = state.daif)
    (hlocked : ∀ state, (update state).locked = state.locked)
    (htasks : ∀ state, (update state).tasks = state.tasks) :
    (write update : Sched Unit).Keeps invariant :=
  Program.keeps_write fun state hstate =>
    inert state _ (hdaif state) (hlocked state)
      (fun task => by rw [htasks]) hstate

end

namespace Scheduler

section

variable {invariant : State → Prop} (inert : Inert invariant)

include inert

theorem keeps_setCurrentTask (task : Option TaskRef) :
    (setCurrentTask task).Keeps invariant :=
  inert.keeps_write (fun _ => rfl) (fun _ => rfl) fun _ => rfl

theorem keeps_take (next : TaskRef) {rest : Sched α}
    (h : rest.Keeps invariant) :
    (do
      setState next .running
      setCurrentTask (some next)
      rest).Keeps invariant :=
  keeps_bind (inert.keeps (quiet_setState next .running)) fun _ =>
    keeps_bind (keeps_setCurrentTask inert (some next)) fun _ => h

theorem keeps_switchToIdle (previous : TaskRef) :
    (switchToIdle previous).Keeps invariant := by
  refine keeps_bind (keeps_read _) fun idle => ?_
  refine keeps_bind (keeps_deref idle) fun task => ?_
  refine keeps_bind (inert.keeps (quiet_setState task .running)) fun _ => ?_
  refine keeps_bind (keeps_read _) fun idle => ?_
  refine keeps_bind (keeps_setCurrentTask inert idle) fun _ => ?_
  refine keeps_bind (keeps_read _) fun idle => ?_
  exact keeps_bind (keeps_deref idle) fun _ => keeps_pure _

theorem keeps_start : start.Keeps invariant := by
  refine keeps_bind (inert.keeps quiet_firstTask) fun first => ?_
  split
  · exact keeps_pure _
  · rename_i first
    refine keeps_bind (keeps_setCurrentTask inert (some first)) fun _ => ?_
    refine keeps_bind (keeps_read _) fun current => ?_
    refine keeps_bind (keeps_deref current) fun task => ?_
    refine keeps_bind (inert.keeps (quiet_setState task .running)) fun _ => ?_
    refine keeps_bind (keeps_read _) fun launch => ?_
    refine keeps_bind (keeps_deref launch) fun _ => ?_
    refine keeps_bind (keeps_read _) fun current => ?_
    exact keeps_bind (keeps_deref current) fun _ => keeps_pure _

theorem keeps_unlink (budget : Nat) (terminated : TaskRef) :
    (removeTask budget (some terminated) >>= fun _ => do
      if (← read (·.taskList)) = none then
        return some (← switchToIdle terminated)
      else do
        match ← findNextReadyTask budget (← read (·.taskList)) with
        | none => return some (← switchToIdle terminated)
        | some next => do
          setState next .running
          setCurrentTask (some next)
          return some (.switched terminated next)).Keeps invariant := by
  refine keeps_bind (inert.keeps (quiet_removeTask budget _)) fun _ => ?_
  refine keeps_bind (keeps_read _) fun list => ?_
  split
  · exact keeps_bind (keeps_switchToIdle inert terminated)
      fun _ => keeps_pure _
  · refine keeps_bind (keeps_read _) fun list => ?_
    refine keeps_bind (inert.keeps
      (quiet_findNextReadyTask budget list)) fun found => ?_
    cases found with
    | none =>
        exact keeps_bind (keeps_switchToIdle inert terminated)
          fun _ => keeps_pure _
    | some next => exact keeps_take inert next (keeps_pure _)

theorem keeps_terminateCurrent (budget : Nat) :
    (terminateCurrent budget).Keeps invariant := by
  refine keeps_bind (keeps_read _) fun current => ?_
  split
  · exact keeps_pure _
  refine keeps_bind (keeps_read _) fun current => ?_
  refine keeps_bind (keeps_read _) fun idle => ?_
  split
  · exact keeps_pure _
  refine keeps_bind (keeps_read _) fun current => ?_
  refine keeps_bind (keeps_deref current) fun terminated => ?_
  refine keeps_bind (inert.keeps_calm (calm_setCleanupNext terminated none))
    fun _ => ?_
  refine keeps_bind (keeps_read _) fun tail => ?_
  split
  · refine keeps_bind (inert.keeps_calm (calm_setPendingCleanupHead _)) fun _ => ?_
    refine keeps_bind (inert.keeps_calm (calm_setPendingCleanupTail _)) fun _ => ?_
    exact keeps_unlink inert budget terminated
  · refine keeps_bind (keeps_read _) fun tail => ?_
    refine keeps_bind (keeps_deref tail) fun task => ?_
    refine keeps_bind (inert.keeps_calm (calm_setCleanupNext task _)) fun _ => ?_
    refine keeps_bind (inert.keeps_calm (calm_setPendingCleanupTail _)) fun _ => ?_
    exact keeps_unlink inert budget terminated

theorem keeps_blockCurrentTask (budget : Nat) :
    (blockCurrentTask budget).Keeps invariant := by
  refine keeps_bind (keeps_read _) fun current => ?_
  split
  · exact keeps_pure _
  · rename_i previous
    refine keeps_bind (keeps_load previous _) fun next => ?_
    refine keeps_bind (inert.keeps
      (quiet_scanReady (quiet_read _) budget next)) fun found => ?_
    refine keeps_bind (keeps_read _) fun current => ?_
    split
    · refine keeps_bind (keeps_read _) fun idle => ?_
      refine keeps_bind (keeps_setCurrentTask inert idle) fun _ => ?_
      refine keeps_bind (keeps_read _) fun idle => ?_
      refine keeps_bind (keeps_deref idle) fun task => ?_
      refine keeps_bind (inert.keeps (quiet_setState task .running)) fun _ => ?_
      refine keeps_bind (keeps_read _) fun idle => ?_
      exact keeps_bind (keeps_deref idle) fun _ => keeps_pure _
    · refine keeps_bind (keeps_deref found) fun task => ?_
      exact keeps_take inert task (keeps_pure _)

end

end Scheduler

namespace WaitQueue

section

variable {invariant : State → Prop} (inert : Inert invariant)

include inert

theorem keeps_blockCurrent (budget : Nat) (queue : QueueRef) :
    (blockCurrent budget (some queue)).Keeps invariant := by
  refine keeps_bind (keeps_read _) fun current => ?_
  cases current with
  | none => exact keeps_pure _
  | some task =>
    refine keeps_bind (inert.keeps (Scheduler.quiet_setState task .blocked))
      fun _ => ?_
    refine keeps_bind (inert.keeps (quiet_setWaitNext task none)) fun _ => ?_
    refine keeps_bind (keeps_read _) fun tail => ?_
    split
    · refine keeps_bind (inert.keeps (quiet_setHead queue _)) fun _ => ?_
      refine keeps_bind (inert.keeps (quiet_setTail queue _)) fun _ => ?_
      exact Scheduler.keeps_blockCurrentTask inert budget
    · refine keeps_bind (inert.keeps (quiet_setWaitNext _ _)) fun _ => ?_
      refine keeps_bind (inert.keeps (quiet_setTail queue _)) fun _ => ?_
      exact Scheduler.keeps_blockCurrentTask inert budget

end

end WaitQueue

end Planetoid.Task
