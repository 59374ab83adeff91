import Planetoid.Task.Machine
import Planetoid.Task.Quiet

namespace Planetoid.Task

open Planetoid Program Arch

/-! No function of the kernel but `Timer::on_interrupt` writes the tick
counter. -/

def SameTicks (before after : State) : Prop :=
  after.systemTicks = before.systemTicks

theorem SameTicks.refl (state : State) : SameTicks state state := rfl

theorem sameTicks_read (view : State → α) :
    (read view : Sched α).Respects SameTicks :=
  respects_read SameTicks.refl view

theorem sameTicks_load (task : TaskRef) (field : TaskState → α) :
    (load task field).Respects SameTicks :=
  respects_load SameTicks.refl task field

theorem sameTicks_store (task : TaskRef) (update : TaskState → TaskState) :
    (store task update).Respects SameTicks :=
  respects_store fun _ => rfl

theorem sameTicks_irqSave : Interrupts.irqSave.Respects SameTicks :=
  respects_bind (sameTicks_read _) fun _ =>
    respects_bind (respects_write fun _ => rfl) fun _ => respects_pure _

theorem sameTicks_irqRestore (daif : Nat) :
    (Interrupts.irqRestore daif).Respects SameTicks :=
  respects_write fun _ => rfl

namespace Scheduler

theorem sameTicks_setCurrentTask (task : Option TaskRef) :
    (setCurrentTask task).Respects SameTicks :=
  respects_write fun _ => rfl

theorem sameTicks_setTaskList (task : Option TaskRef) :
    (setTaskList task).Respects SameTicks :=
  respects_write fun _ => rfl

theorem sameTicks_setPendingCleanupHead (task : Option TaskRef) :
    (setPendingCleanupHead task).Respects SameTicks :=
  respects_write fun _ => rfl

theorem sameTicks_setPendingCleanupTail (task : Option TaskRef) :
    (setPendingCleanupTail task).Respects SameTicks :=
  respects_write fun _ => rfl

theorem sameTicks_scanReady {stop : Sched (Option TaskRef)}
    (hstop : stop.Respects SameTicks) (budget : Nat)
    (start : Option TaskRef) :
    (scanReady budget stop start).Respects SameTicks := by
  refine respects_whileLoop (fun next => ?_) budget start
  refine respects_bind hstop fun value => ?_
  split
  · exact respects_pure _
  · refine respects_bind (respects_deref next) fun task => ?_
    refine respects_bind (sameTicks_load task _) fun value => ?_
    split
    · exact respects_pure _
    · exact respects_bind (sameTicks_load task _) fun _ => respects_pure _

theorem sameTicks_take {rest : Sched α} (h : rest.Respects SameTicks)
    (next : TaskRef) :
    (do
      setState next .running
      setCurrentTask (some next)
      rest).Respects SameTicks :=
  respects_bind (sameTicks_store next _) fun _ =>
    respects_bind (sameTicks_setCurrentTask _) fun _ => h

theorem sameTicks_switchToIdle (previous : TaskRef) :
    (switchToIdle previous).Respects SameTicks := by
  refine respects_bind (sameTicks_read _) fun idle => ?_
  refine respects_bind (respects_deref idle) fun task => ?_
  refine respects_bind (sameTicks_store task _) fun _ => ?_
  refine respects_bind (sameTicks_read _) fun idle => ?_
  refine respects_bind (sameTicks_setCurrentTask idle) fun _ => ?_
  refine respects_bind (sameTicks_read _) fun idle => ?_
  exact respects_bind (respects_deref idle) fun _ => respects_pure _

theorem sameTicks_addTask (task : TaskRef) :
    (addTask (some task)).Respects SameTicks := by
  refine respects_bind sameTicks_irqSave fun daif => ?_
  refine respects_bind (sameTicks_store task _) fun _ => ?_
  refine respects_bind (sameTicks_read _) fun list => ?_
  split
  · refine respects_bind (sameTicks_setTaskList _) fun _ => ?_
    refine respects_bind (sameTicks_store task _) fun _ => ?_
    exact sameTicks_irqRestore daif
  · rename_i head
    refine respects_bind (sameTicks_load head _) fun next => ?_
    refine respects_bind (sameTicks_store task _) fun _ => ?_
    refine respects_bind (sameTicks_store head _) fun _ => ?_
    exact sameTicks_irqRestore daif

theorem sameTicks_yield (budget : Nat) :
    (yield budget).Respects SameTicks := by
  refine respects_bind sameTicks_irqSave fun daif => ?_
  refine respects_bind (sameTicks_read _) fun current => ?_
  split
  · exact respects_bind (sameTicks_irqRestore daif) fun _ => respects_pure _
  rename_i current
  refine respects_bind (sameTicks_load current _) fun start => ?_
  refine respects_bind (sameTicks_scanReady (sameTicks_read _) budget start)
    fun found => ?_
  refine respects_bind (sameTicks_read _) fun current => ?_
  split
  · exact respects_bind (sameTicks_irqRestore daif) fun _ => respects_pure _
  · refine respects_bind (sameTicks_read _) fun current => ?_
    refine respects_bind (respects_deref current) fun task => ?_
    refine respects_bind (sameTicks_store task _) fun _ => ?_
    refine respects_bind (respects_deref found) fun next => ?_
    refine respects_bind (sameTicks_store next _) fun _ => ?_
    refine respects_bind (sameTicks_read _) fun current => ?_
    refine respects_bind (respects_deref current) fun previous => ?_
    exact respects_bind (sameTicks_setCurrentTask _) fun _ => respects_pure _

theorem sameTicks_sleep (budget ticks : Nat) :
    (sleep budget ticks).Respects SameTicks := by
  refine respects_bind (sameTicks_read _) fun current => ?_
  split
  · exact respects_pure _
  split
  · exact respects_pure _
  refine respects_bind sameTicks_irqSave fun _ => ?_
  refine respects_bind (sameTicks_read _) fun current => ?_
  refine respects_bind (respects_deref current) fun previous => ?_
  refine respects_bind (sameTicks_read _) fun now => ?_
  refine respects_bind (sameTicks_store previous _) fun _ => ?_
  refine respects_bind (sameTicks_store previous _) fun _ => ?_
  refine respects_bind (sameTicks_load previous _) fun start => ?_
  refine respects_bind (sameTicks_scanReady (respects_pure _) budget start)
    fun found => ?_
  split
  · exact sameTicks_switchToIdle previous
  · refine respects_bind (respects_deref found) fun next => ?_
    exact sameTicks_take (respects_pure _) next

theorem sameTicks_blockCurrentTask (budget : Nat) :
    (blockCurrentTask budget).Respects SameTicks := by
  refine respects_bind (sameTicks_read _) fun current => ?_
  split
  · exact respects_pure _
  rename_i previous
  refine respects_bind (sameTicks_load previous _) fun start => ?_
  refine respects_bind (sameTicks_scanReady (sameTicks_read _) budget start)
    fun found => ?_
  refine respects_bind (sameTicks_read _) fun current => ?_
  split
  · refine respects_bind (sameTicks_read _) fun idle => ?_
    refine respects_bind (sameTicks_setCurrentTask idle) fun _ => ?_
    refine respects_bind (sameTicks_read _) fun idle => ?_
    refine respects_bind (respects_deref idle) fun task => ?_
    refine respects_bind (sameTicks_store task _) fun _ => ?_
    refine respects_bind (sameTicks_read _) fun idle => ?_
    exact respects_bind (respects_deref idle) fun _ => respects_pure _
  · refine respects_bind (respects_deref found) fun next => ?_
    exact sameTicks_take (respects_pure _) next

theorem sameTicks_start : start.Respects SameTicks := by
  refine respects_bind (respects_firstTask SameTicks.refl) fun first => ?_
  split
  · exact respects_pure _
  refine respects_bind (sameTicks_setCurrentTask _) fun _ => ?_
  refine respects_bind (sameTicks_read _) fun current => ?_
  refine respects_bind (respects_deref current) fun task => ?_
  refine respects_bind (sameTicks_store task _) fun _ => ?_
  refine respects_bind (sameTicks_read _) fun launch => ?_
  refine respects_bind (respects_deref launch) fun _ => ?_
  refine respects_bind (sameTicks_read _) fun current => ?_
  exact respects_bind (respects_deref current) fun _ => respects_pure _

theorem sameTicks_unlink (budget : Nat) (terminated : TaskRef) :
    (removeTask budget (some terminated) >>= fun _ => do
      if (← read (·.taskList)) = none then
        return some (← switchToIdle terminated)
      else do
        match ← findNextReadyTask budget (← read (·.taskList)) with
        | none => return some (← switchToIdle terminated)
        | some next => do
          setState next .running
          setCurrentTask (some next)
          return some (.switched terminated next)).Respects SameTicks := by
  refine respects_bind (respects_removeTask SameTicks.refl
    (fun task _ => sameTicks_store task _) sameTicks_setTaskList budget _)
    fun _ => ?_
  refine respects_bind (sameTicks_read _) fun list => ?_
  split
  · exact respects_bind (sameTicks_switchToIdle terminated)
      fun _ => respects_pure _
  · refine respects_bind (sameTicks_read _) fun list => ?_
    refine respects_bind (respects_findNextReadyTask SameTicks.refl budget
      list) fun found => ?_
    split
    · exact respects_bind (sameTicks_switchToIdle terminated)
        fun _ => respects_pure _
    · exact sameTicks_take (respects_pure _) _

theorem sameTicks_terminateCurrent (budget : Nat) :
    (terminateCurrent budget).Respects SameTicks := by
  refine respects_bind (sameTicks_read _) fun current => ?_
  split
  · exact respects_pure _
  refine respects_bind (sameTicks_read _) fun current => ?_
  refine respects_bind (sameTicks_read _) fun idle => ?_
  split
  · exact respects_pure _
  refine respects_bind (sameTicks_read _) fun current => ?_
  refine respects_bind (respects_deref current) fun terminated => ?_
  refine respects_bind (sameTicks_store terminated _) fun _ => ?_
  refine respects_bind (sameTicks_read _) fun tail => ?_
  split
  · refine respects_bind (sameTicks_setPendingCleanupHead _) fun _ => ?_
    refine respects_bind (sameTicks_setPendingCleanupTail _) fun _ => ?_
    exact sameTicks_unlink budget terminated
  · refine respects_bind (sameTicks_read _) fun tail => ?_
    refine respects_bind (respects_deref tail) fun task => ?_
    refine respects_bind (sameTicks_store task _) fun _ => ?_
    refine respects_bind (sameTicks_setPendingCleanupTail _) fun _ => ?_
    exact sameTicks_unlink budget terminated

theorem sameTicks_cleanupTerminatedTask :
    cleanupTerminatedTask.Respects SameTicks := by
  refine respects_bind (sameTicks_read _) fun head => ?_
  split
  · exact respects_pure _
  refine respects_bind (sameTicks_read _) fun head => ?_
  refine respects_bind (respects_deref head) fun task => ?_
  refine respects_bind (sameTicks_load task _) fun next => ?_
  refine respects_bind (sameTicks_setPendingCleanupHead next) fun _ => ?_
  refine respects_bind (sameTicks_read _) fun head => ?_
  have freeing : (do
      setCleanupNext task none
      kfree (.stack (← load task (·.stackBase)))
      kfree (.state task)).Respects SameTicks := by
    refine respects_bind (sameTicks_store task _) fun _ => ?_
    refine respects_bind (sameTicks_load task _) fun base => ?_
    exact respects_bind (respects_write fun _ => rfl)
      fun _ => respects_write fun _ => rfl
  dsimp only
  split
  · exact respects_bind (sameTicks_setPendingCleanupTail none)
      fun _ => freeing
  · exact freeing

theorem sameTicks_scanFromIdle (budget : Nat) (start : Option TaskRef) :
    (scanFromIdle budget start).Respects SameTicks := by
  refine respects_whileLoop (fun position => ?_) budget start
  split
  · exact respects_pure _
  rename_i task
  refine respects_bind (sameTicks_load task _) fun value => ?_
  split
  · exact respects_pure _
  · refine respects_bind (sameTicks_load task _) fun next => ?_
    refine respects_bind (sameTicks_read _) fun list => ?_
    split
    · exact respects_pure _
    · exact respects_pure _

theorem sameTicks_restoreContext (task : TaskRef)
    (context : ExceptionContext) :
    (restoreContext task context).Respects SameTicks :=
  respects_bind (sameTicks_load task _) fun _ => respects_pure _

theorem sameTicks_preempt (budget : Nat) (context : ExceptionContext) :
    (preempt budget context).Respects SameTicks := by
  refine respects_bind (sameTicks_read _) fun current => ?_
  split
  · exact respects_pure _
  refine respects_bind sameTicks_cleanupTerminatedTask fun _ => ?_
  refine respects_bind (sameTicks_read _) fun current => ?_
  refine respects_bind (sameTicks_read _) fun idle => ?_
  split
  · refine respects_bind (sameTicks_read _) fun list => ?_
    refine respects_bind (sameTicks_scanFromIdle budget list)
      fun found => ?_
    split
    · exact respects_pure _
    · exact sameTicks_take (sameTicks_restoreContext _ context) _
  · refine respects_bind (sameTicks_read _) fun current => ?_
    refine respects_bind (respects_deref current) fun task => ?_
    refine respects_bind (sameTicks_load task _) fun value => ?_
    split
    · exact respects_pure _
    refine respects_bind (sameTicks_store task _) fun _ => ?_
    refine respects_bind (sameTicks_store task _) fun _ => ?_
    refine respects_bind (sameTicks_load task _) fun start => ?_
    refine respects_bind (sameTicks_scanReady (sameTicks_read _) budget start)
      fun found => ?_
    refine respects_bind (sameTicks_read _) fun current => ?_
    split
    · exact respects_bind (sameTicks_store task _) fun _ => respects_pure _
    · refine respects_bind (respects_deref found) fun next => ?_
      exact sameTicks_take (sameTicks_restoreContext next context) next

theorem sameTicks_updateSleepingTasks (budget : Nat) :
    (updateSleepingTasks budget).Respects SameTicks := by
  refine respects_bind (sameTicks_read _) fun list => ?_
  split
  · exact respects_pure _
  refine respects_bind (sameTicks_read _) fun tick => ?_
  refine respects_whileLoop (fun position => ?_) budget _
  refine respects_bind (respects_deref position) fun task => ?_
  have waking : (wakeExpired tick task).Respects SameTicks := by
    refine respects_bind (sameTicks_load task _) fun value => ?_
    split
    · refine respects_bind (sameTicks_load task _) fun wakeTick => ?_
      split
      · exact sameTicks_store task _
      · exact respects_pure _
    · exact respects_pure _
  refine respects_bind waking fun _ => ?_
  refine respects_bind (sameTicks_load task _) fun next => ?_
  refine respects_bind (sameTicks_read _) fun list => ?_
  split
  · exact respects_pure _
  · exact respects_pure _

end Scheduler

namespace WaitQueue

theorem sameTicks_setHead (queue : QueueRef) (head : Option TaskRef) :
    (setHead queue head).Respects SameTicks :=
  respects_write fun _ => rfl

theorem sameTicks_setTail (queue : QueueRef) (tail : Option TaskRef) :
    (setTail queue tail).Respects SameTicks :=
  respects_write fun _ => rfl

theorem sameTicks_blockCurrent (budget : Nat) (queue : QueueRef) :
    (blockCurrent budget (some queue)).Respects SameTicks := by
  refine respects_bind (sameTicks_read _) fun current => ?_
  cases current with
  | none => exact respects_pure _
  | some task =>
    refine respects_bind (sameTicks_store task _) fun _ => ?_
    refine respects_bind (sameTicks_store task _) fun _ => ?_
    refine respects_bind (sameTicks_read _) fun tail => ?_
    split
    · refine respects_bind (sameTicks_setHead queue _) fun _ => ?_
      refine respects_bind (sameTicks_setTail queue _) fun _ => ?_
      exact Scheduler.sameTicks_blockCurrentTask budget
    · refine respects_bind (sameTicks_store _ _) fun _ => ?_
      refine respects_bind (sameTicks_setTail queue _) fun _ => ?_
      exact Scheduler.sameTicks_blockCurrentTask budget

theorem sameTicks_wakeOne (queue : QueueRef) :
    (wakeOne (some queue)).Respects SameTicks := by
  refine respects_bind (sameTicks_read _) fun head => ?_
  split
  · exact respects_pure _
  rename_i task
  refine respects_bind (sameTicks_load task _) fun next => ?_
  refine respects_bind (sameTicks_setHead queue next) fun _ => ?_
  refine respects_bind (sameTicks_read _) fun head => ?_
  have waking : (do
      setWaitNext task none
      Scheduler.setState task .ready).Respects SameTicks :=
    respects_bind (sameTicks_store task _) fun _ => sameTicks_store task _
  dsimp only
  split
  · exact respects_bind (sameTicks_setTail queue none) fun _ => waking
  · exact waking

end WaitQueue

namespace Mutex

theorem sameTicks_setLocked (mutex : MutexRef) (value : Bool) :
    (setLocked mutex value).Respects SameTicks :=
  respects_write fun _ => rfl

theorem sameTicks_lockRound (budget : Nat) (mutex : MutexRef) :
    (lockRound budget mutex).Respects SameTicks := by
  refine respects_bind sameTicks_irqSave fun daif => ?_
  refine respects_bind (sameTicks_read _) fun locked => ?_
  split
  · refine respects_bind (sameTicks_setLocked mutex true) fun _ => ?_
    exact respects_bind (sameTicks_irqRestore daif) fun _ => respects_pure _
  · exact respects_bind (WaitQueue.sameTicks_blockCurrent budget mutex)
      fun _ => respects_pure _

theorem sameTicks_unlock (mutex : MutexRef) :
    (unlock (some mutex)).Respects SameTicks := by
  refine respects_bind sameTicks_irqSave fun daif => ?_
  refine respects_bind (sameTicks_setLocked mutex false) fun _ => ?_
  refine respects_bind (sameTicks_read _) fun head => ?_
  dsimp only
  split
  · exact respects_bind (WaitQueue.sameTicks_wakeOne mutex)
      fun _ => sameTicks_irqRestore daif
  · exact sameTicks_irqRestore daif

end Mutex

end Planetoid.Task
