import Planetoid.Base.Assertions
import Planetoid.Task.Mutex
import Planetoid.Task.Operations

namespace Planetoid.Task

open Planetoid Program

/-! The parts of the scheduler that save no context and pass the processor to
no task. -/

/-- The saved contexts and the stacks are the same. -/
structure SameContexts (before after : State) : Prop where
  contexts : ∀ task, (after.tasks task).cpuContext =
    (before.tasks task).cpuContext
  stackOf : ∀ task, (after.tasks task).stackBase =
    (before.tasks task).stackBase ∧ (after.tasks task).stackSize =
      (before.tasks task).stackSize
  launch : after.launchContext = before.launchContext
  idle : after.idleTask = before.idleTask

structure SameThread (before after : State) : Prop
    extends SameContexts before after where
  current : after.currentTask = before.currentTask

structure Quiet (before after : State) : Prop
    extends SameThread before after where
  daif : after.daif = before.daif
  locked : after.locked = before.locked

structure Calm (before after : State) : Prop extends Quiet before after where
  states : ∀ task, (after.tasks task).state = (before.tasks task).state

theorem SameContexts.refl (state : State) : SameContexts state state :=
  ⟨fun _ => rfl, fun _ => ⟨rfl, rfl⟩, rfl, rfl⟩

theorem SameContexts.trans {first second third : State}
    (left : SameContexts first second) (right : SameContexts second third) :
    SameContexts first third where
  contexts := fun task => (right.contexts task).trans (left.contexts task)
  stackOf := fun task => ⟨(right.stackOf task).1.trans (left.stackOf task).1,
    (right.stackOf task).2.trans (left.stackOf task).2⟩
  launch := right.launch.trans left.launch
  idle := right.idle.trans left.idle

theorem SameContexts.withDaif {before after : State}
    (same : SameContexts before after) (daif : Nat) :
    SameContexts before (after.withDaif daif) :=
  { same with }

theorem SameThread.refl (state : State) : SameThread state state :=
  ⟨SameContexts.refl state, rfl⟩

theorem SameThread.trans {first second third : State}
    (left : SameThread first second) (right : SameThread second third) :
    SameThread first third :=
  ⟨left.toSameContexts.trans right.toSameContexts,
    right.current.trans left.current⟩

theorem Quiet.refl (state : State) : Quiet state state :=
  ⟨SameThread.refl state, rfl, rfl⟩

theorem Calm.refl (state : State) : Calm state state :=
  ⟨Quiet.refl state, fun _ => rfl⟩

theorem sameContexts_setTask {update : TaskState → TaskState}
    (h : ∀ fields, (update fields).cpuContext = fields.cpuContext ∧
      (update fields).stackBase = fields.stackBase ∧
        (update fields).stackSize = fields.stackSize)
    (state : State) (task : TaskRef) :
    SameContexts state (state.setTask task update) where
  contexts := congrFun (@view_setTask _ TaskState.cpuContext state task update
    fun fields => (h fields).1)
  stackOf := fun other =>
    ⟨congrFun (@view_setTask _ TaskState.stackBase state task update
        fun fields => (h fields).2.1) other,
      congrFun (@view_setTask _ TaskState.stackSize state task update
        fun fields => (h fields).2.2) other⟩
  launch := rfl
  idle := rfl

theorem sameThread_of_quiet {program : Sched α}
    (quiet : program.Respects Quiet) : program.Respects SameThread :=
  quiet.weaken fun _ _ same => same.toSameThread

theorem quiet_of_calm {program : Sched α} (calm : program.Respects Calm) :
    program.Respects Quiet :=
  calm.weaken fun _ _ same => same.toQuiet

theorem quiet_read (view : State → α) :
    (read view : Sched α).Respects Quiet :=
  respects_read Quiet.refl view

theorem respects_deref {relation : State → State → Prop}
    (task : Option TaskRef) : (deref task).Respects relation := by
  cases task with
  | none => exact trivial
  | some task => exact trivial

theorem respects_load {relation : State → State → Prop}
    (refl : ∀ state, relation state state) (task : TaskRef)
    (field : TaskState → α) : (load task field).Respects relation := by
  intro state
  refine ⟨refl state, ?_⟩
  by_cases valid : state.Valid task
  · simp only [if_pos valid]
    exact trivial
  · simp only [if_neg valid]
    exact trivial

theorem quiet_load (task : TaskRef) (field : TaskState → α) :
    (load task field).Respects Quiet :=
  respects_load Quiet.refl task field

theorem respects_store {relation : State → State → Prop} {task : TaskRef}
    {update : TaskState → TaskState}
    (h : ∀ state, relation state (state.setTask task update)) :
    (store task update).Respects relation := by
  intro state
  refine ⟨h state, ?_⟩
  by_cases valid : state.Valid task
  · simp only [if_pos valid]
    exact trivial
  · simp only [if_neg valid]
    exact trivial

theorem quiet_store {task : TaskRef} {update : TaskState → TaskState}
    (h : ∀ fields, (update fields).cpuContext = fields.cpuContext ∧
      (update fields).stackBase = fields.stackBase ∧
        (update fields).stackSize = fields.stackSize) :
    (store task update).Respects Quiet :=
  respects_store fun state =>
    ⟨⟨sameContexts_setTask h state task, rfl⟩, rfl, rfl⟩

theorem ends_irqSave {post : Nat → State → Prop} {state : State} :
    Interrupts.irqSave.Ends post state ↔ post state.daif state.masked :=
  Iff.rfl

theorem calm_store {task : TaskRef} {update : TaskState → TaskState}
    (h : ∀ fields, (update fields).cpuContext = fields.cpuContext ∧
      (update fields).stackBase = fields.stackBase ∧
        (update fields).stackSize = fields.stackSize)
    (hstate : ∀ fields, (update fields).state = fields.state) :
    (store task update).Respects Calm :=
  respects_store fun state =>
    ⟨⟨⟨sameContexts_setTask h state task, rfl⟩, rfl, rfl⟩,
      congrFun (@view_setTask _ TaskState.state state task update hstate)⟩

theorem respects_irqSave : Interrupts.irqSave.Respects SameThread := by
  refine respects_bind (respects_read SameThread.refl _) fun daif => ?_
  exact respects_bind (respects_write fun state =>
    { SameThread.refl state with }) fun _ => respects_pure _

theorem respects_irqRestore (daif : Nat) :
    (Interrupts.irqRestore daif).Respects SameThread :=
  respects_write fun state => { SameThread.refl state with }

namespace Scheduler

theorem quiet_setState (task : TaskRef) (value : EState) :
    (setState task value).Respects Quiet :=
  quiet_store fun _ => ⟨rfl, rfl, rfl⟩

theorem quiet_setNextTask (task : TaskRef) (value : Option TaskRef) :
    (setNextTask task value).Respects Quiet :=
  quiet_store fun _ => ⟨rfl, rfl, rfl⟩

theorem calm_setCleanupNext (task : TaskRef) (value : Option TaskRef) :
    (setCleanupNext task value).Respects Calm :=
  calm_store (fun _ => ⟨rfl, rfl, rfl⟩) fun _ => rfl

theorem quiet_setTaskList (task : Option TaskRef) :
    (setTaskList task).Respects Quiet :=
  respects_write fun state => { Quiet.refl state with }

theorem calm_setPendingCleanupHead (task : Option TaskRef) :
    (setPendingCleanupHead task).Respects Calm :=
  respects_write fun state => { Calm.refl state with }

theorem calm_setPendingCleanupTail (task : Option TaskRef) :
    (setPendingCleanupTail task).Respects Calm :=
  respects_write fun state => { Calm.refl state with }

theorem calm_kfree (allocation : Freed) :
    (kfree allocation).Respects Calm :=
  respects_write fun state => { Calm.refl state with }

theorem quiet_scanReady {stop : Sched (Option TaskRef)}
    (hstop : stop.Respects Quiet) (budget : Nat) (start : Option TaskRef) :
    (scanReady budget stop start).Respects Quiet := by
  refine respects_whileLoop (fun next => ?_) budget start
  refine respects_bind hstop fun value => ?_
  split
  · exact respects_pure _
  · refine respects_bind (respects_deref next) fun task => ?_
    refine respects_bind (quiet_load task _) fun value => ?_
    split
    · exact respects_pure _
    · exact respects_bind (quiet_load task _) fun _ => respects_pure _

section

variable {relation : State → State → Prop}
  (refl : ∀ state, relation state state)

include refl

theorem respects_findPrevious (budget : Nat) (task start : TaskRef) :
    (findPrevious budget task start).Respects relation := by
  refine respects_whileLoop (fun previous => ?_) budget start
  refine respects_bind (respects_load refl previous _) fun value => ?_
  split
  · exact respects_pure _
  · refine respects_bind (respects_load refl previous _) fun next => ?_
    exact respects_bind (respects_deref next) fun _ => respects_pure _

theorem respects_scanRing (budget : Nat) (start : TaskRef) :
    (scanRing budget start).Respects relation := by
  refine respects_whileLoop (fun position => ?_) budget _
  refine respects_bind (respects_deref position) fun task => ?_
  refine respects_bind (respects_load refl task _) fun value => ?_
  split
  · exact respects_pure _
  · refine respects_bind (respects_load refl task _) fun next => ?_
    split
    · exact respects_pure _
    · exact respects_pure _

theorem respects_findNextReadyTask (budget : Nat) (start : Option TaskRef) :
    (findNextReadyTask budget start).Respects relation := by
  refine respects_bind (respects_read refl _) fun list => ?_
  split
  · exact respects_pure _
  · exact respects_pure _
  · exact respects_scanRing refl budget _

theorem respects_firstTask : firstTask.Respects relation := by
  refine respects_bind (respects_read refl _) fun list => ?_
  split
  · exact respects_pure _
  · exact respects_read refl _

theorem respects_removeTask
    (hnext : ∀ task value, (setNextTask task value).Respects relation)
    (hlist : ∀ task, (setTaskList task).Respects relation) (budget : Nat)
    (task : Option TaskRef) : (removeTask budget task).Respects relation := by
  refine respects_bind (respects_read refl _) fun list => ?_
  split
  · exact respects_pure _
  · exact respects_pure _
  · rename_i task start
    refine respects_bind (respects_load refl task _) fun next => ?_
    split
    · exact hlist none
    · refine respects_bind (respects_findPrevious refl budget task start)
        fun previous => ?_
      refine respects_bind (respects_load refl task _) fun next => ?_
      refine respects_bind (hnext previous next) fun _ => ?_
      refine respects_bind (respects_read refl _) fun list => ?_
      split
      · refine respects_bind (respects_load refl task _) fun next => ?_
        exact hlist next
      · exact respects_pure _

end

theorem quiet_findNextReadyTask (budget : Nat) (start : Option TaskRef) :
    (findNextReadyTask budget start).Respects Quiet :=
  respects_findNextReadyTask Quiet.refl budget start

theorem quiet_firstTask : firstTask.Respects Quiet :=
  respects_firstTask Quiet.refl

theorem quiet_removeTask (budget : Nat) (task : Option TaskRef) :
    (removeTask budget task).Respects Quiet :=
  respects_removeTask Quiet.refl quiet_setNextTask quiet_setTaskList budget
    task

theorem quiet_scanFromIdle (budget : Nat) (start : Option TaskRef) :
    (scanFromIdle budget start).Respects Quiet := by
  refine respects_whileLoop (fun position => ?_) budget start
  split
  · exact respects_pure _
  · rename_i task
    refine respects_bind (quiet_load task _) fun value => ?_
    split
    · exact respects_pure _
    · refine respects_bind (quiet_load task _) fun next => ?_
      refine respects_bind (quiet_read _) fun list => ?_
      split
      · exact respects_pure _
      · exact respects_pure _

theorem calm_cleanupTerminatedTask :
    cleanupTerminatedTask.Respects Calm := by
  refine respects_bind (respects_read Calm.refl _) fun head => ?_
  split
  · exact respects_pure _
  · refine respects_bind (respects_read Calm.refl _) fun head => ?_
    refine respects_bind (respects_deref head) fun task => ?_
    refine respects_bind (respects_load Calm.refl task _) fun next => ?_
    refine respects_bind (calm_setPendingCleanupHead next) fun _ => ?_
    refine respects_bind (respects_read Calm.refl _) fun head => ?_
    have freeing : (do
        setCleanupNext task none
        kfree (.stack (← load task (·.stackBase)))
        kfree (.state task)).Respects Calm := by
      refine respects_bind (calm_setCleanupNext task none) fun _ => ?_
      refine respects_bind (respects_load Calm.refl task _) fun base => ?_
      refine respects_bind (calm_kfree (.stack base)) fun _ => ?_
      exact calm_kfree (.state task)
    dsimp only
    split
    · exact respects_bind (calm_setPendingCleanupTail none) fun _ => freeing
    · exact freeing

theorem quiet_wakeExpired (currentTick : Nat) (task : TaskRef) :
    (wakeExpired currentTick task).Respects Quiet := by
  refine respects_bind (quiet_load task _) fun value => ?_
  split
  · refine respects_bind (quiet_load task _) fun wakeTick => ?_
    split
    · exact quiet_setState task .ready
    · exact respects_pure _
  · exact respects_pure _

theorem quiet_updateSleepingTasks (budget : Nat) :
    (updateSleepingTasks budget).Respects Quiet := by
  refine respects_bind (quiet_read _) fun list => ?_
  split
  · exact respects_pure _
  · refine respects_bind (quiet_read _) fun tick => ?_
    refine respects_whileLoop (fun position => ?_) budget _
    refine respects_bind (respects_deref position) fun task => ?_
    refine respects_bind (quiet_wakeExpired tick task) fun _ => ?_
    refine respects_bind (quiet_load task _) fun next => ?_
    refine respects_bind (quiet_read _) fun list => ?_
    split
    · exact respects_pure _
    · exact respects_pure _

theorem addTask_respects (task : TaskRef) :
    (addTask (some task)).Respects SameThread := by
  refine respects_bind respects_irqSave fun daif => ?_
  refine respects_bind (sameThread_of_quiet (quiet_setState task .ready)) fun _ => ?_
  refine respects_bind (respects_read SameThread.refl _) fun list => ?_
  split
  · refine respects_bind (sameThread_of_quiet (quiet_setTaskList _)) fun _ => ?_
    refine respects_bind (sameThread_of_quiet (quiet_setNextTask task _)) fun _ => ?_
    exact respects_irqRestore daif
  · rename_i head
    refine respects_bind (sameThread_of_quiet (quiet_load head _)) fun next => ?_
    refine respects_bind (sameThread_of_quiet (quiet_setNextTask task _)) fun _ => ?_
    refine respects_bind (sameThread_of_quiet (quiet_setNextTask head _)) fun _ => ?_
    exact respects_irqRestore daif

end Scheduler

namespace WaitQueue

theorem quiet_setHead (queue : QueueRef) (head : Option TaskRef) :
    (setHead queue head).Respects Quiet :=
  respects_write fun state => { Quiet.refl state with }

theorem quiet_setTail (queue : QueueRef) (tail : Option TaskRef) :
    (setTail queue tail).Respects Quiet :=
  respects_write fun state => { Quiet.refl state with }

theorem quiet_setWaitNext (task : TaskRef) (value : Option TaskRef) :
    (setWaitNext task value).Respects Quiet :=
  quiet_store fun _ => ⟨rfl, rfl, rfl⟩

theorem quiet_wakeOne (queue : QueueRef) :
    (wakeOne (some queue)).Respects Quiet := by
  refine respects_bind (quiet_read _) fun head => ?_
  split
  · exact respects_pure _
  · rename_i task
    refine respects_bind (quiet_load task _) fun next => ?_
    refine respects_bind (quiet_setHead queue next) fun _ => ?_
    refine respects_bind (quiet_read _) fun head => ?_
    have waking : (do
        setWaitNext task none
        Scheduler.setState task .ready).Respects Quiet :=
      respects_bind (quiet_setWaitNext task none) fun _ =>
        Scheduler.quiet_setState task .ready
    dsimp only
    split
    · exact respects_bind (quiet_setTail queue none) fun _ => waking
    · exact waking

end WaitQueue

theorem Mutex.unlock_respects (mutex : MutexRef) :
    (unlock (some mutex)).Respects SameThread := by
  have unlocking : (setLocked mutex false).Respects SameThread :=
    respects_write fun state => { SameThread.refl state with }
  refine respects_bind respects_irqSave fun daif => ?_
  refine respects_bind unlocking fun _ => ?_
  refine respects_bind (respects_read SameThread.refl _) fun head => ?_
  dsimp only
  split
  · exact respects_bind (sameThread_of_quiet (WaitQueue.quiet_wakeOne mutex))
      fun _ => respects_irqRestore daif
  · exact respects_irqRestore daif

end Planetoid.Task
