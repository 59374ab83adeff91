import Planetoid.Base.Program
import Mathlib.Logic.Function.Basic

namespace Planetoid.Task

open Planetoid

/-- A `TaskState*` that is not null: the name of the allocation it points to. -/
abbrev TaskRef := Nat

/-- A `TaskWaitQueue*` that is not null. -/
abbrev QueueRef := Nat

inductive EState where
  | ready
  | running
  | sleeping
  | blocked
  | terminated
  deriving DecidableEq, Repr

/-- An address inside the stack allocation `stack`. -/
structure StackPointer where
  stack : Nat
  offset : Nat
  deriving DecidableEq, Repr

structure PState where
  nzcv : Nat
  daif : Nat
  deriving DecidableEq, Repr

structure CPUContext where
  x : Nat → Nat
  sp : StackPointer
  pc : Nat
  pstate : PState

structure TaskState where
  cpuContext : CPUContext
  stackBase : Nat
  stackSize : Nat
  state : EState
  wakeTick : Nat
  nextTask : Option TaskRef
  waitNext : Option TaskRef
  cleanupNext : Option TaskRef

structure TaskWaitQueue where
  head : Option TaskRef
  tail : Option TaskRef
  deriving DecidableEq, Repr

structure ExceptionContext where
  x : Nat → Nat
  elr : Nat
  esr : Nat
  far : Nat
  spsr : PState
  sp : StackPointer

inductive Freed where
  | stack (base : Nat)
  | state (task : TaskRef)
  deriving DecidableEq, Repr

/-- The globals of the scheduler, the tick counter, the wait queues and
mutexes, the interrupt mask of the core and the log of `kfree` calls.
A mutex and its wait queue have the same name. -/
structure State where
  currentTask : Option TaskRef
  taskList : Option TaskRef
  pendingCleanupHead : Option TaskRef
  pendingCleanupTail : Option TaskRef
  launchContext : Option TaskRef
  idleTask : Option TaskRef
  tasks : TaskRef → TaskState
  queues : QueueRef → TaskWaitQueue
  locked : QueueRef → Bool
  systemTicks : Nat
  daif : Nat
  kfreed : List Freed

abbrev Sched (α : Type) := Program State Fault α

namespace State

def setTask (state : State) (task : TaskRef) (update : TaskState → TaskState) :
    State :=
  { state with
    tasks := Function.update state.tasks task (update (state.tasks task)) }

def setQueue (state : State) (queue : QueueRef) (value : TaskWaitQueue) :
    State :=
  { state with queues := Function.update state.queues queue value }

def Valid (state : State) (task : TaskRef) : Prop :=
  Freed.state task ∉ state.kfreed

instance (state : State) (task : TaskRef) : Decidable (state.Valid task) :=
  inferInstanceAs (Decidable (_ ∉ _))

section

variable (state : State) (task other : TaskRef) (update : TaskState → TaskState)
  (queue : QueueRef) (value : TaskWaitQueue)

@[simp] theorem setTask_currentTask :
    (state.setTask task update).currentTask = state.currentTask := rfl
@[simp] theorem setTask_taskList :
    (state.setTask task update).taskList = state.taskList := rfl
@[simp] theorem setTask_pendingCleanupHead :
    (state.setTask task update).pendingCleanupHead =
      state.pendingCleanupHead := rfl
@[simp] theorem setTask_pendingCleanupTail :
    (state.setTask task update).pendingCleanupTail =
      state.pendingCleanupTail := rfl
@[simp] theorem setTask_idleTask :
    (state.setTask task update).idleTask = state.idleTask := rfl
@[simp] theorem setTask_launchContext :
    (state.setTask task update).launchContext = state.launchContext := rfl
@[simp] theorem setTask_queues :
    (state.setTask task update).queues = state.queues := rfl
@[simp] theorem setTask_locked :
    (state.setTask task update).locked = state.locked := rfl
@[simp] theorem setTask_systemTicks :
    (state.setTask task update).systemTicks = state.systemTicks := rfl
@[simp] theorem setTask_daif :
    (state.setTask task update).daif = state.daif := rfl
@[simp] theorem setTask_kfreed :
    (state.setTask task update).kfreed = state.kfreed := rfl

@[simp] theorem setTask_valid :
    (state.setTask task update).Valid other ↔ state.Valid other := Iff.rfl

@[simp] theorem setTask_self :
    (state.setTask task update).tasks task = update (state.tasks task) := by
  simp [setTask]

theorem setTask_of_ne (h : other ≠ task) :
    (state.setTask task update).tasks other = state.tasks other := by
  simp [setTask, h]

@[simp] theorem setQueue_tasks :
    (state.setQueue queue value).tasks = state.tasks := rfl
@[simp] theorem setQueue_currentTask :
    (state.setQueue queue value).currentTask = state.currentTask := rfl
@[simp] theorem setQueue_taskList :
    (state.setQueue queue value).taskList = state.taskList := rfl
@[simp] theorem setQueue_valid :
    (state.setQueue queue value).Valid other ↔ state.Valid other := Iff.rfl
@[simp] theorem setQueue_self :
    (state.setQueue queue value).queues queue = value := by
  simp [setQueue]

end

end State

/-! Loads and stores through task pointers. -/

open Program

def deref : Option TaskRef → Sched TaskRef
  | some task => .ret task
  | none => .fail .nullDereference

def load (task : TaskRef) (field : TaskState → α) : Sched α :=
  .access id fun state =>
    if state.Valid task then .ret (field (state.tasks task))
    else .fail .useAfterFree

def store (task : TaskRef) (update : TaskState → TaskState) : Sched Unit :=
  .access (fun state => state.setTask task update) fun state =>
    if state.Valid task then .ret () else .fail .useAfterFree

@[simp] theorem run_deref_some (task : TaskRef) (next : TaskRef → Sched β)
    (state : State) :
    (deref (some task) >>= next).run state = (next task).run state := rfl

@[simp] theorem deref_some (task : TaskRef) : deref (some task) = pure task :=
  rfl

theorem run_load {task : TaskRef} {state : State} (valid : state.Valid task)
    (field : TaskState → α) :
    (load task field).run state = .ok (field (state.tasks task), state) := by
  simp [load, valid]

theorem run_store {task : TaskRef} {state : State} (valid : state.Valid task)
    (update : TaskState → TaskState) :
    (store task update).run state = .ok ((), state.setTask task update) := by
  simp [store, valid]

@[simp] theorem run_load_bind {task : TaskRef} {state : State}
    (valid : state.Valid task) (field : TaskState → α) (next : α → Sched β) :
    (load task field >>= next).run state =
      (next (field (state.tasks task))).run state :=
  run_bind_ok (run_load valid field) next

@[simp] theorem run_store_bind {task : TaskRef} {state : State}
    (valid : state.Valid task) (update : TaskState → TaskState)
    (next : Unit → Sched β) :
    (store task update >>= next).run state =
      (next ()).run (state.setTask task update) :=
  run_bind_ok (run_store valid update) next

end Planetoid.Task
