import Mathlib.Algebra.Group.Nat.Defs
import Planetoid.Task.State

namespace Planetoid.Task

open Planetoid Program

/-- How a scheduler function ends: it returns, or it ends in
`task_switch(previous, next)`. -/
inductive Exit where
  | returned
  | switched (previous next : TaskRef)
  deriving DecidableEq, Repr

namespace Interrupts

def irqBit : Nat := 2

def irqSave : Sched Nat := do
  let daif ← read (·.daif)
  write fun state => { state with daif := state.daif ||| irqBit }
  pure daif

def irqRestore (daif : Nat) : Sched Unit :=
  write fun state => { state with daif := daif }

end Interrupts

namespace Timer

def ticksModulus : Nat := 2 ^ 64

def onInterrupt : Sched Unit :=
  write fun state =>
    { state with systemTicks := (state.systemTicks + 1) % ticksModulus }

def getTicks : Sched Nat := read (·.systemTicks)

end Timer

namespace Scheduler

open Interrupts

def setCurrentTask (task : Option TaskRef) : Sched Unit :=
  write fun state => { state with currentTask := task }

def setTaskList (task : Option TaskRef) : Sched Unit :=
  write fun state => { state with taskList := task }

def setPendingCleanupHead (task : Option TaskRef) : Sched Unit :=
  write fun state => { state with pendingCleanupHead := task }

def setPendingCleanupTail (task : Option TaskRef) : Sched Unit :=
  write fun state => { state with pendingCleanupTail := task }

def setState (task : TaskRef) (value : EState) : Sched Unit :=
  store task fun fields => { fields with state := value }

def setNextTask (task : TaskRef) (value : Option TaskRef) : Sched Unit :=
  store task fun fields => { fields with nextTask := value }

def setCleanupNext (task : TaskRef) (value : Option TaskRef) : Sched Unit :=
  store task fun fields => { fields with cleanupNext := value }

def kfree (allocation : Freed) : Sched Unit :=
  write fun state => { state with kfreed := allocation :: state.kfreed }

def findPrevious (budget : Nat) (task start : TaskRef) : Sched TaskRef :=
  whileLoop .budgetExhausted (fun previous => do
    if (← load previous (·.nextTask)) = some task then
      pure (.inr previous)
    else do
      let next ← deref (← load previous (·.nextTask))
      pure (.inl next)) budget start

def removeTask (budget : Nat) (task : Option TaskRef) : Sched Unit := do
  match task, ← read (·.taskList) with
  | none, _ => pure ()
  | _, none => pure ()
  | some task, some start =>
    if (← load task (·.nextTask)) = some task then
      setTaskList none
    else do
      let previous ← findPrevious budget task start
      setNextTask previous (← load task (·.nextTask))
      if (← read (·.taskList)) = some task then
        setTaskList (← load task (·.nextTask))
      else pure ()

def cleanupTerminatedTask : Sched Unit := do
  match ← read (·.pendingCleanupHead) with
  | none => pure ()
  | some _ => do
    let task ← deref (← read (·.pendingCleanupHead))
    setPendingCleanupHead (← load task (·.cleanupNext))
    if (← read (·.pendingCleanupHead)) = none then
      setPendingCleanupTail none
    else pure ()
    setCleanupNext task none
    kfree (.stack (← load task (·.stackBase)))
    kfree (.state task)

/-- The `do ... while (task != start_task)` loop of `find_next_ready_task`. -/
def scanRing (budget : Nat) (start : TaskRef) : Sched (Option TaskRef) :=
  whileLoop .budgetExhausted (fun position => do
    let task ← deref position
    if (← load task (·.state)) = .ready then
      pure (.inr (some task))
    else do
      let next ← load task (·.nextTask)
      if next = some start then pure (.inr none) else pure (.inl next))
    budget (some start)

def findNextReadyTask (budget : Nat) (startTask : Option TaskRef) :
    Sched (Option TaskRef) := do
  match ← read (·.taskList), startTask with
  | none, _ => pure none
  | _, none => pure none
  | some _, some start => scanRing budget start

/-- `while (next != stop && next->state != Ready) next = next->next_task`. -/
def scanReady (budget : Nat) (stop : Sched (Option TaskRef))
    (start : Option TaskRef) : Sched (Option TaskRef) :=
  whileLoop .budgetExhausted (fun next => do
    if next = (← stop) then pure (.inr next)
    else do
      let task ← deref next
      if (← load task (·.state)) = .ready then pure (.inr next)
      else pure (.inl (← load task (·.nextTask)))) budget start

def init (launch idle : Option TaskRef) : Sched Unit := do
  setCurrentTask none
  setTaskList none
  setPendingCleanupHead none
  setPendingCleanupTail none
  write fun state => { state with launchContext := launch }
  setState (← deref (← read (·.launchContext))) .running
  write fun state => { state with idleTask := idle }
  setState (← deref (← read (·.idleTask))) .ready

def addTask (task : Option TaskRef) : Sched Unit := do
  match task with
  | none => pure ()
  | some task => do
    let irqState ← irqSave
    setState task .ready
    match ← read (·.taskList) with
    | none => do
      setTaskList (some task)
      setNextTask task (some task)
      irqRestore irqState
    | some head => do
      setNextTask task (← load head (·.nextTask))
      setNextTask head (some task)
      irqRestore irqState

def switchToIdle (previous : TaskRef) : Sched Exit := do
  setState (← deref (← read (·.idleTask))) .running
  setCurrentTask (← read (·.idleTask))
  pure (.switched previous (← deref (← read (·.idleTask))))

def yield (budget : Nat) : Sched Exit := do
  let irqState ← irqSave
  match ← read (·.currentTask) with
  | none => do
    irqRestore irqState
    pure .returned
  | some current => do
    let next ← scanReady budget (read (·.currentTask))
      (← load current (·.nextTask))
    if next = (← read (·.currentTask)) then do
      irqRestore irqState
      pure .returned
    else do
      setState (← deref (← read (·.currentTask))) .ready
      let next ← deref next
      setState next .running
      let previous ← deref (← read (·.currentTask))
      setCurrentTask (some next)
      pure (.switched previous next)

def firstTask : Sched (Option TaskRef) := do
  match ← read (·.taskList) with
  | some task => pure (some task)
  | none => read (·.idleTask)

def start : Sched Exit := do
  match ← firstTask with
  | none => pure .returned
  | some first => do
    setCurrentTask (some first)
    setState (← deref (← read (·.currentTask))) .running
    pure (.switched (← deref (← read (·.launchContext)))
      (← deref (← read (·.currentTask))))

/-- `none` is the endless `wfi` loop that refuses to end the idle task. -/
def terminateCurrent (budget : Nat) : Sched (Option Exit) := do
  if (← read (·.currentTask)) = none then pure none
  else if (← read (·.currentTask)) = (← read (·.idleTask)) then pure none
  else do
    let terminated ← deref (← read (·.currentTask))
    setCleanupNext terminated none
    match ← read (·.pendingCleanupTail) with
    | none => do
      setPendingCleanupHead (some terminated)
      setPendingCleanupTail (some terminated)
    | some _ => do
      setCleanupNext (← deref (← read (·.pendingCleanupTail)))
        (some terminated)
      setPendingCleanupTail (some terminated)
    removeTask budget (some terminated)
    if (← read (·.taskList)) = none then
      return some (← switchToIdle terminated)
    else do
      match ← findNextReadyTask budget (← read (·.taskList)) with
      | none => return some (← switchToIdle terminated)
      | some next => do
        setState next .running
        setCurrentTask (some next)
        return some (.switched terminated next)

def copyRegisters (source target : Nat → Nat) : Nat → Nat :=
  fun index => if index < 31 then source index else target index

def saveContext (task : TaskRef) (context : ExceptionContext) : Sched Unit :=
  store task fun fields => { fields with
    cpuContext := {
      x := copyRegisters context.x fields.cpuContext.x
      sp := context.sp
      pc := context.elr
      pstate := context.spsr } }

def restoreContext (task : TaskRef) (context : ExceptionContext) :
    Sched ExceptionContext := do
  let saved ← load task (·.cpuContext)
  pure { context with
    x := copyRegisters saved.x context.x
    sp := saved.sp
    elr := saved.pc
    spsr := saved.pstate }

/-- The loop of `preempt` that looks for work while the idle task runs. -/
def scanFromIdle (budget : Nat) (start : Option TaskRef) :
    Sched (Option TaskRef) :=
  whileLoop .budgetExhausted (fun position => do
    match position with
    | none => pure (.inr none)
    | some task => do
      if (← load task (·.state)) = .ready then pure (.inr (some task))
      else do
        let next ← load task (·.nextTask)
        if next = (← read (·.taskList)) then pure (.inr none)
        else pure (.inl next)) budget start

/-- The frame that `preempt` leaves for the end of the interrupt. -/
def preempt (budget : Nat) (context : ExceptionContext) :
    Sched ExceptionContext := do
  match ← read (·.currentTask) with
  | none => pure context
  | some _ => do
    cleanupTerminatedTask
    if (← read (·.currentTask)) = (← read (·.idleTask)) then do
      match ← scanFromIdle budget (← read (·.taskList)) with
      | none => pure context
      | some next => do
        setState next .running
        setCurrentTask (some next)
        restoreContext next context
    else do
      let current ← deref (← read (·.currentTask))
      if (← load current (·.state)) ≠ .running then pure context
      else do
        saveContext current context
        setState current .ready
        let next ← scanReady budget (read (·.currentTask))
          (← load current (·.nextTask))
        if next = (← read (·.currentTask)) then do
          setState current .running
          pure context
        else do
          let next ← deref next
          setState next .running
          setCurrentTask (some next)
          restoreContext next context

def sleep (budget ticks : Nat) : Sched Exit := do
  match ← read (·.currentTask) with
  | none => pure .returned
  | some _ =>
    if ticks = 0 then pure .returned
    else do
      let _ ← irqSave
      let previous ← deref (← read (·.currentTask))
      let now ← Timer.getTicks
      store previous fun fields =>
        { fields with wakeTick := (now + ticks) % Timer.ticksModulus }
      setState previous .sleeping
      let next ← scanReady budget (pure (some previous))
        (← load previous (·.nextTask))
      if next = some previous then
        switchToIdle previous
      else do
        let next ← deref next
        setState next .running
        setCurrentTask (some next)
        pure (.switched previous next)

def wakeExpired (currentTick : Nat) (task : TaskRef) : Sched Unit := do
  if (← load task (·.state)) = .sleeping then
    if (← load task (·.wakeTick)) ≤ currentTick then
      setState task .ready
    else pure ()
  else pure ()

/-- The `do ... while (task != task_list)` loop of
`update_sleeping_tasks`. -/
def wakeLoop (budget currentTick : Nat) (start : TaskRef) : Sched Unit :=
  whileLoop .budgetExhausted (fun position => do
    let task ← deref position
    wakeExpired currentTick task
    let next ← load task (·.nextTask)
    if next = (← read (·.taskList)) then pure (.inr ())
    else pure (.inl next)) budget (some start)

def updateSleepingTasks (budget : Nat) : Sched Unit := do
  match ← read (·.taskList) with
  | none => pure ()
  | some start => do
    let currentTick ← Timer.getTicks
    wakeLoop budget currentTick start

def blockCurrentTask (budget : Nat) : Sched Exit := do
  match ← read (·.currentTask) with
  | none => pure .returned
  | some previous => do
    let next ← scanReady budget (read (·.currentTask))
      (← load previous (·.nextTask))
    if next = (← read (·.currentTask)) then do
      setCurrentTask (← read (·.idleTask))
      setState (← deref (← read (·.idleTask))) .running
      pure (.switched previous (← deref (← read (·.idleTask))))
    else do
      let next ← deref next
      setState next .running
      setCurrentTask (some next)
      pure (.switched previous next)

end Scheduler

def onTimerInterrupt (budget : Nat) (context : ExceptionContext) :
    Sched ExceptionContext := do
  Timer.onInterrupt
  Scheduler.updateSleepingTasks budget
  Scheduler.preempt budget context

end Planetoid.Task
