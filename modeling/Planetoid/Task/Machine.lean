import Planetoid.Arch.Core
import Planetoid.Task.Runs

namespace Planetoid.Task

open Planetoid Program Links Arch

/-! The core that runs `kernel_main` and the tasks: switches by `task_switch`,
and timer interrupts wherever they are enabled. -/

inductive Routine where
  | start
  | terminate
  deriving DecidableEq

def Routine.program (map : CodeMap) (budget : Nat) : Routine → Code Service
  | .start => do
    let exit ← kernel Scheduler.start
    leave map .done exit
  | .terminate => do
    match ← kernel (Scheduler.terminateCurrent budget) with
    | none => pure .again
    | some exit => leave map .again exit

/-- The calls of a task that may switch away with interrupts masked. -/
inductive Request where
  | yield
  | sleep (ticks : Nat)
  | lock (mutex : Mutex.MutexRef)

def lockOnce (map : CodeMap) (budget : Nat) (mutex : Mutex.MutexRef) :
    Code (Unit ⊕ Service) := do
  match ← kernel (Mutex.lockRound budget mutex) with
  | none => pure (.inr .done)
  | some exit => do
    match ← leave map .again exit with
    | .again => pure (.inl ())
    | service => pure (.inr service)

/-- The loop of `lock`, up to its end or to the switch to another task. -/
def lockRounds (map : CodeMap) (budget : Nat) (mutex : Mutex.MutexRef) :
    Code Service :=
  whileLoop .budgetExhausted (fun _ => lockOnce map budget mutex) budget ()

def Request.program (map : CodeMap) (budget : Nat) : Request → Code Service
  | .yield => do
    let exit ← kernel (Scheduler.yield budget)
    leave map .done exit
  | .sleep ticks => do
    let exit ← kernel (Scheduler.sleep budget ticks)
    leave map .done exit
  | .lock mutex => lockRounds map budget mutex

/-- What a thread executes: code outside the scheduler, what is left of a
routine called with the registers `caller`, or an endless `wfi` loop. -/
inductive Activity where
  | own
  | inside (routine : Routine) (caller : Registers) (accesses : Nat)
      (rest : Code Service)
  | halted

/-- What a thread goes on with after it left by `task_switch`. -/
def Activity.left : Activity → Activity
  | .own => .own
  | _ => .halted

/-- A thread, `none` for `kernel_main`, and where it is. A fresh one has not
executed an instruction outside `task_switch`. -/
structure Execution where
  thread : Option TaskRef
  registers : Registers
  activity : Activity
  fresh : Bool

/-- What was saved in the context of a task, by a timer interrupt or by
`task_switch`. -/
structure Suspension where
  execution : Execution
  interrupted : Bool

/-- A call that has not returned: the mask with which it was made, and whether
only the return is left. -/
structure Call where
  request : Request
  mask : Nat
  served : Bool

/-- What a call goes on with when its thread has the core again. -/
def Call.after (call : Call) : Service → Call
  | .done => { call with served := true }
  | .again => call
  | .switched _ => match call.request with
    | .lock _ => call
    | _ => { call with served := true }

theorem Call.after_mask (call : Call) (service : Service) :
    (call.after service).mask = call.mask := by
  unfold Call.after
  split
  · rfl
  · rfl
  · split <;> rfl

/-- The kernel's memory, the core, what is saved in the context of each task,
the open calls of the tasks, and three logs: which suspension every dispatched
task resumed and with which registers, the registers at the first instruction
of each task, and the masks at the call and the return of every call. -/
structure Machine where
  history : History
  running : Execution
  suspended : TaskRef → Option Suspension
  calls : TaskRef → Option Call
  resumptions : List (TaskRef × Suspension × Registers)
  begun : List (Option TaskRef × Registers)
  returns : List (Nat × Nat)

def initialContext (entry trampoline : Nat) (stack : StackPointer) :
    CPUContext where
  x := Function.update (fun _ => 0) 19 entry
  sp := stack
  pc := trampoline
  -- 0x5 is EL1h with no condition flag and no mask bit set
  pstate := { nzcv := 0, daif := 0 }

def State.savesTo (state : State) : Option TaskRef :=
  match state.currentTask with
  | none => none
  | some current =>
    if state.idleTask = some current then none
    else if stateOf state current = .running then some current
    else none

def Request.record (history : History) (after : State) :
    Request → Service → History
  | .lock mutex, .switched _ =>
    (Operation.blockCurrent mutex).record history after
  | _, _ => { history with state := after }

theorem Request.record_state (request : Request) (history : History)
    (after : State) (service : Service) :
    (request.record history after service).state = after := by
  unfold Request.record
  split
  · unfold Operation.record
    dsimp only
    split <;> rfl
  · rfl

def Routine.record (history : History) (after : State)
    (handover : Handover) : Routine → History
  | .start => { history with state := after, started := true }
  | .terminate => { history with
      state := after
      live := history.live.erase handover.previous
      terminated := handover.previous :: history.terminated }

namespace Machine

def core (machine : Machine) : Core where
  state := machine.history.state
  registers := machine.running.registers

def withHistory (machine : Machine) (history : History) : Machine :=
  { machine with history := history }

def withState (machine : Machine) (state : State) : Machine :=
  machine.withHistory { machine.history with state := state }

def withRunning (machine : Machine) (running : Execution) : Machine :=
  { machine with running := running }

def withRegisters (machine : Machine) (registers : Registers) : Machine :=
  machine.withRunning { machine.running with registers := registers }

def withActivity (machine : Machine) (activity : Activity) : Machine :=
  machine.withRunning { machine.running with activity := activity }

def withCall (machine : Machine) (task : TaskRef) (call : Option Call) :
    Machine :=
  { machine with calls := Function.update machine.calls task call }

def giveBack (machine : Machine) (task : TaskRef) (call : Call) : Machine :=
  { machine.withCall task none with
    returns := (call.mask, machine.history.state.daif) :: machine.returns }

def suspend (machine : Machine) (task : TaskRef) (suspension : Suspension) :
    Machine :=
  { machine with
    suspended := Function.update machine.suspended task (some suspension) }

/-- The core goes on with what the context of `next` holds. -/
def dispatch (machine : Machine) (next : TaskRef)
    (registers resumed : Registers) : Machine :=
  match machine.suspended next with
  | none => machine.withRunning {
      thread := some next
      registers := registers
      activity := .own
      fresh := true }
  | some suspension => { machine with
      running := { suspension.execution with registers := registers }
      resumptions := (next, suspension, resumed) :: machine.resumptions }

def arrive (map : CodeMap) (machine : Machine) : Machine :=
  if machine.running.fresh ∧ machine.running.registers.pc ≠ map.branch then
    { machine with
      running := { machine.running with fresh := false }
      begun := (machine.running.thread, machine.running.registers) ::
        machine.begun }
  else machine

/-- What `task_switch` saves when it is called with the registers `caller`. -/
def switchedOut (map : CodeMap) (machine : Machine) (caller : Registers) :
    Suspension where
  execution := { machine.running with
    registers := { caller with pc := map.resume }
    activity := machine.running.activity.left }
  interrupted := false

def interruptedOut (machine : Machine) : Suspension where
  execution := machine.running
  interrupted := true

/-- After a `task_switch` that was called with the registers `caller`. The
next task resumes behind `br x2`. -/
def handOver (map : CodeMap) (machine : Machine) (caller : Registers)
    (handover : Handover) (registers : Registers) : Machine :=
  (machine.suspend handover.previous
    (machine.switchedOut map caller)).dispatch handover.next registers
      { registers with pc := registers.x 2 }

def proceed (map : CodeMap) (machine : Machine) (routine : Routine)
    (caller : Registers) (accesses : Nat) (rest : Code Service)
    (core : Core) : Machine :=
  match rest with
  | .ret (.switched handover) =>
    (machine.withHistory
      (routine.record machine.history core.state handover)).handOver map
        caller handover core.registers
  | .ret _ => ((machine.withState core.state).withRegisters
      core.registers).withActivity .halted
  | rest => ((machine.withState core.state).withRegisters
      core.registers).withActivity (.inside routine caller accesses rest)

/-- After a function of the running task that was executed with interrupts
masked. -/
def serve (map : CodeMap) (machine : Machine) (call : Call) (task : TaskRef)
    (service : Service) (core : Core) : Machine :=
  let served := (machine.withHistory (call.request.record machine.history
    core.state service)).withCall task (some (call.after service))
  match service with
  | .switched handover => served.handOver map machine.running.registers
      handover core.registers
  | _ => served

def saveInterrupted (machine : Machine) : Machine :=
  match machine.history.state.savesTo with
  | none => machine
  | some task => machine.suspend task machine.interruptedOut

def interrupted (map : CodeMap) (machine : Machine)
    (frame : ExceptionContext) (after : State) : Machine :=
  let registers := loadFrame frame machine.running.registers
  let saved := machine.saveInterrupted.withState
    (after.withDaif frame.spsr.daif)
  if after.currentTask = machine.history.state.currentTask then
    saved.withRegisters registers
  else match after.currentTask with
    | none => saved.withRegisters registers
    | some next => (saved.dispatch next registers registers).arrive map

/-! What passing the core on leaves as it is. -/

section

variable (map : CodeMap) (machine : Machine) (next : TaskRef)
  (registers resumed : Registers)

@[simp] theorem dispatch_history :
    (machine.dispatch next registers resumed).history = machine.history := by
  unfold dispatch
  split <;> rfl

@[simp] theorem dispatch_suspended :
    (machine.dispatch next registers resumed).suspended =
      machine.suspended := by
  unfold dispatch
  split <;> rfl

@[simp] theorem dispatch_calls :
    (machine.dispatch next registers resumed).calls = machine.calls := by
  unfold dispatch
  split <;> rfl

@[simp] theorem dispatch_returns :
    (machine.dispatch next registers resumed).returns = machine.returns := by
  unfold dispatch
  split <;> rfl

@[simp] theorem dispatch_begun :
    (machine.dispatch next registers resumed).begun = machine.begun := by
  unfold dispatch
  split <;> rfl

@[simp] theorem saveInterrupted_running :
    machine.saveInterrupted.running = machine.running := by
  unfold saveInterrupted
  split <;> rfl

@[simp] theorem withCall_self (task : TaskRef) (call : Option Call) :
    (machine.withCall task call).calls task = call := by
  simp [withCall]

theorem withCall_of_ne {task other : TaskRef} (call : Option Call)
    (h : other ≠ task) :
    (machine.withCall task call).calls other = machine.calls other := by
  simp [withCall, h]

@[simp] theorem suspend_self (task : TaskRef) (suspension : Suspension) :
    (machine.suspend task suspension).suspended task = some suspension := by
  simp [suspend]

theorem suspend_of_ne {task other : TaskRef} (suspension : Suspension)
    (h : other ≠ task) :
    (machine.suspend task suspension).suspended other =
      machine.suspended other := by
  simp [suspend, h]

@[simp] theorem arrive_history :
    (machine.arrive map).history = machine.history := by
  unfold arrive
  split <;> rfl

@[simp] theorem arrive_suspended :
    (machine.arrive map).suspended = machine.suspended := by
  unfold arrive
  split <;> rfl

@[simp] theorem arrive_calls : (machine.arrive map).calls = machine.calls := by
  unfold arrive
  split <;> rfl

@[simp] theorem arrive_returns :
    (machine.arrive map).returns = machine.returns := by
  unfold arrive
  split <;> rfl

@[simp] theorem arrive_resumptions :
    (machine.arrive map).resumptions = machine.resumptions := by
  unfold arrive
  split <;> rfl

@[simp] theorem arrive_thread :
    (machine.arrive map).running.thread = machine.running.thread := by
  unfold arrive
  split <;> rfl

@[simp] theorem arrive_activity :
    (machine.arrive map).running.activity = machine.running.activity := by
  unfold arrive
  split <;> rfl

@[simp] theorem arrive_registers :
    (machine.arrive map).running.registers = machine.running.registers := by
  unfold arrive
  split <;> rfl

end

structure Executes (map : CodeMap) (machine : Machine) : Prop where
  own : machine.running.activity = .own
  pc : machine.running.registers.pc ≠ map.branch

/-- The running thread is `task`, which is not the idle task. -/
structure RunsTask (machine : Machine) (task : TaskRef) : Prop where
  thread : machine.running.thread = some task
  live : task ∈ machine.history.live

def Uncalled (machine : Machine) : Prop :=
  ∀ task, machine.running.thread = some task → machine.calls task = none

structure New (machine : Machine) (task : TaskRef) : Prop where
  live : task ∉ machine.history.live
  terminated : task ∉ machine.history.terminated
  idle : machine.history.state.idleTask ≠ some task
  launch : machine.history.state.launchContext ≠ some task

end Machine

/-- What happens on the core; with `next`, `task_switch` passes the core to
that task. -/
inductive Event where
  | add (task : TaskRef)
  | call (request : Request)
  | serve (next : Option TaskRef)
  | giveBack
  | unlock (mutex : Mutex.MutexRef)
  | enter (routine : Routine)
  | access (next : Option TaskRef)
  | branch
  | interrupt
  | compute (registers : Registers)
  | mask (daif : Nat)

namespace Machine

/-- The thread that may call a routine: `kernel_main` calls `start`, once. -/
def Enters (machine : Machine) : Routine → Prop
  | .start => machine.running.thread = none ∧ machine.history.started = false
  | .terminate => ∃ task, machine.RunsTask task

inductive Step (map : CodeMap) : Machine → Event → Machine → Prop
  | add {machine : Machine} {task : TaskRef} {after : State}
      (executes : machine.Executes map) (uncalled : machine.Uncalled)
      (fresh : machine.New task)
      (ended : (Scheduler.addTask (some task)).run machine.history.state =
        .ok ((), after)) :
      Step map machine (.add task) (machine.withHistory
        ((Operation.addTask task).record machine.history after))
  | call {machine : Machine} {task : TaskRef} (request : Request)
      (executes : machine.Executes map) (runs : machine.RunsTask task)
      (uncalled : machine.Uncalled) :
      Step map machine (.call request) (machine.withCall task (some {
        request := request
        mask := machine.history.state.daif
        served := false }))
  | serve {machine : Machine} {task : TaskRef} {call : Call} {budget : Nat}
      {service : Service} {core : Core} (executes : machine.Executes map)
      (runs : machine.RunsTask task) (called : machine.calls task = some call)
      (unserved : call.served = false)
      (ended : (call.request.program map budget).run machine.core =
        .ok (service, core)) :
      Step map machine (.serve service.next)
        (machine.serve map call task service core)
  | giveBack {machine : Machine} {task : TaskRef} {call : Call}
      (executes : machine.Executes map) (runs : machine.RunsTask task)
      (called : machine.calls task = some call) (served : call.served = true) :
      Step map machine .giveBack (machine.giveBack task call)
  | unlock {machine : Machine} {task : TaskRef} {mutex : Mutex.MutexRef}
      {after : State} (executes : machine.Executes map)
      (runs : machine.RunsTask task) (uncalled : machine.Uncalled)
      (ended : (Mutex.unlock (some mutex)).run machine.history.state =
        .ok ((), after)) :
      Step map machine (.unlock mutex) (machine.withHistory
        { machine.history with
          state := after
          waiting := Function.update machine.history.waiting mutex
            (machine.history.waiting mutex).tail })
  | enter {machine : Machine} {routine : Routine} (budget : Nat)
      (executes : machine.Executes map) (uncalled : machine.Uncalled)
      (enters : machine.Enters routine) :
      Step map machine (.enter routine) (machine.withActivity
        (.inside routine machine.running.registers 0
          (routine.program map budget)))
  | access {machine : Machine} {routine : Routine} {caller : Registers}
      {accesses : Nat} {rest left : Code Service} {core : Core}
      (activity : machine.running.activity =
        .inside routine caller accesses rest)
      (pc : machine.running.registers.pc ≠ map.branch)
      (step : Program.Step (rest, machine.core) (left, core)) :
      Step map machine (.access (passesTo left))
        (machine.proceed map routine caller (accesses + 1) left core)
  | branch {machine : Machine}
      (pc : machine.running.registers.pc = map.branch) :
      Step map machine .branch ((machine.withRegisters
        { machine.running.registers with
          pc := machine.running.registers.x 2 }).arrive map)
  | interrupt {machine : Machine} {budget esr far : Nat}
      {frame : ExceptionContext} {after : State}
      (enabled : machine.history.state.daif &&& Interrupts.irqBit = 0)
      (ended : (onTimerInterrupt budget (saveFrame machine.running.registers
        machine.history.state.daif esr far)).run machine.history.state =
          .ok (frame, after)) :
      Step map machine .interrupt (machine.interrupted map frame after)
  | compute {machine : Machine} (registers : Registers)
      (executes : machine.Executes map)
      (stack : registers.sp.stack = machine.running.registers.sp.stack)
      (pc : registers.pc ≠ map.branch) :
      Step map machine (.compute registers) (machine.withRegisters registers)
  | mask {machine : Machine} (daif : Nat) (executes : machine.Executes map)
      (uncalled : machine.Uncalled) :
      Step map machine (.mask daif)
        (machine.withState (machine.history.state.withDaif daif))

def Created (map : CodeMap) (state : State) (task : TaskRef) : Prop :=
  (state.tasks task).cpuContext = initialContext (map.entry task)
    map.trampoline ⟨(state.tasks task).stackBase,
      (state.tasks task).stackSize⟩

/-- `kernel_main` after `Scheduler::init`. A task that is not added yet is
taken as `create_task` will leave it. -/
structure Initial (map : CodeMap) (machine : Machine) : Prop where
  history : runs.initial machine.history
  launch_ne : machine.history.state.launchContext ≠
    machine.history.state.idleTask
  created : ∀ task, machine.history.state.launchContext ≠ some task →
    Created map machine.history.state task
  launch : ∀ task, machine.history.state.launchContext = some task →
    (machine.history.state.tasks task).cpuContext =
      initialContext 0 0 ⟨(machine.history.state.tasks task).stackBase,
        (machine.history.state.tasks task).stackSize⟩
  distinct : ∀ first second,
    (machine.history.state.tasks first).stackBase =
      (machine.history.state.tasks second).stackBase → first = second
  thread : machine.running.thread = none
  executes : machine.Executes map
  begun : machine.running.fresh = false
  stack : ∀ task, machine.running.registers.sp.stack ≠
    (machine.history.state.tasks task).stackBase
  suspended : machine.suspended = fun _ => none
  calls : machine.calls = fun _ => none
  logs : machine.resumptions = [] ∧ machine.begun = [] ∧
    machine.returns = []

end Machine

/-- The runs of the kernel with the code at the addresses `map`. -/
def machines (map : CodeMap) : System Machine Event where
  initial := Machine.Initial map
  step := Machine.Step map

end Planetoid.Task
