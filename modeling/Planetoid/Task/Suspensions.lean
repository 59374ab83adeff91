import Planetoid.Task.Handover
import Planetoid.Task.Interruption

namespace Planetoid.Task

open Planetoid Program Arch

/-! The saved contexts hold what their tasks go on with, as long as nothing
interrupts a thread that has given its place in the scheduler away. -/

structure Suspension.SavedIn (suspension : Suspension)
    (context : CPUContext) : Prop where
  x : ∀ index, 19 ≤ index → index < 31 →
    context.x index = suspension.execution.registers.x index
  sp : context.sp = suspension.execution.registers.sp
  pc : context.pc = suspension.execution.registers.pc
  interrupted : suspension.interrupted = true →
    (∀ index, index < 31 →
      context.x index = suspension.execution.registers.x index) ∧
    context.pstate.nzcv = suspension.execution.registers.nzcv

structure Starts (map : CodeMap) (state : State) (task : TaskRef)
    (registers : Registers) : Prop where
  pc : registers.pc = map.trampoline
  entry : registers.x 19 = map.entry task
  sp : registers.sp =
    ⟨(state.tasks task).stackBase, (state.tasks task).stackSize⟩

def Machine.beginnings (machine : Machine) (task : TaskRef) : Nat :=
  (machine.begun.map Prod.fst).count (some task)

/-- A thread of `task` is at the branch to its first instruction, or it began
once. -/
structure Execution.Begins (execution : Execution) (map : CodeMap)
    (state : State) (task : TaskRef) (beginnings : Nat) : Prop where
  count : beginnings = if execution.fresh then 0 else 1
  own : execution.fresh = true → execution.activity = .own
  pc : execution.fresh = true → execution.registers.pc = map.branch
  starts : execution.fresh = true → Starts map state task
    { execution.registers with pc := execution.registers.x 2 }

/-- A thread inside a routine, which it called while `current` was the current
task, that has not committed itself to a switch. -/
structure Execution.Prepared (execution : Execution) (map : CodeMap)
    (launch idle : TaskRef) (current : Option TaskRef) (routine : Routine)
    (caller : Registers) (rest : Code Service) : Prop where
  fresh : execution.fresh = false
  idle_ne : current ≠ some idle
  started : routine = .terminate → current ≠ none
  given : GivenBack caller execution.registers
  commits : rest.Commits (handing map current (some idle) launch
    (current.getD launch) caller)

def Execution.Prepares (execution : Execution) (map : CodeMap)
    (launch idle : TaskRef) (current : Option TaskRef) : Prop :=
  ∀ routine caller accesses rest,
    execution.activity = .inside routine caller accesses rest →
      execution.Prepared map launch idle current routine caller rest

/-- The thread goes on in code that a function call may have left. -/
structure Execution.Plain (execution : Execution) : Prop where
  fresh : execution.fresh = false
  outside : ∀ routine caller accesses rest,
    execution.activity ≠ .inside routine caller accesses rest

def owner (launch task : TaskRef) : Option TaskRef :=
  if task = launch then none else some task

structure Held (map : CodeMap) (launch idle : TaskRef) (machine : Machine)
    (task : TaskRef) : Prop where
  unstarted : machine.suspended task = none → task ≠ launch ∧
    Machine.Created map machine.history.state task ∧
      machine.beginnings task = 0
  saved : ∀ suspension, machine.suspended task = some suspension →
    suspension.SavedIn (machine.history.state.tasks task).cpuContext
  prepares : ∀ suspension, machine.suspended task = some suspension →
    suspension.execution.Prepares map launch idle (some task)
  plain : ∀ suspension, machine.suspended task = some suspension →
    suspension.interrupted = false → suspension.execution.Plain
  begins : ∀ suspension, machine.suspended task = some suspension →
    task ≠ launch → suspension.execution.Begins map machine.history.state
      task (machine.beginnings task)

/-- Every context but that of the running thread holds what its task goes on
with. -/
structure Steady (map : CodeMap) (launch idle : TaskRef)
    (machine : Machine) : Prop where
  launchContext : machine.history.state.launchContext = some launch
  idleTask : machine.history.state.idleTask = some idle
  launch_ne : launch ≠ idle
  live : ∀ task, task ∈ machine.history.live → task ≠ launch ∧ task ≠ idle
  unstarted : machine.history.started = false →
    machine.history.state.currentTask = none ∧
      machine.running.fresh = false
  thread : machine.running.thread =
    owner launch (machine.history.state.currentTask.getD launch)
  idleFree : machine.suspended idle = none
  owned : ∀ task suspension, machine.suspended task = some suspension →
    suspension.execution.thread = owner launch task
  held : ∀ task, task ≠ idle → owner launch task ≠ machine.running.thread →
    Held map launch idle machine task
  begins : ∀ task, task ≠ idle → machine.running.thread = some task →
    machine.running.Begins map machine.history.state task
      (machine.beginnings task)
  begun : ∀ task registers, task ≠ idle →
    (some task, registers) ∈ machine.begun →
      Starts map machine.history.state task registers

theorem owner_launch (launch : TaskRef) : owner launch launch = none :=
  if_pos rfl

theorem owner_of_ne {launch task : TaskRef} (h : task ≠ launch) :
    owner launch task = some task :=
  if_neg h

theorem owner_inj {launch first second : TaskRef}
    (h : owner launch first = owner launch second) : first = second := by
  unfold owner at h
  split at h
  · split at h
    · exact (‹first = launch›).trans (‹second = launch›).symm
    · cases h
  · split at h
    · cases h
    · exact Option.some.inj h

theorem owner_eq_some {launch task other : TaskRef}
    (h : owner launch task = some other) : task = other ∧ task ≠ launch := by
  unfold owner at h
  split at h
  · cases h
  · exact ⟨Option.some.inj h, ‹_›⟩

/-- What a machine holds for a task that does not run. -/
structure KeepsHeld (before after : Machine) (task : TaskRef) : Prop where
  suspended : after.suspended task = before.suspended task
  beginnings : after.beginnings task = before.beginnings task
  context : (after.history.state.tasks task).cpuContext =
    (before.history.state.tasks task).cpuContext
  base : (after.history.state.tasks task).stackBase =
    (before.history.state.tasks task).stackBase
  size : (after.history.state.tasks task).stackSize =
    (before.history.state.tasks task).stackSize

section

variable {map : CodeMap} {launch idle : TaskRef} {machine after : Machine}
  {task : TaskRef}

theorem Starts.same {before after : State} {registers : Registers}
    (starts : Starts map before task registers)
    (hbase : (after.tasks task).stackBase = (before.tasks task).stackBase)
    (hsize : (after.tasks task).stackSize = (before.tasks task).stackSize) :
    Starts map after task registers where
  pc := starts.pc
  entry := starts.entry
  sp := by
    rw [hbase, hsize]
    exact starts.sp

theorem Held.keep (held : Held map launch idle machine task)
    (keeps : KeepsHeld machine after task) :
    Held map launch idle after task where
  unstarted := by
    intro hnone
    obtain ⟨hne, hcreated, hcount⟩ :=
      held.unstarted (keeps.suspended.symm.trans hnone)
    refine ⟨hne, ?_, keeps.beginnings.trans hcount⟩
    unfold Machine.Created
    rw [keeps.context, keeps.base, keeps.size]
    exact hcreated
  saved := by
    rw [keeps.suspended, keeps.context]
    exact held.saved
  prepares := by
    rw [keeps.suspended]
    exact held.prepares
  plain := by
    rw [keeps.suspended]
    exact held.plain
  begins := by
    rw [keeps.suspended, keeps.beginnings]
    intro suspension hsuspended hne
    have begins := held.begins suspension hsuspended hne
    exact ⟨begins.count, begins.own, begins.pc,
      fun hfresh => (begins.starts hfresh).same keeps.base keeps.size⟩

theorem Steady.transfer (steady : Steady map launch idle machine)
    (same : SameThread machine.history.state after.history.state)
    (live : ∀ task, task ∈ after.history.live → task ≠ launch ∧ task ≠ idle)
    (started : after.history.started = machine.history.started)
    (suspended : after.suspended = machine.suspended)
    (begun : after.begun = machine.begun)
    (thread : after.running.thread = machine.running.thread)
    (fresh : after.running.fresh = machine.running.fresh)
    (running : ∀ task, task ≠ idle → machine.running.thread = some task →
      machine.running.fresh = true →
        after.running.activity = machine.running.activity ∧
          after.running.registers = machine.running.registers) :
    Steady map launch idle after where
  launchContext := same.launch.trans steady.launchContext
  idleTask := same.idle.trans steady.idleTask
  launch_ne := steady.launch_ne
  live := live
  unstarted := by
    rw [started, same.current, fresh]
    exact steady.unstarted
  thread := by
    rw [thread, same.current]
    exact steady.thread
  idleFree := by
    rw [suspended]
    exact steady.idleFree
  owned := by
    rw [suspended]
    exact steady.owned
  held := by
    intro task hidle hthread
    rw [thread] at hthread
    refine (steady.held task hidle hthread).keep
      ⟨by rw [suspended], ?_, same.contexts task, (same.stackOf task).1,
        (same.stackOf task).2⟩
    unfold Machine.beginnings
    rw [begun]
  begins := by
    intro task hidle hthread
    rw [thread] at hthread
    have begins := steady.begins task hidle hthread
    refine ⟨?_, ?_, ?_, ?_⟩
    · unfold Machine.beginnings
      rw [begun, fresh]
      exact begins.count
    · intro hfresh
      rw [fresh] at hfresh
      rw [(running task hidle hthread hfresh).1]
      exact begins.own hfresh
    · intro hfresh
      rw [fresh] at hfresh
      rw [(running task hidle hthread hfresh).2]
      exact begins.pc hfresh
    · intro hfresh
      rw [fresh] at hfresh
      rw [(running task hidle hthread hfresh).2]
      exact (begins.starts hfresh).same (same.stackOf task).1
        (same.stackOf task).2
  begun := by
    intro task registers hidle hmem
    rw [begun] at hmem
    exact (steady.begun task registers hidle hmem).same (same.stackOf task).1
      (same.stackOf task).2

theorem Steady.withHistory (steady : Steady map launch idle machine)
    {history : History}
    (same : SameThread machine.history.state history.state)
    (live : ∀ task, task ∈ history.live → task ≠ launch ∧ task ≠ idle)
    (started : history.started = machine.history.started) :
    Steady map launch idle (machine.withHistory history) :=
  steady.transfer same live started rfl rfl rfl rfl
    fun _ _ _ _ => ⟨rfl, rfl⟩

theorem Steady.withRunning (steady : Steady map launch idle machine)
    {running : Execution} (thread : running.thread = machine.running.thread)
    (fresh : running.fresh = machine.running.fresh)
    (begun : ∀ task, task ≠ idle → machine.running.thread = some task →
      machine.running.fresh = false) :
    Steady map launch idle (machine.withRunning running) :=
  steady.transfer (SameThread.refl _) steady.live rfl rfl rfl thread fresh
    fun task hidle hthread hfresh =>
      absurd ((begun task hidle hthread).symm.trans hfresh) nofun

theorem Steady.withCall (steady : Steady map launch idle machine)
    (task : TaskRef) (call : Option Call) :
    Steady map launch idle (machine.withCall task call) :=
  steady.transfer (SameThread.refl _) steady.live rfl rfl rfl rfl rfl
    fun _ _ _ _ => ⟨rfl, rfl⟩

theorem Steady.begun_of_pc (steady : Steady map launch idle machine)
    (h : machine.running.registers.pc ≠ map.branch) :
    ∀ task, task ≠ idle → machine.running.thread = some task →
      machine.running.fresh = false := by
  intro task hidle hthread
  cases hfresh : machine.running.fresh with
  | false => rfl
  | true => exact absurd ((steady.begins task hidle hthread).pc hfresh) h

/-- The core is between two threads: every context holds what its task goes
on with. -/
structure Parked (map : CodeMap) (launch idle : TaskRef)
    (machine : Machine) : Prop where
  launchContext : machine.history.state.launchContext = some launch
  idleTask : machine.history.state.idleTask = some idle
  launch_ne : launch ≠ idle
  live : ∀ task, task ∈ machine.history.live → task ≠ launch ∧ task ≠ idle
  started : machine.history.started = true
  idleFree : machine.suspended idle = none
  owned : ∀ task suspension, machine.suspended task = some suspension →
    suspension.execution.thread = owner launch task
  held : ∀ task, task ≠ idle → Held map launch idle machine task
  begun : ∀ task registers, task ≠ idle →
    (some task, registers) ∈ machine.begun →
      Starts map machine.history.state task registers

namespace Machine

variable {next : TaskRef} {registers resumed : Registers}

@[simp] theorem dispatch_registers :
    (machine.dispatch next registers resumed).running.registers =
      registers := by
  unfold dispatch
  split <;> rfl

theorem dispatch_cases (machine : Machine) (next : TaskRef)
    (registers resumed : Registers) :
    machine.suspended next = none ∧
      (machine.dispatch next registers resumed).running =
        { thread := some next, registers, activity := .own, fresh := true } ∨
    ∃ suspension, machine.suspended next = some suspension ∧
      (machine.dispatch next registers resumed).running =
        { suspension.execution with registers := registers } := by
  unfold dispatch
  split
  · exact .inl ⟨‹_›, rfl⟩
  · exact .inr ⟨_, ‹_›, rfl⟩

end Machine

section

variable {next : TaskRef} {registers resumed : Registers}
  (parked : Parked map launch idle machine)

include parked

theorem Parked.dispatch_thread (next : TaskRef)
    (registers resumed : Registers) :
    (machine.dispatch next registers resumed).running.thread =
      owner launch next := by
  rcases machine.dispatch_cases next registers resumed with
    ⟨hnone, hrunning⟩ | ⟨suspension, hsome, hrunning⟩
  · rw [hrunning]
    refine (owner_of_ne ?_).symm
    by_cases hidle : next = idle
    · rw [hidle]
      exact parked.launch_ne.symm
    · exact ((parked.held next hidle).unstarted hnone).1
  · rw [hrunning]
    exact parked.owned next suspension hsome

theorem Parked.dispatch_begins (hidle : next ≠ idle) (hlaunch : next ≠ launch)
    (registers resumed : Registers) :
    (machine.beginnings next =
      if (machine.dispatch next registers resumed).running.fresh then 0
        else 1) ∧
    ((machine.dispatch next registers resumed).running.fresh = true →
      (machine.dispatch next registers resumed).running.activity = .own) := by
  have held := parked.held next hidle
  rcases machine.dispatch_cases next registers resumed with
    ⟨hnone, hrunning⟩ | ⟨suspension, hsome, hrunning⟩
  · rw [hrunning]
    exact ⟨(held.unstarted hnone).2.2, fun _ => rfl⟩
  · rw [hrunning]
    have begins := held.begins suspension hsome hlaunch
    exact ⟨begins.count, begins.own⟩

theorem Parked.begins_arrive (hidle : next ≠ idle) (hlaunch : next ≠ launch)
    (starts : (machine.dispatch next registers resumed).running.fresh = true →
      Starts map machine.history.state next
        (if registers.pc = map.branch
          then { registers with pc := registers.x 2 } else registers)) :
    ((machine.dispatch next registers resumed).arrive map).running.Begins map
      machine.history.state next
      (((machine.dispatch next registers resumed).arrive map).beginnings
        next) := by
  have hthread := parked.dispatch_thread next registers resumed
  rw [owner_of_ne hlaunch] at hthread
  obtain ⟨hcount, hown⟩ := parked.dispatch_begins hidle hlaunch registers
    resumed
  generalize hdispatch : machine.dispatch next registers resumed =
    dispatched at *
  have hregisters : dispatched.running.registers = registers := by
    rw [← hdispatch, Machine.dispatch_registers]
  have hbegun : dispatched.begun = machine.begun := by
    rw [← hdispatch, Machine.dispatch_begun]
  unfold Machine.arrive
  split
  · rename_i harrives
    refine ⟨?_, nofun, nofun, nofun⟩
    show ((dispatched.running.thread, dispatched.running.registers) ::
      dispatched.begun |>.map Prod.fst).count (some next) = 1
    rw [hbegun, List.map_cons, hthread, List.count_cons_self]
    rw [harrives.1] at hcount
    exact congrArg (· + 1) hcount
  · rename_i hstays
    refine ⟨?_, hown, ?_, ?_⟩
    · unfold Machine.beginnings
      rw [hbegun]
      exact hcount
    · intro hfresh
      by_contra hpc
      exact hstays ⟨hfresh, hpc⟩
    · intro hfresh
      have hpc : registers.pc = map.branch := by
        by_contra hpc
        refine hstays ⟨hfresh, ?_⟩
        rw [hregisters]
        exact hpc
      have hstarts := starts hfresh
      rw [if_pos hpc] at hstarts
      rw [hregisters]
      exact hstarts

theorem Parked.beginnings_arrive {task : TaskRef} (hne : task ≠ next) :
    ((machine.dispatch next registers resumed).arrive map).beginnings task =
      machine.beginnings task := by
  have hthread := parked.dispatch_thread next registers resumed
  have hbegun : (machine.dispatch next registers resumed).begun =
    machine.begun := Machine.dispatch_begun ..
  unfold Machine.arrive
  split
  · unfold Machine.beginnings
    rw [hbegun, List.map_cons, List.count_cons_of_ne]
    rw [hthread]
    exact fun heq => hne (owner_eq_some heq).1.symm
  · unfold Machine.beginnings
    rw [hbegun]

theorem Parked.resume
    (current : machine.history.state.currentTask = some next)
    (starts : next ≠ idle → next ≠ launch →
      (machine.dispatch next registers resumed).running.fresh = true →
        Starts map machine.history.state next
          (if registers.pc = map.branch
            then { registers with pc := registers.x 2 } else registers)) :
    Steady map launch idle
      ((machine.dispatch next registers resumed).arrive map) := by
  have hthread := parked.dispatch_thread next registers resumed
  have hhistory : ((machine.dispatch next registers resumed).arrive
      map).history = machine.history := by
    rw [Machine.arrive_history, Machine.dispatch_history]
  have hsuspended : ((machine.dispatch next registers resumed).arrive
      map).suspended = machine.suspended := by
    rw [Machine.arrive_suspended, Machine.dispatch_suspended]
  refine ⟨?_, ?_, parked.launch_ne, ?_, ?_, ?_, ?_, ?_, ?_, ?_, ?_⟩
  · rw [hhistory]
    exact parked.launchContext
  · rw [hhistory]
    exact parked.idleTask
  · rw [hhistory]
    exact parked.live
  · rw [hhistory, parked.started]
    exact nofun
  · rw [Machine.arrive_thread, hthread, hhistory, current]
    rfl
  · rw [hsuspended]
    exact parked.idleFree
  · rw [hsuspended]
    exact parked.owned
  · intro task hidle howner
    rw [Machine.arrive_thread, hthread] at howner
    have hne : task ≠ next := fun heq => howner (congrArg (owner launch) heq)
    refine (parked.held task hidle).keep
      ⟨by rw [hsuspended], parked.beginnings_arrive hne, ?_, ?_, ?_⟩
    · rw [hhistory]
    · rw [hhistory]
    · rw [hhistory]
  · intro task hidle hrunning
    rw [Machine.arrive_thread, hthread] at hrunning
    obtain ⟨rfl, hlaunch⟩ := owner_eq_some hrunning
    rw [hhistory]
    exact parked.begins_arrive hidle hlaunch (starts hidle hlaunch)
  · intro task first hidle hmem
    rw [hhistory]
    unfold Machine.arrive at hmem
    split at hmem
    · rename_i harrives
      rcases List.mem_cons.mp hmem with hfirst | hold
      · have hrunning := congrArg Prod.fst hfirst
        rw [hthread] at hrunning
        obtain ⟨rfl, hlaunch⟩ := owner_eq_some hrunning.symm
        have hregisters : first = registers :=
          (congrArg Prod.snd hfirst).trans Machine.dispatch_registers
        have hstarts := starts hidle hlaunch harrives.1
        rw [Machine.dispatch_registers] at harrives
        rw [if_neg harrives.2] at hstarts
        rw [hregisters]
        exact hstarts
      · rw [Machine.dispatch_begun] at hold
        exact parked.begun task first hidle hold
    · rw [Machine.dispatch_begun] at hmem
      exact parked.begun task first hidle hmem

end

end

end Planetoid.Task
