import Planetoid.Task.Machine

namespace Planetoid.Task

open Planetoid Program Links Arch

/-! The steps of the machine as a function of the event. -/

instance (activity : Activity) : Decidable (activity = .own) :=
  match activity with
  | .own => isTrue rfl
  | .inside _ _ _ _ => isFalse nofun
  | .halted => isFalse nofun

namespace Machine

variable (map : CodeMap) (machine : Machine)

instance : Decidable (machine.Executes map) :=
  decidable_of_iff (machine.running.activity = .own ∧
      machine.running.registers.pc ≠ map.branch)
    ⟨fun h => ⟨h.1, h.2⟩, fun h => ⟨h.own, h.pc⟩⟩

instance (task : TaskRef) : Decidable (machine.RunsTask task) :=
  decidable_of_iff (machine.running.thread = some task ∧
      task ∈ machine.history.live)
    ⟨fun h => ⟨h.1, h.2⟩, fun h => ⟨h.thread, h.live⟩⟩

instance (task : TaskRef) : Decidable (machine.New task) :=
  decidable_of_iff (task ∉ machine.history.live ∧
      task ∉ machine.history.terminated ∧
      machine.history.state.idleTask ≠ some task ∧
      machine.history.state.launchContext ≠ some task)
    ⟨fun h => ⟨h.1, h.2.1, h.2.2.1, h.2.2.2⟩,
      fun h => ⟨h.live, h.terminated, h.idle, h.launch⟩⟩

def openCall : Option Call :=
  match machine.running.thread with
  | none => none
  | some task => machine.calls task

theorem openCall_none : machine.openCall.isNone ↔ machine.Uncalled := by
  unfold openCall Uncalled
  cases machine.running.thread with
  | none => simp
  | some task => simp

instance : Decidable machine.Uncalled :=
  decidable_of_iff _ machine.openCall_none

def runningTask : Option TaskRef :=
  match machine.running.thread with
  | none => none
  | some task =>
    if machine.Executes map ∧ machine.RunsTask task then some task else none

/-- What the event makes of the machine, with `budget` for every loop. -/
def attempt (budget : Nat) : Event → Option Machine
  | .add task =>
    if machine.Executes map ∧ machine.Uncalled ∧ machine.New task then
      match (Scheduler.addTask (some task)).run machine.history.state with
      | .ok (_, after) => some (machine.withHistory
          ((Operation.addTask task).record machine.history after))
      | .error _ => none
    else none
  | .call request =>
    match machine.runningTask map with
    | none => none
    | some task =>
      if machine.Uncalled then some (machine.withCall task (some {
        request := request
        mask := machine.history.state.daif
        served := false }))
      else none
  | .serve next =>
    match machine.runningTask map with
    | none => none
    | some task => match machine.calls task with
      | none => none
      | some call =>
        match (call.request.program map budget).run machine.core with
        | .error _ => none
        | .ok (service, core) =>
          if call.served = false ∧ service.next = next then
            some (machine.serve map call task service core)
          else none
  | .giveBack =>
    match machine.runningTask map with
    | none => none
    | some task => match machine.calls task with
      | none => none
      | some call =>
        if call.served = true then some (machine.giveBack task call)
        else none
  | .unlock mutex =>
    match machine.runningTask map with
    | none => none
    | some _ =>
      if machine.Uncalled then
        match (Mutex.unlock (some mutex)).run machine.history.state with
        | .error _ => none
        | .ok (_, after) => some (machine.withHistory
            { machine.history with
              state := after
              waiting := Function.update machine.history.waiting mutex
                (machine.history.waiting mutex).tail })
      else none
  | .enter .start =>
    if machine.Executes map ∧ machine.Uncalled ∧
        machine.running.thread = none ∧ machine.history.started = false then
      some (machine.withActivity (.inside .start machine.running.registers 0
        (Routine.start.program map budget)))
    else none
  | .enter .terminate =>
    match machine.runningTask map with
    | none => none
    | some _ =>
      if machine.Uncalled then
        some (machine.withActivity (.inside .terminate
          machine.running.registers 0 (Routine.terminate.program map budget)))
      else none
  | .access next =>
    match machine.running.activity with
    | .inside routine caller accesses (.access update rest) =>
      if machine.running.registers.pc ≠ map.branch ∧
          passesTo (rest machine.core) = next then
        some (machine.proceed map routine caller (accesses + 1)
          (rest machine.core) (update machine.core))
      else none
    | _ => none
  | .branch =>
    if machine.running.registers.pc = map.branch then
      some ((machine.withRegisters { machine.running.registers with
        pc := machine.running.registers.x 2 }).arrive map)
    else none
  | .interrupt =>
    match (onTimerInterrupt budget (saveFrame machine.running.registers
        machine.history.state.daif 0 0)).run machine.history.state with
    | .error _ => none
    | .ok (frame, after) =>
      if machine.history.state.daif &&& Interrupts.irqBit = 0 then
        some (machine.interrupted map frame after)
      else none
  | .compute registers =>
    if machine.Executes map ∧
        registers.sp.stack = machine.running.registers.sp.stack ∧
        registers.pc ≠ map.branch then
      some (machine.withRegisters registers)
    else none
  | .mask daif =>
    if machine.Executes map ∧ machine.Uncalled then
      some (machine.withState (machine.history.state.withDaif daif))
    else none

variable {map machine}

theorem runningTask_eq_some {task : TaskRef}
    (h : machine.runningTask map = some task) :
    machine.Executes map ∧ machine.RunsTask task := by
  unfold runningTask at h
  split at h
  · cases h
  · split at h
    · rename_i hruns
      obtain rfl := Option.some.inj h
      exact hruns
    · cases h

theorem step_of_attempt {budget : Nat} {event : Event} {after : Machine}
    (h : machine.attempt map budget event = some after) :
    Step map machine event after := by
  cases event with
  | add task =>
      simp only [attempt] at h
      split at h
      · rename_i hmeets
        split at h
        · rename_i hrun
          obtain rfl := Option.some.inj h
          exact .add hmeets.1 hmeets.2.1 hmeets.2.2 hrun
        · cases h
      · cases h
  | call request =>
      simp only [attempt] at h
      split at h
      · cases h
      · rename_i htask
        obtain ⟨executes, runs⟩ := runningTask_eq_some htask
        split at h
        · rename_i uncalled
          obtain rfl := Option.some.inj h
          exact .call request executes runs uncalled
        · cases h
  | serve next =>
      simp only [attempt] at h
      split at h
      · cases h
      · rename_i htask
        obtain ⟨executes, runs⟩ := runningTask_eq_some htask
        split at h
        · cases h
        · rename_i hcall
          split at h
          · cases h
          · rename_i hrun
            split at h
            · rename_i hmeets
              obtain rfl := Option.some.inj h
              obtain ⟨unserved, rfl⟩ := hmeets
              exact .serve executes runs hcall unserved hrun
            · cases h
  | giveBack =>
      simp only [attempt] at h
      split at h
      · cases h
      · rename_i htask
        obtain ⟨executes, runs⟩ := runningTask_eq_some htask
        split at h
        · cases h
        · rename_i hcall
          split at h
          · rename_i served
            obtain rfl := Option.some.inj h
            exact .giveBack executes runs hcall served
          · cases h
  | unlock mutex =>
      simp only [attempt] at h
      split at h
      · cases h
      · rename_i htask
        obtain ⟨executes, runs⟩ := runningTask_eq_some htask
        split at h
        · rename_i uncalled
          split at h
          · cases h
          · rename_i hrun
            obtain rfl := Option.some.inj h
            exact .unlock executes runs uncalled hrun
        · cases h
  | enter routine =>
      cases routine with
      | start =>
          simp only [attempt] at h
          split at h
          · rename_i hmeets
            obtain rfl := Option.some.inj h
            exact .enter budget hmeets.1 hmeets.2.1 hmeets.2.2
          · cases h
      | terminate =>
          simp only [attempt] at h
          split at h
          · cases h
          · rename_i task htask
            obtain ⟨executes, runs⟩ := runningTask_eq_some htask
            split at h
            · rename_i uncalled
              obtain rfl := Option.some.inj h
              exact .enter budget executes uncalled ⟨task, runs⟩
            · cases h
  | access next =>
      simp only [attempt] at h
      split at h
      · rename_i hactivity
        split at h
        · rename_i hmeets
          obtain rfl := Option.some.inj h
          obtain ⟨hpc, rfl⟩ := hmeets
          exact .access hactivity hpc (.access ..)
        · cases h
      · cases h
  | branch =>
      simp only [attempt] at h
      split at h
      · rename_i hpc
        obtain rfl := Option.some.inj h
        exact .branch hpc
      · cases h
  | interrupt =>
      simp only [attempt] at h
      split at h
      · cases h
      · rename_i hrun
        split at h
        · rename_i enabled
          obtain rfl := Option.some.inj h
          exact .interrupt enabled hrun
        · cases h
  | compute registers =>
      simp only [attempt] at h
      split at h
      · rename_i hmeets
        obtain rfl := Option.some.inj h
        exact .compute registers hmeets.1 hmeets.2.1 hmeets.2.2
      · cases h
  | mask daif =>
      simp only [attempt] at h
      split at h
      · rename_i hmeets
        obtain rfl := Option.some.inj h
        exact .mask daif hmeets.1 hmeets.2
      · cases h

/-- The machine after the events, if each of them can happen and meets
`meets`. -/
def runEvents (meets : Machine → Event → Bool) (map : CodeMap)
    (budget : Nat) (machine : Machine) : List Event → Option Machine
  | [] => some machine
  | event :: rest =>
    if meets machine event then
      match machine.attempt map budget event with
      | none => none
      | some after => after.runEvents meets map budget rest
    else none

theorem reachable_runEvents {meets : Machine → Event → Bool}
    {guard : Machine → Event → Prop}
    (hguard : ∀ machine event, meets machine event = true →
      guard machine event) {budget : Nat} {events : List Event}
    {after : Machine} (reachable : (machines map).Reachable guard machine)
    (h : machine.runEvents meets map budget events = some after) :
    (machines map).Reachable guard after := by
  induction events generalizing machine with
  | nil =>
      obtain rfl := Option.some.inj h
      exact reachable
  | cons event rest ih =>
      simp only [runEvents] at h
      split at h
      · rename_i hmeets
        split at h
        · cases h
        · rename_i hattempt
          exact ih (.step reachable (hguard machine event hmeets)
            (step_of_attempt hattempt)) h
      · cases h

end Machine

/-! A kernel with launch context 0 and idle task 1. -/

def smallMap : CodeMap where
  resume := 4
  branch := 8
  trampoline := 12
  entry := fun task => 100 + task
  resume_ne := by decide
  trampoline_ne := by decide

/-- The tasks with the stacks 1, 2, 3 and so on. -/
def smallTask (task : TaskRef) : TaskState where
  cpuContext :=
    if task = 0 then initialContext 0 0 ⟨task + 1, 4096⟩
    else initialContext (smallMap.entry task) smallMap.trampoline
      ⟨task + 1, 4096⟩
  stackBase := task + 1
  stackSize := 4096
  state := .ready
  wakeTick := 0
  nextTask := none
  waitNext := none
  cleanupNext := none

def smallState : State where
  currentTask := none
  taskList := none
  pendingCleanupHead := none
  pendingCleanupTail := none
  launchContext := none
  idleTask := none
  tasks := smallTask
  queues := fun _ => { head := none, tail := none }
  locked := fun _ => false
  systemTicks := 0
  daif := 0
  kfreed := []

def smallMachine : Machine where
  history := {
    state := Scheduler.initEffect smallState 0 1
    live := []
    terminated := []
    waiting := fun _ => []
    started := false }
  running := {
    thread := none
    registers := { x := fun _ => 0, sp := ⟨0, 0⟩, pc := 0, nzcv := 0 }
    activity := .own
    fresh := false }
  suspended := fun _ => none
  calls := fun _ => none
  resumptions := []
  begun := []
  returns := []

/-- `Scheduler::init` writes no saved context and no stack. -/
theorem smallMachine_tasks (task : TaskRef) :
    (smallMachine.history.state.tasks task).cpuContext =
        (smallTask task).cpuContext ∧
      (smallMachine.history.state.tasks task).stackBase = task + 1 ∧
      (smallMachine.history.state.tasks task).stackSize = 4096 := by
  have hcontext := congrFun (@view_setTask _ TaskState.cpuContext
    (smallState.setTask 0 fun fields => { fields with state := .running }) 1
    (fun fields => { fields with state := .ready }) fun _ => rfl) task
  have hlaunched := congrFun (@view_setTask _ TaskState.cpuContext smallState
    0 (fun fields => { fields with state := .running }) fun _ => rfl) task
  have hbase := congrFun (@view_setTask _
    (fun fields => (fields.stackBase, fields.stackSize))
    (smallState.setTask 0 fun fields => { fields with state := .running }) 1
    (fun fields => { fields with state := .ready }) fun _ => rfl) task
  have hlaunchedBase := congrFun (@view_setTask _
    (fun fields => (fields.stackBase, fields.stackSize)) smallState
    0 (fun fields => { fields with state := .running }) fun _ => rfl) task
  have hstack := hbase.trans hlaunchedBase
  exact ⟨hcontext.trans hlaunched, congrArg Prod.fst hstack,
    congrArg Prod.snd hstack⟩

theorem smallMachine_initial : smallMachine.Initial smallMap where
  history := ⟨smallState, 0, 1, rfl, fun _ => rfl,
    Scheduler.run_init (by simp [State.Valid, smallState])
      (by simp [State.Valid, smallState]), rfl, rfl, fun _ => rfl, rfl⟩
  launch_ne := by decide
  created := by
    intro task hlaunch
    obtain ⟨hcontext, hbase, hsize⟩ := smallMachine_tasks task
    have hne : task ≠ 0 := by
      rintro rfl
      exact hlaunch rfl
    unfold Machine.Created
    rw [hcontext, hbase, hsize]
    exact if_neg hne
  launch := by
    intro task hlaunch
    obtain ⟨hcontext, hbase, hsize⟩ := smallMachine_tasks task
    obtain rfl : 0 = task := Option.some.inj hlaunch
    rw [hcontext, hbase, hsize]
    rfl
  distinct := by
    intro first second hstacks
    rw [(smallMachine_tasks first).2.1, (smallMachine_tasks second).2.1]
      at hstacks
    exact Nat.succ.inj hstacks
  thread := rfl
  executes := ⟨rfl, by decide⟩
  begun := rfl
  stack := by
    intro task
    rw [(smallMachine_tasks task).2.1]
    exact (Nat.succ_ne_zero task).symm
  suspended := rfl
  calls := rfl
  logs := ⟨rfl, rfl, rfl⟩

/-- The accesses of `start`, of which the last passes the core to `first`. -/
def startEvents (first : TaskRef) : List Event :=
  .enter .start :: List.replicate 12 (.access none) ++
    [.access (some first), .branch]

end Planetoid.Task
