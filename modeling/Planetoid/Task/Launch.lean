import Planetoid.Arch.ContextSwitch
import Planetoid.Task.Waiting

namespace Planetoid.Task

open Planetoid Program Links Arch

/-! The first states of the scheduler, and the context switch. -/

namespace State

def withLaunchContext (state : State) (task : Option TaskRef) : State :=
  { state with launchContext := task }

def withIdleTask (state : State) (task : Option TaskRef) : State :=
  { state with idleTask := task }

end State

def Layout.empty : Layout where
  ring := []
  pending := []
  waiting := fun _ => []

namespace Scheduler

def initEffect (state : State) (launch idle : TaskRef) : State :=
  ((((((state.withCurrentTask none).withTaskList none).withPending none
    none).withLaunchContext (some launch)).withState launch
    .running).withIdleTask (some idle)).withState idle .ready

theorem run_init {state : State} {launch idle : TaskRef}
    (hlaunch : state.Valid launch) (hidle : state.Valid idle) :
    (init (some launch) (some idle)).run state =
      .ok ((), initEffect state launch idle) := by
  have hlaunched : ((((state.withCurrentTask none).withTaskList
      none).withPending none none).withLaunchContext (some launch)).Valid
        launch := hlaunch
  have hrun := run_setState_bind hlaunched (fun _ => do
    write fun state => { state with idleTask := some idle }
    setState (← deref (← read (·.idleTask))) .ready) .running
  refine Eq.trans hrun ?_
  have hidled : ((((((state.withCurrentTask none).withTaskList
      none).withPending none none).withLaunchContext (some launch)).withState
        launch .running).withIdleTask (some idle)).Valid idle := hidle
  exact run_setState hidled .ready

theorem init_wellFormed {state : State} {launch idle : TaskRef}
    (queues : ∀ queue, state.queues queue = { head := none, tail := none })
    (hidle : state.Valid idle) :
    WellFormed (initEffect state launch idle) Layout.empty where
  ring := ring_nil
  ring_nodup := List.nodup_nil
  pending := ⟨rfl, rfl⟩
  pending_ring := by simp [Layout.empty]
  waiting := by
    intro queue
    have hqueue : (initEffect state launch idle).queues queue =
        { head := none, tail := none } := queues queue
    rw [hqueue]
    exact ⟨rfl, rfl⟩
  waiting_unique := by simp [Layout.empty]
  waiting_ring := by simp [Layout.empty]
  blocked_iff := by simp [Layout.empty]
  idle := ⟨idle, rfl, by simp [Layout.empty], by simp [Layout.empty], hidle⟩
  valid_ring := by simp [Layout.empty]
  valid_pending := by simp [Layout.empty]
  running_iff := by simp [Layout.empty]
  current := nofun
  unstarted := by simp [Layout.empty]

def firstOf (layout : Layout) (idle : TaskRef) : TaskRef :=
  layout.ring.head?.getD idle

def startEffect (state : State) (layout : Layout)
    (launch idle : TaskRef) : Exit × State :=
  (.switched launch (firstOf layout idle),
    dispatch state (firstOf layout idle))

theorem run_firstTask {state : State} {layout : Layout}
    (shape : Shape state layout) {idle : TaskRef}
    (hidle : state.idleTask = some idle) :
    firstTask.run state = .ok (some (firstOf layout idle), state) ∧
      state.Valid (firstOf layout idle) := by
  have hhead := shape.ring.head_eq
  unfold firstOf
  cases hring : layout.ring with
  | nil =>
      rw [hring] at hhead
      have hlist : state.taskList = none := hhead
      obtain ⟨_, hother, _, _, hvalid⟩ := shape.idle
      obtain rfl := Option.some.inj (hidle.symm.trans hother)
      exact ⟨by simp [firstTask, hlist, hidle], hvalid⟩
  | cons first rest =>
      rw [hring] at hhead
      have hlist : state.taskList = some first := hhead
      exact ⟨by simp [firstTask, hlist],
        shape.valid_ring first (by rw [hring]; simp)⟩

theorem run_start {state : State} {layout : Layout}
    (shape : Shape state layout) {launch idle : TaskRef}
    (hlaunch : state.launchContext = some launch)
    (hidle : state.idleTask = some idle) :
    start.run state = .ok (startEffect state layout launch idle) := by
  obtain ⟨hfirst, hvalid⟩ := run_firstTask shape hidle
  have hlaunched : ((state.withCurrentTask
      (some (firstOf layout idle))).withState (firstOf layout idle)
        .running).launchContext = some launch := hlaunch
  simp [start, run_bind_ok hfirst, hvalid, hlaunched, startEffect]
  rfl

theorem startEffect_wellFormed {state : State} {layout : Layout}
    (wellFormed : WellFormed state layout)
    (hcurrent : state.currentTask = none) {launch idle : TaskRef}
    (hidle : state.idleTask = some idle) :
    WellFormed (startEffect state layout launch idle).2 layout := by
  have noneRunning : NoneRunning state layout := by
    intro task hring hrunning
    have hready := isReady_iff.mp (wellFormed.unstarted hcurrent task hring)
    rw [stateOf, hready] at hrunning
    cases hrunning
  unfold startEffect firstOf
  cases hring : layout.ring with
  | nil => exact wellFormed.dispatchIdle noneRunning hidle
  | cons first rest =>
      have hmem : first ∈ layout.ring := by
        rw [hring]
        simp
      exact wellFormed.dispatch noneRunning hmem
        (wellFormed.unstarted hcurrent first hmem)

end Scheduler

/-! What `task_switch` changes. -/

def switchedContext (resume : Nat) (registers : Registers)
    (context : CPUContext) : CPUContext where
  x := copyCalleeSaved registers.x context.x
  sp := registers.sp
  pc := resume
  pstate := context.pstate

def unmasked (daif : Nat) : Nat :=
  if daif &&& Interrupts.irqBit = 0 then daif else daif - Interrupts.irqBit

def switchState (resume : Nat) (registers : Registers) (state : State)
    (previous : TaskRef) : State :=
  (state.setTask previous fun fields => { fields with
    cpuContext := switchedContext resume registers
      fields.cpuContext }).withDaif (unmasked state.daif)

def resumed (registers : Registers) (context : CPUContext) : Registers where
  x := Function.update (copyCalleeSaved context.x registers.x) 2 context.pc
  sp := context.sp
  pc := context.pc
  nzcv := registers.nzcv

@[simp] theorem State.setTask_setTask (state : State) (task : TaskRef)
    (first second : TaskState → TaskState) :
    (state.setTask task first).setTask task second =
      state.setTask task fun fields => second (first fields) := by
  simp [State.setTask]

theorem run_taskSwitch {state : State} {previous next : TaskRef}
    (hprevious : state.Valid previous) (hnext : state.Valid next)
    (resume : Nat) (registers : Registers) :
    (taskSwitch resume registers previous next).run state =
      .ok (resumed registers
          ((switchState resume registers state previous).tasks next).cpuContext,
        switchState resume registers state previous) := by
  simp [taskSwitch, hprevious, hnext]
  rfl

theorem switchState_sameLinks (resume : Nat) (registers : Registers)
    (state : State) (previous : TaskRef) :
    SameLinks state (switchState resume registers state previous) :=
  have stored : SameLinks state (state.setTask previous fun fields =>
      { fields with cpuContext :=
        switchedContext resume registers fields.cpuContext }) :=
    sameLinks_setTask state previous (fun _ => rfl) (fun _ => rfl)
      (fun _ => rfl)
  stored.trans (State.withDaif_sameLinks ..)

theorem stateOf_switchState (resume : Nat) (registers : Registers)
    (state : State) (previous : TaskRef) :
    stateOf (switchState resume registers state previous) = stateOf state :=
  @view_setTask _ TaskState.state state previous
    (fun fields => { fields with
      cpuContext := switchedContext resume registers fields.cpuContext })
    fun _ => rfl

theorem switchState_wellFormed {state : State} {layout : Layout}
    (wellFormed : WellFormed state layout) (resume : Nat)
    (registers : Registers) (previous : TaskRef) :
    WellFormed (switchState resume registers state previous) layout where
  toShape := by
    refine wellFormed.restate (switchState_sameLinks ..) ?_
    intro task _
    rw [stateOf_switchState]
  running_iff := by
    rw [stateOf_switchState]
    exact wellFormed.running_iff
  current := wellFormed.current
  unstarted := by
    unfold isReady
    rw [stateOf_switchState]
    exact wellFormed.unstarted

end Planetoid.Task
