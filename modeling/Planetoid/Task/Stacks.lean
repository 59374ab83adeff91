import Planetoid.Task.ContextRuns

namespace Planetoid.Task

open Planetoid Program Arch

/-! On whose stack the threads execute. -/

/-- The stack is that of the task, or for `kernel_main` that of no task. -/
def OnStack (base : TaskRef → Nat) (thread : Option TaskRef)
    (stack : Nat) : Prop :=
  match thread with
  | some task => stack = base task
  | none => ∀ task, stack ≠ base task

def Execution.stackPointer (execution : Execution) : StackPointer :=
  match execution.activity with
  | .inside _ caller _ _ => caller.sp
  | _ => execution.registers.sp

theorem Execution.stackPointer_of_own {execution : Execution}
    (own : execution.activity = .own) :
    execution.stackPointer = execution.registers.sp := by
  unfold stackPointer
  rw [own]

/-- The stacks and where that of the idle task is left are the same. -/
structure KeepsStacks (idle : TaskRef) (before after : State) : Prop where
  base : ∀ task, (after.tasks task).stackBase =
    (before.tasks task).stackBase
  idle : (after.tasks idle).cpuContext.sp = (before.tasks idle).cpuContext.sp

section

variable {idle : TaskRef} {first second third : State}

theorem KeepsStacks.symm (keeps : KeepsStacks idle first second) :
    KeepsStacks idle second first :=
  ⟨fun task => (keeps.base task).symm, keeps.idle.symm⟩

theorem KeepsStacks.trans (left : KeepsStacks idle first second)
    (right : KeepsStacks idle second third) : KeepsStacks idle first third :=
  ⟨fun task => (right.base task).trans (left.base task),
    right.idle.trans left.idle⟩

theorem SameContexts.keepsStacks (same : SameContexts first second)
    (idle : TaskRef) : KeepsStacks idle first second :=
  ⟨fun task => (same.stackOf task).1,
    congrArg CPUContext.sp (same.contexts idle)⟩

end

section

variable {map : CodeMap} {idle : TaskRef} {before after : Core}

theorem HandsOver.keepsStacks {handover : Handover}
    (hands : HandsOver map before handover after)
    (h : handover.previous ≠ idle) :
    KeepsStacks idle before.state after.state := by
  have saved : KeepsStacks idle before.state (switchState map.resume
      before.registers before.state handover.previous) :=
    ⟨fun task => (switchState_stack ..).1,
      congrArg CPUContext.sp (switchState_of_ne _ _ _ _ h.symm)⟩
  exact saved.trans (hands.toSameContexts.keepsStacks idle)

theorem Switching.keepsStacks {previous : TaskRef}
    (switching : Switching map previous before after) (h : previous ≠ idle) :
    KeepsStacks idle before.state after.state :=
  ⟨fun task => (switching.stackOf task).1,
    congrArg CPUContext.sp (switching.contexts idle h.symm)⟩

theorem Serves.keepsStacks {service : Service}
    (serves : Serves map before service after)
    (h : before.state.currentTask ≠ some idle) :
    KeepsStacks idle before.state after.state := by
  cases service with
  | done => exact serves.state.toSameContexts.keepsStacks idle
  | again => exact serves.state.toSameContexts.keepsStacks idle
  | switched handover =>
      obtain ⟨hcurrent, hands⟩ := serves
      refine hands.keepsStacks ?_
      rintro rfl
      exact h hcurrent

theorem Preempts.keepsStacks {before after : State}
    {frame restored : ExceptionContext}
    (preempts : Preempts before frame restored after)
    (hidle : before.idleTask = some idle) :
    KeepsStacks idle before after := by
  have saved : KeepsStacks idle before (before.interruptedBy frame) := by
    refine ⟨fun task => (interruptedBy_stack before frame task).1, ?_⟩
    refine congrArg CPUContext.sp (interruptedBy_context ?_ frame)
    exact fun hsaves => (savesTo_eq_some hsaves).2 hidle
  cases preempts with
  | stays same => exact saved.trans (same.toSameContexts.keepsStacks idle)
  | passes leaves away other chosen =>
      exact saved.trans (chosen.toSameContexts.keepsStacks idle)

theorem committed_keepsStacks {current : Option TaskRef}
    {launch previous : TaskRef} {caller : Registers} {left : Code Service}
    (committed : Committed (handing map current (some idle) launch previous
      caller) before left after) (h : previous ≠ idle) :
    KeepsStacks idle before.state after.state := by
  have follows := committed.follows
  cases left with
  | ret service =>
      obtain ⟨next, _, hands⟩ := follows
      exact hands.keepsStacks h
  | fail fault => exact Switching.keepsStacks follows h
  | access update next => exact Switching.keepsStacks follows.1 h

end

section

variable {map : CodeMap} {base : TaskRef → Nat} {launch idle : TaskRef}
  {machine : Machine}

structure Stacked (base : TaskRef → Nat) (idle : TaskRef)
    (machine : Machine) : Prop where
  bases : ∀ task, (machine.history.state.tasks task).stackBase = base task
  idle : (machine.history.state.tasks idle).cpuContext.sp.stack = base idle
  suspended : ∀ task suspension, machine.suspended task = some suspension →
    OnStack base suspension.execution.thread
      suspension.execution.stackPointer.stack
  running : OnStack base machine.running.thread
    machine.running.stackPointer.stack

theorem Machine.proceed_state (map : CodeMap) (machine : Machine)
    (routine : Routine) (caller : Registers) (accesses : Nat)
    (rest : Code Service) (core : Core) :
    (machine.proceed map routine caller accesses rest core).history.state =
      core.state := by
  unfold proceed
  split
  · unfold handOver
    rw [dispatch_history]
    exact routine.record_state ..
  · rfl
  · rfl

theorem Machine.serve_state (map : CodeMap) (machine : Machine) (call : Call)
    (task : TaskRef) (service : Service) (core : Core) :
    (machine.serve map call task service core).history.state = core.state := by
  have recorded := call.request.record_state machine.history core.state
    service
  unfold serve
  dsimp only
  split
  · unfold handOver
    rw [dispatch_history]
    exact recorded
  · exact recorded

theorem previous_ne_idle {current : Option TaskRef} (h : current ≠ some idle)
    (launch_ne : launch ≠ idle) : current.getD launch ≠ idle := by
  cases current with
  | none => exact launch_ne
  | some current => exact fun heq => h (congrArg some heq)

theorem Sound.access_keepsStacks (sound : Sound map launch idle machine)
    {routine : Routine} {caller : Registers} {accesses : Nat}
    {rest left : Code Service} {core : Core}
    (activity : machine.running.activity =
      .inside routine caller accesses rest)
    (pc : machine.running.registers.pc ≠ map.branch)
    (step : Program.Step (rest, machine.core) (left, core)) :
    KeepsStacks idle machine.history.state core.state := by
  rcases sound.accessed activity pc step with
    ⟨_, _, same, _⟩ | ⟨before, underway⟩
  · exact same.state.toSameContexts.keepsStacks idle
  · have hne := previous_ne_idle underway.idle_ne underway.steady.launch_ne
    exact (underway.switching.keepsStacks hne).symm.trans
      (committed_keepsStacks underway.committed hne)

theorem Sound.keepsStacks {after : Machine} {event : Event}
    (sound : Sound map launch idle machine)
    (meets : KeepsThreads machine event)
    (step : Machine.Step map machine event after) :
    KeepsStacks idle machine.history.state after.history.state := by
  have same := (SameContexts.refl machine.history.state).keepsStacks idle
  cases step with
  | add executes uncalled fresh ended =>
      rename_i task state
      have added := ((Scheduler.addTask_respects task).keeps
        (fun _ _ same h => SameThread.trans h same)).ends
          (SameThread.refl machine.history.state) |>.of_run ended
      exact added.toSameContexts.keepsStacks idle
  | call request executes runs uncalled => exact same
  | serve executes runs called unserved ended =>
      rename_i task call budget service core
      have steady := sound.of_own executes.own
      obtain ⟨hcurrent, _, hidle⟩ := steady.current_of_runs runs
      rw [Machine.serve_state]
      refine ((call.request.program_serves map budget machine.core).of_run
        ended).keepsStacks ?_
      exact fun heq => hidle (Option.some.inj (hcurrent.symm.trans heq))
  | giveBack executes runs called served => exact same
  | unlock executes runs uncalled ended =>
      rename_i task mutex state
      have unlocked := ((Mutex.unlock_respects mutex).keeps
        (fun _ _ same h => SameThread.trans h same)).ends
          (SameThread.refl machine.history.state) |>.of_run ended
      exact unlocked.toSameContexts.keepsStacks idle
  | enter budget executes uncalled enters => exact same
  | access activity pc step =>
      rw [Machine.proceed_state]
      exact sound.access_keepsStacks activity pc step
  | branch pc =>
      rw [Machine.arrive_history]
      exact same
  | interrupt enabled ended =>
      rename_i budget esr far frame state
      rw [Machine.interrupted_state]
      have steady := (sound.interruptible meets).1
      have keeps := ((onTimerInterrupt_preempts _ budget
        machine.history.state).of_run ended).keepsStacks steady.idleTask
      exact ⟨keeps.base, keeps.idle⟩
  | compute registers executes stack pc => exact same
  | mask daif executes uncalled => exact ⟨same.base, same.idle⟩

theorem Parked.onStack (parked : Parked map launch idle machine)
    (bases : ∀ task, (machine.history.state.tasks task).stackBase = base task)
    (hidle : (machine.history.state.tasks idle).cpuContext.sp.stack =
      base idle)
    (suspended : ∀ task suspension,
      machine.suspended task = some suspension →
        OnStack base suspension.execution.thread
          suspension.execution.stackPointer.stack)
    {next : TaskRef} {registers : Registers}
    (hsp : registers.sp =
      (machine.history.state.tasks next).cpuContext.sp)
    (resumed : Registers) :
    OnStack base (machine.dispatch next registers resumed).running.thread
      (machine.dispatch next registers
        resumed).running.stackPointer.stack := by
  rcases machine.dispatch_cases next registers resumed with
    ⟨hnone, hrunning⟩ | ⟨suspension, hsome, hrunning⟩
  · rw [hrunning]
    show registers.sp.stack = base next
    rw [hsp]
    by_cases heq : next = idle
    · rw [heq]
      exact hidle
    · have created := ((parked.held next heq).unstarted hnone).2.1
      have hcontext : (machine.history.state.tasks next).cpuContext = _ :=
        created
      rw [hcontext]
      exact bases next
  · rw [hrunning]
    have own := suspended next suspension hsome
    have hne : next ≠ idle := by
      rintro rfl
      exact absurd (parked.idleFree.symm.trans hsome) nofun
    have saved := (parked.held next hne).saved suspension hsome
    have hregisters : registers.sp = suspension.execution.registers.sp :=
      hsp.trans saved.sp
    unfold Execution.stackPointer at own ⊢
    dsimp only
    split
    · rename_i hinside
      rw [hinside] at own
      exact own
    · rename_i houtside
      rw [hregisters]
      split at own
      · rename_i hinside
        exact absurd hinside (houtside _ _ _ _)
      · exact own

theorem Stacked.handOver (stacked : Stacked base idle machine)
    (steady : Steady map launch idle machine) {before after : Core}
    {caller : Registers} {handover : Handover} {history : History}
    (leaves : Leaves map launch idle machine before caller handover after
      history)
    (hcaller : OnStack base machine.running.thread caller.sp.stack) :
    Stacked base idle ((machine.withHistory history).handOver map caller
      handover after.registers) := by
  have parked := steady.park_switch leaves
  have keeps : KeepsStacks idle machine.history.state history.state := by
    rw [← leaves.entered, leaves.recorded]
    exact leaves.hands.keepsStacks leaves.idle_ne
  have bases := fun task => (keeps.base task).trans (stacked.bases task)
  have hidle : (history.state.tasks idle).cpuContext.sp.stack = base idle := by
    rw [keeps.idle]
    exact stacked.idle
  have suspended : ∀ task suspension, ((machine.withHistory history).suspend
      handover.previous (machine.switchedOut map caller)).suspended task =
        some suspension → OnStack base suspension.execution.thread
          suspension.execution.stackPointer.stack := by
    intro task suspension hsuspended
    by_cases heq : task = handover.previous
    · rw [heq, Machine.suspend_self] at hsuspended
      obtain rfl := Option.some.inj hsuspended
      have left : (machine.switchedOut map
          caller).execution.stackPointer = caller.sp := by
        unfold Machine.switchedOut Execution.stackPointer
        cases machine.running.activity <;> rfl
      rw [left]
      exact hcaller
    · rw [Machine.suspend_of_ne _ _ heq] at hsuspended
      exact stacked.suspended task suspension hsuspended
  have hsp : after.registers.sp =
      (history.state.tasks handover.next).cpuContext.sp := by
    rw [leaves.hands.registers, leaves.recorded]
    rfl
  refine ⟨?_, ?_, ?_, parked.onStack bases hidle suspended hsp _⟩
  · unfold Machine.handOver
    rw [Machine.dispatch_history]
    exact bases
  · unfold Machine.handOver
    rw [Machine.dispatch_history]
    exact hidle
  · unfold Machine.handOver
    rw [Machine.dispatch_suspended]
    exact suspended

theorem Stacked.transfer {after : Machine}
    (stacked : Stacked base idle machine)
    (keeps : KeepsStacks idle machine.history.state after.history.state)
    (suspended : after.suspended = machine.suspended)
    (thread : after.running.thread = machine.running.thread)
    (sp : after.running.stackPointer.stack =
      machine.running.stackPointer.stack) : Stacked base idle after := by
  refine ⟨fun task => (keeps.base task).trans (stacked.bases task), ?_, ?_,
    ?_⟩
  · rw [keeps.idle]
    exact stacked.idle
  · rw [suspended]
    exact stacked.suspended
  · rw [thread, sp]
    exact stacked.running

theorem Execution.onStack_withRegisters {execution : Execution}
    (h : OnStack base execution.thread execution.stackPointer.stack)
    {registers : Registers}
    (hregisters : (∀ routine caller accesses rest,
      execution.activity ≠ .inside routine caller accesses rest) →
        OnStack base execution.thread registers.sp.stack) :
    OnStack base execution.thread
      ({ execution with registers } : Execution).stackPointer.stack := by
  unfold stackPointer at h ⊢
  cases hactivity : execution.activity with
  | inside routine caller accesses rest =>
      rw [hactivity] at h
      exact h
  | own =>
      rw [hactivity] at hregisters
      exact hregisters nofun
  | halted =>
      rw [hactivity] at hregisters
      exact hregisters nofun

/-- A routine that ends without a switch has left the registers alone. -/
theorem Sound.ends_registers (sound : Sound map launch idle machine)
    {routine : Routine} {caller : Registers} {accesses : Nat}
    {rest : Code Service} {service : Service} {core : Core}
    (activity : machine.running.activity =
      .inside routine caller accesses rest)
    (pc : machine.running.registers.pc ≠ map.branch)
    (step : Program.Step (rest, machine.core) (.ret service, core))
    (stays : service.next = none) : core.registers.sp = caller.sp := by
  rcases sound.accessed activity pc step with
    ⟨_, prepared, same, _⟩ | ⟨before, underway⟩
  · exact (congrArg Registers.sp same.registers).trans prepared.given.sp
  · obtain ⟨next, rfl, _⟩ := underway.committed.follows
    cases stays

theorem Stacked.access (stacked : Stacked base idle machine)
    (sound : Sound map launch idle machine) {routine : Routine}
    {caller : Registers} {accesses : Nat} {rest left : Code Service}
    {core : Core}
    (activity : machine.running.activity =
      .inside routine caller accesses rest)
    (pc : machine.running.registers.pc ≠ map.branch)
    (step : Program.Step (rest, machine.core) (left, core)) :
    Stacked base idle
      (machine.proceed map routine caller (accesses + 1) left core) := by
  have keeps := sound.access_keepsStacks activity pc step
  have hcaller : machine.running.stackPointer = caller.sp := by
    unfold Execution.stackPointer
    rw [activity]
  have own := stacked.running
  rw [hcaller] at own
  have halts : ∀ service, left = .ret service → service.next = none →
      Stacked base idle (((machine.withState core.state).withRegisters
        core.registers).withActivity .halted) := by
    rintro service rfl stays
    refine stacked.transfer keeps rfl rfl ?_
    rw [hcaller, ← sound.ends_registers activity pc step stays]
    rfl
  have goesOn : Stacked base idle (((machine.withState
      core.state).withRegisters core.registers).withActivity
        (.inside routine caller (accesses + 1) left)) := by
    refine stacked.transfer keeps rfl rfl ?_
    rw [hcaller]
    rfl
  cases left with
  | ret service =>
      cases service with
      | done => exact halts .done rfl rfl
      | again => exact halts .again rfl rfl
      | switched handover =>
          obtain ⟨before, steady, leaves⟩ := sound.leaves activity pc step
          have entered : KeepsStacks idle machine.history.state
              before.state :=
            keeps.trans (leaves.hands.keepsStacks leaves.idle_ne).symm
          have stacked : Stacked base idle
              (machine.withState before.state) :=
            stacked.transfer entered rfl rfl rfl
          exact stacked.handOver steady leaves own
  | fail fault => exact goesOn
  | access update next => exact goesOn

theorem Stacked.interrupt (stacked : Stacked base idle machine)
    (steady : Steady map launch idle machine)
    (prepares : machine.running.Prepares map launch idle
      machine.history.state.currentTask) {daif esr far : Nat}
    {frame : ExceptionContext} {after : State}
    (preempts : Preempts machine.history.state
      (saveFrame machine.running.registers daif esr far) frame after) :
    Stacked base idle (machine.interrupted map frame after) := by
  have keeps := preempts.keepsStacks steady.idleTask
  have bases := fun task => (keeps.base task).trans (stacked.bases task)
  have hidle : (after.tasks idle).cpuContext.sp.stack = base idle := by
    rw [keeps.idle]
    exact stacked.idle
  have suspended : ∀ task suspension,
      machine.saveInterrupted.suspended task = some suspension →
        OnStack base suspension.execution.thread
          suspension.execution.stackPointer.stack := by
    intro task suspension hsuspended
    rw [Machine.saveInterrupted_suspended] at hsuspended
    split at hsuspended
    · obtain rfl := Option.some.inj hsuspended
      exact stacked.running
    · exact stacked.suspended task suspension hsuspended
  have hrunning : machine.saveInterrupted.running = machine.running :=
    machine.saveInterrupted_running
  -- the interrupted thread with the registers of the frame
  have stays : OnStack base machine.running.thread (machine.withRegisters
      (loadFrame frame machine.running.registers)).running.stackPointer.stack →
      after.currentTask = machine.history.state.currentTask →
      Stacked base idle (machine.interrupted map frame after) := by
    intro running hsame
    unfold Machine.interrupted
    dsimp only
    rw [if_pos hsame]
    refine ⟨bases, hidle, suspended, ?_⟩
    show OnStack base machine.saveInterrupted.running.thread
      (machine.saveInterrupted.withRegisters (loadFrame frame
        machine.running.registers)).running.stackPointer.stack
    unfold Machine.withRegisters Machine.withRunning
    rw [hrunning]
    exact running
  cases preempts with
  | stays same =>
      refine stays ?_ (same.current.trans (interruptedBy_currentTask ..))
      rw [loadFrame_saved]
      exact stacked.running
  | passes leaves away other chosen =>
      rename_i current next
      have loaded := loadFrame_restored after next
        (saveFrame machine.running.registers daif esr far)
        machine.running.registers
      by_cases hsame : after.currentTask = machine.history.state.currentTask
      · refine stays (Execution.onStack_withRegisters stacked.running
          fun _ => ?_) hsame
        -- only the idle task may be the next one after itself
        have hnext : next = current := Option.some.inj
          (chosen.current.symm.trans (hsame.trans leaves))
        rw [hnext] at other
        obtain rfl : idle = current := Option.some.inj
          (steady.idleTask.symm.trans (away.resolve_left other))
        have hthread : machine.running.thread = some idle := by
          rw [steady.thread, leaves]
          exact owner_of_ne steady.launch_ne.symm
        rw [hthread, loaded.sp, hnext]
        exact hidle
      · have parked := @Steady.park_interrupt map launch idle machine steady
          prepares daif esr far (after.withDaif (Scheduler.restored after next
            (saveFrame machine.running.registers daif esr far)).spsr.daif)
          (chosen.toSameContexts.withDaif _) current leaves away
        have resumes := parked.onStack bases hidle suspended loaded.sp
          (loadFrame (Scheduler.restored after next (saveFrame
            machine.running.registers daif esr far)) machine.running.registers)
        unfold Machine.interrupted
        dsimp only
        rw [if_neg hsame, chosen.current]
        refine ⟨?_, ?_, ?_, ?_⟩
        · rw [Machine.arrive_history, Machine.dispatch_history]
          exact bases
        · rw [Machine.arrive_history, Machine.dispatch_history]
          exact hidle
        · rw [Machine.arrive_suspended, Machine.dispatch_suspended]
          exact suspended
        · rw [Machine.arrive_thread]
          unfold Execution.stackPointer at resumes ⊢
          rw [Machine.arrive_activity, Machine.arrive_registers]
          exact resumes

theorem Stacked.serve (stacked : Stacked base idle machine)
    (sound : Sound map launch idle machine)
    (executes : machine.Executes map) {task : TaskRef}
    (runs : machine.RunsTask task) {call : Call} {budget : Nat}
    {service : Service} {core : Core}
    (ended : (call.request.program map budget).run machine.core =
      .ok (service, core))
    (keeps : KeepsStacks idle machine.history.state core.state) :
    Stacked base idle (machine.serve map call task service core) := by
  have recorded := call.request.record_state machine.history core.state
    service
  have returned : Stacked base idle ((machine.withHistory
      (call.request.record machine.history core.state service)).withCall task
        (some (call.after service))) := by
    refine stacked.transfer ?_ rfl rfl rfl
    rw [← recorded] at keeps
    exact keeps
  cases service with
  | done => exact returned
  | again => exact returned
  | switched handover =>
      have steady := sound.of_own executes.own
      have leaves := steady.leaves_served executes runs ended
      have called : Stacked base idle (machine.withCall task
          (some (call.after (.switched handover)))) :=
        stacked.transfer ((SameContexts.refl _).keepsStacks idle) rfl rfl rfl
      have own := stacked.running
      rw [Execution.stackPointer_of_own executes.own] at own
      exact called.handOver (steady.withCall task
        (some (call.after (.switched handover)))) leaves own

theorem Stacked.step {after : Machine} {event : Event}
    (stacked : Stacked base idle machine)
    (sound : Sound map launch idle machine)
    (meets : KeepsThreads machine event)
    (step : Machine.Step map machine event after) :
    Stacked base idle after := by
  have keeps := sound.keepsStacks meets step
  cases step with
  | serve executes runs called unserved ended =>
      rw [Machine.serve_state] at keeps
      exact stacked.serve sound executes runs ended keeps
  | enter budget executes uncalled enters =>
      refine stacked.transfer keeps rfl rfl ?_
      rw [Execution.stackPointer_of_own executes.own]
      rfl
  | access activity pc step => exact stacked.access sound activity pc step
  | branch pc =>
      refine stacked.transfer keeps ?_ ?_ ?_
      · exact Machine.arrive_suspended ..
      · exact Machine.arrive_thread ..
      · unfold Execution.stackPointer
        rw [Machine.arrive_activity, Machine.arrive_registers]
        rfl
  | interrupt enabled ended =>
      obtain ⟨steady, prepares⟩ := sound.interruptible meets
      exact stacked.interrupt steady prepares
        ((onTimerInterrupt_preempts _ _ _).of_run ended)
  | compute registers executes stack pc =>
      refine stacked.transfer keeps rfl rfl ?_
      have before := Execution.stackPointer_of_own executes.own
      have moved : (machine.withRegisters registers).running.stackPointer =
          registers.sp := Execution.stackPointer_of_own executes.own
      rw [moved, before]
      exact stack
  | add | call | giveBack | unlock | mask =>
      exact stacked.transfer keeps rfl rfl rfl

theorem Stacked.onStack (stacked : Stacked base idle machine)
    (prepares : machine.running.Prepares map launch idle
      machine.history.state.currentTask) :
    OnStack base machine.running.thread
      machine.running.registers.sp.stack := by
  have own := stacked.running
  unfold Execution.stackPointer at own
  split at own
  · rename_i hinside
    have given := (prepares _ _ _ _ hinside).given
    rw [given.sp]
    exact own
  · exact own

theorem Machine.Initial.stacked (initial : machine.Initial map)
    (hlaunch : machine.history.state.launchContext ≠ some idle) :
    Stacked (fun task => (machine.history.state.tasks task).stackBase) idle
      machine := by
  have created : (machine.history.state.tasks idle).cpuContext = _ :=
    initial.created idle hlaunch
  refine ⟨fun _ => rfl, ?_, ?_, ?_⟩
  · rw [created]
    rfl
  · rw [initial.suspended]
    exact nofun
  · rw [Execution.stackPointer_of_own initial.executes.own, initial.thread]
    exact initial.stack

end

end Planetoid.Task
