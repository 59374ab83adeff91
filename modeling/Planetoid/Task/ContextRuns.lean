import Planetoid.Task.Beginnings

namespace Planetoid.Task

open Planetoid Program Arch

/-! With which registers the suspended tasks go on. -/

/-- What a task finds in its registers when it goes on: what it had in those
that a call keeps, and in all of them after a timer interrupt. -/
structure Suspension.ResumedWith (suspension : Suspension)
    (registers : Registers) : Prop where
  x : ∀ index, 19 ≤ index → index < 31 →
    registers.x index = suspension.execution.registers.x index
  sp : registers.sp = suspension.execution.registers.sp
  pc : registers.pc = suspension.execution.registers.pc
  interrupted : suspension.interrupted = true →
    (∀ index, index < 31 →
      registers.x index = suspension.execution.registers.x index) ∧
    registers.nzcv = suspension.execution.registers.nzcv

/-- Every suspended task went on as itself and with its registers. A task that
an interrupt does not take from the core has all its registers after it. -/
structure Machine.KeepsContexts (map : CodeMap) (machine : Machine) :
    Prop where
  resumed : ∀ task suspension registers,
    machine.history.state.idleTask ≠ some task →
      (task, suspension, registers) ∈ machine.resumptions →
        suspension.ResumedWith registers
  own : ∀ task suspension registers, machine.Ordinary task →
    (task, suspension, registers) ∈ machine.resumptions →
      suspension.execution.thread = some task
  stayed : ∀ task after, machine.history.state.idleTask ≠ some task →
    machine.running.thread = some task →
      KeepsRegisters machine .interrupt →
        Machine.Step map machine .interrupt after →
          after.running.thread = some task →
            after.running.registers = machine.running.registers

section

variable {suspension : Suspension} {context : CPUContext}

theorem Suspension.SavedIn.switched (saved : suspension.SavedIn context)
    (switched : suspension.interrupted = false) (map : CodeMap)
    (registers : Registers) :
    suspension.ResumedWith { registers.switched map context with
      pc := (registers.switched map context).x 2 } where
  x := by
    intro index hlow hhigh
    have hne : index ≠ 2 := Nat.ne_of_gt (Nat.lt_of_lt_of_le (by decide) hlow)
    have hloaded : (registers.switched map context).x index =
        context.x index :=
      (Function.update_of_ne hne _ _).trans (if_pos ⟨hlow, hhigh⟩)
    exact hloaded.trans (saved.x index hlow hhigh)
  sp := saved.sp
  pc := saved.pc
  interrupted := fun h => absurd (switched.symm.trans h) nofun

theorem Suspension.SavedIn.loaded (saved : suspension.SavedIn context)
    {registers : Registers} (loaded : LoadedFrom context registers) :
    suspension.ResumedWith registers where
  x := fun index hlow hhigh =>
    (loaded.x index hhigh).trans (saved.x index hlow hhigh)
  sp := loaded.sp.trans saved.sp
  pc := loaded.pc.trans saved.pc
  interrupted := by
    intro h
    obtain ⟨hx, hnzcv⟩ := saved.interrupted h
    exact ⟨fun index hindex => (loaded.x index hindex).trans (hx index hindex),
      loaded.nzcv.trans hnzcv⟩

end

/-- Every suspension in the log was of its own thread, which found its
registers again. -/
def Logged (launch idle : TaskRef) (machine : Machine) : Prop :=
  ∀ task suspension registers, task ≠ idle →
    (task, suspension, registers) ∈ machine.resumptions →
      suspension.ResumedWith registers ∧
        suspension.execution.thread = owner launch task

section

variable {map : CodeMap} {launch idle : TaskRef} {machine : Machine}

theorem Logged.dispatch (logged : Logged launch idle machine)
    {next : TaskRef} {registers resumed : Registers}
    (h : next ≠ idle → ∀ suspension,
      machine.suspended next = some suspension →
        suspension.ResumedWith resumed ∧
          suspension.execution.thread = owner launch next) :
    Logged launch idle (machine.dispatch next registers resumed) := by
  unfold Machine.dispatch
  split
  · exact logged
  · rename_i suspension hsuspended
    intro task other found hidle hmem
    rcases List.mem_cons.mp hmem with hnew | hold
    · cases hnew
      exact h hidle suspension hsuspended
    · exact logged task other found hidle hold

theorem Logged.handOver (logged : Logged launch idle machine)
    (steady : Steady map launch idle machine) {core after : Core}
    {caller : Registers} {handover : Handover} {history : History}
    (leaves : Leaves map launch idle machine core caller handover after
      history)
    (switched : ∀ suspension,
      machine.suspended handover.next = some suspension →
        suspension.interrupted = false) :
    Logged launch idle ((machine.withHistory history).handOver map caller
      handover after.registers) := by
  have parked := steady.park_switch leaves
  have before : Logged launch idle ((machine.withHistory history).suspend
      handover.previous (machine.switchedOut map caller)) := logged
  refine before.dispatch fun hidle suspension hsuspended => ?_
  refine ⟨?_, parked.owned _ suspension hsuspended⟩
  have saved := (parked.held _ hidle).saved suspension hsuspended
  have hcontext : (history.state.tasks handover.next).cpuContext =
      (after.state.tasks handover.next).cpuContext :=
    congrArg (fun state : State => (state.tasks handover.next).cpuContext)
      leaves.recorded
  have saved : suspension.SavedIn
      (after.state.tasks handover.next).cpuContext := hcontext ▸ saved
  rw [leaves.hands.registers]
  refine saved.switched ?_ map core.registers
  by_cases heq : handover.next = handover.previous
  · rw [heq, Machine.suspend_self] at hsuspended
    obtain rfl := Option.some.inj hsuspended
    rfl
  · rw [Machine.suspend_of_ne _ _ heq] at hsuspended
    exact switched suspension hsuspended

theorem Sound.leaves (sound : Sound map launch idle machine)
    {routine : Routine} {caller : Registers} {accesses : Nat}
    {rest : Code Service} {handover : Handover} {core : Core}
    (activity : machine.running.activity =
      .inside routine caller accesses rest)
    (pc : machine.running.registers.pc ≠ map.branch)
    (step : Program.Step (rest, machine.core)
      (.ret (.switched handover), core)) :
    ∃ before, Steady map launch idle (machine.withState before.state) ∧
      Leaves map launch idle (machine.withState before.state) before caller
        handover core (routine.record machine.history core.state handover) := by
  rcases sound.accessed activity pc step with
    ⟨_, _, _, back⟩ | ⟨before, underway⟩
  · have hback : some handover.next = none := back
    cases hback
  · obtain ⟨other, hservice, leaves⟩ := underway.leaves
    cases hservice
    exact ⟨before, underway.steady, leaves⟩

theorem Logged.access (logged : Logged launch idle machine)
    (sound : Sound map launch idle machine) {routine : Routine}
    {caller : Registers} {accesses : Nat} {rest left : Code Service}
    {core : Core}
    (activity : machine.running.activity =
      .inside routine caller accesses rest)
    (pc : machine.running.registers.pc ≠ map.branch)
    (step : Program.Step (rest, machine.core) (left, core))
    (meets : KeepsRegisters machine (.access (passesTo left))) :
    Logged launch idle
      (machine.proceed map routine caller (accesses + 1) left core) := by
  cases left with
  | ret service =>
      cases service with
      | done => exact logged
      | again => exact logged
      | switched handover =>
          obtain ⟨before, steady, leaves⟩ := sound.leaves activity pc step
          exact @Logged.handOver map launch idle
            (machine.withState before.state) logged steady before core caller
            handover _ leaves meets
  | fail fault => exact logged
  | access update next => exact logged

theorem Logged.serve (logged : Logged launch idle machine)
    (steady : Steady map launch idle machine)
    (executes : machine.Executes map) {task : TaskRef}
    (runs : machine.RunsTask task) {call : Call} {budget : Nat}
    {service : Service} {core : Core}
    (ended : (call.request.program map budget).run machine.core =
      .ok (service, core))
    (meets : KeepsRegisters machine (.serve service.next)) :
    Logged launch idle (machine.serve map call task service core) := by
  cases service with
  | done => exact logged
  | again => exact logged
  | switched handover =>
      have leaves := steady.leaves_served executes runs ended
      have called := steady.withCall task
        (some (call.after (.switched handover)))
      have before : Logged launch idle (machine.withCall task
        (some (call.after (.switched handover)))) := logged
      exact before.handOver called leaves meets

theorem Machine.saveInterrupted_resumptions (machine : Machine) :
    machine.saveInterrupted.resumptions = machine.resumptions := by
  unfold saveInterrupted
  split <;> rfl

theorem Logged.interrupt (logged : Logged launch idle machine)
    (steady : Steady map launch idle machine)
    (prepares : machine.running.Prepares map launch idle
      machine.history.state.currentTask) {daif esr far : Nat}
    {frame : ExceptionContext} {after : State}
    (preempts : Preempts machine.history.state
      (saveFrame machine.running.registers daif esr far) frame after) :
    Logged launch idle (machine.interrupted map frame after) := by
  have saved : Logged launch idle (machine.saveInterrupted.withState
      (after.withDaif frame.spsr.daif)) := by
    intro task suspension registers hidle hmem
    have hold : (task, suspension, registers) ∈
        machine.saveInterrupted.resumptions := hmem
    rw [Machine.saveInterrupted_resumptions] at hold
    exact logged task suspension registers hidle hold
  unfold Machine.interrupted
  dsimp only
  cases preempts with
  | stays same =>
      rw [if_pos (same.current.trans (interruptedBy_currentTask ..))]
      exact saved
  | passes leaves away other chosen =>
      rename_i current next
      by_cases hsame : after.currentTask = machine.history.state.currentTask
      · rw [if_pos hsame]
        exact saved
      · rw [if_neg hsame, chosen.current]
        have parked := @Steady.park_interrupt map launch idle machine steady
          prepares daif esr far (after.withDaif (Scheduler.restored after next
            (saveFrame machine.running.registers daif esr far)).spsr.daif)
          (chosen.toSameContexts.withDaif _) current leaves away
        have loaded := loadFrame_restored after next
          (saveFrame machine.running.registers daif esr far)
          machine.running.registers
        intro task suspension registers hidle hmem
        rw [Machine.arrive_resumptions] at hmem
        refine Logged.dispatch saved ?_ task suspension registers hidle hmem
        intro hnext suspension hsuspended
        exact ⟨((parked.held next hnext).saved suspension hsuspended).loaded
          loaded, parked.owned next suspension hsuspended⟩

theorem Logged.step {after : Machine} {event : Event}
    (logged : Logged launch idle machine)
    (sound : Sound map launch idle machine)
    (meets : KeepsRegisters machine event)
    (step : Machine.Step map machine event after) :
    Logged launch idle after := by
  cases step with
  | serve executes runs called unserved ended =>
      exact logged.serve (sound.of_own executes.own) executes runs ended meets
  | access activity pc step => exact logged.access sound activity pc step meets
  | branch pc =>
      intro task suspension registers hidle hmem
      rw [Machine.arrive_resumptions] at hmem
      exact logged task suspension registers hidle hmem
  | interrupt enabled ended =>
      obtain ⟨steady, prepares⟩ := sound.interruptible meets
      exact logged.interrupt steady prepares
        ((onTimerInterrupt_preempts _ _ _).of_run ended)
  | add | call | giveBack | unlock | enter | compute | mask => exact logged

/-- A task that an interrupt does not take from the core. -/
theorem Steady.stays (steady : Steady map launch idle machine)
    (prepares : machine.running.Prepares map launch idle
      machine.history.state.currentTask) {daif esr far : Nat}
    {frame : ExceptionContext} {after : State}
    (preempts : Preempts machine.history.state
      (saveFrame machine.running.registers daif esr far) frame after)
    {task : TaskRef} (hidle : task ≠ idle)
    (hthread : machine.running.thread = some task)
    (hafter : (machine.interrupted map frame after).running.thread =
      some task) :
    (machine.interrupted map frame after).running.registers =
      machine.running.registers := by
  have continues := (steady.interrupt prepares preempts).1.thread
  have hstate : (machine.interrupted map frame after).history.state.currentTask =
      after.currentTask := by
    rw [Machine.interrupted_state]
    rfl
  rw [hafter, hstate] at continues
  have hcurrent := owner_eq_some (steady.thread.symm.trans hthread)
  cases preempts with
  | stays same =>
      unfold Machine.interrupted
      dsimp only
      rw [if_pos (same.current.trans (interruptedBy_currentTask ..)),
        loadFrame_saved]
      rfl
  | passes leaves away other chosen =>
      rename_i current next
      rw [chosen.current] at continues
      rw [leaves] at hcurrent
      have hsame : current = next :=
        hcurrent.1.trans (owner_eq_some continues.symm).1.symm
      rw [hsame] at away
      have hnext := Option.some.inj
        (steady.idleTask.symm.trans (away.resolve_left other))
      exact absurd ((hnext.trans hsame.symm).trans hcurrent.1).symm hidle

theorem Machine.Initial.logged (initial : machine.Initial map) :
    ∃ launch idle, Sound map launch idle machine ∧
      Logged launch idle machine := by
  obtain ⟨launch, idle, sound⟩ := initial.sound
  refine ⟨launch, idle, sound, ?_⟩
  intro task suspension registers _ hmem
  rw [initial.logs.1] at hmem
  cases hmem

theorem Sound.keepsContexts (sound : Sound map launch idle machine)
    (logged : Logged launch idle machine) : machine.KeepsContexts map := by
  have named : machine.history.state.launchContext = some launch ∧
      machine.history.state.idleTask = some idle := by
    cases sound with
    | steady steady prepares => exact ⟨steady.launchContext, steady.idleTask⟩
    | switching _ _ _ _ _ steady _ _ _ _ _ _ switching =>
        exact ⟨switching.launch.trans steady.launchContext,
          switching.idle.trans steady.idleTask⟩
  obtain ⟨hlaunch, hidle⟩ := named
  have other : ∀ task, machine.history.state.idleTask ≠ some task →
      task ≠ idle := by
    rintro task hne rfl
    exact hne hidle
  refine ⟨?_, ?_, ?_⟩
  · intro task suspension registers hne hmem
    exact (logged task suspension registers (other task hne) hmem).1
  · intro task suspension registers ordinary hmem
    have howner := (logged task suspension registers
      (other task ordinary.idle) hmem).2
    refine howner.trans (owner_of_ne ?_)
    rintro rfl
    exact ordinary.launch hlaunch
  · intro task after hne hthread meets step hafter
    cases step with
    | interrupt enabled ended =>
        obtain ⟨steady, prepares⟩ := sound.interruptible meets
        exact steady.stays prepares
          ((onTimerInterrupt_preempts _ _ _).of_run ended)
          (other task hne) hthread hafter

end

/-- In every run in which `task_switch` goes to no task that a timer interrupt
suspended, and no interrupt comes while `start` or `terminate_current` is on
its way to the next task, every task goes on with its own registers. -/
theorem keepsContexts_of_reachable {map : CodeMap} {machine : Machine}
    (reachable : (machines map).Reachable KeepsRegisters machine) :
    machine.KeepsContexts map := by
  have sound : ∃ launch idle, Sound map launch idle machine ∧
      Logged launch idle machine :=
    reachable.holds (fun _ initial => initial.logged)
      fun _ _ _ ⟨launch, idle, sound, logged⟩ meets step =>
        ⟨launch, idle, sound.step meets.keepsThreads step,
          logged.step sound meets step⟩
  obtain ⟨launch, idle, sound, logged⟩ := sound
  exact sound.keepsContexts logged

/-- The registers of a task on its stack, with `value` in all of `x`. -/
def registersOn (stack value : Nat) : Registers where
  x := fun _ => value
  sp := ⟨stack, 4096⟩
  pc := 100
  nzcv := 0

/-- Task 2 yields to task 3, which yields back and has the core again when an
interrupt preempts task 2, until the next interrupt. -/
def sharedCore : List Event :=
  [.add 2, .add 3] ++ startEvents 2 ++
    [.compute (registersOn 3 7), .call .yield, .serve (some 3), .branch,
      .call .yield, .serve (some 2), .branch, .giveBack,
      .compute (registersOn 3 8), .interrupt, .interrupt]

theorem keepsContexts_sharedCore :
    ∃ machine, smallMachine.runEvents Machine.switchesApart smallMap 4
        sharedCore = some machine ∧
      machine.resumptions.map (fun entry => (entry.1, entry.2.2.x 0)) =
        [(2, 8), (3, 0), (2, 7)] ∧ machine.KeepsContexts smallMap := by
  obtain ⟨machine, hrun, hresumptions⟩ := Option.map_eq_some_iff.mp
    (by decide +kernel : (smallMachine.runEvents Machine.switchesApart
      smallMap 4 sharedCore).map (·.resumptions.map fun entry =>
        (entry.1, entry.2.2.x 0)) = some [(2, 8), (3, 0), (2, 7)])
  have reachable : (machines smallMap).Reachable KeepsRegisters machine :=
    Machine.reachable_runEvents (fun _ _ h => keepsRegisters_of_apart h)
      (.initial smallMachine_initial) hrun
  exact ⟨machine, hrun, hresumptions, keepsContexts_of_reachable reachable⟩

/-- An interrupt takes the core from task 2, and task 3 yields to it. -/
def yieldToInterrupted : List Event :=
  [.add 2, .add 3] ++ startEvents 2 ++
    [.compute (registersOn 3 7), .interrupt, .call .yield, .serve (some 2)]

theorem keepsContexts_fails_for_yield_to_interrupted :
    ∃ machine, (machines smallMap).Reachable System.unguarded machine ∧
      ¬ machine.KeepsContexts smallMap := by
  obtain ⟨machine, hrun, hfields⟩ := Option.map_eq_some_iff.mp
    (by decide +kernel : (smallMachine.runEvents (fun _ _ => true) smallMap 4
      yieldToInterrupted).map (fun machine =>
        (machine.history.state.idleTask, machine.resumptions.map fun entry =>
          (entry.1, entry.2.1.interrupted,
            entry.2.1.execution.registers.x 0, entry.2.2.x 0))) =
          some (some 1, [(2, true, 7, 0)]))
  refine ⟨machine, Machine.reachable_runEvents (fun _ _ _ => trivial)
    (.initial smallMachine_initial) hrun, ?_⟩
  intro keeps
  obtain ⟨hidle, hresumptions⟩ := Prod.mk.inj hfields
  obtain ⟨⟨task, suspension, registers⟩, hmem, hentry⟩ :=
    List.mem_map.mp (hresumptions ▸ List.mem_singleton.mpr rfl)
  simp only [Prod.mk.injEq] at hentry
  obtain ⟨rfl, hinterrupted, hsaved, hfound⟩ := hentry
  have other : machine.history.state.idleTask ≠ some 2 := by
    rw [hidle]
    decide
  have resumed := keeps.resumed 2 suspension registers other hmem
  have hkept := (resumed.interrupted hinterrupted).1 0 (by decide)
  rw [hsaved, hfound] at hkept
  cases hkept

end Planetoid.Task
