import Planetoid.Task.Beginnings
import Planetoid.Task.ReclaimRuns

namespace Planetoid.Task

open Planetoid Program Links Arch

/-! What becomes of the tasks that terminate. -/

namespace Machine

inductive Faults (map : CodeMap) (machine : Machine) : Event → Fault → Prop
  | add {task : TaskRef} {fault : Fault} (executes : machine.Executes map)
      (uncalled : machine.Uncalled) (fresh : machine.New task)
      (failed : (Scheduler.addTask (some task)).run machine.history.state =
        .error fault) : Faults map machine (.add task) fault
  | serve {task : TaskRef} {call : Call} {budget : Nat} {fault : Fault}
      (executes : machine.Executes map) (runs : machine.RunsTask task)
      (called : machine.calls task = some call)
      (unserved : call.served = false)
      (failed : (call.request.program map budget).run machine.core =
        .error fault) : Faults map machine (.serve none) fault
  | unlock {task : TaskRef} {mutex : Mutex.MutexRef} {fault : Fault}
      (executes : machine.Executes map) (runs : machine.RunsTask task)
      (uncalled : machine.Uncalled)
      (failed : (Mutex.unlock (some mutex)).run machine.history.state =
        .error fault) : Faults map machine (.unlock mutex) fault
  | access {routine : Routine} {caller : Registers} {accesses : Nat}
      {fault : Fault} (activity : machine.running.activity =
        .inside routine caller accesses (.fail fault)) :
      Faults map machine (.access none) fault
  | interrupt {budget esr far : Nat} {fault : Fault}
      (enabled : machine.history.state.daif &&& Interrupts.irqBit = 0)
      (failed : (onTimerInterrupt budget (saveFrame machine.running.registers
        machine.history.state.daif esr far)).run machine.history.state =
          .error fault) : Faults map machine .interrupt fault

/-- The tasks on the cleanup list, of which an interrupt frees the first. -/
structure Drains (map : CodeMap) (machine : Machine)
    (pending : List TaskRef) : Prop where
  queue : Queue (cleanupOf machine.history.state)
    machine.history.state.pendingCleanupHead
    machine.history.state.pendingCleanupTail pending
  terminated : ∀ task, task ∈ machine.history.terminated ↔
    task ∈ pending ∨ Freed.state task ∈ machine.history.state.kfreed
  frees : ∀ after, machine.history.state.currentTask ≠ none →
    Step map machine .interrupt after →
      after.history.state.kfreed = (pending.take 1).flatMap (allocations
          fun task => (machine.history.state.tasks task).stackBase) ++
        machine.history.state.kfreed ∧
      Queue (cleanupOf after.history.state)
        after.history.state.pendingCleanupHead
        after.history.state.pendingCleanupTail pending.tail

/-- The stack and the `TaskState` of a task are freed once, when it has
terminated and left the core for good, and not used any more. The context of
every other task keeps the registers of that task, and every loop of a timer
interrupt ends. -/
structure Reclaims (map : CodeMap) (allowed : Machine → Event → Prop)
    (machine : Machine) : Prop where
  once : machine.history.state.kfreed.Nodup
  both : ∀ task, Freed.state task ∈ machine.history.state.kfreed ↔
    Freed.stack (machine.history.state.tasks task).stackBase ∈
      machine.history.state.kfreed
  terminated : ∀ task, Freed.state task ∈ machine.history.state.kfreed →
    task ∈ machine.history.terminated
  left : ∀ task, task ∈ machine.history.terminated →
    machine.running.thread ≠ some task ∧
      machine.running.stackPointer.stack ≠
        (machine.history.state.tasks task).stackBase
  drains : allowed machine .interrupt →
    ∃ pending, machine.Drains map pending
  handler : allowed machine .interrupt →
    ∀ task, task ∈ machine.history.terminated →
      machine.running.registers.sp.stack ≠
        (machine.history.state.tasks task).stackBase
  faults : ∀ event fault, allowed machine event →
    machine.Faults map event fault → fault = .budgetExhausted
  contexts : ∀ task, machine.Ordinary task →
    machine.running.thread ≠ some task →
      machine.suspended task = none ∧
          Created map machine.history.state task ∨
        ∃ suspension, machine.suspended task = some suspension ∧
          suspension.execution.thread = some task ∧
          suspension.SavedIn (machine.history.state.tasks task).cpuContext
  ends : allowed machine .interrupt → ∀ context, ∃ need result,
    Returns .budgetExhausted (fun budget => onTimerInterrupt budget context)
      machine.history.state need result

def Departed (machine : Machine) : Prop :=
  ∀ task, task ∈ machine.history.terminated →
    machine.running.thread ≠ some task

end Machine

section

variable {map : CodeMap} {base : TaskRef → Nat} {launch idle : TaskRef}
  {machine : Machine}

theorem Kept.not_terminated (kept : Kept map base idle machine)
    {task : TaskRef}
    (current : machine.history.state.currentTask = some task) :
    task ∉ machine.history.terminated := by
  obtain ⟨layout, reaped, accounted⟩ := kept.accounted
  intro hmem
  have valid := accounted.wellFormed.valid_current current
  rcases (accounted.terminated_iff task).mp hmem with hpending | hreaped
  · rcases accounted.wellFormed.current task current with hring | hidle
    · exact accounted.wellFormed.pending_ring task hpending hring
    · obtain ⟨other, hother, _, hnot, _⟩ := accounted.wellFormed.idle
      obtain rfl := Option.some.inj (hother.symm.trans hidle)
      exact hnot hpending
  · exact valid ((accounted.freed_iff task).mpr hreaped)

theorem Kept.departed (kept : Kept map base idle machine)
    (thread : machine.running.thread =
      owner launch (machine.history.state.currentTask.getD launch)) :
    machine.Departed := by
  intro task hmem hthread
  rw [thread] at hthread
  obtain ⟨hsame, hne⟩ := owner_eq_some hthread
  cases hcurrent : machine.history.state.currentTask with
  | none =>
      rw [hcurrent] at hne
      exact hne rfl
  | some current =>
      rw [hcurrent] at hsame
      obtain rfl : current = task := hsame
      exact kept.not_terminated hcurrent hmem

theorem Steady.handOver_thread (steady : Steady map launch idle machine)
    {before after : Core} {caller : Registers} {handover : Handover}
    {history : History}
    (leaves : Leaves map launch idle machine before caller handover after
      history) :
    ((machine.withHistory history).handOver map caller handover
      after.registers).running.thread = owner launch
        ((((machine.withHistory history).handOver map caller handover
          after.registers).history.state.currentTask).getD launch) := by
  have hcurrent : history.state.currentTask = some handover.next :=
    (congrArg State.currentTask leaves.recorded).trans leaves.hands.current
  have hthread := (steady.park_switch leaves).dispatch_thread handover.next
    after.registers { after.registers with pc := after.registers.x 2 }
  refine hthread.trans ?_
  unfold Machine.handOver
  rw [Machine.dispatch_history]
  show _ = owner launch (history.state.currentTask.getD launch)
  rw [hcurrent]
  rfl

/-- A terminated task does not come back to the core. -/
theorem Machine.Departed.step {after : Machine} {event : Event}
    (departed : machine.Departed) (orderly : Orderly map base idle machine)
    (sound : Sound map launch idle machine)
    (stacked : Stacked base idle machine)
    (meets : KeepsCleanup machine event)
    (step : Machine.Step map machine event after) : after.Departed := by
  have hidle := (sound.step meets.threads step).idleTask
  cases step with
  | serve executes runs called unserved ended =>
      rename_i task call budget service core
      have steady := sound.of_own executes.own
      rw [Machine.serve_state] at hidle
      have settled := (orderly.of_own executes.own).serve steady executes runs
        ended hidle
      refine @Kept.departed map base launch idle _ settled.toKept ?_
      have served := Sound.serve steady executes runs ended meets.threads
      cases service with
      | done => exact (served.of_own executes.own).thread
      | again => exact (served.of_own executes.own).thread
      | switched handover =>
          have called := steady.withCall task
            (some (call.after (.switched handover)))
          exact called.handOver_thread
            (steady.leaves_served executes runs ended)
  | access activity pc step =>
      rename_i routine caller accesses rest left core
      by_cases returns : ∃ service, left = .ret service
      · obtain ⟨service, rfl⟩ := returns
        obtain ⟨handover, rfl, settled⟩ :=
          orderly.departs sound activity pc step (accesses + 1)
        obtain ⟨before, steady, leaves⟩ := sound.leaves activity pc step
        exact settled.toKept.departed (steady.handOver_thread leaves)
      · have goesOn : ∀ service, left ≠ .ret service :=
          fun service hleft => returns ⟨service, hleft⟩
        rw [Machine.proceed_goesOn goesOn]
        exact departed
  | branch pc =>
      intro task
      rw [Machine.arrive_history, Machine.arrive_thread]
      exact departed task
  | interrupt enabled ended =>
      rw [Machine.interrupted_state] at hidle
      have settled := (orderly.interruptible meets).interrupt stacked ended
        hidle
      obtain ⟨steady, prepares⟩ := sound.interruptible meets.threads
      have preempted := (steady.interrupt prepares
        ((onTimerInterrupt_preempts _ _ _).of_run ended)).1
      exact settled.toKept.departed preempted.thread
  | add | call | giveBack | unlock | enter | compute | mask => exact departed

/-- What was freed, also while a routine is on its way to another task. -/
theorem Orderly.freed (orderly : Orderly map base idle machine) :
    ∃ reaped : List TaskRef,
      machine.history.state.kfreed = reaped.flatMap (allocations base) ∧
      reaped.Nodup ∧
      ∀ task, task ∈ reaped → task ∈ machine.history.terminated := by
  cases orderly with
  | settled settled =>
      obtain ⟨layout, reaped, accounted⟩ := settled.accounted
      exact ⟨reaped, accounted.freedOf, accounted.reaped_nodup,
        fun task hmem => (accounted.terminated_iff task).mpr (.inr hmem)⟩
  | leaving before _ _ _ _ inside leaving =>
      obtain ⟨layout, reaped, accounted⟩ := leaving.kept.accounted
      exact ⟨reaped, leaving.kfreed.trans accounted.freedOf,
        accounted.reaped_nodup,
        fun task hmem => (accounted.terminated_iff task).mpr (.inr hmem)⟩

theorem Orderly.faults (orderly : Orderly map base idle machine)
    (sound : Sound map launch idle machine) {event : Event} {fault : Fault}
    (meets : KeepsCleanup machine event)
    (faults : machine.Faults map event fault) : fault = .budgetExhausted := by
  cases faults with
  | add executes uncalled fresh failed =>
      rename_i task
      obtain ⟨layout, reaped, accounted⟩ :=
        (orderly.of_own executes.own).accounted
      have performs := addTask_performs accounted.toConsistent
        (entryOn map machine.core) fresh.live ⟨fresh.terminated, fresh.idle⟩
      exact @Performs.failed machine.history layout (.addTask task) _ performs
        0 fault failed
  | serve executes runs called unserved failed =>
      obtain ⟨layout, reaped, accounted⟩ :=
        (orderly.of_own executes.own).accounted
      have hcurrent :=
        ((sound.of_own executes.own).current_of_runs runs).1
      exact (Request.concludes accounted ⟨hcurrent, runs.live⟩ map
        machine.running.registers _ _).failed fault failed
  | unlock executes runs uncalled failed =>
      obtain ⟨layout, reaped, accounted⟩ :=
        (orderly.of_own executes.own).accounted
      obtain ⟨state, hrun, _⟩ := unlock_accounts accounted _
      cases hrun.symm.trans failed
  | access activity =>
      obtain ⟨before, kept, called, budget, hrun⟩ := orderly.inside activity
      exact kept.called_failed called hrun.symm
  | interrupt enabled failed =>
      rename_i budget esr far
      obtain ⟨layout, reaped, accounted⟩ :=
        (orderly.interruptible meets).accounted
      have returns := Scheduler.onTimerInterrupt_returns accounted.wellFormed
        (saveFrame machine.running.registers machine.history.state.daif esr
          far)
      rcases returns budget with ended | ⟨_, exhausted⟩
      · cases ended.symm.trans failed
      · exact (Except.error.inj (exhausted.symm.trans failed)).symm

theorem Settled.drains (settled : Settled map base idle machine) :
    ∃ pending, machine.Drains map pending := by
  obtain ⟨layout, reaped, accounted⟩ := settled.accounted
  refine ⟨layout.pending, accounted.wellFormed.pending, ?_, ?_⟩
  · intro task
    rw [accounted.freed_iff]
    exact accounted.terminated_iff task
  · intro after running step
    cases step with
    | interrupt enabled ended =>
        rename_i budget esr far frame state
        have returns := Scheduler.onTimerInterrupt_returns
          accounted.wellFormed (saveFrame machine.running.registers
            machine.history.state.daif esr far)
        obtain rfl := congrArg Prod.snd (returns.unique ended)
        obtain ⟨current, hcurrent⟩ := Option.ne_none_iff_exists'.mp running
        rw [Machine.interrupted_state]
        exact ⟨Scheduler.interruptEffect_frees layout _ hcurrent,
          Scheduler.interruptEffect_pending accounted.wellFormed.pending _
            hcurrent⟩

/-- What the context of a suspended task holds, also while `task_switch` is
writing that of another. -/
theorem Sound.saved (sound : Sound map launch idle machine) {task : TaskRef}
    (ordinary : machine.Ordinary task)
    (hthread : machine.running.thread ≠ some task) {suspension : Suspension}
    (hsuspended : machine.suspended task = some suspension) :
    suspension.execution.thread = some task ∧
      suspension.SavedIn (machine.history.state.tasks task).cpuContext := by
  have hidle : task ≠ idle := by
    rintro rfl
    exact ordinary.idle sound.idleTask
  cases sound with
  | steady steady prepares =>
      have hlaunch : task ≠ launch := by
        rintro rfl
        exact ordinary.launch steady.launchContext
      have howner := owner_of_ne hlaunch
      refine ⟨(steady.owned task suspension hsuspended).trans howner, ?_⟩
      have held := steady.held task hidle (howner ▸ hthread.symm)
      exact held.saved suspension hsuspended
  | switching before _ _ _ _ steady _ _ _ _ _ _ switching =>
      have hlaunch : task ≠ launch := by
        rintro rfl
        exact ordinary.launch (switching.launch.trans steady.launchContext)
      have howner := owner_of_ne hlaunch
      refine ⟨(steady.owned task suspension hsuspended).trans howner, ?_⟩
      have held := steady.held task hidle (howner ▸ hthread.symm)
      have same : (machine.history.state.tasks task).cpuContext =
          (before.state.tasks task).cpuContext := by
        refine switching.contexts task ?_
        rintro rfl
        exact hthread (steady.thread.trans howner)
      rw [same]
      exact held.saved suspension hsuspended

end

structure Tended (map : CodeMap) (base : TaskRef → Nat)
    (launch idle : TaskRef) (machine : Machine) : Prop where
  sound : Sound map launch idle machine
  stacked : Stacked base idle machine
  orderly : Orderly map base idle machine
  departed : machine.Departed

section

variable {map : CodeMap} {base : TaskRef → Nat} {launch idle : TaskRef}
  {machine : Machine}

theorem Tended.step {after : Machine} {event : Event}
    (tended : Tended map base launch idle machine)
    (meets : KeepsCleanup machine event)
    (step : Machine.Step map machine event after) :
    Tended map base launch idle after := by
  obtain ⟨sound, stacked, orderly, departed⟩ := tended
  exact ⟨sound.step meets.threads step,
    stacked.step sound meets.threads step,
    orderly.step sound stacked meets step,
    departed.step orderly sound stacked meets step⟩

theorem Machine.Initial.tended (initial : machine.Initial map) :
    ∃ launch idle, Tended map
      (fun task => (machine.history.state.tasks task).stackBase) launch idle
        machine := by
  obtain ⟨launch, idle, sound⟩ := initial.sound
  have steady := sound.of_own initial.executes.own
  have consistent := initial_consistent initial.history
  obtain ⟨before, _, _, hkfreed, _, hrun, _, hterminated, _⟩ :=
    initial.history
  have hfreed : machine.history.state.kfreed = [] := by
    have valid : ∀ task, before.Valid task := by
      intro task
      unfold State.Valid
      rw [hkfreed]
      exact List.not_mem_nil
    rw [Scheduler.run_init (valid _) (valid _)] at hrun
    obtain hstate := congrArg Prod.snd (Except.ok.inj hrun)
    exact (congrArg State.kfreed hstate).symm.trans hkfreed
  refine ⟨launch, idle, sound, initial.stacked ?_, .settled ?_, ?_⟩
  · rw [steady.launchContext]
    exact fun heq => steady.launch_ne (Option.some.inj heq)
  · refine Kept.settled_of_own ⟨steady.idleTask, ⟨_, [], consistent, hfreed,
      List.nodup_nil, fun task => ?_⟩, ?_⟩ initial.executes.own
    · rw [hterminated]
      exact ⟨nofun, fun h => h.elim nofun nofun⟩
    · rw [initial.suspended]
      exact nofun
  · intro task hmem
    rw [hterminated] at hmem
    cases hmem

theorem OnStack.ne {thread : Option TaskRef} {stack : Nat} {task : TaskRef}
    (own : OnStack base thread stack) (distinct : Function.Injective base)
    (hthread : thread ≠ some task) : stack ≠ base task := by
  cases thread with
  | none => exact own task
  | some other =>
      have hstack : stack = base other := own
      rw [hstack]
      exact fun hsame => hthread (congrArg some (distinct hsame))

theorem Tended.reclaims (tended : Tended map base launch idle machine)
    (distinct : Function.Injective base) :
    machine.Reclaims map KeepsCleanup := by
  obtain ⟨sound, stacked, orderly, departed⟩ := tended
  obtain ⟨reaped, hkfreed, nodup, hterminated⟩ := orderly.freed
  have bases := stacked.bases
  have hfreed : ∀ task, Freed.state task ∈ machine.history.state.kfreed ↔
      task ∈ reaped := by
    intro task
    rw [hkfreed]
    exact state_mem_allocations
  refine ⟨?_, ?_, ?_, ?_, ?_, ?_, ?_, ?_, ?_⟩
  · rw [hkfreed]
    exact allocations_nodup distinct nodup
  · intro task
    rw [hfreed, hkfreed, bases]
    exact (stack_mem_allocations distinct).symm
  · intro task hmem
    exact hterminated task ((hfreed task).mp hmem)
  · intro task hmem
    rw [bases]
    exact ⟨departed task hmem,
      stacked.running.ne distinct (departed task hmem)⟩
  · exact fun meets => (orderly.interruptible meets).drains
  · intro meets task hmem
    obtain ⟨_, prepares⟩ := sound.interruptible meets.threads
    rw [bases]
    exact (stacked.onStack prepares).ne distinct (departed task hmem)
  · exact fun event fault meets => orderly.faults sound meets
  · intro task ordinary hthread
    cases hsuspended : machine.suspended task with
    | none =>
        exact .inl ⟨rfl, sound.tasksBegin.intact task ordinary hthread
          hsuspended⟩
    | some suspension =>
        exact .inr ⟨suspension, rfl, sound.saved ordinary hthread hsuspended⟩
  · intro meets context
    obtain ⟨layout, reaped, accounted⟩ :=
      (orderly.interruptible meets).accounted
    exact ⟨_, _, Scheduler.onTimerInterrupt_returns accounted.wellFormed
      context⟩

end

/-- In every run in which no timer interrupt comes between the accesses of
`terminate_current` to the cleanup list and the end of its `task_switch`, and
`task_switch` goes to no task that was interrupted inside `terminate_current`,
every terminated task is freed once and not used any more. -/
theorem reclaims_of_reachable {map : CodeMap} {machine : Machine}
    (reachable : (machines map).Reachable KeepsCleanup machine) :
    machine.Reclaims map KeepsCleanup := by
  have tended : ∃ base launch idle, Function.Injective base ∧
      Tended map base launch idle machine := by
    refine @System.Reachable.holds _ _ _ _ (fun machine : Machine =>
      ∃ base launch idle, Function.Injective base ∧
        Tended map base launch idle machine) _ reachable ?_ ?_
    · intro start initial
      obtain ⟨launch, idle, tended⟩ := initial.tended
      exact ⟨_, launch, idle, fun first second => initial.distinct first second,
        tended⟩
    · rintro before event after ⟨base, launch, idle, distinct, tended⟩ meets
        step
      exact ⟨base, launch, idle, distinct, tended.step meets step⟩
  obtain ⟨base, launch, idle, distinct, tended⟩ := tended
  exact tended.reclaims distinct

theorem keepsCleanup_of_apart {machine : Machine} {event : Event}
    (h : machine.switchesApart event = true) : KeepsCleanup machine event where
  threads := (keepsRegisters_of_apart h).keepsThreads
  cleanup := by
    rintro rfl
    have own : machine.running.activity = .own := of_decide_eq_true h
    rw [own]
    exact id

/-- Task 2 terminates, and an interrupt of task 3 frees it. -/
def terminatedTask : List Event :=
  [.add 2, .add 3] ++ startEvents 2 ++ [.enter .terminate] ++
    List.replicate 30 (.access none) ++ [.access (some 3), .branch, .interrupt]

theorem reclaims_terminatedTask :
    ∃ machine, smallMachine.runEvents Machine.switchesApart smallMap 4
        terminatedTask = some machine ∧
      machine.history.state.kfreed = [.state 2, .stack 3] ∧
        machine.Reclaims smallMap KeepsCleanup := by
  obtain ⟨machine, hrun, hfreed⟩ := Option.map_eq_some_iff.mp
    (by decide +kernel : (smallMachine.runEvents Machine.switchesApart
      smallMap 4 terminatedTask).map (·.history.state.kfreed) =
        some [.state 2, .stack 3])
  have reachable : (machines smallMap).Reachable KeepsCleanup machine :=
    Machine.reachable_runEvents (fun _ _ h => keepsCleanup_of_apart h)
      (.initial smallMachine_initial) hrun
  exact ⟨machine, hrun, hfreed, reclaims_of_reachable reachable⟩

def Machine.interruptFault (machine : Machine) (budget : Nat) :
    Option Fault :=
  match (onTimerInterrupt budget (saveFrame machine.running.registers
      machine.history.state.daif 0 0)).run machine.history.state with
  | .ok _ => none
  | .error fault => some fault

theorem Machine.faults_of_interruptFault {map : CodeMap} {machine : Machine}
    {budget : Nat} {fault : Fault}
    (enabled : machine.history.state.daif &&& Interrupts.irqBit = 0)
    (h : machine.interruptFault budget = some fault) :
    machine.Faults map .interrupt fault := by
  unfold interruptFault at h
  split at h
  · cases h
  · rename_i hfailed
    obtain rfl := Option.some.inj h
    exact .interrupt enabled hfailed

/-- Task 2 has put itself on the cleanup list and executes
`terminate_current` still. -/
def listedTask : List Event :=
  [.add 2, .add 3] ++ startEvents 2 ++ [.enter .terminate] ++
    List.replicate 8 (.access none)

theorem reclaims_fails_for_listed_task :
    ∃ machine, (machines smallMap).Reachable System.unguarded machine ∧
      ¬ machine.Reclaims smallMap System.unguarded := by
  obtain ⟨machine, hrun, hfields⟩ := Option.map_eq_some_iff.mp
    (by decide +kernel : (smallMachine.runEvents (fun _ _ => true) smallMap 4
      listedTask).map (fun machine => (machine.history.state.daif,
        machine.interruptFault 4)) = some (0, some .useAfterFree))
  refine ⟨machine, Machine.reachable_runEvents (fun _ _ _ => trivial)
    (.initial smallMachine_initial) hrun, ?_⟩
  intro reclaims
  obtain ⟨hdaif, hfault⟩ := Prod.mk.inj hfields
  have enabled : machine.history.state.daif &&& Interrupts.irqBit = 0 := by
    rw [hdaif]
    rfl
  have hsame := reclaims.faults .interrupt .useAfterFree trivial
    (Machine.faults_of_interruptFault enabled hfault)
  cases hsame

end Planetoid.Task
