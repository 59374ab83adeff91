import Planetoid.Task.Openings
import Planetoid.Task.Services
import Planetoid.Task.Stacks

namespace Planetoid.Task

open Planetoid Program Links Arch

/-! The cleanup list over the runs of the machine. -/

/-- What is left of `terminate_current`, called by `task`, before it reads the
end of the cleanup list. -/
structure Retirement (map : CodeMap) (idle task : TaskRef) (history : History)
    (routine : Routine) (accesses : Nat) (rest : Code Service) : Prop where
  routine : routine = .terminate
  live : task ∈ history.live
  retires : ∃ budget, Retires map idle task budget accesses rest
  cleared : accesses = 5 → cleanupOf history.state task = none
  frees : rest.Respects SameFreedOn

/-- A thread of `task` that is inside a routine has not read the end of the
cleanup list. -/
def Activity.Retiring (map : CodeMap) (idle task : TaskRef)
    (history : History) (activity : Activity) : Prop :=
  ∀ routine caller accesses rest,
    activity = .inside routine caller accesses rest →
      Retirement map idle task history routine accesses rest

/-- What is left of `start` before it stores the current task. -/
structure Beginning (map : CodeMap) (idle : TaskRef) (history : History)
    (routine : Routine) (accesses : Nat) (rest : Code Service) : Prop where
  routine : routine = .start
  unstarted : history.started = false
  chooses : ∃ budget,
    Chooses map history.state.taskList idle budget accesses rest
  frees : rest.Respects SameFreedOn

structure Kept (map : CodeMap) (base : TaskRef → Nat) (idle : TaskRef)
    (machine : Machine) : Prop where
  idleTask : machine.history.state.idleTask = some idle
  accounted : ∃ layout reaped, Accounted base machine.history layout reaped
  suspended : ∀ task suspension, machine.suspended task = some suspension →
    suspension.execution.activity.Retiring map idle task machine.history

/-- The running thread is outside the routines, or its accesses so far would
be made again. -/
structure Settled (map : CodeMap) (base : TaskRef → Nat) (idle : TaskRef)
    (machine : Machine) : Prop extends Kept map base idle machine where
  current : ∀ task, machine.history.state.currentTask = some task →
    machine.running.activity.Retiring map idle task machine.history
  starting : machine.history.state.currentTask = none →
    ∀ routine caller accesses rest, machine.running.activity =
      .inside routine caller accesses rest →
        Beginning map idle machine.history routine accesses rest

def Routine.Called (history : History) : Routine → Prop
  | .start => history.started = false
  | .terminate => ∃ task, history.Runs task

def Routine.Undisturbed (accesses : Nat) (rest : Code Service) :
    Routine → Prop
  | .start => rest.Respects SameCurrent
  | .terminate => 6 ≤ accesses

/-- The routine goes on as the whole of it would have done from the state
`before` without an interrupt. -/
structure Leaving (map : CodeMap) (base : TaskRef → Nat) (idle : TaskRef)
    (machine : Machine) (before : Core) (routine : Routine) (accesses : Nat)
    (rest : Code Service) : Prop where
  kept : Kept map base idle (machine.withState before.state)
  called : routine.Called (machine.withState before.state).history
  runs : ∃ budget, rest.run machine.core =
    (routine.program map budget).run before
  kfreed : machine.history.state.kfreed = before.state.kfreed
  frees : rest.Respects SameFreedOn
  unbranched : machine.running.registers.pc ≠ map.branch
  undisturbed : routine.Undisturbed accesses rest

inductive Orderly (map : CodeMap) (base : TaskRef → Nat) (idle : TaskRef)
    (machine : Machine) : Prop
  | settled (settled : Settled map base idle machine)
  | leaving (before : Core) (routine : Routine) (caller : Registers)
      (accesses : Nat) (rest : Code Service)
      (inside : machine.running.activity =
        .inside routine caller accesses rest)
      (leaving : Leaving map base idle machine before routine accesses rest)

section

variable {map : CodeMap} {base : TaskRef → Nat} {idle task : TaskRef}
  {history after : History} {activity : Activity}

/-- What a step of another thread may do to a task. -/
def Spared (history after : History) (task : TaskRef) : Prop :=
  task ∈ history.live → task ∈ after.live ∧
    (cleanupOf history.state task = none →
      cleanupOf after.state task = none)

theorem Activity.Retiring.keep
    (retiring : activity.Retiring map idle task history)
    (spared : Spared history after task) :
    activity.Retiring map idle task after := by
  intro routine caller accesses rest inside
  have retirement := retiring routine caller accesses rest inside
  obtain ⟨live, links⟩ := spared retirement.live
  exact { retirement with
    live := live
    cleared := fun h => links (retirement.cleared h) }

theorem retiring_of_outside (h : ∀ routine caller accesses rest,
    activity ≠ .inside routine caller accesses rest) :
    activity.Retiring map idle task history :=
  fun routine caller accesses rest inside =>
    absurd inside (h routine caller accesses rest)

theorem SameCleanup.spared (same : SameCleanup history.state after.state)
    (live : ∀ task, task ∈ history.live → task ∈ after.live)
    (task : TaskRef) : Spared history after task := by
  intro hlive
  rw [same.links]
  exact ⟨live task hlive, fun h => h⟩

end

section

variable {map : CodeMap} {base : TaskRef → Nat} {launch idle : TaskRef}
  {machine after : Machine}

theorem Kept.transfer (kept : Kept map base idle machine)
    (idleTask : after.history.state.idleTask = some idle)
    (accounted : ∃ layout reaped,
      Accounted base after.history layout reaped)
    (suspended : after.suspended = machine.suspended)
    (spared : ∀ task, Spared machine.history after.history task) :
    Kept map base idle after := by
  refine ⟨idleTask, accounted, ?_⟩
  rw [suspended]
  intro task suspension hsuspended
  exact (kept.suspended task suspension hsuspended).keep (spared task)

theorem Kept.same (kept : Kept map base idle machine)
    (history : after.history = machine.history)
    (suspended : after.suspended = machine.suspended) :
    Kept map base idle after := by
  refine ⟨?_, ?_, ?_⟩
  · rw [history]
    exact kept.idleTask
  · rw [history]
    exact kept.accounted
  · rw [history, suspended]
    exact kept.suspended

theorem Kept.settled_of_own (kept : Kept map base idle machine)
    (own : machine.running.activity = .own) :
    Settled map base idle machine := by
  refine ⟨kept, fun task _ => retiring_of_outside ?_, ?_⟩
  · rw [own]
    exact nofun
  · rw [own]
    exact nofun

theorem Kept.suspend (kept : Kept map base idle machine) {history : History}
    (idleTask : history.state.idleTask = some idle)
    (accounted : ∃ layout reaped, Accounted base history layout reaped)
    {previous : TaskRef}
    (spared : ∀ task, task ≠ previous → Spared machine.history history task)
    (caller : Registers) :
    Kept map base idle ((machine.withHistory history).suspend previous
      (machine.switchedOut map caller)) := by
  refine ⟨idleTask, accounted, ?_⟩
  intro task suspension hsuspended
  by_cases heq : task = previous
  · rw [heq, Machine.suspend_self] at hsuspended
    obtain rfl := Option.some.inj hsuspended
    refine retiring_of_outside ?_
    show ∀ routine caller accesses rest,
      machine.running.activity.left ≠ .inside routine caller accesses rest
    cases machine.running.activity <;> exact nofun
  · rw [Machine.suspend_of_ne _ _ heq] at hsuspended
    exact (kept.suspended task suspension hsuspended).keep (spared task heq)

theorem Kept.dispatch (kept : Kept map base idle machine) {next : TaskRef}
    (current : machine.history.state.currentTask = some next)
    (registers resumed : Registers) :
    Settled map base idle (machine.dispatch next registers resumed) := by
  have hhistory : (machine.dispatch next registers resumed).history =
      machine.history := Machine.dispatch_history ..
  refine ⟨kept.same hhistory (Machine.dispatch_suspended ..), ?_, ?_⟩
  · rw [hhistory, current]
    rintro _ ⟨⟩
    rcases machine.dispatch_cases next registers resumed with
      ⟨_, hrunning⟩ | ⟨suspension, hsome, hrunning⟩
    · rw [hrunning]
      exact retiring_of_outside nofun
    · rw [hrunning]
      exact kept.suspended next suspension hsome
  · rw [hhistory, current]
    exact nofun

theorem Settled.arrive (settled : Settled map base idle machine) :
    Settled map base idle (machine.arrive map) := by
  refine ⟨settled.toKept.same (Machine.arrive_history ..)
    (Machine.arrive_suspended ..), ?_, ?_⟩
  · rw [Machine.arrive_history, Machine.arrive_activity]
    exact settled.current
  · rw [Machine.arrive_history, Machine.arrive_activity]
    exact settled.starting

end

end Planetoid.Task
