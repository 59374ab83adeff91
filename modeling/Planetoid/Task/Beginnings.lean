import Planetoid.Task.ThreadRuns
import Planetoid.Task.Execution

namespace Planetoid.Task

open Planetoid Program Arch

/-! The first instruction of every task. -/

namespace Machine

/-- A task that `add_task` may be given: neither the idle task nor the context
that `kernel_main` leaves in `start`. -/
structure Ordinary (machine : Machine) (task : TaskRef) : Prop where
  idle : machine.history.state.idleTask ≠ some task
  launch : machine.history.state.launchContext ≠ some task

/-- Every task begins in its trampoline, with its own entry point in `x19` and
on its own stack, once and before it executes anything else. What `kernel_main`
was doing is saved in no context of a task. -/
structure TasksBegin (map : CodeMap) (machine : Machine) : Prop where
  starts : ∀ task registers, machine.Ordinary task →
    (some task, registers) ∈ machine.begun →
      Starts map machine.history.state task registers
  once : ∀ task, machine.Ordinary task → machine.beginnings task ≤ 1
  begun : ∀ task, machine.Ordinary task →
    machine.running.thread = some task → machine.running.fresh = false →
      machine.beginnings task = 1
  boot : ∀ task suspension, machine.suspended task = some suspension →
    suspension.execution.thread = none →
      machine.history.state.launchContext = some task
  intact : ∀ task, machine.Ordinary task →
    machine.running.thread ≠ some task → machine.suspended task = none →
      Created map machine.history.state task

end Machine

section

variable {map : CodeMap} {launch idle : TaskRef} {machine : Machine}

/-- The beginnings do not depend on the context that `task_switch` is writing.
-/
theorem Steady.tasksBegin {before : State}
    (steady : Steady map launch idle (machine.withState before))
    (hlaunch : machine.history.state.launchContext = before.launchContext)
    (hidle : machine.history.state.idleTask = before.idleTask)
    (stackOf : ∀ task, (machine.history.state.tasks task).stackBase =
      (before.tasks task).stackBase ∧
        (machine.history.state.tasks task).stackSize =
          (before.tasks task).stackSize)
    (contexts : ∀ task, owner launch task ≠ machine.running.thread →
      (machine.history.state.tasks task).cpuContext =
        (before.tasks task).cpuContext) : machine.TasksBegin map := by
  have ordinary : ∀ task, machine.Ordinary task →
      task ≠ launch ∧ task ≠ idle := by
    intro task hordinary
    refine ⟨?_, ?_⟩
    · rintro rfl
      exact hordinary.launch (hlaunch.trans steady.launchContext)
    · rintro rfl
      exact hordinary.idle (hidle.trans steady.idleTask)
  have parked : ∀ task, machine.Ordinary task →
      machine.running.thread ≠ some task →
        owner launch task ≠ machine.running.thread ∧
          Held map launch idle (machine.withState before) task := by
    intro task hordinary hthread
    obtain ⟨hne, htask⟩ := ordinary task hordinary
    have howner : owner launch task ≠ machine.running.thread := by
      rw [owner_of_ne hne]
      exact hthread.symm
    exact ⟨howner, steady.held task htask howner⟩
  refine ⟨?_, ?_, ?_, ?_, ?_⟩
  · intro task registers hordinary hmem
    obtain ⟨_, htask⟩ := ordinary task hordinary
    exact (steady.begun task registers htask hmem).same (stackOf task).1
      (stackOf task).2
  · intro task hordinary
    obtain ⟨hne, htask⟩ := ordinary task hordinary
    have small : ∀ fresh : Bool, (if fresh then 0 else 1) ≤ 1 := by decide
    by_cases hthread : machine.running.thread = some task
    · have hcount := (steady.begins task htask hthread).count
      exact hcount ▸ small _
    · have held := (parked task hordinary hthread).2
      cases hsuspended : machine.suspended task with
      | none =>
          have hcount := (held.unstarted hsuspended).2.2
          exact Nat.le_trans (Nat.le_of_eq hcount) (Nat.zero_le 1)
      | some suspension =>
          have hcount := (held.begins suspension hsuspended hne).count
          exact Nat.le_trans (Nat.le_of_eq hcount) (small _)
  · intro task hordinary hthread hfresh
    obtain ⟨_, htask⟩ := ordinary task hordinary
    have hcount := (steady.begins task htask hthread).count
    have hbegun : (machine.withState before).running.fresh = false := hfresh
    rw [hbegun] at hcount
    exact hcount
  · intro task suspension hsuspended hboot
    have howned := steady.owned task suspension hsuspended
    rw [hboot] at howned
    have heq : launch = task :=
      owner_inj ((owner_launch launch).trans howned)
    rw [hlaunch, ← heq]
    exact steady.launchContext
  · intro task hordinary hthread hsuspended
    obtain ⟨howner, held⟩ := parked task hordinary hthread
    have created := (held.unstarted hsuspended).2.1
    unfold Machine.Created
    rw [contexts task howner, (stackOf task).1, (stackOf task).2]
    exact created

theorem Sound.tasksBegin (sound : Sound map launch idle machine) :
    machine.TasksBegin map := by
  cases sound with
  | steady steady prepares =>
      exact @Steady.tasksBegin map launch idle machine machine.history.state
        steady rfl rfl (fun _ => ⟨rfl, rfl⟩) fun _ _ => rfl
  | switching before _ _ _ _ steady _ _ _ _ _ _ switching =>
      refine steady.tasksBegin switching.launch switching.idle
        switching.stackOf fun task howner => switching.contexts task ?_
      rintro rfl
      exact howner steady.thread.symm

end

/-- In every run that takes no interrupt while `start` or `terminate_current`
is on its way to the next task, and in which `task_switch` goes to no task that
an interrupt suspended before its first instruction or inside
`terminate_current`, every task begins once and in its own trampoline. -/
theorem tasksBegin_of_reachable {map : CodeMap} {machine : Machine}
    (reachable : (machines map).Reachable KeepsThreads machine) :
    machine.TasksBegin map := by
  have sound : ∃ launch idle, Sound map launch idle machine :=
    reachable.holds (fun _ initial => initial.sound)
      fun _ _ _ ⟨launch, idle, sound⟩ meets step =>
        ⟨launch, idle, sound.step meets step⟩
  obtain ⟨launch, idle, sound⟩ := sound
  exact sound.tasksBegin

def Machine.switchedOutLast (machine : Machine) (next : TaskRef) : Bool :=
  match machine.suspended next with
  | none => true
  | some suspension => !suspension.interrupted

/-- The interrupts come outside `start` and `terminate_current`, and
`task_switch` goes to no task that one suspended. -/
def Machine.switchesApart (machine : Machine) : Event → Bool
  | .interrupt => decide (machine.running.activity = .own)
  | .serve (some next) | .access (some next) => machine.switchedOutLast next
  | _ => true

theorem Machine.not_interrupted_of_switchedOutLast {machine : Machine}
    {next : TaskRef} (h : machine.switchedOutLast next = true)
    {suspension : Suspension}
    (hsuspended : machine.suspended next = some suspension) :
    suspension.interrupted = false := by
  unfold Machine.switchedOutLast at h
  rw [hsuspended] at h
  exact Bool.not_eq_true' _ |>.mp h

theorem keepsRegisters_of_apart {machine : Machine} {event : Event}
    (h : machine.switchesApart event = true) :
    KeepsRegisters machine event := by
  cases event with
  | interrupt =>
      have own : machine.running.activity = .own := of_decide_eq_true h
      show ¬ machine.running.activity.Published
      rw [own]
      exact id
  | serve next =>
      cases next with
      | none => trivial
      | some next =>
          exact fun _ => Machine.not_interrupted_of_switchedOutLast h
  | access next =>
      cases next with
      | none => trivial
      | some next =>
          exact fun _ => Machine.not_interrupted_of_switchedOutLast h
  | _ => trivial

/-- `start` runs the first of two tasks, which an interrupt preempts. -/
def preemptedStart : List Event :=
  [.add 2, .add 3] ++ startEvents 2 ++ [.interrupt, .interrupt]

theorem tasksBegin_preemptedStart :
    ∃ machine, smallMachine.runEvents Machine.switchesApart smallMap 4
        preemptedStart = some machine ∧
      machine.begun.map Prod.fst = [some 3, some 2] ∧
        machine.TasksBegin smallMap := by
  obtain ⟨machine, hrun, hbegun⟩ := Option.map_eq_some_iff.mp
    (by decide +kernel : (smallMachine.runEvents Machine.switchesApart
      smallMap 4 preemptedStart).map (·.begun.map Prod.fst) =
        some [some 3, some 2])
  have reachable : (machines smallMap).Reachable KeepsThreads machine :=
    Machine.reachable_runEvents
      (fun _ _ h => (keepsRegisters_of_apart h).keepsThreads)
      (.initial smallMachine_initial) hrun
  exact ⟨machine, hrun, hbegun, tasksBegin_of_reachable reachable⟩

def interruptedStart : List Event :=
  [.add 2, .add 3, .enter .start] ++ List.replicate 4 (.access none) ++
    [.interrupt]

theorem tasksBegin_fails_for_interrupted_start :
    ∃ machine, (machines smallMap).Reachable System.unguarded machine ∧
      ¬ machine.TasksBegin smallMap := by
  obtain ⟨machine, hrun, hsaved⟩ := Option.map_eq_some_iff.mp
    (by decide +kernel : (smallMachine.runEvents (fun _ _ => true) smallMap 4
      interruptedStart).map (fun machine => (machine.history.state.launchContext,
        (machine.suspended 2).map (·.execution.thread))) =
          some (some 0, some none))
  refine ⟨machine, Machine.reachable_runEvents (fun _ _ _ => trivial)
    (.initial smallMachine_initial) hrun, ?_⟩
  intro begin
  obtain ⟨hlaunch, hthread⟩ := Prod.mk.inj hsaved
  obtain ⟨suspension, hsuspended, hboot⟩ :=
    Option.map_eq_some_iff.mp hthread
  have hsame := begin.boot 2 suspension hsuspended hboot
  rw [hlaunch] at hsame
  exact absurd hsame (by decide)

end Planetoid.Task
