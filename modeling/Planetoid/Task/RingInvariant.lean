import Planetoid.Task.Progress

namespace Planetoid.Task

open Planetoid Program Links Arch

/-! The ring, the current task and the cleanup list in every state of a run. -/

structure RingInvariant (history : History) : Prop where
  /-- Following `next_task` from `task_list` visits the added and not yet
  terminated tasks, each once, and returns to `task_list`. -/
  ring : ∃ tasks, Ring (nextOf history.state) history.state.taskList tasks ∧
    tasks.Nodup ∧ ∀ task, task ∈ tasks ↔ task ∈ history.live
  idle : ∀ idle, history.state.idleTask = some idle → idle ∉ history.live
  current : history.started = true →
    ∃ task, history.state.currentTask = some task ∧
      (history.state.idleTask = some task ∨ task ∈ history.live)
  running : ∀ task, task ∈ history.live →
    (stateOf history.state task = .running ↔
      history.state.currentTask = some task)
  pending : ∃ tasks, Queue (cleanupOf history.state)
      history.state.pendingCleanupHead history.state.pendingCleanupTail tasks ∧
    tasks.Nodup ∧ ∀ task, task ∈ tasks → task ∉ history.live

theorem Consistent.ringInvariant {history : History} {layout : Layout}
    (consistent : Consistent history layout) : RingInvariant history where
  ring := ⟨layout.ring, consistent.wellFormed.ring,
    consistent.wellFormed.ring_nodup, consistent.live_iff⟩
  idle := by
    intro idle hidle hlive
    obtain ⟨other, hother, hfresh, _⟩ := consistent.wellFormed.idle
    cases hidle.symm.trans hother
    exact hfresh ((consistent.live_iff idle).mpr hlive)
  current := by
    intro hstarted
    obtain ⟨task, hcurrent⟩ := consistent.started hstarted
    refine ⟨task, hcurrent, ?_⟩
    rcases consistent.wellFormed.current task hcurrent with hring | hidle
    · exact .inr ((consistent.live_iff task).mp hring)
    · exact .inl hidle
  running := fun task hlive => consistent.wellFormed.running_iff task
    ((consistent.live_iff task).mpr hlive)
  pending := ⟨layout.pending, consistent.wellFormed.pending,
    consistent.wellFormed.pending.linked.nodup, fun task hmem hlive =>
      consistent.wellFormed.pending_ring task hmem
        ((consistent.live_iff task).mpr hlive)⟩

/-- In every run whose `add_task` calls are given tasks that were not
terminated before and are not the idle task, the invariant holds in every
state, and every operation returns. -/
theorem ringInvariant_of_addsFresh {history : History}
    (reachable : runs.Reachable (fun history operation =>
      operation.AddsFresh history) history) :
    RingInvariant history ∧
      ∀ (operation : Operation) (entry : Entry), operation.Issued history →
        operation.AddsFresh history →
        ∃ need, ∀ budget, need < budget →
          ∃ after, (operation.program entry budget).run history.state =
            .ok ((), after) := by
  obtain ⟨layout, consistent⟩ := reachable_consistent reachable
  refine ⟨consistent.ringInvariant, ?_⟩
  intro operation entry issued fresh
  obtain ⟨need, after, _, returns, _, _⟩ :=
    operation_advances consistent issued fresh entry
  exact ⟨need, fun budget hbudget => ⟨after, returns.run_eq hbudget⟩⟩

/-! A run on concrete tasks. -/

def blankTask : TaskState where
  cpuContext := { x := fun _ => 0, sp := ⟨0, 0⟩, pc := 0, pstate := ⟨0, 0⟩ }
  stackBase := 0
  stackSize := 4096
  state := .ready
  wakeTick := 0
  nextTask := none
  waitNext := none
  cleanupNext := none

def bootState : State where
  currentTask := none
  taskList := none
  pendingCleanupHead := none
  pendingCleanupTail := none
  launchContext := none
  idleTask := none
  tasks := fun task => { blankTask with stackBase := task }
  queues := fun _ => { head := none, tail := none }
  locked := fun _ => false
  systemTicks := 0
  daif := 0
  kfreed := []

/-- The start of a run with launch context 0 and idle task 1. -/
def bootHistory : History where
  state := Scheduler.initEffect bootState 0 1
  live := []
  terminated := []
  waiting := fun _ => []
  started := false

theorem bootHistory_initial : runs.initial bootHistory :=
  ⟨bootState, 0, 1, rfl, fun _ => rfl,
    Scheduler.run_init (by simp [State.Valid, bootState])
      (by simp [State.Valid, bootState]), rfl, rfl, fun _ => rfl, rfl⟩

def bootEntry : Entry where
  registers := { x := fun _ => 0, sp := ⟨0, 0⟩, pc := 0, nzcv := 0 }
  resume := 0

def blankFrame : ExceptionContext where
  x := fun _ => 0
  elr := 0
  esr := 0
  far := 0
  spsr := ⟨0, 0⟩
  sp := ⟨0, 0⟩

def History.perform (history : History) (operation : Operation) : History :=
  match (operation.program bootEntry 4).run history.state with
  | .ok (_, after) => operation.record history after
  | .error _ => history

theorem reachable_perform {guard : History → Operation → Prop}
    {history : History} {operation : Operation}
    (reachable : runs.Reachable guard history)
    (meets : guard history operation) (issued : operation.Issued history)
    {after : State}
    (ended : (operation.program bootEntry 4).run history.state =
      .ok ((), after)) :
    runs.Reachable guard (history.perform operation) := by
  refine .step reachable meets ⟨issued, bootEntry, 4, after, ended, ?_⟩
  unfold History.perform
  rw [ended]

def oneTerminated : History :=
  (((bootHistory.perform (.addTask 2)).perform (.addTask 3)).perform
    .start).perform .terminateCurrent

theorem oneTerminated_reachable :
    runs.Reachable (fun history operation => operation.AddsFresh history)
      oneTerminated := by
  have first : runs.Reachable
      (fun history operation => operation.AddsFresh history)
      (bootHistory.perform (.addTask 2)) :=
    reachable_perform (.initial bootHistory_initial)
      ⟨List.not_mem_nil, by decide⟩ (List.not_mem_nil : 2 ∉ []) rfl
  have second : runs.Reachable
      (fun history operation => operation.AddsFresh history)
      ((bootHistory.perform (.addTask 2)).perform (.addTask 3)) :=
    reachable_perform first ⟨List.not_mem_nil, by decide⟩
      (by decide : 3 ∉ [2]) rfl
  have third : runs.Reachable
      (fun history operation => operation.AddsFresh history)
      (((bootHistory.perform (.addTask 2)).perform (.addTask 3)).perform
        .start) :=
    reachable_perform second trivial (rfl : false = false) rfl
  exact reachable_perform third trivial ⟨2, rfl, (by decide : 2 ∈ [3, 2])⟩ rfl

theorem ringInvariant_oneTerminated : RingInvariant oneTerminated :=
  (ringInvariant_of_addsFresh oneTerminated_reachable).1

/-- The terminated task is not in the ring, so `add_task` may be given it; it
is still on the cleanup list. -/
theorem ringInvariant_fails_for_terminated_task :
    ∃ history, runs.Reachable System.unguarded history ∧
      ¬ RingInvariant history := by
  refine ⟨oneTerminated.perform (.addTask 2), reachable_perform
    (oneTerminated_reachable.weaken fun _ _ _ => trivial) trivial
    (by decide : 2 ∉ [3]) rfl, ?_⟩
  intro invariant
  obtain ⟨tasks, queue, _, disjoint⟩ := invariant.pending
  have hhead : some 2 = tasks.head? := queue.head_eq
  have hlive : 2 ∈ (oneTerminated.perform (.addTask 2)).live :=
    (by decide : 2 ∈ [2, 3])
  exact disjoint 2 (List.mem_of_head? hhead.symm) hlive

end Planetoid.Task
