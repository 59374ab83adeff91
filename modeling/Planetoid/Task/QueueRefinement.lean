import Planetoid.Task.RingInvariant

namespace Planetoid.Task

open Planetoid Program Links Arch

/-! The wait queues in every state of a run are the lists of the tasks that
blocked on them and were not woken yet. -/

structure QueueRefinement (history : History) : Prop where
  /-- Following `wait_next` from `head` visits the waiting tasks in the order in
  which they blocked and ends at `tail`, with a null link. -/
  fifo : ∀ queue, Queue (waitOf history.state)
    (history.state.queues queue).head (history.state.queues queue).tail
    (history.waiting queue)
  nodup : ∀ queue, (history.waiting queue).Nodup
  unique : ∀ first second task, task ∈ history.waiting first →
    task ∈ history.waiting second → first = second
  blocked : ∀ task, task ∈ history.live →
    (stateOf history.state task = .blocked ↔
      ∃ queue, task ∈ history.waiting queue)

/-- `wake_all` returns; the queue is empty and its tasks are Ready. -/
def WakesAll (history : History) (queue : QueueRef) : Prop :=
  ∃ need after, (∀ budget, need < budget →
      (WaitQueue.wakeAll budget (some queue)).run history.state =
        .ok ((), after)) ∧
    after.queues queue = { head := none, tail := none } ∧
    ∀ task, task ∈ history.waiting queue → stateOf after task = .ready

theorem Consistent.queueRefinement {history : History} {layout : Layout}
    (consistent : Consistent history layout) : QueueRefinement history where
  fifo := by
    rw [← consistent.waiting]
    exact consistent.wellFormed.waiting
  nodup := by
    intro queue
    rw [← consistent.waiting]
    exact (consistent.wellFormed.waiting queue).linked.nodup
  unique := by
    rw [← consistent.waiting]
    exact consistent.wellFormed.waiting_unique
  blocked := by
    intro task hlive
    rw [← consistent.waiting]
    exact consistent.wellFormed.blocked_iff task
      ((consistent.live_iff task).mpr hlive)

namespace WaitQueue

theorem stateOf_wakeAllEffect {state : State} {queue : QueueRef}
    {tasks : List TaskRef} {task : TaskRef}
    (h : task ∈ tasks ∨ stateOf state task = .ready) :
    stateOf (wakeAllEffect state queue tasks) task = .ready := by
  induction tasks generalizing state with
  | nil =>
      rcases h with hmem | hready
      · cases hmem
      · exact hready
  | cons first rest ih =>
      apply ih
      rw [stateOf_wake]
      by_cases heq : task = first
      · exact .inr (if_pos heq)
      · rw [if_neg heq]
        rcases h with hmem | hready
        · exact .inl ((List.mem_cons.mp hmem).resolve_left heq)
        · exact .inr hready

end WaitQueue

theorem Consistent.wakesAll {history : History} {layout : Layout}
    (consistent : Consistent history layout) (queue : QueueRef) :
    WakesAll history queue := by
  have hwaiting : layout.waiting queue = history.waiting queue := by
    rw [consistent.waiting]
  obtain ⟨returns, wellFormed⟩ :=
    WaitQueue.wakeAll_returns consistent.wellFormed hwaiting
  have hempty := wellFormed.waiting queue
  rw [Layout.withWaiting_self] at hempty
  refine ⟨_, _, fun budget hbudget => returns.run_eq hbudget, ?_, ?_⟩
  · have hhead := hempty.linked
    have htail := hempty.tail_eq
    change _ = none at hhead
    rw [List.getLast?_nil] at htail
    revert hhead htail
    generalize (WaitQueue.wakeAllEffect history.state queue
      (history.waiting queue)).queues queue = fields
    intro hhead htail
    cases fields
    cases hhead
    cases htail
    rfl
  · intro task hmem
    exact WaitQueue.stateOf_wakeAllEffect (.inl hmem)

/-- In every run whose `add_task` calls are given tasks that were not
terminated before and are not the idle task, every queue is the list of its
waiting tasks, and `wake_all` empties it. -/
theorem queueRefinement_of_addsFresh {history : History}
    (reachable : runs.Reachable (fun history operation =>
      operation.AddsFresh history) history) :
    QueueRefinement history ∧ ∀ queue, WakesAll history queue := by
  obtain ⟨layout, consistent⟩ := reachable_consistent reachable
  exact ⟨consistent.queueRefinement, consistent.wakesAll⟩

def oneBlocked : History :=
  (((bootHistory.perform (.addTask 2)).perform (.addTask 3)).perform
    .start).perform (.blockCurrent 0)

theorem queueRefinement_oneBlocked :
    QueueRefinement oneBlocked ∧ ∀ queue, WakesAll oneBlocked queue := by
  have first : runs.Reachable
      (fun history operation => operation.AddsFresh history)
      (bootHistory.perform (.addTask 2)) :=
    reachable_perform (.initial bootHistory_initial)
      ⟨List.not_mem_nil, by decide⟩ (List.not_mem_nil : 2 ∉ []) rfl
  have second : runs.Reachable
      (fun history operation => operation.AddsFresh history)
      ((bootHistory.perform (.addTask 2)).perform (.addTask 3)) :=
    reachable_perform first ⟨List.not_mem_nil, by decide⟩
      (by decide : 3 ∉ [2]) rfl
  have third : runs.Reachable
      (fun history operation => operation.AddsFresh history)
      (((bootHistory.perform (.addTask 2)).perform (.addTask 3)).perform
        .start) :=
    reachable_perform second trivial (rfl : false = false) rfl
  have fourth : runs.Reachable
      (fun history operation => operation.AddsFresh history) oneBlocked :=
    reachable_perform third trivial ⟨2, rfl, (by decide : 2 ∈ [3, 2])⟩ rfl
  exact queueRefinement_of_addsFresh fourth

def idleBlocked : History :=
  ((bootHistory.perform (.addTask 1)).perform .start).perform
    (.blockCurrent 0)

/-- The idle task takes over from itself: it is Running in the queue. -/
theorem queueRefinement_fails_for_idle_task :
    ∃ history, runs.Reachable System.unguarded history ∧
      ¬ QueueRefinement history := by
  have first : runs.Reachable System.unguarded
      (bootHistory.perform (.addTask 1)) :=
    reachable_perform (.initial bootHistory_initial) trivial
      (List.not_mem_nil : 1 ∉ []) rfl
  have second : runs.Reachable System.unguarded
      ((bootHistory.perform (.addTask 1)).perform .start) :=
    reachable_perform first trivial (rfl : false = false) rfl
  have third : runs.Reachable System.unguarded idleBlocked :=
    reachable_perform second trivial ⟨1, rfl, (by decide : 1 ∈ [1])⟩ rfl
  refine ⟨idleBlocked, third, ?_⟩
  intro refinement
  have hblocked := (refinement.blocked 1 (by decide : 1 ∈ [1])).mpr
    ⟨0, (by decide : 1 ∈ [1])⟩
  cases (show EState.running = EState.blocked from hblocked)

/-- Task 2 is added again after it terminated and blocks on a queue. -/
def terminatedBlocked : History :=
  ((((oneTerminated.perform (.addTask 2)).perform .yield).perform
    (.blockCurrent 0)).perform (.blockCurrent 1)).perform (.wakeOne 1)

theorem terminatedBlocked_reachable :
    runs.Reachable System.unguarded terminatedBlocked := by
  have first : runs.Reachable System.unguarded
      (oneTerminated.perform (.addTask 2)) :=
    reachable_perform (oneTerminated_reachable.weaken fun _ _ _ => trivial)
      trivial (by decide : 2 ∉ [3]) rfl
  have second := @reachable_perform _ _ .yield first trivial
    ⟨3, rfl, (by decide : 3 ∈ [2, 3])⟩ _ rfl
  have third := @reachable_perform _ _ (.blockCurrent 0) second trivial
    ⟨2, rfl, (by decide : 2 ∈ [2, 3])⟩ _ rfl
  have fourth := @reachable_perform _ _ (.blockCurrent 1) third trivial
    ⟨3, rfl, (by decide : 3 ∈ [2, 3])⟩ _ rfl
  exact @reachable_perform _ _ (.wakeOne 1) fourth trivial trivial _ rfl

/-- The interrupt frees task 2 in its queue. -/
theorem wakesAll_fails_for_terminated_task :
    ∃ history, runs.Reachable System.unguarded history ∧
      ¬ WakesAll history 0 := by
  have interrupted := @reachable_perform _ _ (.preempt blankFrame)
    terminatedBlocked_reachable trivial trivial _ rfl
  refine ⟨_, interrupted, ?_⟩
  rintro ⟨need, after, returns, _⟩
  have hfault : (WaitQueue.wakeAll (need + 1) (some 0)).run
      (terminatedBlocked.perform (.preempt blankFrame)).state =
        .error .useAfterFree := rfl
  rw [returns (need + 1) (Nat.lt_succ_self need)] at hfault
  cases hfault

end Planetoid.Task
