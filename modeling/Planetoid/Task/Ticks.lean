import Planetoid.Task.RingInvariant

namespace Planetoid.Task

open Planetoid Program Links Arch

/-! Runs in which the time goes on. A timer interrupt is one count of the tick
counter, one `update_sleeping_tasks` and one `preempt`. -/

inductive TimedEvent where
  | scheduler (operation : Operation)
  | tick

namespace TimedEvent

def program (event : TimedEvent) (entry : Entry) (budget : Nat) : Sched Unit :=
  match event with
  | .scheduler operation => operation.program entry budget
  | .tick => Timer.onInterrupt

def Issued (history : History) : TimedEvent → Prop
  | .scheduler operation => operation.Issued history
  | .tick => True

def AddsFresh (history : History) : TimedEvent → Prop
  | .scheduler operation => operation.AddsFresh history
  | .tick => True

def record (history : History) (after : State) : TimedEvent → History
  | .scheduler operation => operation.record history after
  | .tick => { history with state := after }

end TimedEvent

/-- The runs of the scheduler after a successful `init`, with the timer. -/
def timedRuns : System History TimedEvent where
  initial history := runs.initial history ∧
    history.state.systemTicks < Timer.ticksModulus
  step history event next := event.Issued history ∧
    ∃ entry budget after, (event.program entry budget).run history.state =
      .ok ((), after) ∧ next = event.record history after

namespace State

def ticked (state : State) : State :=
  { state with systemTicks := (state.systemTicks + 1) % Timer.ticksModulus }

@[simp] theorem ticked_currentTask (state : State) :
    state.ticked.currentTask = state.currentTask := rfl
@[simp] theorem ticked_idleTask (state : State) :
    state.ticked.idleTask = state.idleTask := rfl
@[simp] theorem ticked_systemTicks (state : State) :
    state.ticked.systemTicks =
      (state.systemTicks + 1) % Timer.ticksModulus := rfl

end State

theorem run_onInterrupt (state : State) :
    Timer.onInterrupt.run state = .ok ((), state.ticked) := rfl

theorem WellFormed.ticked {state : State} {layout : Layout}
    (wellFormed : WellFormed state layout) :
    WellFormed state.ticked layout where
  ring := wellFormed.ring
  ring_nodup := wellFormed.ring_nodup
  pending := wellFormed.pending
  pending_ring := wellFormed.pending_ring
  waiting := wellFormed.waiting
  waiting_unique := wellFormed.waiting_unique
  waiting_ring := wellFormed.waiting_ring
  blocked_iff := wellFormed.blocked_iff
  idle := wellFormed.idle
  valid_ring := wellFormed.valid_ring
  valid_pending := wellFormed.valid_pending
  running_iff := wellFormed.running_iff
  current := wellFormed.current
  unstarted := wellFormed.unstarted

theorem Consistent.ticked {history : History} {layout : Layout}
    (consistent : Consistent history layout) :
    Consistent { history with state := history.state.ticked } layout where
  wellFormed := consistent.wellFormed.ticked
  live_iff := consistent.live_iff
  live_nodup := consistent.live_nodup
  waiting := consistent.waiting
  pending := consistent.pending
  freed := consistent.freed
  started := consistent.started
  unstarted := consistent.unstarted

section

variable {history : History} {layout : Layout}

theorem event_returns (consistent : Consistent history layout)
    {event : TimedEvent}
    (issued : event.Issued history) (fresh : event.AddsFresh history)
    (entry : Entry) :
    ∃ need after, Returns .budgetExhausted (event.program entry)
      history.state need ((), after) := by
  cases event with
  | scheduler operation =>
      obtain ⟨need, after, _, returns, _⟩ :=
        operation_advances consistent issued fresh entry
      exact ⟨need, after, returns⟩
  | tick => exact ⟨0, _, returns_of_run (run_onInterrupt _) 0⟩

/-- The step of an event leads from one state with the invariant to
another. -/
theorem event_consistent (consistent : Consistent history layout)
    {event : TimedEvent} (issued : event.Issued history)
    (fresh : event.AddsFresh history) {entry : Entry} {budget : Nat}
    {after : State} (ended : (event.program entry budget).run history.state =
      .ok ((), after)) :
    ∃ next, Consistent (event.record history after) next := by
  cases event with
  | scheduler operation =>
      obtain ⟨next, hnext, _⟩ := operation_effect consistent issued fresh ended
      exact ⟨next, hnext⟩
  | tick =>
      cases (run_onInterrupt history.state).symm.trans ended
      exact ⟨layout, consistent.ticked⟩

end

theorem timed_consistent {history : History}
    (reachable : timedRuns.Reachable (fun history event =>
      event.AddsFresh history) history) :
    (∃ layout, Consistent history layout) ∧
      history.state.systemTicks < Timer.ticksModulus := by
  refine @System.Reachable.holds _ _ _ _ (fun history : History =>
    (∃ layout, Consistent history layout) ∧
      history.state.systemTicks < Timer.ticksModulus) _ reachable ?_ ?_
  · intro history initial
    exact ⟨⟨_, initial_consistent initial.1⟩, initial.2⟩
  · intro before event after invariant fresh transition
    obtain ⟨⟨layout, consistent⟩, bounded⟩ := invariant
    obtain ⟨issued, entry, budget, state, ended, hafter⟩ := transition
    rw [hafter]
    refine ⟨event_consistent consistent issued fresh ended, ?_⟩
    cases event with
    | scheduler operation =>
        obtain ⟨_, _, _, same⟩ := operation_effect consistent issued fresh
          ended
        change (operation.record before state).state.systemTicks < _
        rw [operation.record_state, same.systemTicks]
        exact bounded
    | tick =>
        cases (run_onInterrupt before.state).symm.trans ended
        exact Nat.mod_lt _ (by decide)

/-! The timer interrupt as a whole. -/

namespace Scheduler

variable {state : State} {layout : Layout}

theorem wakes_returns (wellFormed : WellFormed state layout) :
    Returns .budgetExhausted
      (fun budget => Timer.onInterrupt >>= fun _ => updateSleepingTasks budget)
      state layout.ring.length
      ((), wakeSleepers state.ticked layout.ring) := by
  have ticked := wellFormed.ticked
  exact (updateSleepingTasks_returns ticked.ring ticked.ring_nodup
    ticked.valid_ring).of_run_eq fun _ => rfl

def interruptEffect (state : State) (layout : Layout)
    (context : ExceptionContext) : ExceptionContext × State :=
  preemptEffect (wakeSleepers state.ticked layout.ring) layout context

theorem onTimerInterrupt_returns (wellFormed : WellFormed state layout)
    (context : ExceptionContext) :
    Returns .budgetExhausted (fun budget => onTimerInterrupt budget context)
      state layout.ring.length (interruptEffect state layout context) := by
  have awakened := wakeSleepers_wellFormed wellFormed.ticked
  exact (wakes_returns wellFormed).bind (preempt_returns awakened context)

end Scheduler

theorem Consistent.interrupted {history : History} {layout : Layout}
    (consistent : Consistent history layout) (context : ExceptionContext) :
    ∃ next, next.ring = layout.ring ∧ Consistent { history with
      state := (Scheduler.interruptEffect history.state layout context).2 }
        next :=
  ⟨_, Scheduler.preemptLayout_ring .., consistent.ticked.awakened.preempted
    context⟩

/-! One task, one tick after the start. -/

theorem timed_perform {guard : History → TimedEvent → Prop} {history : History}
    {operation : Operation} (reachable : timedRuns.Reachable guard history)
    (meets : guard history (.scheduler operation))
    (issued : operation.Issued history) {after : State}
    (ended : (operation.program bootEntry 4).run history.state =
      .ok ((), after)) :
    timedRuns.Reachable guard (history.perform operation) := by
  refine .step reachable meets ⟨issued, bootEntry, 4, after, ended, ?_⟩
  unfold History.perform
  rw [ended]
  rfl

def oneTick : History :=
  let started := (bootHistory.perform (.addTask 2)).perform .start
  { started with state := started.state.ticked }

theorem oneTick_reachable :
    timedRuns.Reachable (fun history event => event.AddsFresh history)
      oneTick := by
  have added : timedRuns.Reachable
      (fun history event => event.AddsFresh history)
      (bootHistory.perform (.addTask 2)) :=
    timed_perform (.initial ⟨bootHistory_initial, by decide⟩)
      ⟨List.not_mem_nil, by decide⟩ (List.not_mem_nil : 2 ∉ []) rfl
  have started := @timed_perform _ _ .start added trivial
    (rfl : (bootHistory.perform (.addTask 2)).started = false) _ rfl
  exact @System.Reachable.step _ _ _ _ _ _ .tick started trivial
    ⟨trivial, bootEntry, 0, _, run_onInterrupt _, rfl⟩

end Planetoid.Task
