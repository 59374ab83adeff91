import Planetoid.Task.Ticks

namespace Planetoid.Task

open Planetoid Program Links Arch

/-! Which task a scheduling decision takes, and that none is left idle. -/

/-- A decision: the current task stays, a Ready task of the ring takes over
or, when there is none, the idle task. -/
inductive Choice (state : State) (ring : List TaskRef) :
    Option TaskRef → Prop
  | keep : Choice state ring state.currentTask
  | ready {next : TaskRef} (member : next ∈ ring)
      (ready : isReady state next = true) : Choice state ring (some next)
  | idle (starved : ∀ task, task ∈ ring → isReady state task = false) :
      Choice state ring state.idleTask

theorem WellFormed.current_not_ready {state : State} {layout : Layout}
    (wellFormed : WellFormed state layout) {current : TaskRef}
    (hcurrent : state.currentTask = some current)
    (member : current ∈ layout.ring) : isReady state current = false := by
  have hrunning : (state.tasks current).state = .running :=
    (wellFormed.running_iff current member).mpr hcurrent
  rw [isReady_eq_false, hrunning]
  simp

namespace Scheduler

variable {before state : State} {layout : Layout} {current idle : TaskRef}

theorem switchEffect_choice (wellFormed : WellFormed before layout)
    (hcurrent : before.currentTask = some current)
    (member : current ∈ layout.ring) (hidle : before.idleTask = some idle)
    (hothers : ∀ task, task ≠ current →
      stateOf state task = stateOf before task) :
    Choice before layout.ring
      (switchEffect state layout current idle).2.currentTask := by
  have hready : ∀ task, task ≠ current →
      isReady state task = isReady before task := by
    intro task hne
    unfold isReady
    rw [hothers task hne]
  rcases firstReady_rotation_cases wellFormed.ring_nodup member state with
    ⟨hsame, starved⟩ | ⟨next, hnext, hring, hne, ready⟩
  · simp only [switchEffect, hsame, if_true]
    change Choice before layout.ring (some idle)
    rw [← hidle]
    apply Choice.idle
    intro task htask
    by_cases heq : task = current
    · rw [heq]
      exact wellFormed.current_not_ready hcurrent member
    · rw [← hready task heq]
      exact starved task htask heq
  · simp only [switchEffect, hnext, if_neg hne]
    exact .ready hring (by rw [← hready next hne]; exact ready)

theorem yieldEffect_choice (nodup : layout.ring.Nodup)
    (member : current ∈ layout.ring) :
    Choice state layout.ring
      (yieldEffect state layout current).2.currentTask := by
  rcases firstReady_rotation_cases nodup member state with
    ⟨hsame, _⟩ | ⟨next, hnext, hring, hne, ready⟩
  · simp only [yieldEffect, hsame, if_true]
    exact .keep
  · simp only [yieldEffect, hnext, if_neg hne]
    exact .ready hring ready

theorem preemptTask_choice (nodup : layout.ring.Nodup)
    (hcurrent : state.currentTask = before.currentTask)
    (member : current ∈ layout.ring) (hstates : stateOf state = stateOf before)
    (context : ExceptionContext) :
    Choice before layout.ring
      (preemptTask state layout.ring current context).2.currentTask := by
  rcases firstReady_rotation_cases nodup member
    (paused state current context) with
    ⟨hsame, _⟩ | ⟨next, hnext, hring, hne, ready⟩
  · simp only [preemptTask, hsame, if_true]
    change Choice before layout.ring state.currentTask
    rw [hcurrent]
    exact .keep
  · simp only [preemptTask, hnext, if_neg hne]
    refine .ready hring ?_
    unfold isReady at ready ⊢
    rw [stateOf_paused, if_neg hne, hstates] at ready
    exact ready

theorem preemptEffect_choice (wellFormed : WellFormed state layout)
    (context : ExceptionContext) :
    Choice state layout.ring
      (preemptEffect state layout context).2.currentTask := by
  have same := cleanupEffect_same state layout.pending
  unfold preemptEffect
  split
  · exact .keep
  · rename_i current hcurrent
    simp only
    split
    · unfold preemptIdle
      split
      · rw [same.currentTask]
        exact .keep
      · rename_i next hfind
        refine .ready (List.mem_of_find?_eq_some hfind) ?_
        have ready := List.find?_some hfind
        unfold isReady at ready ⊢
        rw [same.states] at ready
        exact ready
    · rename_i hidle
      exact preemptTask_choice wellFormed.ring_nodup same.currentTask
        ((wellFormed.current current hcurrent).resolve_right hidle)
        same.states context

theorem terminateEffect_choice (wellFormed : WellFormed state layout)
    (hcurrent : state.currentTask = some current)
    (member : current ∈ layout.ring) (hidle : state.idleTask = some idle) :
    Choice state layout.ring
      (terminateEffect state layout current idle).2.currentTask := by
  have hready : isReady (retired state layout current) = isReady state := by
    funext task
    unfold isReady
    rw [retired_states]
  simp only [terminateEffect, hready]
  cases hfind : (layout.ring.erase current).find? (isReady state) with
  | none =>
      change Choice state layout.ring (some idle)
      rw [← hidle]
      apply Choice.idle
      intro task htask
      by_cases heq : task = current
      · rw [heq]
        exact wellFormed.current_not_ready hcurrent member
      · have hnone := List.find?_eq_none.mp hfind task
          ((List.mem_erase_of_ne heq).mpr htask)
        simpa using hnone
  | some next =>
      exact .ready (List.mem_of_mem_erase (List.mem_of_find?_eq_some hfind))
        (List.find?_some hfind)

theorem startEffect_choice (wellFormed : WellFormed state layout)
    (unstarted : state.currentTask = none) (launch : TaskRef)
    (hidle : state.idleTask = some idle) :
    Choice state layout.ring
      (startEffect state layout launch idle).2.currentTask := by
  change Choice state layout.ring (some (firstOf layout idle))
  unfold firstOf
  cases hhead : layout.ring.head? with
  | none =>
      rw [Option.getD_none, ← hidle]
      apply Choice.idle
      intro task htask
      rw [List.head?_eq_none_iff.mp hhead] at htask
      cases htask
  | some first =>
      have member := List.mem_of_head? hhead
      exact .ready member (wellFormed.unstarted unstarted first member)

end Scheduler

theorem Effect.choice {history : History} {layout : Layout} {entry : Entry}
    {operation : Operation} {ring : List TaskRef} {after : State}
    (effect : Effect history layout entry operation ring after)
    (wellFormed : WellFormed history.state layout) :
    Choice history.state layout.ring after.currentTask := by
  cases effect with
  | addTask _ =>
      rw [Scheduler.addTaskEffect_currentTask]
      exact .keep
  | start unstarted hidle =>
      rw [finishEffect_currentTask]
      exact Scheduler.startEffect_choice wellFormed unstarted _ hidle
  | yield _ member =>
      rw [finishEffect_currentTask]
      exact Scheduler.yieldEffect_choice wellFormed.ring_nodup member
  | preempt => exact Scheduler.preemptEffect_choice wellFormed _
  | rest => exact .keep
  | sleep hcurrent member hidle _ =>
      rw [finishEffect_currentTask]
      apply Scheduler.switchEffect_choice wellFormed hcurrent member hidle
      intro task hne
      rw [Scheduler.stateOf_asleep, if_neg hne]
  | updateSleepingTasks =>
      unfold Scheduler.wakeSleepers
      rw [(Scheduler.foldl_wakeSleeper_sameLinks ..).2]
      exact .keep
  | blockCurrent hcurrent member hidle =>
      rw [finishEffect_currentTask]
      apply Scheduler.switchEffect_choice wellFormed hcurrent member hidle
      intro task hne
      rw [WaitQueue.stateOf_join, if_neg hne]
  | wakeOne =>
      rw [(WaitQueue.wakeOneEffect_same ..).1.currentTask]
      exact .keep
  | wakeAll =>
      rw [(WaitQueue.wakeAllEffect_same ..).1.currentTask]
      exact .keep
  | terminateCurrent hcurrent member hidle terminated =>
      have choice := Scheduler.terminateEffect_choice wellFormed hcurrent member
        hidle
      rw [terminated] at choice
      rw [finishEffect_currentTask]
      exact choice

/-! The idle task gives way. -/

theorem WaitQueue.wakeOneEffect_ready {state : State} {task : TaskRef}
    (ready : isReady state task = true) (queue : QueueRef)
    (tasks : List TaskRef) :
    isReady (wakeOneEffect state queue tasks) task = true := by
  cases tasks with
  | nil => exact ready
  | cons first rest =>
      rw [isReady_iff] at ready ⊢
      refine (stateOf_wake state queue first task).trans ?_
      split
      · rfl
      · exact ready

theorem WaitQueue.wakeAllEffect_ready {state : State} {task : TaskRef}
    (ready : isReady state task = true) (queue : QueueRef)
    (tasks : List TaskRef) :
    isReady (wakeAllEffect state queue tasks) task = true := by
  induction tasks generalizing state with
  | nil => exact ready
  | cons first rest ih =>
      exact ih (WaitQueue.wakeOneEffect_ready ready queue (first :: rest))

theorem Scheduler.wakeSleepers_ready {state : State} {task : TaskRef}
    (ready : isReady state task = true) (tasks : List TaskRef) :
    isReady (wakeSleepers state tasks) task = true := by
  rw [isReady_iff] at ready ⊢
  refine (stateOf_wakeAll ..).trans ?_
  split
  · rfl
  · exact ready

/-- The idle task runs while `task` of the ring is Ready. -/
structure Idling (task : TaskRef) (history : History) (layout : Layout) :
    Prop where
  consistent : Consistent history layout
  current : history.state.currentTask = history.state.idleTask
  member : task ∈ layout.ring
  ready : isReady history.state task = true

def TimedEvent.Preempts : TimedEvent → Prop
  | .scheduler (.preempt _) => True
  | _ => False

theorem Effect.idling {task : TaskRef} {history : History} {layout : Layout}
    {entry : Entry} {operation : Operation} {ring : List TaskRef}
    {after : State} (effect : Effect history layout entry operation ring after)
    (idling : Idling task history layout)
    (undisturbed : ¬ (TimedEvent.scheduler operation).Preempts) :
    after.currentTask = history.state.currentTask ∧ task ∈ ring ∧
      isReady after task = true := by
  have wellFormed := idling.consistent.wellFormed
  have ready := idling.ready
  have member := idling.member
  obtain ⟨idle, hidle, hfresh, _⟩ := wellFormed.idle
  have resting : ∀ current, history.state.currentTask = some current →
      current ∉ layout.ring := by
    intro current hcurrent
    rw [idling.current, hidle] at hcurrent
    cases hcurrent
    exact hfresh
  cases effect with
  | addTask addable =>
      refine ⟨Scheduler.addTaskEffect_currentTask ..,
        mem_insertSecond.mpr (.inr member), ?_⟩
      rw [isReady_iff] at ready ⊢
      refine (Scheduler.stateOf_addTaskEffect ..).trans ?_
      split
      · rfl
      · exact ready
  | start unstarted _ =>
      rw [idling.current, hidle] at unstarted
      cases unstarted
  | yield hcurrent running => exact absurd running (resting _ hcurrent)
  | preempt => exact absurd trivial undisturbed
  | rest => exact ⟨rfl, member, ready⟩
  | sleep hcurrent running _ _ => exact absurd running (resting _ hcurrent)
  | updateSleepingTasks =>
      exact ⟨(Scheduler.foldl_wakeSleeper_sameLinks ..).2, member,
        Scheduler.wakeSleepers_ready ready _⟩
  | blockCurrent hcurrent running _ => exact absurd running (resting _ hcurrent)
  | wakeOne =>
      exact ⟨(WaitQueue.wakeOneEffect_same ..).1.currentTask, member,
        WaitQueue.wakeOneEffect_ready ready _ _⟩
  | wakeAll =>
      exact ⟨(WaitQueue.wakeAllEffect_same ..).1.currentTask, member,
        WaitQueue.wakeAllEffect_ready ready _ _⟩
  | terminateCurrent hcurrent running _ _ =>
      exact absurd running (resting _ hcurrent)

theorem Idling.step {task : TaskRef} {history after : History}
    {layout : Layout} (idling : Idling task history layout) {event : TimedEvent}
    (fresh : event.AddsFresh history) (undisturbed : ¬ event.Preempts)
    (transition : timedRuns.step history event after) :
    ∃ next, Idling task after next := by
  obtain ⟨issued, entry, budget, state, ended, hafter⟩ := transition
  rw [hafter]
  cases event with
  | scheduler operation =>
      obtain ⟨next, consistent, effect, same⟩ := operation_effect
        idling.consistent issued fresh ended
      obtain ⟨hcurrent, member, ready⟩ := effect.idling idling undisturbed
      have hstate := operation.record_state history state
      refine ⟨next, consistent, ?_, member, ?_⟩
      · change (operation.record history state).state.currentTask =
          (operation.record history state).state.idleTask
        rw [hstate, hcurrent, same.idleTask]
        exact idling.current
      · change isReady (operation.record history state).state task = true
        rw [hstate]
        exact ready
  | tick =>
      cases (run_onInterrupt history.state).symm.trans ended
      exact ⟨layout, idling.consistent.ticked, idling.current, idling.member,
        idling.ready⟩

theorem Idling.interrupt {task : TaskRef} {history : History}
    {layout : Layout} (idling : Idling task history layout)
    (context : ExceptionContext) :
    ∃ next, next ∈ layout.ring ∧
      (Scheduler.interruptEffect history.state layout context).2.currentTask =
        some next := by
  obtain ⟨idle, hidle, _⟩ := idling.consistent.wellFormed.idle
  have woken := @Scheduler.wakeSleepers_ready history.state.ticked task
    idling.ready layout.ring
  obtain ⟨links, hcurrent⟩ := Scheduler.foldl_wakeSleeper_sameLinks
    history.state.ticked.systemTicks layout.ring history.state.ticked
  unfold Scheduler.interruptEffect
  change SameLinks _ (Scheduler.wakeSleepers ..) at links
  change State.currentTask (Scheduler.wakeSleepers ..) = _ at hcurrent
  generalize Scheduler.wakeSleepers history.state.ticked layout.ring = state
    at *
  have current : state.currentTask = some idle :=
    hcurrent.trans (idling.current.trans hidle)
  have resting : state.idleTask = some idle := links.idleTask.trans hidle
  simp only [Scheduler.preemptEffect, current, if_pos resting]
  unfold Scheduler.preemptIdle
  have hready : isReady (Scheduler.cleanupEffect state layout.pending) task =
      true := by
    unfold isReady at woken ⊢
    rw [(Scheduler.cleanupEffect_same ..).states]
    exact woken
  cases hfind : layout.ring.find?
      (isReady (Scheduler.cleanupEffect state layout.pending)) with
  | none =>
      exact absurd hready (List.find?_eq_none.mp hfind task idling.member)
  | some next => exact ⟨next, List.mem_of_find?_eq_some hfind, rfl⟩

structure Decides (history : History) (chosen : Option TaskRef) : Prop where
  ready : ∀ next, chosen = some next →
    history.state.currentTask ≠ some next →
    (next ∈ history.live ∧ isReady history.state next = true) ∨
      history.state.idleTask = some next
  starved : ∀ idle, history.state.idleTask = some idle →
    chosen = some idle → history.state.currentTask ≠ some idle →
    ∀ task, task ∈ history.live → isReady history.state task = false

theorem Choice.decides {history : History} {layout : Layout}
    (consistent : Consistent history layout) {chosen : Option TaskRef}
    (choice : Choice history.state layout.ring chosen) :
    Decides history chosen := by
  cases choice with
  | keep => exact ⟨fun _ h hne => absurd h hne, fun _ _ h hne => absurd h hne⟩
  | ready member ready =>
      constructor
      · intro next hnext _
        cases hnext
        exact .inl ⟨(consistent.live_iff _).mp member, ready⟩
      · intro idle hidle hchosen _
        obtain ⟨other, hother, hfresh, _⟩ := consistent.wellFormed.idle
        cases hidle.symm.trans hother
        cases hchosen
        exact absurd member hfresh
  | idle starved =>
      exact ⟨fun next hnext _ => .inr hnext, fun _ _ _ _ task hlive =>
        starved task ((consistent.live_iff task).mpr hlive)⟩

/-- Every operation returns, decides for a Ready task if it can, and the idle
task runs no longer than until the next timer interrupt once a task of the ring
is Ready. -/
structure WorkConserving (history : History) : Prop where
  returns : ∀ (event : TimedEvent) (entry : Entry), event.Issued history →
    event.AddsFresh history → ∃ need, ∀ budget, need < budget →
      ∃ after, (event.program entry budget).run history.state =
        .ok ((), after)
  decides : ∀ event after, event.AddsFresh history →
    timedRuns.step history event after →
    Decides history after.state.currentTask
  leavesIdle : ∀ task later,
    history.state.currentTask = history.state.idleTask →
    task ∈ history.live → isReady history.state task = true →
    (timedRuns.since history).Reachable (fun history event =>
      event.AddsFresh history ∧ ¬ event.Preempts) later →
    ∀ context, ∃ need, ∀ budget, need < budget → ∃ frame after next,
      (onTimerInterrupt budget context).run later.state =
          .ok (frame, after) ∧
        after.currentTask = some next ∧ next ∈ later.live ∧
        later.state.idleTask ≠ some next

theorem Idling.leaves {task : TaskRef} {history : History} {layout : Layout}
    (idling : Idling task history layout) (context : ExceptionContext) :
    ∃ need, ∀ budget, need < budget → ∃ frame after next,
      (onTimerInterrupt budget context).run history.state =
          .ok (frame, after) ∧
        after.currentTask = some next ∧ next ∈ history.live ∧
        history.state.idleTask ≠ some next := by
  have consistent := idling.consistent
  have returns := Scheduler.onTimerInterrupt_returns consistent.wellFormed
    context
  obtain ⟨next, member, hcurrent⟩ := idling.interrupt context
  refine ⟨_, fun budget hbudget => ⟨_, _, next, returns.run_eq hbudget,
    hcurrent, (consistent.live_iff next).mp member, ?_⟩⟩
  intro hidle
  obtain ⟨idle, hother, hfresh, _⟩ := consistent.wellFormed.idle
  cases hidle.symm.trans hother
  exact hfresh member

/-- In every run with the timer whose `add_task` calls are given fresh tasks,
every decision is total and leaves no Ready task waiting for an idle
processor. -/
theorem workConserving_of_addsFresh {history : History}
    (reachable : timedRuns.Reachable (fun history event =>
      event.AddsFresh history) history) : WorkConserving history := by
  obtain ⟨⟨layout, consistent⟩, _⟩ := timed_consistent reachable
  constructor
  · intro event entry issued fresh
    obtain ⟨need, after, returns⟩ := event_returns consistent issued fresh
      entry
    exact ⟨need, fun budget hbudget => ⟨after, returns.run_eq hbudget⟩⟩
  · intro event after fresh transition
    obtain ⟨issued, entry, budget, state, ended, hafter⟩ := transition
    rw [hafter]
    cases event with
    | scheduler operation =>
        obtain ⟨_, _, effect, _⟩ := operation_effect consistent issued fresh
          ended
        change Decides history
          (operation.record history state).state.currentTask
        rw [operation.record_state]
        exact (effect.choice consistent.wellFormed).decides consistent
    | tick =>
        cases (run_onInterrupt history.state).symm.trans ended
        exact (Choice.keep : Choice history.state layout.ring _).decides
          consistent
  · intro task later hcurrent live ready onward context
    have idling : ∃ next, Idling task later next := by
      apply onward.holds
      · intro start hstart
        rw [hstart]
        exact ⟨layout, consistent, hcurrent,
          (consistent.live_iff task).mpr live, ready⟩
      · intro before event after idling meets transition
        obtain ⟨next, idling⟩ := idling
        exact idling.step meets.1 meets.2 transition
    obtain ⟨next, idling⟩ := idling
    exact idling.leaves context

theorem workConserving_oneTick : WorkConserving oneTick :=
  workConserving_of_addsFresh oneTick_reachable

/-- The ring of tasks 2, 1 and 3 with the idle task, 1, in it. -/
def idleAdded : History :=
  (((bootHistory.perform (.addTask 2)).perform (.addTask 3)).perform
    (.addTask 1)).perform .start

theorem idleAdded_reachable :
    timedRuns.Reachable System.unguarded idleAdded := by
  have first : timedRuns.Reachable System.unguarded
      (bootHistory.perform (.addTask 2)) :=
    timed_perform (.initial ⟨bootHistory_initial, by decide⟩) trivial
      (List.not_mem_nil : 2 ∉ []) rfl
  have second : timedRuns.Reachable System.unguarded
      ((bootHistory.perform (.addTask 2)).perform (.addTask 3)) :=
    timed_perform first trivial (by decide : 3 ∉ [2]) rfl
  have third : timedRuns.Reachable System.unguarded
      (((bootHistory.perform (.addTask 2)).perform (.addTask 3)).perform
        (.addTask 1)) :=
    timed_perform second trivial (by decide : 1 ∉ [3, 2]) rfl
  exact timed_perform third trivial (rfl : false = false) rfl

/-- Task 2 yields to the idle task while task 3 is Ready. -/
theorem workConserving_fails_for_idle_task :
    ∃ history, timedRuns.Reachable System.unguarded history ∧
      history.started = true ∧ ¬ WorkConserving history := by
  refine ⟨idleAdded, idleAdded_reachable, rfl, ?_⟩
  intro conserving
  have yielded : timedRuns.step idleAdded (.scheduler .yield)
      (idleAdded.perform .yield) :=
    ⟨⟨2, rfl, (by decide : 2 ∈ [1, 3, 2])⟩, bootEntry, 4, _, rfl, rfl⟩
  have decides := conserving.decides (.scheduler .yield) _ trivial yielded
  have starved := decides.starved 1 rfl rfl (by decide) 3
    (by decide : 3 ∈ [1, 3, 2])
  exact absurd (starved.symm.trans (rfl : isReady idleAdded.state 3 = true))
    nofun

/-- Task 2 was added again after it terminated, and the interrupt that frees it
looks for the next task in it. -/
theorem workConserving_fails_for_terminated_task :
    ∃ history, timedRuns.Reachable System.unguarded history ∧
      history.started = true ∧ ¬ WorkConserving history := by
  have first := @timed_perform System.unguarded _ (.addTask 2)
    (.initial ⟨bootHistory_initial, by decide⟩) trivial
    (List.not_mem_nil : 2 ∉ []) _ rfl
  have second := @timed_perform _ _ (.addTask 3) first trivial
    (by decide : 3 ∉ [2]) _ rfl
  have third := @timed_perform _ _ .start second trivial
    (rfl : false = false) _ rfl
  have fourth : timedRuns.Reachable System.unguarded oneTerminated :=
    @timed_perform _ _ .terminateCurrent third trivial
      ⟨2, rfl, (by decide : 2 ∈ [3, 2])⟩ _ rfl
  have fifth := @timed_perform _ _ (.addTask 2) fourth trivial
    (by decide : 2 ∉ [3]) _ rfl
  refine ⟨_, fifth, rfl, fun conserving => ?_⟩
  obtain ⟨need, returns⟩ := conserving.returns
    (.scheduler (.preempt blankFrame)) bootEntry trivial trivial
  obtain ⟨after, hrun⟩ := returns (need + 1) (Nat.lt_succ_self need)
  have hfault : (Scheduler.preempt (need + 1) blankFrame).run
      (oneTerminated.perform (.addTask 2)).state = .error .useAfterFree := rfl
  have hfails : ((Operation.preempt blankFrame).program bootEntry
      (need + 1)).run (oneTerminated.perform (.addTask 2)).state =
        .error .useAfterFree := run_bind_error hfault _
  cases hfails.symm.trans hrun

end Planetoid.Task
