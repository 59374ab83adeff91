import Planetoid.Task.Effects

namespace Planetoid.Task

open Planetoid Program Links Arch

/-! The invariant of the runs. -/

structure Consistent (history : History) (layout : Layout) : Prop where
  wellFormed : WellFormed history.state layout
  live_iff : ∀ task, task ∈ layout.ring ↔ task ∈ history.live
  live_nodup : history.live.Nodup
  waiting : layout.waiting = history.waiting
  pending : ∀ task, task ∈ layout.pending → task ∈ history.terminated
  freed : ∀ task, ¬ history.state.Valid task → task ∈ history.terminated
  started : history.started = true →
    ∃ task, history.state.currentTask = some task
  unstarted : history.started = false →
    history.state.currentTask = none ∧ ∃ launch,
      history.state.launchContext = some launch ∧
        history.state.Valid launch

theorem Consistent.advance {history : History} {layout next : Layout}
    (consistent : Consistent history layout) {after : State}
    {waiting : QueueRef → List TaskRef} (wellFormed : WellFormed after next)
    (ring : next.ring = layout.ring) (hwaiting : next.waiting = waiting)
    (pending : ∀ task, task ∈ next.pending → task ∈ layout.pending)
    (freed : ∀ task, ¬ after.Valid task →
      ¬ history.state.Valid task ∨ task ∈ layout.pending)
    (current : history.state.currentTask = none ↔ after.currentTask = none)
    (launch : history.state.currentTask = none →
      after.launchContext = history.state.launchContext ∧
        after.kfreed = history.state.kfreed) :
    Consistent { history with state := after, waiting := waiting } next where
  wellFormed := wellFormed
  live_iff := by
    rw [ring]
    exact consistent.live_iff
  live_nodup := consistent.live_nodup
  waiting := hwaiting
  pending := fun task hmem => consistent.pending task (pending task hmem)
  freed := by
    intro task hfreed
    rcases freed task hfreed with hold | hpending
    · exact consistent.freed task hold
    · exact consistent.pending task hpending
  started := by
    intro hstarted
    obtain ⟨task, htask⟩ := consistent.started hstarted
    rw [← Option.ne_none_iff_exists']
    intro hnone
    have hbefore := current.mpr hnone
    rw [htask] at hbefore
    cases hbefore
  unstarted := by
    intro hunstarted
    obtain ⟨hnone, task, htask, hvalid⟩ := consistent.unstarted hunstarted
    obtain ⟨hlaunch, hkfreed⟩ := launch hnone
    refine ⟨current.mp hnone, task, hlaunch.trans htask, ?_⟩
    unfold State.Valid
    rw [hkfreed]
    exact hvalid

def Operation.sleeper (history : History) : Operation → Option TaskRef
  | .sleep _ => history.state.currentTask
  | _ => none

/-- With enough budget the operation leads from `history` to a state with
the invariant. -/
def Advances (operation : Operation) (history : History) (entry : Entry) :
    Prop :=
  ∃ need after layout,
    Returns .budgetExhausted (operation.program entry) history.state need
      ((), after) ∧
    Consistent (operation.record history after) layout ∧
    SameGlobals history.state after ∧
    KeepsAwake history.state after (operation.sleeper history)

def Performs (operation : Operation) (history : History) (layout : Layout)
    (entry : Entry) : Prop :=
  ∃ need after next,
    Returns .budgetExhausted (operation.program entry) history.state need
      ((), after) ∧
    Consistent (operation.record history after) next ∧
    Effect history layout entry operation next.ring after ∧
    SameGlobals history.state after ∧
    KeepsAwake history.state after (operation.sleeper history)

theorem Performs.advances {operation : Operation} {history : History}
    {layout : Layout} {entry : Entry}
    (performs : Performs operation history layout entry) :
    Advances operation history entry := by
  obtain ⟨need, after, next, returns, consistent, _, same⟩ := performs
  exact ⟨need, after, next, returns, consistent, same⟩

/-- The same tasks are current, the same are freed. -/
theorem Consistent.outcome {history : History} {layout next : Layout}
    (consistent : Consistent history layout) {current : TaskRef}
    {result : Exit × State} (hcurrent : history.state.currentTask = some current)
    (outcome : Outcome history.state current result)
    {waiting : QueueRef → List TaskRef}
    (wellFormed : WellFormed result.2 next) (ring : next.ring = layout.ring)
    (hwaiting : next.waiting = waiting)
    (pending : ∀ task, task ∈ next.pending → task ∈ layout.pending)
    {sleeper : Option TaskRef}
    (keeps : KeepsAwake history.state result.2 sleeper) (entry : Entry) :
    Consistent { history with
      state := finishEffect entry result, waiting := waiting } next ∧
      SameGlobals history.state (finishEffect entry result) ∧
      KeepsAwake history.state (finishEffect entry result) sleeper := by
  refine ⟨consistent.advance (finishEffect_wellFormed wellFormed entry) ring
    hwaiting pending ?_ ?_ ?_,
    outcome.toSameGlobals.trans (finishEffect_same entry result),
    keeps.trans (keepsAwake_of_eq (stateOf_finishEffect entry result))⟩
  · intro task hfreed
    left
    unfold State.Valid at hfreed ⊢
    rw [finishEffect_kfreed, outcome.kfreed] at hfreed
    exact hfreed
  · rw [finishEffect_currentTask, hcurrent]
    rcases outcome.exit with returned | ⟨_, _, hnext⟩
    · rw [returned, hcurrent]
    · rw [hnext]
      simp
  · intro hnone
    rw [hcurrent] at hnone
    cases hnone

theorem Consistent.running {history : History} {layout : Layout}
    (consistent : Consistent history layout)
    (issued : ∃ task, history.Runs task) :
    ∃ current idle, history.state.currentTask = some current ∧
      current ∈ layout.ring ∧ history.state.idleTask = some idle ∧
      history.state.Valid idle ∧ current ≠ idle ∧
      history.state.Valid current := by
  obtain ⟨current, hcurrent, hlive⟩ := issued
  have hring := (consistent.live_iff current).mpr hlive
  obtain ⟨idle, hidle, hfresh, _, hvalid⟩ := consistent.wellFormed.idle
  refine ⟨current, idle, hcurrent, hring, hidle, hvalid, ?_,
    consistent.wellFormed.valid_ring current hring⟩
  rintro rfl
  exact hfresh hring

theorem Consistent.running_not_waiting {history : History} {layout : Layout}
    (consistent : Consistent history layout) {task : TaskRef}
    (runs : history.Runs task) (queue : QueueRef) :
    task ∉ history.waiting queue := by
  intro hmem
  have hring := (consistent.live_iff task).mpr runs.2
  have hrunning := (consistent.wellFormed.running_iff task hring).mpr runs.1
  have hblocked := (consistent.wellFormed.blocked_iff task hring).mpr
    ⟨queue, by rw [consistent.waiting]; exact hmem⟩
  rw [hrunning] at hblocked
  cases hblocked

theorem yield_performs {history : History} {layout : Layout}
    (consistent : Consistent history layout) (entry : Entry)
    (issued : ∃ task, history.Runs task) :
    Performs .yield history layout entry := by
  obtain ⟨current, idle, hcurrent, hring, _, _, _, hvalid⟩ :=
    consistent.running issued
  have outcome := Scheduler.yieldEffect_outcome history.state layout current
  have wellFormed := Scheduler.yieldEffect_wellFormed consistent.wellFormed
    hcurrent hring
  have keeps := @Scheduler.yieldEffect_keepsAwake none history.state layout
    current
  have advanced := consistent.outcome hcurrent outcome wellFormed rfl
    consistent.waiting (fun _ h => h) keeps entry
  exact ⟨_, _, layout, finish_returns (Scheduler.yield_returns
    consistent.wellFormed hcurrent hring) outcome wellFormed hvalid entry,
    advanced.1, .yield hcurrent hring, advanced.2⟩

theorem sleep_performs {history : History} {layout : Layout}
    (consistent : Consistent history layout) (entry : Entry) (ticks : Nat)
    (issued : ∃ task, history.Runs task) :
    Performs (.sleep ticks) history layout entry := by
  obtain ⟨current, idle, hcurrent, hring, hidle, hvalidIdle, _, hvalid⟩ :=
    consistent.running issued
  by_cases hticks : ticks = 0
  · subst hticks
    refine ⟨0, history.state, layout, ?_, consistent, .rest,
      SameGlobals.refl _, KeepsAwake.refl ..⟩
    intro budget
    left
    have hreturned : (Scheduler.sleep budget 0).run history.state =
        .ok (.returned, history.state) := by
      simp [Scheduler.sleep, hcurrent]
    exact run_bind_ok hreturned _
  · have same := Scheduler.asleep_sameLinks history.state current ticks
    have outcome := Scheduler.switchEffect_outcome layout current idle
      same.toSameGlobals same.kfreed
    have keeps : KeepsAwake history.state
        (Scheduler.switchEffect (Scheduler.asleep history.state current ticks)
          layout current idle).2 history.state.currentTask := by
      rw [hcurrent]
      exact (Scheduler.asleep_keepsAwake ..).trans
        (Scheduler.switchEffect_keepsAwake ..)
    have paused := consistent.wellFormed.pause hcurrent hring same
      (by rw [Scheduler.stateOf_asleep]; simp)
      (fun task hne => by rw [Scheduler.stateOf_asleep, if_neg hne])
    have wellFormed := Scheduler.switchEffect_wellFormed paused.1 paused.2
      hring (same.idleTask.trans hidle)
    have advanced := consistent.outcome hcurrent outcome wellFormed rfl
      consistent.waiting (fun _ h => h) keeps entry
    exact ⟨_, _, layout, finish_returns (Scheduler.sleep_returns
      consistent.wellFormed hcurrent hring hidle hvalidIdle hticks) outcome
      wellFormed hvalid entry, advanced.1,
      .sleep hcurrent hring hidle hticks, advanced.2⟩

theorem blockCurrent_performs {history : History} {layout : Layout}
    (consistent : Consistent history layout) (entry : Entry)
    (queue : QueueRef) (issued : ∃ task, history.Runs task) :
    Performs (.blockCurrent queue) history layout entry := by
  obtain ⟨current, idle, hcurrent, hring, hidle, hvalidIdle, _, hvalid⟩ :=
    consistent.running issued
  have same := WaitQueue.join_same history.state queue current
  have outcome := Scheduler.switchEffect_outcome layout current idle
    same.toSameGlobals same.kfreed
  have wellFormed := @WaitQueue.blockCurrentEffect_wellFormed _ _
    consistent.wellFormed queue _ _ hcurrent hring hidle
  have keeps : KeepsAwake history.state
      (WaitQueue.blockCurrentEffect history.state layout queue current idle).2
      none :=
    (WaitQueue.join_keepsAwake ..).trans (Scheduler.switchEffect_keepsAwake ..)
  have advanced := consistent.outcome hcurrent outcome wellFormed rfl rfl
    (fun _ h => h) keeps entry
  refine ⟨_, _, layout.withWaiting queue (layout.waiting queue ++ [current]),
    finish_returns (WaitQueue.blockCurrent_returns consistent.wellFormed
      hcurrent hring hidle hvalidIdle) outcome wellFormed hvalid entry, ?_,
    .blockCurrent hcurrent hring hidle, advanced.2⟩
  simp only [Operation.record, hcurrent]
  rw [← consistent.waiting]
  exact advanced.1

theorem terminateCurrent_performs {history : History} {layout : Layout}
    (consistent : Consistent history layout) (entry : Entry)
    (issued : ∃ task, history.Runs task) :
    Performs .terminateCurrent history layout entry := by
  obtain ⟨current, idle, hcurrent, hring, hidle, hvalidIdle, hnotIdle,
    hvalid⟩ := consistent.running issued
  have returns := Scheduler.terminateCurrent_returns consistent.wellFormed
    hcurrent hring hidle hvalidIdle hnotIdle
  have wellFormed := Scheduler.terminateEffect_wellFormed
    consistent.wellFormed hcurrent hring hidle
  obtain ⟨exit, after, heffect, outcome, hnext⟩ :=
    Scheduler.terminateEffect_outcome history.state layout current idle
  rw [heffect] at returns wellFormed
  have hfinished := run_finish outcome wellFormed hvalid entry
  have keeps := @Scheduler.terminateEffect_keepsAwake none history.state
    layout current idle
  rw [heffect] at keeps
  refine ⟨_, finishEffect entry (exit, after), layout.retire current,
    returns.bind (returns_of_run hfinished _), ?_,
    .terminateCurrent hcurrent hring hidle heffect,
    outcome.toSameGlobals.trans (finishEffect_same ..),
    keeps.trans (keepsAwake_of_eq (stateOf_finishEffect ..))⟩
  have hrecord : Operation.record history (finishEffect entry (exit, after))
      .terminateCurrent =
      { state := finishEffect entry (exit, after)
        live := history.live.erase current
        terminated := current :: history.terminated
        waiting := history.waiting
        started := history.started } := by
    simp only [Operation.record, hcurrent]
  rw [hrecord]
  refine ⟨finishEffect_wellFormed wellFormed entry, ?_,
    consistent.live_nodup.erase _, consistent.waiting, ?_, ?_, ?_, ?_⟩
  · intro task
    exact (consistent.wellFormed.ring_nodup.mem_erase_iff).trans
      ((and_congr_right fun _ => consistent.live_iff task).trans
        consistent.live_nodup.mem_erase_iff.symm)
  · intro task hmem
    rcases List.mem_append.mp hmem with hold | hnew
    · exact List.mem_cons_of_mem _ (consistent.pending task hold)
    · obtain rfl := List.mem_singleton.mp hnew
      exact List.mem_cons_self
  · intro task hfreed
    apply List.mem_cons_of_mem
    apply consistent.freed
    unfold State.Valid at hfreed ⊢
    rw [finishEffect_kfreed, outcome.kfreed] at hfreed
    exact hfreed
  · intro _
    rw [finishEffect_currentTask]
    exact hnext
  · intro hunstarted
    have hnone := (consistent.unstarted hunstarted).1
    rw [hcurrent] at hnone
    cases hnone

theorem addTask_performs {history : History} {layout : Layout}
    (consistent : Consistent history layout) (entry : Entry) {task : TaskRef}
    (issued : task ∉ history.live)
    (fresh : task ∉ history.terminated ∧
      history.state.idleTask ≠ some task) :
    Performs (.addTask task) history layout entry := by
  have hvalid : history.state.Valid task := by
    by_contra hfreed
    exact fresh.1 (consistent.freed task hfreed)
  have addable : Scheduler.Addable history.state layout task :=
    ⟨fun hmem => issued ((consistent.live_iff task).mp hmem),
      fun hmem => fresh.1 (consistent.pending task hmem), fresh.2, hvalid⟩
  have hrun := Scheduler.run_addTask hvalid (by
    intro head hhead
    apply consistent.wellFormed.valid_ring
    apply List.mem_of_head?
    rw [← consistent.wellFormed.ring.head_eq, hhead])
  have same := Scheduler.linkIn_same
    (history.state.masked.withState task .ready) task
  have hkfreed : (Operation.record history
      (Scheduler.addTaskEffect history.state task)
        (.addTask task)).state.kfreed = history.state.kfreed := same.kfreed
  have hcurrent : (Operation.record history
      (Scheduler.addTaskEffect history.state task)
        (.addTask task)).state.currentTask = history.state.currentTask :=
    same.currentTask
  have globals : SameGlobals history.state
      (Scheduler.addTaskEffect history.state task) :=
    ⟨same.idleTask, same.launchContext, same.locked, same.systemTicks⟩
  refine ⟨0, _, _, returns_of_run hrun 0,
    ⟨Scheduler.addTaskEffect_wellFormed consistent.wellFormed addable, ?_, ?_,
      consistent.waiting, consistent.pending, ?_, ?_, ?_⟩,
    .addTask addable, globals, Scheduler.addTaskEffect_keepsAwake ..⟩
  · intro other
    rw [mem_insertSecond, consistent.live_iff]
    exact List.mem_cons.symm
  · exact List.nodup_cons.mpr ⟨issued, consistent.live_nodup⟩
  · intro other hfreed
    apply consistent.freed
    unfold State.Valid at hfreed ⊢
    rw [hkfreed] at hfreed
    exact hfreed
  · intro hstarted
    rw [hcurrent]
    exact consistent.started hstarted
  · intro hunstarted
    obtain ⟨hnone, launch, hlaunch, hlaunchValid⟩ :=
      consistent.unstarted hunstarted
    refine ⟨hcurrent.trans hnone, launch,
      same.launchContext.trans hlaunch, ?_⟩
    unfold State.Valid
    rw [hkfreed]
    exact hlaunchValid

theorem start_performs {history : History} {layout : Layout}
    (consistent : Consistent history layout) (entry : Entry)
    (issued : history.started = false) :
    Performs .start history layout entry := by
  obtain ⟨hnone, launch, hlaunch, hvalid⟩ := consistent.unstarted issued
  obtain ⟨idle, hidle, _⟩ := consistent.wellFormed.idle
  have hrun := Scheduler.run_start consistent.wellFormed.toShape hlaunch hidle
  have outcome : Outcome history.state launch
      (Scheduler.startEffect history.state layout launch idle) :=
    Scheduler.dispatch_outcome launch _ (SameGlobals.refl _) rfl
  have wellFormed := @Scheduler.startEffect_wellFormed _ _
    consistent.wellFormed hnone launch _ hidle
  have hfinished := run_finish outcome wellFormed hvalid entry
  refine ⟨0, _, layout, returns_of_run ((run_bind_ok hrun _).trans
    hfinished) 0, ⟨finishEffect_wellFormed wellFormed entry,
      consistent.live_iff, consistent.live_nodup, consistent.waiting,
      consistent.pending, ?_, ?_, nofun⟩, .start hnone hidle,
    outcome.toSameGlobals.trans (finishEffect_same ..),
    (Scheduler.dispatch_keepsAwake ..).trans
      (keepsAwake_of_eq (stateOf_finishEffect ..))⟩
  · intro task hfreed
    exact consistent.freed task hfreed
  · exact fun _ => ⟨_, rfl⟩

theorem Consistent.awakened {history : History} {layout : Layout}
    (consistent : Consistent history layout) :
    Consistent { history with
      state := Scheduler.wakeSleepers history.state layout.ring } layout := by
  obtain ⟨same, hcurrent⟩ := Scheduler.foldl_wakeSleeper_sameLinks
    history.state.systemTicks layout.ring history.state
  refine consistent.advance
    (Scheduler.wakeSleepers_wellFormed consistent.wellFormed) rfl
    consistent.waiting (fun _ h => h) ?_ ?_ ?_
  · intro task hfreed
    left
    exact fun hvalid => hfreed ((same.valid task).mpr hvalid)
  · unfold Scheduler.wakeSleepers
    rw [hcurrent]
  · exact fun _ => ⟨same.launchContext, same.kfreed⟩

theorem updateSleepingTasks_performs {history : History} {layout : Layout}
    (consistent : Consistent history layout) (entry : Entry) :
    Performs .updateSleepingTasks history layout entry := by
  obtain ⟨same, _⟩ := Scheduler.foldl_wakeSleeper_sameLinks
    history.state.systemTicks layout.ring history.state
  exact ⟨_, _, layout, Scheduler.updateSleepingTasks_returns
    consistent.wellFormed.ring consistent.wellFormed.ring_nodup
    consistent.wellFormed.valid_ring, consistent.awakened,
    .updateSleepingTasks, same.toSameGlobals,
    Scheduler.wakeSleepers_keepsAwake ..⟩

theorem Consistent.woken {history : History} {layout next : Layout}
    (consistent : Consistent history layout) {after : State}
    {waiting : QueueRef → List TaskRef} (wellFormed : WellFormed after next)
    (ring : next.ring = layout.ring) (hwaiting : next.waiting = waiting)
    (pending : next.pending = layout.pending)
    (same : SameButWait history.state after) :
    Consistent { history with state := after, waiting := waiting } next := by
  refine consistent.advance wellFormed ring hwaiting
    (by rw [pending]; exact fun _ h => h) ?_ (by rw [same.currentTask])
    (fun _ => ⟨same.launchContext, same.kfreed⟩)
  intro task hfreed
  left
  unfold State.Valid at hfreed ⊢
  rw [same.kfreed] at hfreed
  exact hfreed

theorem wakeOne_performs {history : History} {layout : Layout}
    (consistent : Consistent history layout) (entry : Entry)
    (queue : QueueRef) : Performs (.wakeOne queue) history layout entry := by
  have hrun := WaitQueue.run_wakeOne (consistent.wellFormed.waiting queue)
    fun task hmem => consistent.wellFormed.valid_ring task
      (consistent.wellFormed.waiting_ring queue task hmem)
  obtain ⟨same, keeps⟩ := WaitQueue.wakeOneEffect_same history.state queue
    (layout.waiting queue)
  refine ⟨0, _, _, returns_of_run hrun 0, consistent.woken
    (WaitQueue.wakeOneEffect_wellFormed consistent.wellFormed queue) rfl ?_
    rfl same, .wakeOne, same.toSameGlobals, keeps⟩
  unfold Layout.withWaiting
  rw [consistent.waiting]

theorem wakeAll_performs {history : History} {layout : Layout}
    (consistent : Consistent history layout) (entry : Entry)
    (queue : QueueRef) : Performs (.wakeAll queue) history layout entry := by
  obtain ⟨returns, wellFormed⟩ := WaitQueue.wakeAll_returns
    consistent.wellFormed (rfl : layout.waiting queue = _)
  obtain ⟨same, keeps⟩ := WaitQueue.wakeAllEffect_same queue
    (layout.waiting queue) history.state
  refine ⟨_, _, _, returns, consistent.woken wellFormed rfl ?_ rfl same,
    .wakeAll, same.toSameGlobals, keeps⟩
  unfold Layout.withWaiting
  rw [consistent.waiting]

namespace Scheduler

theorem preemptIdle_kept (state : State) (ring : List TaskRef)
    (context : ExceptionContext) :
    (preemptIdle state ring context).2.kfreed = state.kfreed ∧
      (state.currentTask ≠ none →
        (preemptIdle state ring context).2.currentTask ≠ none) := by
  unfold preemptIdle
  split
  · exact ⟨rfl, fun h => h⟩
  · exact ⟨rfl, fun _ => nofun⟩

theorem preemptTask_kept (state : State) (ring : List TaskRef)
    (current : TaskRef) (context : ExceptionContext) :
    (preemptTask state ring current context).2.kfreed = state.kfreed ∧
      (state.currentTask ≠ none →
        (preemptTask state ring current context).2.currentTask ≠ none) := by
  simp only [preemptTask]
  split
  · exact ⟨rfl, fun h => h⟩
  · exact ⟨rfl, fun _ => Option.some_ne_none _⟩

theorem cleanupEffect_freed {state : State} {pending : List TaskRef}
    {task : TaskRef} (h : ¬ (cleanupEffect state pending).Valid task) :
    ¬ state.Valid task ∨ task ∈ pending := by
  by_cases hmem : task ∈ pending
  · exact .inr hmem
  · left
    intro valid
    refine h (cleanupEffect_valid valid ?_)
    exact fun hhead => hmem (List.mem_of_head? hhead)

theorem preemptEffect_same (state : State) (layout : Layout)
    (context : ExceptionContext) :
    SameGlobals state (preemptEffect state layout context).2 := by
  have cleaned := (cleanupEffect_same state layout.pending).toSameGlobals
  unfold preemptEffect
  split
  · exact SameGlobals.refl state
  · simp only
    split
    · unfold preemptIdle
      split
      · exact cleaned
      · exact cleaned.trans (dispatch_sameLinks ..).toSameGlobals
    · simp only [preemptTask]
      split
      · exact (cleaned.trans (paused_sameLinks ..).toSameGlobals).trans
          (State.withState_sameLinks ..).toSameGlobals
      · exact (cleaned.trans (paused_sameLinks ..).toSameGlobals).trans
          (dispatch_sameLinks ..).toSameGlobals

theorem preemptEffect_kept (state : State) (layout : Layout)
    (context : ExceptionContext) {current : TaskRef}
    (hcurrent : state.currentTask = some current) :
    (preemptEffect state layout context).2.kfreed =
        (cleanupEffect state layout.pending).kfreed ∧
      (preemptEffect state layout context).2.currentTask ≠ none := by
  have hkept : (cleanupEffect state layout.pending).currentTask ≠ none := by
    rw [(cleanupEffect_same ..).currentTask, hcurrent]
    simp
  simp only [preemptEffect, hcurrent]
  split
  · obtain ⟨kfreed, running⟩ := preemptIdle_kept
      (cleanupEffect state layout.pending) layout.ring context
    exact ⟨kfreed, running hkept⟩
  · obtain ⟨kfreed, running⟩ := preemptTask_kept
      (cleanupEffect state layout.pending) layout.ring current context
    exact ⟨kfreed, running hkept⟩

end Scheduler

theorem Consistent.preempted {history : History} {layout : Layout}
    (consistent : Consistent history layout) (context : ExceptionContext) :
    Consistent { history with
        state := (Scheduler.preemptEffect history.state layout context).2 }
      (Scheduler.preemptLayout history.state layout) := by
  have wellFormed :=
    Scheduler.preemptEffect_wellFormed consistent.wellFormed context
  have hunstarted : history.state.currentTask = none →
      (Scheduler.preemptEffect history.state layout context).2 =
        history.state := by
    intro hnone
    simp only [Scheduler.preemptEffect, hnone]
  have hstarted := fun current =>
    @Scheduler.preemptEffect_kept history.state layout context current
  generalize Scheduler.preemptEffect history.state layout context = result
    at *
  refine consistent.advance wellFormed (Scheduler.preemptLayout_ring ..)
    ?_ ?_ ?_ ?_ ?_
  · rw [← consistent.waiting]
    unfold Scheduler.preemptLayout
    split <;> rfl
  · intro task
    unfold Scheduler.preemptLayout
    split
    · exact fun h => h
    · exact List.mem_of_mem_tail
  · intro task hfreed
    cases hcurrent : history.state.currentTask with
    | none =>
        rw [hunstarted hcurrent] at hfreed
        exact .inl hfreed
    | some current =>
        apply Scheduler.cleanupEffect_freed
        unfold State.Valid at hfreed ⊢
        rw [(hstarted current hcurrent).1] at hfreed
        exact hfreed
  · cases hcurrent : history.state.currentTask with
    | none => rw [hunstarted hcurrent, hcurrent]
    | some current =>
        simp only [reduceCtorEq, false_iff]
        exact (hstarted current hcurrent).2
  · intro hnone
    rw [hunstarted hnone]
    exact ⟨rfl, rfl⟩

theorem preempt_performs {history : History} {layout : Layout}
    (consistent : Consistent history layout) (entry : Entry)
    (context : ExceptionContext) :
    Performs (.preempt context) history layout entry := by
  refine ⟨_, _, _, (Scheduler.preempt_returns consistent.wellFormed
      context).bind (returns_of_run (run_pure () _) _),
    consistent.preempted context, ?_,
    Scheduler.preemptEffect_same history.state layout context,
    Scheduler.preemptEffect_keepsAwake history.state layout context⟩
  rw [Scheduler.preemptLayout_ring]
  exact .preempt

theorem operation_performs {history : History} {layout : Layout}
    (consistent : Consistent history layout) {operation : Operation}
    (issued : operation.Issued history) (fresh : operation.AddsFresh history)
    (entry : Entry) : Performs operation history layout entry := by
  cases operation with
  | addTask task => exact addTask_performs consistent entry issued fresh
  | start => exact start_performs consistent entry issued
  | yield => exact yield_performs consistent entry issued
  | preempt context => exact preempt_performs consistent entry context
  | sleep ticks => exact sleep_performs consistent entry ticks issued
  | updateSleepingTasks => exact updateSleepingTasks_performs consistent entry
  | blockCurrent queue =>
      exact blockCurrent_performs consistent entry queue issued
  | wakeOne queue => exact wakeOne_performs consistent entry queue
  | wakeAll queue => exact wakeAll_performs consistent entry queue
  | terminateCurrent =>
      exact terminateCurrent_performs consistent entry issued

/-- Every operation that is issued as it may be returns, in a state with the
invariant. -/
theorem operation_advances {history : History} {layout : Layout}
    (consistent : Consistent history layout) {operation : Operation}
    (issued : operation.Issued history) (fresh : operation.AddsFresh history)
    (entry : Entry) : Advances operation history entry :=
  (operation_performs consistent issued fresh entry).advances

theorem operation_effect {history : History} {layout : Layout}
    (consistent : Consistent history layout) {operation : Operation}
    (issued : operation.Issued history) (fresh : operation.AddsFresh history)
    {entry : Entry} {budget : Nat} {after : State}
    (ended : (operation.program entry budget).run history.state =
      .ok ((), after)) :
    ∃ next, Consistent (operation.record history after) next ∧
      Effect history layout entry operation next.ring after ∧
      SameGlobals history.state after := by
  obtain ⟨_, expected, next, returns, hnext, effect, same, _⟩ :=
    operation_performs consistent issued fresh entry
  cases returns.unique ended
  exact ⟨next, hnext, effect, same⟩

theorem initial_consistent {history : History}
    (initial : runs.initial history) :
    Consistent history Layout.empty := by
  obtain ⟨before, launch, idle, hkfreed, hqueues, hrun, hlive, hterminated,
    hwaiting, hstarted⟩ := initial
  have hvalid : ∀ task, before.Valid task := by
    intro task
    simp [State.Valid, hkfreed]
  rw [Scheduler.run_init (hvalid launch) (hvalid idle)] at hrun
  have hstate := (Prod.mk.inj (Except.ok.inj hrun)).2
  refine ⟨?_, ?_, ?_, ?_, ?_, ?_, ?_, ?_⟩
  · rw [← hstate]
    exact Scheduler.init_wellFormed hqueues (hvalid idle)
  · simp [Layout.empty, hlive]
  · rw [hlive]
    exact List.nodup_nil
  · funext queue
    exact (hwaiting queue).symm
  · simp [Layout.empty]
  · intro task hfreed
    rw [← hstate] at hfreed
    exact absurd (hvalid task) hfreed
  · intro h
    rw [hstarted] at h
    cases h
  · intro _
    rw [← hstate]
    exact ⟨rfl, launch, rfl, hvalid launch⟩

theorem reachable_consistent {history : History}
    (reachable : runs.Reachable (fun history operation =>
      operation.AddsFresh history) history) :
    ∃ layout, Consistent history layout := by
  apply reachable.holds
  · exact fun history initial => ⟨_, initial_consistent initial⟩
  · rintro before operation after ⟨layout, consistent⟩ fresh
      ⟨issued, entry, budget, state, ended, rfl⟩
    obtain ⟨need, expected, next, returns, hnext, _⟩ :=
      operation_advances consistent issued fresh entry
    have hsame := returns.unique ended
    cases hsame
    exact ⟨next, hnext⟩

end Planetoid.Task
