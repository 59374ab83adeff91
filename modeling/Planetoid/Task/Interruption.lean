import Planetoid.Task.Machine
import Planetoid.Task.Passing

namespace Planetoid.Task

open Planetoid Program Arch

/-! What a timer interrupt saves, and whose registers it restores. -/

def State.interruptedBy (state : State) (frame : ExceptionContext) : State :=
  match state.savesTo with
  | none => state
  | some task => Scheduler.withContext state task frame

/-- `preempt` leaves the frame as it is, or it fills it with what was saved in
the context of the next task. -/
inductive Preempts (before : State) (frame : ExceptionContext) :
    ExceptionContext → State → Prop
  | stays {after : State}
      (same : SameThread (before.interruptedBy frame) after) :
      Preempts before frame frame after
  | passes {after : State} {current next : TaskRef}
      (leaves : before.currentTask = some current)
      (away : before.savesTo = some current ∨
        before.idleTask = some current)
      (other : before.savesTo ≠ some next)
      (chosen : Chosen (before.interruptedBy frame) next after) :
      Preempts before frame (Scheduler.restored after next frame) after

/-- The task that runs is the same, and no context was saved. -/
structure Undisturbed (before after : State) : Prop
    extends SameThread before after where
  running : ∀ task, stateOf after task = .running ↔
    stateOf before task = .running

section

variable {before state : State}

theorem Undisturbed.refl (state : State) : Undisturbed state state :=
  ⟨SameThread.refl state, fun _ => Iff.rfl⟩

theorem keeps_undisturbed {program : Sched α}
    (calm : program.Respects Calm) : program.Keeps (Undisturbed before) :=
  calm.keeps fun first second same h =>
    ⟨h.toSameThread.trans same.toSameThread, fun task => by
      rw [← h.running task]
      unfold stateOf
      rw [same.states task]⟩

theorem ends_load {task : TaskRef} {field : TaskState → α}
    {post : α → State → Prop}
    (h : state.Valid task → post (field (state.tasks task)) state) :
    (load task field).Ends post state := by
  by_cases valid : state.Valid task
  · exact ends_of_run (run_load valid field) (h valid)
  · simp [load, Ends, valid]

theorem ends_store {task : TaskRef} {update : TaskState → TaskState}
    {post : Unit → State → Prop}
    (h : post () (state.setTask task update)) :
    (store task update).Ends post state := by
  by_cases valid : state.Valid task
  · exact ends_of_run (run_store valid update) h
  · simp [store, Ends, valid]

theorem SameThread.withContext (same : SameThread before state)
    (task : TaskRef) (frame : ExceptionContext) :
    SameThread (Scheduler.withContext before task frame)
      (Scheduler.withContext state task frame) where
  contexts := by
    intro other
    unfold Scheduler.withContext
    by_cases heq : other = task
    · subst other
      rw [State.setTask_self, State.setTask_self, same.contexts]
    · rw [State.setTask_of_ne _ _ _ _ heq, State.setTask_of_ne _ _ _ _ heq,
        same.contexts]
  stackOf := by
    intro other
    unfold Scheduler.withContext
    by_cases heq : other = task
    · subst other
      rw [State.setTask_self, State.setTask_self]
      exact same.stackOf task
    · rw [State.setTask_of_ne _ _ _ _ heq, State.setTask_of_ne _ _ _ _ heq]
      exact same.stackOf other
  launch := same.launch
  idle := same.idle
  current := same.current

namespace Scheduler

theorem wakeExpired_undisturbed (h : Undisturbed before state)
    (currentTick : Nat) (task : TaskRef) :
    (wakeExpired currentTick task).Ends
      (fun _ after => Undisturbed before after) state := by
  refine ends_bind.mpr (ends_load fun _ => ?_)
  refine ends_ite (fun hsleeping => ?_) fun _ => h
  refine ends_bind.mpr (ends_load fun _ => ?_)
  refine ends_ite (fun _ => ?_) fun _ => h
  have stored : SameContexts state (state.withState task .ready) :=
    @sameContexts_setTask (fun fields => { fields with state := .ready })
      (fun _ => ⟨rfl, rfl, rfl⟩) state task
  refine ends_store ⟨⟨h.toSameContexts.trans stored, h.current⟩,
    fun other => ?_⟩
  rw [← h.running other]
  show stateOf (state.withState task .ready) other = .running ↔ _
  rw [State.stateOf_withState]
  split
  · subst other
    rw [show stateOf state task = .sleeping from hsleeping]
    exact ⟨nofun, nofun⟩
  · exact Iff.rfl

theorem updateSleepingTasks_undisturbed (h : Undisturbed before state)
    (budget : Nat) : (updateSleepingTasks budget).Ends
      (fun _ after => Undisturbed before after) state := by
  refine ends_bind.mpr ((ends_read _).mpr ?_)
  cases state.taskList with
  | none => exact h
  | some start =>
      refine ends_bind.mpr ((ends_read _).mpr ?_)
      refine @ends_whileLoop State Fault _ _ state .budgetExhausted _
        (fun _ => Undisturbed before) (fun _ => Undisturbed before)
        (fun position current hcurrent => ?_) _ h budget
      refine (keeps_undisturbed (respects_deref position)).ends_bind hcurrent
        fun task first hfirst => ?_
      refine ends_bind.mpr ((wakeExpired_undisturbed hfirst _ task).weaken
        fun _ second hsecond => ?_)
      refine (keeps_undisturbed (respects_load Calm.refl task _)).ends_bind
        hsecond fun next third hthird => ?_
      refine (keeps_undisturbed (respects_read Calm.refl _)).ends_bind hthird
        fun list last hlast => ?_
      exact ends_ite (fun _ => hlast) fun _ => hlast

theorem resume_preempts {frame : ExceptionContext}
    (same : SameThread (before.interruptedBy frame) state)
    {current next : TaskRef} (leaves : before.currentTask = some current)
    (away : before.savesTo = some current ∨ before.idleTask = some current)
    (other : before.savesTo ≠ some next) :
    (do
      setState next .running
      setCurrentTask (some next)
      restoreContext next frame).Ends (Preempts before frame) state := by
  refine (keeps_sameThread (quiet_setState next .running)).ends_bind same
    fun _ after hafter => ?_
  refine ends_bind.mpr ((ends_write _).mpr ?_)
  exact ends_bind.mpr (ends_load fun _ =>
    .passes leaves away other (hafter.choose next))

theorem preempt_idle_preempts {frame : ExceptionContext} {current : TaskRef}
    (undisturbed : Undisturbed before state)
    (hcurrent : before.currentTask = some current)
    (hidle : before.idleTask = some current)
    (unsaved : before.savesTo = none) (budget : Nat) :
    (show Sched ExceptionContext from do
      match ← scanFromIdle budget (← read (·.taskList)) with
      | none => pure frame
      | some next => do
        setState next .running
        setCurrentTask (some next)
        restoreContext next frame).Ends (Preempts before frame) state := by
  have same : SameThread (before.interruptedBy frame) state := by
    unfold State.interruptedBy
    rw [unsaved]
    exact undisturbed.toSameThread
  refine (keeps_sameThread (quiet_read _)).ends_bind same
    fun list first hfirst => ?_
  refine (keeps_sameThread (quiet_scanFromIdle budget list)).ends_bind hfirst
    fun found second hsecond => ?_
  cases found with
  | none => exact .stays hsecond
  | some next =>
      refine resume_preempts hsecond hcurrent (.inr hidle) ?_
      rw [unsaved]
      exact nofun

theorem preempt_task_preempts {frame : ExceptionContext} {current : TaskRef}
    (undisturbed : Undisturbed before state)
    (hcurrent : before.currentTask = some current)
    (hidle : before.idleTask ≠ some current) (budget : Nat) :
    (show Sched ExceptionContext from do
      if (← load current (·.state)) ≠ .running then pure frame
      else do
        saveContext current frame
        setState current .ready
        let next ← scanReady budget (read (·.currentTask))
          (← load current (·.nextTask))
        if next = (← read (·.currentTask)) then do
          setState current .running
          pure frame
        else do
          let next ← deref next
          setState next .running
          setCurrentTask (some next)
          restoreContext next frame).Ends (Preempts before frame) state := by
  refine ends_bind.mpr (ends_load fun _ => ?_)
  refine ends_ite (fun hstate => ?_) fun hstate => ?_
  · have unsaved : before.savesTo = none := by
      have hrunning : stateOf before current ≠ .running := by
        rw [Ne, ← undisturbed.running current]
        exact hstate
      unfold State.savesTo
      rw [hcurrent]
      simp [hidle, hrunning]
    refine .stays ?_
    unfold State.interruptedBy
    rw [unsaved]
    exact undisturbed.toSameThread
  · have saves : before.savesTo = some current := by
      have hrunning : stateOf before current = .running :=
        (undisturbed.running current).mp (not_not.mp hstate)
      unfold State.savesTo
      rw [hcurrent]
      simp [hidle, hrunning]
    have saved : SameThread (before.interruptedBy frame)
        (withContext state current frame) := by
      unfold State.interruptedBy
      rw [saves]
      exact undisturbed.toSameThread.withContext current frame
    have hthread : (before.interruptedBy frame).currentTask = some current :=
      saved.current.symm.trans (undisturbed.current.trans hcurrent)
    refine ends_bind.mpr (ends_store ?_)
    refine (keeps_sameThread (quiet_setState current .ready)).ends_bind saved
      fun _ first hfirst => ?_
    refine (keeps_sameThread (quiet_load current _)).ends_bind hfirst
      fun start second hsecond => ?_
    have scanning := @keeps_sameThread (before.interruptedBy frame) _ _
      (quiet_scanReady (quiet_read (·.currentTask)) budget start)
    refine scanning.ends_bind hsecond fun next third hthird => ?_
    refine hthird.ends_read ?_
    rw [hthread]
    refine ends_ite (fun _ => ?_) fun hne => ?_
    · exact (keeps_sameThread (quiet_setState current .running)).ends_bind
        hthird fun _ _ hlast => .stays hlast
    · cases next with
      | none => exact trivial
      | some next =>
          refine resume_preempts hthird hcurrent (.inl saves) ?_
          rw [saves]
          exact fun heq => hne heq.symm

theorem preempt_preempts {frame : ExceptionContext}
    (undisturbed : Undisturbed before state) (budget : Nat) :
    (preempt budget frame).Ends (Preempts before frame) state := by
  refine undisturbed.ends_read ?_
  cases hcurrent : before.currentTask with
  | none =>
      refine .stays ?_
      unfold State.interruptedBy State.savesTo
      rw [hcurrent]
      exact undisturbed.toSameThread
  | some current =>
      refine (keeps_undisturbed calm_cleanupTerminatedTask).ends_bind
        undisturbed fun _ cleaned hcleaned => ?_
      refine hcleaned.ends_read ?_
      refine ends_bind.mpr ((ends_read _).mpr ?_)
      rw [hcleaned.idle]
      refine ends_ite (fun hidle => ?_) fun hidle => ?_
      · have hidle := hidle.symm.trans hcurrent
        refine preempt_idle_preempts hcleaned hcurrent hidle ?_ budget
        unfold State.savesTo
        rw [hcurrent]
        exact if_pos hidle
      · refine hcleaned.ends_read ?_
        rw [hcurrent]
        refine preempt_task_preempts hcleaned hcurrent ?_ budget
        rw [← hcurrent]
        exact fun heq => hidle heq.symm

end Scheduler

theorem onTimerInterrupt_preempts (frame : ExceptionContext) (budget : Nat)
    (before : State) :
    (onTimerInterrupt budget frame).Ends (Preempts before frame) before := by
  have ticking : Timer.onInterrupt.Keeps (Undisturbed before) :=
    keeps_write fun _ h => { h with }
  refine ticking.ends_bind (Undisturbed.refl before) fun _ first hfirst => ?_
  refine ends_bind.mpr ((Scheduler.updateSleepingTasks_undisturbed hfirst
    budget).weaken fun _ second hsecond => ?_)
  exact Scheduler.preempt_preempts hsecond budget

theorem savesTo_eq_some {task : TaskRef} (h : before.savesTo = some task) :
    before.currentTask = some task ∧ before.idleTask ≠ some task := by
  unfold State.savesTo at h
  split at h
  · cases h
  · rename_i current hcurrent
    split at h
    · cases h
    · split at h
      · obtain rfl := Option.some.inj h
        exact ⟨hcurrent, ‹_›⟩
      · cases h

theorem interruptedBy_cases (state : State) (frame : ExceptionContext) :
    state.savesTo = none ∧ state.interruptedBy frame = state ∨
      ∃ task, state.savesTo = some task ∧
        state.interruptedBy frame = Scheduler.withContext state task frame := by
  unfold State.interruptedBy
  cases state.savesTo with
  | none => exact .inl ⟨rfl, rfl⟩
  | some task => exact .inr ⟨task, rfl, rfl⟩

theorem interruptedBy_currentTask (state : State) (frame : ExceptionContext) :
    (state.interruptedBy frame).currentTask = state.currentTask := by
  rcases interruptedBy_cases state frame with ⟨_, h⟩ | ⟨_, _, h⟩
  · rw [h]
  · rw [h]
    rfl

theorem interruptedBy_launchContext (state : State)
    (frame : ExceptionContext) :
    (state.interruptedBy frame).launchContext = state.launchContext := by
  rcases interruptedBy_cases state frame with ⟨_, h⟩ | ⟨_, _, h⟩
  · rw [h]
  · rw [h]
    rfl

theorem interruptedBy_idleTask (state : State) (frame : ExceptionContext) :
    (state.interruptedBy frame).idleTask = state.idleTask := by
  rcases interruptedBy_cases state frame with ⟨_, h⟩ | ⟨_, _, h⟩
  · rw [h]
  · rw [h]
    rfl

theorem interruptedBy_context {state : State} {task : TaskRef}
    (h : state.savesTo ≠ some task) (frame : ExceptionContext) :
    ((state.interruptedBy frame).tasks task).cpuContext =
      (state.tasks task).cpuContext := by
  rcases interruptedBy_cases state frame with ⟨_, hsame⟩ | ⟨other, hother, hset⟩
  · rw [hsame]
  · rw [hset]
    unfold Scheduler.withContext
    rw [State.setTask_of_ne]
    exact fun heq => h (hother.trans (congrArg some heq.symm))

theorem interruptedBy_stack (state : State) (frame : ExceptionContext)
    (task : TaskRef) :
    ((state.interruptedBy frame).tasks task).stackBase =
        (state.tasks task).stackBase ∧
      ((state.interruptedBy frame).tasks task).stackSize =
        (state.tasks task).stackSize := by
  rcases interruptedBy_cases state frame with ⟨_, hsame⟩ | ⟨other, _, hset⟩
  · rw [hsame]
    exact ⟨rfl, rfl⟩
  · rw [hset]
    unfold Scheduler.withContext
    by_cases heq : task = other
    · subst task
      rw [State.setTask_self]
      exact ⟨rfl, rfl⟩
    · rw [State.setTask_of_ne _ _ _ _ heq]
      exact ⟨rfl, rfl⟩

end

end Planetoid.Task
