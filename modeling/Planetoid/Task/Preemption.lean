import Planetoid.Task.Termination

namespace Planetoid.Task

open Planetoid Program Links

/-! The timer's preemption: cleanup of a terminated task, then the switch of
the interrupted register frame. -/

def Layout.reaped (layout : Layout) : Layout :=
  { layout with pending := layout.pending.tail }

@[simp] theorem Layout.reaped_ring (layout : Layout) :
    layout.reaped.ring = layout.ring := rfl

namespace Scheduler

/-- The state after the first task of the cleanup list was freed. -/
def reap (state : State) (task : TaskRef) : State :=
  ((state.withPending (cleanupOf state task)
      (if cleanupOf state task = none then none
        else state.pendingCleanupTail)).withCleanup task none).withKfreed
    [.state task, .stack (state.tasks task).stackBase]

def cleanupEffect (state : State) (pending : List TaskRef) : State :=
  match pending with
  | [] => state
  | first :: _ => reap state first

theorem run_cleanup {state : State} {pending : List TaskRef}
    (queue : Queue (cleanupOf state) state.pendingCleanupHead
      state.pendingCleanupTail pending)
    (valid : ∀ task, task ∈ pending → state.Valid task) :
    cleanupTerminatedTask.run state =
      .ok ((), cleanupEffect state pending) := by
  cases pending with
  | nil =>
      have hnone : state.pendingCleanupHead = none := queue.head_eq
      simp [cleanupTerminatedTask, cleanupEffect, hnone]
  | cons first rest =>
      have hsome : state.pendingCleanupHead = some first := queue.head_eq
      have hfirst := valid first (by simp)
      cases hnext : (state.tasks first).cleanupNext with
      | none =>
          simp [cleanupTerminatedTask, cleanupEffect, hsome, hfirst, hnext]
          simp [reap, cleanupOf, hnext]
          rfl
      | some second =>
          simp [cleanupTerminatedTask, cleanupEffect, hsome, hfirst, hnext]
          simp [reap, cleanupOf, hnext]
          rfl

theorem cleanupEffect_same (state : State) (pending : List TaskRef) :
    SameButCleanup state (cleanupEffect state pending) := by
  unfold cleanupEffect
  split
  · exact ⟨SameGlobals.refl state, rfl, rfl, rfl, rfl, rfl, rfl⟩
  · exact ⟨⟨rfl, rfl, rfl, rfl⟩, nextOf_withCleanup ..,
      waitOf_withCleanup .., stateOf_withCleanup .., rfl, rfl, rfl⟩

theorem cleanupEffect_valid {state : State} {pending : List TaskRef}
    {task : TaskRef} (valid : state.Valid task)
    (hother : pending.head? ≠ some task) :
    (cleanupEffect state pending).Valid task := by
  cases pending with
  | nil => exact valid
  | cons first rest =>
      have hne : task ≠ first := by
        rintro rfl
        exact hother rfl
      simp [cleanupEffect, reap, State.Valid, State.withKfreed, hne]
      exact valid

theorem cleanupEffect_pending {state : State} {pending : List TaskRef}
    (queue : Queue (cleanupOf state) state.pendingCleanupHead
      state.pendingCleanupTail pending) :
    Queue (cleanupOf (cleanupEffect state pending))
      (cleanupEffect state pending).pendingCleanupHead
      (cleanupEffect state pending).pendingCleanupTail pending.tail := by
  cases pending with
  | nil => exact queue
  | cons first rest =>
      have hfresh := (List.nodup_cons.mp queue.linked.nodup).1
      have hpopped := queue.pop
      have hlinks : cleanupOf (cleanupEffect state (first :: rest)) =
          Function.update (cleanupOf state) first none :=
        cleanupOf_withCleanup ..
      rw [hlinks]
      apply hpopped.congr
      intro node hnode
      exact Function.update_of_ne (by rintro rfl; exact hfresh hnode) ..

theorem cleanupEffect_shape {state : State} {layout : Layout}
    (shape : Shape state layout) :
    Shape (cleanupEffect state layout.pending) layout.reaped where
  ring := by
    rw [(cleanupEffect_same ..).next, (cleanupEffect_same ..).taskList]
    exact shape.ring
  ring_nodup := shape.ring_nodup
  pending := cleanupEffect_pending shape.pending
  pending_ring := fun task hmem =>
    shape.pending_ring task (List.mem_of_mem_tail hmem)
  waiting := by
    intro queue
    rw [(cleanupEffect_same ..).wait, (cleanupEffect_same ..).queues]
    exact shape.waiting queue
  waiting_unique := shape.waiting_unique
  waiting_ring := shape.waiting_ring
  blocked_iff := by
    intro task hmem
    rw [(cleanupEffect_same ..).states]
    exact shape.blocked_iff task hmem
  idle := by
    obtain ⟨idle, hidle, hring, hpending, hvalid⟩ := shape.idle
    refine ⟨idle, (cleanupEffect_same ..).idleTask.trans hidle, hring,
      fun hmem => hpending (List.mem_of_mem_tail hmem),
      cleanupEffect_valid hvalid ?_⟩
    exact fun hhead => hpending (List.mem_of_head? hhead)
  valid_ring := by
    intro task hmem
    refine cleanupEffect_valid (shape.valid_ring task hmem) ?_
    exact fun hhead =>
      shape.pending_ring task (List.mem_of_head? hhead) hmem
  valid_pending := by
    intro task hmem
    have hnodup := shape.pending.linked.nodup
    refine cleanupEffect_valid
      (shape.valid_pending task (List.mem_of_mem_tail hmem)) ?_
    intro hhead
    cases hpending : layout.pending with
    | nil => simp [hpending] at hhead
    | cons first rest =>
        rw [hpending] at hnodup
        obtain rfl : first = task := by simpa [hpending] using hhead
        exact (List.nodup_cons.mp hnodup).1 (by
          simpa [Layout.reaped, hpending] using hmem)

theorem cleanupEffect_wellFormed {state : State} {layout : Layout}
    (wellFormed : WellFormed state layout) :
    WellFormed (cleanupEffect state layout.pending)
      layout.reaped where
  toShape := cleanupEffect_shape wellFormed.toShape
  running_iff := by
    intro task hmem
    rw [(cleanupEffect_same ..).states, (cleanupEffect_same ..).currentTask]
    exact wellFormed.running_iff task hmem
  current := by
    rw [(cleanupEffect_same ..).currentTask, (cleanupEffect_same ..).idleTask]
    exact wellFormed.current
  unstarted := by
    rw [(cleanupEffect_same ..).currentTask]
    unfold isReady
    rw [(cleanupEffect_same ..).states]
    exact wellFormed.unstarted

def withContext (state : State) (task : TaskRef)
    (context : ExceptionContext) : State :=
  state.setTask task fun fields => { fields with
    cpuContext := {
      x := copyRegisters context.x fields.cpuContext.x
      sp := context.sp
      pc := context.elr
      pstate := context.spsr } }

def restored (state : State) (task : TaskRef) (context : ExceptionContext) :
    ExceptionContext :=
  { context with
    x := copyRegisters (state.tasks task).cpuContext.x context.x
    sp := (state.tasks task).cpuContext.sp
    elr := (state.tasks task).cpuContext.pc
    spsr := (state.tasks task).cpuContext.pstate }

theorem withContext_sameLinks (state : State) (task : TaskRef)
    (context : ExceptionContext) :
    SameLinks state (withContext state task context) :=
  sameLinks_setTask state task (fun _ => rfl) (fun _ => rfl) (fun _ => rfl)

theorem stateOf_withContext (state : State) (task : TaskRef)
    (context : ExceptionContext) :
    stateOf (withContext state task context) = stateOf state :=
  view_setTask fun _ => rfl

theorem run_restoreContext {state : State} {task : TaskRef}
    (valid : state.Valid task) (context : ExceptionContext) :
    (restoreContext task context).run state =
      .ok (restored state task context, state) := by
  simp [restoreContext, valid]
  rfl

def paused (state : State) (task : TaskRef) (context : ExceptionContext) :
    State :=
  (withContext state task context).withState task .ready

theorem paused_sameLinks (state : State) (task : TaskRef)
    (context : ExceptionContext) :
    SameLinks state (paused state task context) :=
  (withContext_sameLinks ..).trans (State.withState_sameLinks ..)

theorem stateOf_paused (state : State) (task other : TaskRef)
    (context : ExceptionContext) :
    stateOf (paused state task context) other =
      if other = task then .ready else stateOf state other := by
  unfold paused
  rw [State.stateOf_withState, stateOf_withContext]

def preemptIdle (state : State) (ring : List TaskRef)
    (context : ExceptionContext) : ExceptionContext × State :=
  match ring.find? (isReady state) with
  | none => (context, state)
  | some next =>
      (restored (dispatch state next) next context, dispatch state next)

def preemptTask (state : State) (ring : List TaskRef) (current : TaskRef)
    (context : ExceptionContext) : ExceptionContext × State :=
  let saved := paused state current context
  let next := firstReady saved (rotation ring current) current
  if next = current then (context, saved.withState current .running)
  else (restored (dispatch saved next) next context, dispatch saved next)

def preemptEffect (state : State) (layout : Layout)
    (context : ExceptionContext) : ExceptionContext × State :=
  match state.currentTask with
  | none => (context, state)
  | some current =>
      let cleaned := cleanupEffect state layout.pending
      if state.idleTask = some current then
        preemptIdle cleaned layout.ring context
      else preemptTask cleaned layout.ring current context

theorem run_saveContext_bind {state : State} {task : TaskRef}
    (valid : state.Valid task) (context : ExceptionContext)
    (next : Unit → Sched β) :
    (saveContext task context >>= next).run state =
      (next ()).run (withContext state task context) :=
  run_store_bind valid _ next

theorem preempt_idle_returns {state : State} {layout : Layout}
    (wellFormed : WellFormed state layout) {current : TaskRef}
    (hcurrent : state.currentTask = some current)
    (hidle : state.idleTask = some current) (context : ExceptionContext) :
    Returns .budgetExhausted (fun budget => preempt budget context) state
      layout.ring.length (preemptIdle (cleanupEffect state layout.pending)
        layout.ring context) := by
  have hcleanup := run_cleanup wellFormed.pending wellFormed.valid_pending
  have cleaned := cleanupEffect_wellFormed wellFormed
  have same := cleanupEffect_same state layout.pending
  generalize cleanupEffect state layout.pending = after at *
  have hcurrentAfter := same.currentTask.trans hcurrent
  have hidleAfter := same.idleTask.trans hidle
  intro budget
  rcases scanFromIdle_returns cleaned.ring cleaned.ring_nodup
    cleaned.valid_ring budget with ended | ⟨hle, failed⟩
  · left
    unfold preemptIdle
    cases hfind : layout.ring.find? (isReady after) with
    | none =>
        have ended' : (scanFromIdle budget after.taskList).run after =
            .ok (none, after) := by
          rw [← hfind]
          exact ended
        simp [preempt, hcurrent, run_bind_ok hcleanup, hcurrentAfter,
          hidleAfter, run_bind_ok ended']
    | some next =>
        have ended' : (scanFromIdle budget after.taskList).run after =
            .ok (some next, after) := by
          rw [← hfind]
          exact ended
        have hvalid : after.Valid next := cleaned.valid_ring next
          (List.mem_of_find?_eq_some hfind)
        have hrestore := @run_restoreContext (dispatch after next) next
          hvalid context
        simp [preempt, hcurrent, run_bind_ok hcleanup, hcurrentAfter,
          hidleAfter, run_bind_ok ended', hvalid]
        exact hrestore
  · right
    refine ⟨hle, ?_⟩
    simp [preempt, hcurrent, run_bind_ok hcleanup, hcurrentAfter, hidleAfter,
      run_bind_error failed]

theorem preempt_task_returns {state : State} {layout : Layout}
    (wellFormed : WellFormed state layout) {current : TaskRef}
    (hcurrent : state.currentTask = some current)
    (hring : current ∈ layout.ring) (context : ExceptionContext) :
    Returns .budgetExhausted (fun budget => preempt budget context) state
      layout.ring.length (preemptTask (cleanupEffect state layout.pending)
        layout.ring current context) := by
  have hcleanup := run_cleanup wellFormed.pending wellFormed.valid_pending
  have cleaned := cleanupEffect_wellFormed wellFormed
  have same := cleanupEffect_same state layout.pending
  generalize cleanupEffect state layout.pending = after at *
  have hcurrentAfter := same.currentTask.trans hcurrent
  have hidleAfter : ¬ some current = after.idleTask := by
    intro hsame
    obtain ⟨idle, hidle, hfresh, _⟩ := cleaned.idle
    cases hsame.trans hidle
    exact hfresh hring
  have hvalid : after.Valid current := cleaned.valid_ring current hring
  have hrunning : (after.tasks current).state = .running :=
    (cleaned.running_iff current hring).mpr hcurrentAfter
  have hpausedCurrent : (paused after current context).currentTask =
      some current := hcurrentAfter
  have shape : Shape (paused after current context) layout.reaped :=
    (cleaned.pause hcurrentAfter hring
      (paused_sameLinks after current context)
      (by rw [stateOf_paused]; simp)
      (fun task hne => by rw [stateOf_paused, if_neg hne])).1
  have hvalidSaved : (withContext after current context).Valid current :=
    hvalid
  have hvalidPaused : (paused after current context).Valid current := hvalid
  intro budget
  have hsearch : (preempt budget context).run state =
      (scanReady budget (read (·.currentTask))
        ((paused after current context).tasks current).nextTask >>=
        fun next => do
          if next = (← read (·.currentTask)) then do
            setState current .running
            pure context
          else do
            let next ← deref next
            setState next .running
            setCurrentTask (some next)
            restoreContext next context).run
        (paused after current context) := by
    simp [preempt, hcurrent, run_bind_ok hcleanup, hcurrentAfter, hidleAfter,
      hvalid, hrunning, run_saveContext_bind, hvalidSaved]
    rfl
  rw [hsearch]
  rcases shape.scanReady_cases hring (run_read_eq hpausedCurrent) budget
    with ended | ⟨hle, failed⟩
  · left
    rw [Layout.reaped_ring] at ended
    rw [run_bind_ok ended]
    unfold preemptTask
    rcases shape.firstReady_cases hring with
      ⟨hnone, _⟩ | ⟨next, hnext, hmem, hne, _⟩
    · rw [Layout.reaped_ring] at hnone
      simp [hnone, hpausedCurrent, hvalidPaused]
    · have hvalidNext := shape.valid_ring next hmem
      have hrestore := @run_restoreContext
        (dispatch (paused after current context) next) next hvalidNext context
      rw [Layout.reaped_ring] at hnext
      simp [hnext, hpausedCurrent, hne, hvalidNext]
      exact hrestore
  · exact .inr ⟨hle, run_bind_error failed _⟩

theorem preempt_returns {state : State} {layout : Layout}
    (wellFormed : WellFormed state layout) (context : ExceptionContext) :
    Returns .budgetExhausted (fun budget => preempt budget context) state
      layout.ring.length (preemptEffect state layout context) := by
  unfold preemptEffect
  cases hcurrent : state.currentTask with
  | none =>
      intro budget
      exact .inl (by simp [preempt, hcurrent])
  | some current =>
      by_cases hidle : state.idleTask = some current
      · simp only [if_pos hidle]
        exact preempt_idle_returns wellFormed hcurrent hidle context
      · simp only [if_neg hidle]
        rcases wellFormed.current current hcurrent with hring | hisIdle
        · exact preempt_task_returns wellFormed hcurrent hring context
        · exact absurd hisIdle hidle

theorem preemptIdle_wellFormed {state : State} {layout : Layout}
    (wellFormed : WellFormed state layout) {idle : TaskRef}
    (hcurrent : state.currentTask = some idle)
    (hidle : state.idleTask = some idle) (context : ExceptionContext) :
    WellFormed (preemptIdle state layout.ring context).2 layout := by
  have noneRunning : NoneRunning state layout := by
    intro task hring hrunning
    have hsame := (wellFormed.running_iff task hring).mp hrunning
    obtain ⟨other, hother, hfresh, _⟩ := wellFormed.idle
    cases hsame.symm.trans (hcurrent.trans (hidle.symm.trans hother))
    exact hfresh hring
  unfold preemptIdle
  cases hfind : layout.ring.find? (isReady state) with
  | none => exact wellFormed
  | some next =>
      exact wellFormed.dispatch noneRunning (List.mem_of_find?_eq_some hfind)
        (List.find?_some hfind)

theorem preemptTask_wellFormed {state : State} {layout : Layout}
    (wellFormed : WellFormed state layout) {current : TaskRef}
    (hcurrent : state.currentTask = some current)
    (hring : current ∈ layout.ring) (context : ExceptionContext) :
    WellFormed (preemptTask state layout.ring current context).2 layout := by
  obtain ⟨shape, noneRunning⟩ := wellFormed.pause hcurrent hring
    (paused_sameLinks state current context)
    (by rw [stateOf_paused]; simp)
    (fun task hne => by rw [stateOf_paused, if_neg hne])
  unfold preemptTask
  rcases shape.firstReady_cases hring with
    ⟨hnone, _⟩ | ⟨next, hnext, hmem, hne, hready⟩
  · -- no other task is Ready, so the interrupted one runs on
    have hstates : ∀ task, stateOf ((paused state current context).withState
        current .running) task =
        if task = current then .running else stateOf state task := by
      intro task
      rw [State.stateOf_withState]
      split
      · rfl
      · rename_i hne
        rw [stateOf_paused, if_neg hne]
    have same := (paused_sameLinks state current context).trans
      (State.withState_sameLinks _ current .running)
    have hrunning := (wellFormed.running_iff current hring).mpr hcurrent
    have hkept : ∀ task, stateOf ((paused state current context).withState
        current .running) task = stateOf state task := by
      intro task
      rw [hstates]
      split
      · subst task
        exact hrunning.symm
      · rfl
    simp only [hnone, if_pos]
    refine ⟨wellFormed.restate same ?_, ?_, ?_, ?_⟩
    · intro task _
      rw [hkept]
    · intro task htask
      rw [hkept]
      exact wellFormed.running_iff task htask
    · exact wellFormed.current
    · intro hnone
      exact absurd (hcurrent.symm.trans hnone) (by simp)
  · simp only [hnext, if_neg hne]
    exact shape.dispatch noneRunning hmem hready

/-- The layout after `preempt`, which frees a terminated task once the
scheduler was started. -/
def preemptLayout (state : State) (layout : Layout) : Layout :=
  if state.currentTask = none then layout else layout.reaped

@[simp] theorem preemptLayout_ring (state : State) (layout : Layout) :
    (preemptLayout state layout).ring = layout.ring := by
  unfold preemptLayout
  split <;> rfl

theorem preemptEffect_wellFormed {state : State} {layout : Layout}
    (wellFormed : WellFormed state layout) (context : ExceptionContext) :
    WellFormed (preemptEffect state layout context).2
      (preemptLayout state layout) := by
  have cleaned := cleanupEffect_wellFormed wellFormed
  have same := cleanupEffect_same state layout.pending
  unfold preemptEffect preemptLayout
  cases hcurrent : state.currentTask with
  | none => exact wellFormed
  | some current =>
      have hcurrentAfter := same.currentTask.trans hcurrent
      rw [if_neg (by simp)]
      by_cases hidle : state.idleTask = some current
      · simp only [if_pos hidle]
        exact preemptIdle_wellFormed cleaned hcurrentAfter
          (same.idleTask.trans hidle) context
      · simp only [if_neg hidle]
        rcases wellFormed.current current hcurrent with hring | hisIdle
        · exact preemptTask_wellFormed cleaned hcurrentAfter hring context
        · exact absurd hisIdle hidle

end Scheduler

end Planetoid.Task
