import Planetoid.Base.Runs
import Planetoid.Task.Launch

namespace Planetoid.Task

open Planetoid Program Links Arch

/-! Runs of uninterrupted scheduler operations. -/

inductive Operation where
  | addTask (task : TaskRef)
  | start
  | yield
  | preempt (context : ExceptionContext)
  | sleep (ticks : Nat)
  | updateSleepingTasks
  | blockCurrent (queue : QueueRef)
  | wakeOne (queue : QueueRef)
  | wakeAll (queue : QueueRef)
  | terminateCurrent

/-- What an operation finds outside the scheduler: the registers of the core
and the address of `.Lresume`. -/
structure Entry where
  registers : Registers
  resume : Nat

/-- The rest of an operation after its scheduler function chose the next
task. -/
def Entry.finish (entry : Entry) (exit : Exit) : Sched Unit := do
  let _ ← Arch.finish entry.resume entry.registers exit
  pure ()

def Operation.program (operation : Operation) (entry : Entry)
    (budget : Nat) : Sched Unit :=
  match operation with
  | .addTask task => Scheduler.addTask (some task)
  | .start => Scheduler.start >>= entry.finish
  | .yield => Scheduler.yield budget >>= entry.finish
  | .preempt context => do
    let _ ← Scheduler.preempt budget context
    pure ()
  | .sleep ticks => Scheduler.sleep budget ticks >>= entry.finish
  | .updateSleepingTasks => Scheduler.updateSleepingTasks budget
  | .blockCurrent queue =>
    WaitQueue.blockCurrent budget (some queue) >>= entry.finish
  | .wakeOne queue => WaitQueue.wakeOne (some queue)
  | .wakeAll queue => WaitQueue.wakeAll budget (some queue)
  | .terminateCurrent => do
    match ← Scheduler.terminateCurrent budget with
    | none => pure ()
    | some exit => entry.finish exit

/-- The scheduler's state and the history of the run: the tasks added and not
yet terminated, the tasks terminated, the tasks that blocked on each queue and
were not yet woken, and whether `start` was called. -/
structure History where
  state : State
  live : List TaskRef
  terminated : List TaskRef
  waiting : QueueRef → List TaskRef
  started : Bool

def History.Runs (history : History) (task : TaskRef) : Prop :=
  history.state.currentTask = some task ∧ task ∈ history.live

/-- Who issues which operation: the operations on the current task are issued
by the running task of the ring, `start` is called once. -/
def Operation.Issued (history : History) : Operation → Prop
  | .addTask task => task ∉ history.live
  | .start => history.started = false
  | .yield | .sleep _ | .blockCurrent _ | .terminateCurrent =>
    ∃ task, history.Runs task
  | .preempt _ | .updateSleepingTasks | .wakeOne _ | .wakeAll _ => True

/-- A task given to `add_task` was not terminated before and is not the idle
task. -/
def Operation.AddsFresh (history : History) : Operation → Prop
  | .addTask task => task ∉ history.terminated ∧
    history.state.idleTask ≠ some task
  | _ => True

def Operation.record (history : History) (after : State) :
    Operation → History
  | .addTask task =>
    { history with state := after, live := task :: history.live }
  | .start => { history with state := after, started := true }
  | .blockCurrent queue => match history.state.currentTask with
    | none => { history with state := after }
    | some task => { history with
      state := after
      waiting := Function.update history.waiting queue
        (history.waiting queue ++ [task]) }
  | .wakeOne queue => { history with
      state := after
      waiting := Function.update history.waiting queue
        (history.waiting queue).tail }
  | .wakeAll queue => { history with
      state := after
      waiting := Function.update history.waiting queue [] }
  | .terminateCurrent => match history.state.currentTask with
    | none => { history with state := after }
    | some task => { history with
      state := after
      live := history.live.erase task
      terminated := task :: history.terminated }
  | _ => { history with state := after }

def runs : System History Operation where
  initial history := ∃ before launch idle,
    before.kfreed = [] ∧
    (∀ queue, before.queues queue = { head := none, tail := none }) ∧
    (Scheduler.init (some launch) (some idle)).run before =
      .ok ((), history.state) ∧
    history.live = [] ∧ history.terminated = [] ∧
    (∀ queue, history.waiting queue = []) ∧ history.started = false
  step history operation next := operation.Issued history ∧
    ∃ entry budget after, (operation.program entry budget).run history.state =
      .ok ((), after) ∧ next = operation.record history after

/-! What the operations leave as it was. -/

structure Outcome (before : State) (previous : TaskRef)
    (result : Exit × State) : Prop extends SameGlobals before result.2 where
  kfreed : result.2.kfreed = before.kfreed
  exit : result = (.returned, before) ∨
    ∃ next, result.1 = .switched previous next ∧
      result.2.currentTask = some next

namespace Scheduler

theorem dispatch_outcome {before state : State} (previous next : TaskRef)
    (same : SameGlobals before state) (kfreed : state.kfreed = before.kfreed) :
    Outcome before previous (.switched previous next, dispatch state next) :=
  ⟨same.trans (dispatch_sameLinks state next).toSameGlobals, kfreed,
    .inr ⟨next, rfl, rfl⟩⟩

theorem yieldEffect_outcome (state : State) (layout : Layout)
    (current : TaskRef) :
    Outcome state current (yieldEffect state layout current) := by
  simp only [yieldEffect]
  split
  · exact ⟨SameGlobals.refl state, rfl, .inl rfl⟩
  · exact dispatch_outcome current _ ⟨rfl, rfl, rfl, rfl⟩ rfl

theorem switchEffect_outcome {before state : State} (layout : Layout)
    (previous idle : TaskRef) (same : SameGlobals before state)
    (kfreed : state.kfreed = before.kfreed) :
    Outcome before previous (switchEffect state layout previous idle) := by
  simp only [switchEffect]
  split
  · exact dispatch_outcome previous _ same kfreed
  · exact dispatch_outcome previous _ same kfreed

theorem terminateEffect_outcome (state : State) (layout : Layout)
    (current idle : TaskRef) :
    ∃ exit after, terminateEffect state layout current idle =
        (some exit, after) ∧ Outcome state current (exit, after) ∧
      ∃ next, after.currentTask = some next :=
  ⟨_, _, rfl, dispatch_outcome current _
    ((retire_same ..).toSameGlobals.trans (unlink_same ..).toSameGlobals)
    ((unlink_same ..).kfreed.trans (retire_kfreed ..)), _, rfl⟩

end Scheduler

/-! Which tasks an operation may put to sleep. -/

/-- The states of a task that neither asks for the processor nor waits on a
queue. -/
def Dormant (value : EState) : Prop :=
  value = .sleeping ∨ value = .terminated

structure KeepsAwake (before after : State) (sleeper : Option TaskRef) :
    Prop where
  awake : ∀ task, sleeper ≠ some task → Dormant (stateOf after task) →
    Dormant (stateOf before task)

theorem KeepsAwake.refl (state : State) (sleeper : Option TaskRef) :
    KeepsAwake state state sleeper :=
  ⟨fun _ _ h => h⟩

theorem KeepsAwake.trans {first second third : State}
    {sleeper : Option TaskRef} (left : KeepsAwake first second sleeper)
    (right : KeepsAwake second third sleeper) :
    KeepsAwake first third sleeper :=
  ⟨fun task hne h => left.awake task hne (right.awake task hne h)⟩

theorem keepsAwake_of_eq {before after : State} {sleeper : Option TaskRef}
    (h : stateOf after = stateOf before) : KeepsAwake before after sleeper := by
  constructor
  intro task _ hdormant
  rw [h] at hdormant
  exact hdormant

theorem keepsAwake_of_ite {before after : State} {sleeper : Option TaskRef}
    {changed : TaskRef} {value : EState}
    (h : ∀ task, stateOf after task =
      if task = changed then value else stateOf before task)
    (hvalue : ¬ Dormant value ∨ sleeper = some changed) :
    KeepsAwake before after sleeper := by
  constructor
  intro task hne hdormant
  rw [h] at hdormant
  split at hdormant
  · subst task
    rcases hvalue with hawake | hsleeper
    · exact absurd hdormant hawake
    · exact absurd hsleeper hne
  · exact hdormant

namespace Scheduler

variable {state : State} {sleeper : Option TaskRef}

theorem dispatch_keepsAwake (state : State) (next : TaskRef) :
    KeepsAwake state (dispatch state next) sleeper :=
  keepsAwake_of_ite (stateOf_dispatch state next) (.inl (by simp [Dormant]))

theorem withState_keepsAwake (state : State) (task : TaskRef)
    {value : EState} (h : ¬ Dormant value) :
    KeepsAwake state (state.withState task value) sleeper :=
  keepsAwake_of_ite (fun _ => State.stateOf_withState ..) (.inl h)

theorem masked_keepsAwake (state : State) :
    KeepsAwake state state.masked sleeper :=
  keepsAwake_of_eq rfl

theorem yieldEffect_keepsAwake (state : State) (layout : Layout)
    (current : TaskRef) :
    KeepsAwake state (yieldEffect state layout current).2 sleeper := by
  simp only [yieldEffect]
  split
  · exact KeepsAwake.refl ..
  · have paused : KeepsAwake state (state.masked.withState current .ready)
        sleeper :=
      (masked_keepsAwake state).trans
        (withState_keepsAwake _ current (by simp [Dormant]))
    exact paused.trans (dispatch_keepsAwake _ _)

theorem switchEffect_keepsAwake (state : State) (layout : Layout)
    (previous idle : TaskRef) :
    KeepsAwake state (switchEffect state layout previous idle).2 sleeper := by
  simp only [switchEffect]
  split <;> exact dispatch_keepsAwake _ _

theorem asleep_keepsAwake (state : State) (current : TaskRef) (ticks : Nat) :
    KeepsAwake state (asleep state current ticks) (some current) :=
  keepsAwake_of_ite (fun _ => stateOf_asleep ..) (.inr rfl)

theorem terminateEffect_keepsAwake (state : State) (layout : Layout)
    (current idle : TaskRef) :
    KeepsAwake state (terminateEffect state layout current idle).2 sleeper :=
  (keepsAwake_of_eq (retired_states state layout current)).trans
    (dispatch_keepsAwake _ _)

theorem addTaskEffect_keepsAwake (state : State) (task : TaskRef) :
    KeepsAwake state (addTaskEffect state task) sleeper := by
  have added : KeepsAwake state (state.masked.withState task .ready)
      sleeper :=
    (masked_keepsAwake state).trans
      (withState_keepsAwake _ task (by simp [Dormant]))
  have linked : KeepsAwake (state.masked.withState task .ready)
      (linkIn (state.masked.withState task .ready) task) sleeper :=
    keepsAwake_of_eq (linkIn_same ..).states
  exact added.trans ⟨linked.awake⟩

theorem wakeSleepers_keepsAwake (state : State) (ring : List TaskRef) :
    KeepsAwake state (wakeSleepers state ring) sleeper := by
  constructor
  intro task _ hdormant
  unfold wakeSleepers at hdormant
  rw [stateOf_wakeAll] at hdormant
  split at hdormant
  · exact absurd hdormant (by simp [Dormant])
  · exact hdormant

theorem preemptIdle_keepsAwake (state : State) (ring : List TaskRef)
    (context : ExceptionContext) :
    KeepsAwake state (preemptIdle state ring context).2 sleeper := by
  unfold preemptIdle
  split
  · exact KeepsAwake.refl ..
  · exact dispatch_keepsAwake _ _

theorem preemptTask_keepsAwake (state : State) (ring : List TaskRef)
    (current : TaskRef) (context : ExceptionContext) :
    KeepsAwake state (preemptTask state ring current context).2 sleeper := by
  have paused : KeepsAwake state (paused state current context) sleeper :=
    keepsAwake_of_ite (fun _ => stateOf_paused ..)
      (.inl (by simp [Dormant]))
  simp only [preemptTask]
  split
  · exact paused.trans (withState_keepsAwake _ _ (by simp [Dormant]))
  · exact paused.trans (dispatch_keepsAwake _ _)

theorem preemptEffect_keepsAwake (state : State) (layout : Layout)
    (context : ExceptionContext) :
    KeepsAwake state (preemptEffect state layout context).2 sleeper := by
  have cleaned : KeepsAwake state (cleanupEffect state layout.pending)
      sleeper := keepsAwake_of_eq (cleanupEffect_same ..).states
  unfold preemptEffect
  split
  · exact KeepsAwake.refl ..
  · simp only
    split
    · exact cleaned.trans (preemptIdle_keepsAwake _ _ _)
    · exact cleaned.trans (preemptTask_keepsAwake _ _ _ _)

end Scheduler

namespace WaitQueue

theorem join_keepsAwake (state : State) (queue : QueueRef) (task : TaskRef)
    {sleeper : Option TaskRef} :
    KeepsAwake state (join state queue task) sleeper :=
  keepsAwake_of_ite (stateOf_join state queue task)
    (.inl (by simp [Dormant]))

theorem wake_keepsAwake (state : State) (queue : QueueRef) (task : TaskRef)
    {sleeper : Option TaskRef} :
    KeepsAwake state (wake state queue task) sleeper :=
  keepsAwake_of_ite (stateOf_wake state queue task)
    (.inl (by simp [Dormant]))

theorem wakeOneEffect_same (state : State) (queue : QueueRef)
    (tasks : List TaskRef) :
    SameButWait state (wakeOneEffect state queue tasks) ∧
      KeepsAwake state (wakeOneEffect state queue tasks) none := by
  cases tasks with
  | nil => exact ⟨⟨SameGlobals.refl state, rfl, rfl, rfl, rfl, rfl, rfl, rfl⟩,
      KeepsAwake.refl ..⟩
  | cons first rest => exact ⟨wake_same .., wake_keepsAwake state queue first⟩

theorem SameButWait.trans {first second third : State}
    (left : SameButWait first second) (right : SameButWait second third) :
    SameButWait first third where
  toSameGlobals := left.toSameGlobals.trans right.toSameGlobals
  next := right.next.trans left.next
  cleanup := right.cleanup.trans left.cleanup
  currentTask := right.currentTask.trans left.currentTask
  taskList := right.taskList.trans left.taskList
  pendingHead := right.pendingHead.trans left.pendingHead
  pendingTail := right.pendingTail.trans left.pendingTail
  kfreed := right.kfreed.trans left.kfreed

theorem wakeAllEffect_same (queue : QueueRef) (tasks : List TaskRef)
    (state : State) :
    SameButWait state (wakeAllEffect state queue tasks) ∧
      KeepsAwake state (wakeAllEffect state queue tasks) none := by
  induction tasks generalizing state with
  | nil => exact ⟨⟨SameGlobals.refl state, rfl, rfl, rfl, rfl, rfl, rfl, rfl⟩,
      KeepsAwake.refl ..⟩
  | cons first rest ih =>
      obtain ⟨same, keeps⟩ := ih (wake state queue first)
      exact ⟨SameButWait.trans (wake_same state queue first) same,
        (wake_keepsAwake state queue first).trans keeps⟩

end WaitQueue

theorem WellFormed.valid_current {state : State} {layout : Layout}
    (wellFormed : WellFormed state layout) {task : TaskRef}
    (h : state.currentTask = some task) : state.Valid task := by
  rcases wellFormed.current task h with hring | hidle
  · exact wellFormed.valid_ring task hring
  · obtain ⟨idle, hother, _, _, hvalid⟩ := wellFormed.idle
    cases hidle.symm.trans hother
    exact hvalid

def finishEffect (entry : Entry) (result : Exit × State) : State :=
  match result.1 with
  | .returned => result.2
  | .switched previous _ =>
      switchState entry.resume entry.registers result.2 previous

theorem run_finish {before : State} {layout : Layout} {previous : TaskRef}
    {result : Exit × State} (outcome : Outcome before previous result)
    (wellFormed : WellFormed result.2 layout) (valid : before.Valid previous)
    (entry : Entry) :
    (entry.finish result.1).run result.2 =
      .ok ((), finishEffect entry result) := by
  rcases outcome.exit with returned | ⟨next, switched, hcurrent⟩
  · subst returned
    rfl
  · have hprevious : result.2.Valid previous := by
      unfold State.Valid
      rw [outcome.kfreed]
      exact valid
    have hnext := wellFormed.valid_current hcurrent
    unfold finishEffect
    rw [switched]
    exact run_bind_ok (run_taskSwitch hprevious hnext entry.resume
      entry.registers) _

theorem finish_returns {before : State} {layout : Layout}
    {previous : TaskRef} {result : Exit × State} {need : Nat}
    {program : Nat → Sched Exit}
    (returns : Returns .budgetExhausted program before need result)
    (outcome : Outcome before previous result)
    (wellFormed : WellFormed result.2 layout) (valid : before.Valid previous)
    (entry : Entry) :
    Returns .budgetExhausted (fun budget => program budget >>= entry.finish)
      before need ((), finishEffect entry result) :=
  returns.bind (returns_of_run (run_finish outcome wellFormed valid entry)
    need)

theorem finishEffect_wellFormed {layout : Layout} {result : Exit × State}
    (wellFormed : WellFormed result.2 layout) (entry : Entry) :
    WellFormed (finishEffect entry result) layout := by
  unfold finishEffect
  split
  · exact wellFormed
  · exact switchState_wellFormed wellFormed ..

theorem finishEffect_kfreed (entry : Entry) (result : Exit × State) :
    (finishEffect entry result).kfreed = result.2.kfreed := by
  unfold finishEffect
  split <;> rfl

theorem finishEffect_currentTask (entry : Entry) (result : Exit × State) :
    (finishEffect entry result).currentTask = result.2.currentTask := by
  unfold finishEffect
  split <;> rfl

theorem stateOf_finishEffect (entry : Entry) (result : Exit × State) :
    stateOf (finishEffect entry result) = stateOf result.2 := by
  unfold finishEffect
  split
  · rfl
  · exact stateOf_switchState ..

theorem finishEffect_same (entry : Entry) (result : Exit × State) :
    SameGlobals result.2 (finishEffect entry result) := by
  unfold finishEffect
  split
  · exact SameGlobals.refl _
  · exact (switchState_sameLinks ..).toSameGlobals

end Planetoid.Task
