import Planetoid.Task.Preemption

namespace Planetoid.Task

open Planetoid Program Links

/-! Blocking on a wait queue and waking from it. -/

def Layout.withWaiting (layout : Layout) (queue : QueueRef)
    (tasks : List TaskRef) : Layout :=
  { layout with waiting := Function.update layout.waiting queue tasks }

@[simp] theorem Layout.withWaiting_ring (layout : Layout) (queue : QueueRef)
    (tasks : List TaskRef) :
    (layout.withWaiting queue tasks).ring = layout.ring := rfl

@[simp] theorem Layout.withWaiting_self (layout : Layout) (queue : QueueRef)
    (tasks : List TaskRef) :
    (layout.withWaiting queue tasks).waiting queue = tasks :=
  Function.update_self ..

theorem Layout.withWaiting_of_ne (layout : Layout) {queue other : QueueRef}
    (tasks : List TaskRef) (h : other ≠ queue) :
    (layout.withWaiting queue tasks).waiting other = layout.waiting other :=
  Function.update_of_ne h ..

structure SameButWait (before after : State) : Prop
    extends SameGlobals before after where
  next : nextOf after = nextOf before
  cleanup : cleanupOf after = cleanupOf before
  currentTask : after.currentTask = before.currentTask
  taskList : after.taskList = before.taskList
  pendingHead : after.pendingCleanupHead = before.pendingCleanupHead
  pendingTail : after.pendingCleanupTail = before.pendingCleanupTail
  kfreed : after.kfreed = before.kfreed

theorem Shape.rewait {state after : State} {layout : Layout}
    (shape : Shape state layout) (same : SameButWait state after)
    {queue : QueueRef} {tasks : List TaskRef}
    (changed : Queue (waitOf after) (after.queues queue).head
      (after.queues queue).tail tasks)
    (others : ∀ other, other ≠ queue →
      Queue (waitOf after) (after.queues other).head (after.queues other).tail
        (layout.waiting other))
    (unique : ∀ other task, task ∈ tasks → task ∈ layout.waiting other →
      other = queue)
    (ring : ∀ task, task ∈ tasks → task ∈ layout.ring)
    (blocked : ∀ task, task ∈ layout.ring →
      (stateOf after task = .blocked ↔
        ∃ other, task ∈ (layout.withWaiting queue tasks).waiting other)) :
    Shape after (layout.withWaiting queue tasks) where
  ring := by
    rw [same.next, same.taskList]
    exact shape.ring
  ring_nodup := shape.ring_nodup
  pending := by
    rw [same.cleanup, same.pendingHead, same.pendingTail]
    exact shape.pending
  pending_ring := shape.pending_ring
  waiting := by
    intro other
    by_cases heq : other = queue
    · subst other
      rw [Layout.withWaiting_self]
      exact changed
    · rw [Layout.withWaiting_of_ne _ _ heq]
      exact others other heq
  waiting_unique := by
    intro first second task hfirst hsecond
    by_cases heqFirst : first = queue <;> by_cases heqSecond : second = queue
    · rw [heqFirst, heqSecond]
    · subst first
      rw [Layout.withWaiting_self] at hfirst
      rw [Layout.withWaiting_of_ne _ _ heqSecond] at hsecond
      exact (unique second task hfirst hsecond).symm
    · subst second
      rw [Layout.withWaiting_self] at hsecond
      rw [Layout.withWaiting_of_ne _ _ heqFirst] at hfirst
      exact unique first task hsecond hfirst
    · rw [Layout.withWaiting_of_ne _ _ heqFirst] at hfirst
      rw [Layout.withWaiting_of_ne _ _ heqSecond] at hsecond
      exact shape.waiting_unique first second task hfirst hsecond
  waiting_ring := by
    intro other task hmem
    by_cases heq : other = queue
    · subst other
      rw [Layout.withWaiting_self] at hmem
      exact ring task hmem
    · rw [Layout.withWaiting_of_ne _ _ heq] at hmem
      exact shape.waiting_ring other task hmem
  blocked_iff := blocked
  idle := by
    obtain ⟨idle, hidle, hfresh, hpending, hvalid⟩ := shape.idle
    refine ⟨idle, same.idleTask.trans hidle, hfresh, hpending, ?_⟩
    unfold State.Valid
    rw [same.kfreed]
    exact hvalid
  valid_ring := by
    unfold State.Valid
    rw [same.kfreed]
    exact shape.valid_ring
  valid_pending := by
    unfold State.Valid
    rw [same.kfreed]
    exact shape.valid_pending

@[simp] theorem State.setQueue_setQueue (state : State) (queue : QueueRef)
    (first second : TaskWaitQueue) :
    (state.setQueue queue first).setQueue queue second =
      state.setQueue queue second := by
  simp [State.setQueue]

theorem State.setQueue_queues (state : State) (queue : QueueRef)
    (value : TaskWaitQueue) :
    (state.setQueue queue value).queues =
      Function.update state.queues queue value := rfl

namespace WaitQueue

/-- The state after `wake_one` took `task` from the front of `queue`. -/
def wake (state : State) (queue : QueueRef) (task : TaskRef) : State :=
  ((state.setQueue queue {
      head := waitOf state task
      tail := if waitOf state task = none then none
        else (state.queues queue).tail }).withWait task none).withState
    task .ready

def wakeOneEffect (state : State) (queue : QueueRef)
    (tasks : List TaskRef) : State :=
  match tasks with
  | [] => state
  | first :: _ => wake state queue first

theorem run_wakeOne {state : State} {queue : QueueRef}
    {tasks : List TaskRef}
    (hqueue : Queue (waitOf state) (state.queues queue).head
      (state.queues queue).tail tasks)
    (valid : ∀ task, task ∈ tasks → state.Valid task) :
    (wakeOne (some queue)).run state =
      .ok ((), wakeOneEffect state queue tasks) := by
  cases tasks with
  | nil =>
      have hnone : (state.queues queue).head = none := hqueue.head_eq
      simp [wakeOne, hnone, wakeOneEffect]
  | cons first rest =>
      have hsome : (state.queues queue).head = some first := hqueue.head_eq
      have hfirst := valid first (by simp)
      cases hnext : (state.tasks first).waitNext with
      | none =>
          simp [wakeOne, hsome, hfirst, hnext, setHead, setTail, wakeOneEffect]
          simp [wake, waitOf, hnext, run_setState, hfirst]
      | some second =>
          simp [wakeOne, hsome, hfirst, hnext, setHead, setTail, wakeOneEffect]
          simp [wake, waitOf, hnext, run_setState, hfirst]

theorem wake_same (state : State) (queue : QueueRef) (task : TaskRef) :
    SameButWait state (wake state queue task) := by
  have same := State.withState_sameLinks ((state.setQueue queue {
      head := waitOf state task
      tail := if waitOf state task = none then none
        else (state.queues queue).tail }).withWait task none) task .ready
  exact ⟨⟨rfl, rfl, rfl, rfl⟩, same.next.trans (nextOf_withWait ..),
    same.cleanup.trans (cleanupOf_withWait ..), rfl, rfl, rfl, rfl, rfl⟩

theorem waitOf_wake (state : State) (queue : QueueRef) (task : TaskRef) :
    waitOf (wake state queue task) =
      Function.update (waitOf state) task none :=
  (State.withState_sameLinks ..).wait.trans (waitOf_withWait ..)

theorem stateOf_wake (state : State) (queue : QueueRef)
    (task other : TaskRef) :
    stateOf (wake state queue task) other =
      if other = task then .ready else stateOf state other := by
  unfold wake
  rw [State.stateOf_withState, stateOf_withWait]
  rfl

theorem wake_queues (state : State) (queue : QueueRef) (task : TaskRef) :
    (wake state queue task).queues = Function.update state.queues queue {
      head := waitOf state task
      tail := if waitOf state task = none then none
        else (state.queues queue).tail } := rfl

theorem wake_shape {state : State} {layout : Layout}
    (shape : Shape state layout) {queue : QueueRef} {first : TaskRef}
    {rest : List TaskRef} (hwaiting : layout.waiting queue = first :: rest) :
    Shape (wake state queue first) (layout.withWaiting queue rest) := by
  have hqueue := shape.waiting queue
  rw [hwaiting] at hqueue
  have hfresh := (List.nodup_cons.mp hqueue.linked.nodup).1
  have helsewhere : ∀ other, other ≠ queue → first ∉ layout.waiting other := by
    intro other hne hmem
    exact hne (shape.waiting_unique other queue first hmem
      (by rw [hwaiting]; simp))
  have hlinks : ∀ task, task ≠ first →
      waitOf (wake state queue first) task = waitOf state task := by
    intro task hne
    rw [waitOf_wake, Function.update_of_ne hne]
  refine shape.rewait (wake_same state queue first) ?_ ?_ ?_ ?_ ?_
  · rw [wake_queues, Function.update_self]
    apply hqueue.pop.congr
    intro task hmem
    exact hlinks task (by rintro rfl; exact hfresh hmem)
  · intro other hne
    rw [wake_queues, Function.update_of_ne hne]
    apply (shape.waiting other).congr
    intro task hmem
    exact hlinks task (by rintro rfl; exact helsewhere other hne hmem)
  · intro other task hmem hother
    exact shape.waiting_unique other queue task hother
      (by rw [hwaiting]; simp [hmem])
  · intro task hmem
    exact shape.waiting_ring queue task (by rw [hwaiting]; simp [hmem])
  · intro task hring
    rw [stateOf_wake]
    by_cases heq : task = first
    · subst task
      have hnone : ∀ other,
          first ∉ (layout.withWaiting queue rest).waiting other := by
        intro other
        by_cases hother : other = queue
        · subst other
          rw [Layout.withWaiting_self]
          exact hfresh
        · rw [Layout.withWaiting_of_ne _ _ hother]
          exact helsewhere other hother
      simp [hnone]
    · rw [if_neg heq, shape.blocked_iff task hring]
      apply exists_congr
      intro other
      by_cases hother : other = queue
      · subst other
        rw [Layout.withWaiting_self, hwaiting, List.mem_cons]
        simp [heq]
      · rw [Layout.withWaiting_of_ne _ _ hother]

theorem wakeOneEffect_wellFormed {state : State} {layout : Layout}
    (wellFormed : WellFormed state layout) (queue : QueueRef) :
    WellFormed (wakeOneEffect state queue (layout.waiting queue))
      (layout.withWaiting queue (layout.waiting queue).tail) := by
  cases hwaiting : layout.waiting queue with
  | nil =>
      have hsame : layout.withWaiting queue [] = layout := by
        unfold Layout.withWaiting
        rw [← hwaiting, Function.update_eq_self]
      rw [List.tail_nil, hsame]
      exact wellFormed
  | cons first rest =>
      have hring : first ∈ layout.ring :=
        wellFormed.waiting_ring queue first (by rw [hwaiting]; simp)
      have hblocked : stateOf state first = .blocked :=
        (wellFormed.blocked_iff first hring).mpr
          ⟨queue, by rw [hwaiting]; simp⟩
      have hcurrent : state.currentTask ≠ some first := by
        intro hsame
        have hrunning := (wellFormed.running_iff first hring).mpr hsame
        rw [hblocked] at hrunning
        cases hrunning
      refine ⟨wake_shape wellFormed.toShape hwaiting, ?_, wellFormed.current,
        ?_⟩
      · intro task htask
        rw [List.tail_cons, Layout.withWaiting_ring] at htask
        have hkept : (wakeOneEffect state queue (first :: rest)).currentTask =
            state.currentTask := rfl
        rw [hkept, wakeOneEffect, stateOf_wake]
        by_cases heq : task = first
        · subst task
          simp [hcurrent]
        · rw [if_neg heq]
          exact wellFormed.running_iff task htask
      · intro hnone task htask
        rw [isReady_iff]
        refine (stateOf_wake state queue first task).trans ?_
        split
        · rfl
        · exact isReady_iff.mp (wellFormed.unstarted hnone task htask)

/-! Waking all waiters of a queue. -/

/-- The state after the waiters `tasks` left `queue` one after another. -/
def wakeAllEffect (state : State) (queue : QueueRef) :
    List TaskRef → State
  | [] => state
  | first :: rest => wakeAllEffect (wake state queue first) queue rest

theorem wakeAll_returns {state : State} {layout : Layout}
    (wellFormed : WellFormed state layout) {queue : QueueRef}
    {tasks : List TaskRef} (hwaiting : layout.waiting queue = tasks) :
    Returns .budgetExhausted (fun budget => wakeAll budget (some queue)) state
        tasks.length ((), wakeAllEffect state queue tasks) ∧
      WellFormed (wakeAllEffect state queue tasks)
        (layout.withWaiting queue []) := by
  induction tasks generalizing state layout with
  | nil =>
      have hqueue := wellFormed.waiting queue
      rw [hwaiting] at hqueue
      have hnone : (state.queues queue).head = none := hqueue.head_eq
      constructor
      · apply returns_whileLoop_leave
        simp [hnone]
        rfl
      · have hsame : layout.withWaiting queue [] = layout := by
          unfold Layout.withWaiting
          rw [← hwaiting, Function.update_eq_self]
        rw [hsame]
        exact wellFormed
  | cons first rest ih =>
      have hqueue := wellFormed.waiting queue
      rw [hwaiting] at hqueue
      have hsome : (state.queues queue).head = some first := hqueue.head_eq
      have hwoken := run_wakeOne hqueue (by
        intro task hmem
        apply wellFormed.valid_ring
        apply wellFormed.waiting_ring queue
        rw [hwaiting]
        exact hmem)
      have hnext := wakeOneEffect_wellFormed wellFormed queue
      rw [hwaiting] at hnext
      obtain ⟨returns, hrest⟩ := ih hnext (Layout.withWaiting_self ..)
      constructor
      · refine returns_whileLoop_next ?_ returns
        simp [hsome, run_bind_ok hwoken]
      · have hsame : (layout.withWaiting queue
            (first :: rest).tail).withWaiting queue [] =
              layout.withWaiting queue [] := by
          simp [Layout.withWaiting]
        rw [hsame] at hrest
        exact hrest

/-! Joining a queue. -/

/-- The state after the current task was put at the end of `queue`. -/
def join (state : State) (queue : QueueRef) (task : TaskRef) : State :=
  let blocked := (state.withState task .blocked).withWait task none
  match (state.queues queue).tail with
  | none => blocked.setQueue queue { head := some task, tail := some task }
  | some tail =>
      (blocked.withWait tail (some task)).setQueue queue
        { head := (state.queues queue).head, tail := some task }

theorem join_same (state : State) (queue : QueueRef) (task : TaskRef) :
    SameButWait state (join state queue task) := by
  have same := State.withState_sameLinks state task .blocked
  unfold join
  split
  · exact ⟨⟨rfl, rfl, rfl, rfl⟩, (nextOf_withWait ..).trans same.next,
      (cleanupOf_withWait ..).trans same.cleanup, rfl, rfl, rfl, rfl, rfl⟩
  · exact ⟨⟨rfl, rfl, rfl, rfl⟩,
      ((nextOf_withWait ..).trans (nextOf_withWait ..)).trans same.next,
      ((cleanupOf_withWait ..).trans (cleanupOf_withWait ..)).trans
        same.cleanup, rfl, rfl, rfl, rfl, rfl⟩

theorem stateOf_join (state : State) (queue : QueueRef)
    (task other : TaskRef) :
    stateOf (join state queue task) other =
      if other = task then .blocked else stateOf state other := by
  rw [← State.stateOf_withState]
  unfold join
  split
  · exact congrFun (stateOf_withWait ..) other
  · exact congrFun ((stateOf_withWait ..).trans (stateOf_withWait ..)) other

theorem join_shape {state : State} {layout : Layout}
    (shape : Shape state layout) {queue : QueueRef} {task : TaskRef}
    (hring : task ∈ layout.ring) (hstate : stateOf state task ≠ .blocked) :
    Shape (join state queue task)
      (layout.withWaiting queue (layout.waiting queue ++ [task])) := by
  have hfresh : ∀ other, task ∉ layout.waiting other := fun other hmem =>
    hstate ((shape.blocked_iff task hring).mpr ⟨other, hmem⟩)
  -- the queues with the link of `task` cleared
  have hlinks : waitOf ((state.withState task .blocked).withWait task none) =
      Function.update (waitOf state) task none :=
    (waitOf_withWait ..).trans (by rw [(State.withState_sameLinks ..).wait])
  have hcleared : ∀ other, Queue
      (waitOf ((state.withState task .blocked).withWait task none))
      (state.queues other).head (state.queues other).tail
      (layout.waiting other) := by
    intro other
    rw [hlinks]
    apply (shape.waiting other).congr
    intro node hnode
    exact Function.update_of_ne (by rintro rfl; exact hfresh other hnode) ..
  have hnone : waitOf ((state.withState task .blocked).withWait task none)
      task = none := by
    rw [hlinks, Function.update_self]
  have hjoined : Queue (waitOf (join state queue task))
      ((join state queue task).queues queue).head
      ((join state queue task).queues queue).tail
      (layout.waiting queue ++ [task]) ∧
    ∀ other, other ≠ queue → Queue (waitOf (join state queue task))
      ((join state queue task).queues other).head
      ((join state queue task).queues other).tail
      (layout.waiting other) := by
    have hqueue := hcleared queue
    unfold join
    cases htail : (state.queues queue).tail with
    | none =>
        rw [htail] at hqueue
        have hempty := hqueue.tail_eq_none.mp rfl
        simp only [State.setQueue_queues, Function.update_self, hempty]
        refine ⟨Queue.singleton hnone, ?_⟩
        intro other hne
        rw [Function.update_of_ne hne]
        exact hcleared other
    | some tail =>
        rw [htail] at hqueue
        have hpushed := hqueue.push (hfresh queue) hnone
        have hmem : tail ∈ layout.waiting queue :=
          List.mem_of_getLast? hqueue.tail_eq.symm
        rw [← waitOf_withWait] at hpushed
        simp only [State.setQueue_queues, Function.update_self]
        refine ⟨hpushed, ?_⟩
        intro other hne
        rw [Function.update_of_ne hne]
        apply (hcleared other).congr
        intro node hnode
        refine (congrFun (waitOf_withWait ..) node).trans ?_
        refine Function.update_of_ne ?_ ..
        rintro rfl
        exact hne (shape.waiting_unique other queue node hnode hmem)
  refine shape.rewait (join_same state queue task) hjoined.1 hjoined.2
    ?_ ?_ ?_
  · intro other node hmem hother
    rcases List.mem_append.mp hmem with hold | hnew
    · exact shape.waiting_unique other queue node hother hold
    · obtain rfl := List.mem_singleton.mp hnew
      exact absurd hother (hfresh other)
  · intro node hmem
    rcases List.mem_append.mp hmem with hold | hnew
    · exact shape.waiting_ring queue node hold
    · obtain rfl := List.mem_singleton.mp hnew
      exact hring
  · intro node hnode
    rw [stateOf_join]
    by_cases heq : node = task
    · subst node
      refine ⟨fun _ => ⟨queue, ?_⟩, fun _ => if_pos rfl⟩
      rw [Layout.withWaiting_self]
      simp
    · rw [if_neg heq, shape.blocked_iff node hnode]
      apply exists_congr
      intro other
      by_cases hother : other = queue
      · subst other
        rw [Layout.withWaiting_self]
        simp [heq]
      · rw [Layout.withWaiting_of_ne _ _ hother]

def blockCurrentEffect (state : State) (layout : Layout) (queue : QueueRef)
    (current idle : TaskRef) : Exit × State :=
  Scheduler.switchEffect (join state queue current) layout current idle

theorem blockCurrent_returns {state : State} {layout : Layout}
    (wellFormed : WellFormed state layout) {queue : QueueRef}
    {current idle : TaskRef} (hcurrent : state.currentTask = some current)
    (hring : current ∈ layout.ring) (hidle : state.idleTask = some idle)
    (hvalidIdle : state.Valid idle) :
    Returns .budgetExhausted (fun budget => blockCurrent budget (some queue))
      state layout.ring.length
      (blockCurrentEffect state layout queue current idle) := by
  have hrunning := (wellFormed.running_iff current hring).mpr hcurrent
  have hvalid := wellFormed.valid_ring current hring
  have same := join_same state queue current
  have shape := @join_shape _ _ wellFormed.toShape queue current hring
    (by rw [hrunning]; simp)
  refine (Scheduler.blockCurrentTask_returns shape
    (same.currentTask.trans hcurrent) hring (same.idleTask.trans hidle)
    ?_).of_run_eq ?_
  · unfold State.Valid
    rw [same.kfreed]
    exact hvalidIdle
  · intro budget
    unfold join
    cases htail : (state.queues queue).tail with
    | none =>
        simp [blockCurrent, hcurrent, hvalid, htail, setHead, setTail]
    | some tail =>
        have hqueue := wellFormed.waiting queue
        rw [htail] at hqueue
        have hvalidTail := wellFormed.valid_ring tail
          (wellFormed.waiting_ring queue tail
            (List.mem_of_getLast? hqueue.tail_eq.symm))
        simp [blockCurrent, hcurrent, hvalid, htail, hvalidTail, setTail]

theorem blockCurrentEffect_wellFormed {state : State} {layout : Layout}
    (wellFormed : WellFormed state layout) {queue : QueueRef}
    {current idle : TaskRef} (hcurrent : state.currentTask = some current)
    (hring : current ∈ layout.ring) (hidle : state.idleTask = some idle) :
    WellFormed (blockCurrentEffect state layout queue current idle).2
      (layout.withWaiting queue (layout.waiting queue ++ [current])) := by
  have hrunning := (wellFormed.running_iff current hring).mpr hcurrent
  have same := join_same state queue current
  have shape := @join_shape _ _ wellFormed.toShape queue current hring
    (by rw [hrunning]; simp)
  refine Scheduler.switchEffect_wellFormed shape ?_ hring
    (same.idleTask.trans hidle)
  intro task htask hstate
  rw [stateOf_join] at hstate
  split at hstate
  · cases hstate
  · rename_i hne
    have hsame := (wellFormed.running_iff task htask).mp hstate
    exact hne (Option.some.inj (hsame.symm.trans hcurrent))

end WaitQueue

end Planetoid.Task
