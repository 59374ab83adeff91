import Planetoid.Task.Loops

namespace Planetoid.Task

open Planetoid Program Links

/-! The shape of the scheduler's data between two operations. -/

structure Layout where
  ring : List TaskRef
  pending : List TaskRef
  waiting : QueueRef → List TaskRef

structure Shape (state : State) (layout : Layout) : Prop where
  ring : Ring (nextOf state) state.taskList layout.ring
  ring_nodup : layout.ring.Nodup
  pending : Queue (cleanupOf state) state.pendingCleanupHead
    state.pendingCleanupTail layout.pending
  pending_ring : ∀ task, task ∈ layout.pending → task ∉ layout.ring
  waiting : ∀ queue, Queue (waitOf state) (state.queues queue).head
    (state.queues queue).tail (layout.waiting queue)
  waiting_unique : ∀ first second task, task ∈ layout.waiting first →
    task ∈ layout.waiting second → first = second
  waiting_ring : ∀ queue task, task ∈ layout.waiting queue →
    task ∈ layout.ring
  blocked_iff : ∀ task, task ∈ layout.ring →
    (stateOf state task = .blocked ↔ ∃ queue, task ∈ layout.waiting queue)
  idle : ∃ idle, state.idleTask = some idle ∧ idle ∉ layout.ring ∧
    idle ∉ layout.pending ∧ state.Valid idle
  valid_ring : ∀ task, task ∈ layout.ring → state.Valid task
  valid_pending : ∀ task, task ∈ layout.pending → state.Valid task

/-- Between two operations the running task of the ring is the current one. -/
structure WellFormed (state : State) (layout : Layout) : Prop
    extends Shape state layout where
  running_iff : ∀ task, task ∈ layout.ring →
    (stateOf state task = .running ↔ state.currentTask = some task)
  current : ∀ task, state.currentTask = some task →
    task ∈ layout.ring ∨ state.idleTask = some task
  unstarted : state.currentTask = none → ∀ task, task ∈ layout.ring →
    isReady state task = true

structure SameGlobals (before after : State) : Prop where
  idleTask : after.idleTask = before.idleTask
  launchContext : after.launchContext = before.launchContext
  locked : after.locked = before.locked
  systemTicks : after.systemTicks = before.systemTicks

theorem SameGlobals.refl (state : State) : SameGlobals state state :=
  ⟨rfl, rfl, rfl, rfl⟩

theorem SameGlobals.trans {first second third : State}
    (left : SameGlobals first second) (right : SameGlobals second third) :
    SameGlobals first third where
  idleTask := right.idleTask.trans left.idleTask
  launchContext := right.launchContext.trans left.launchContext
  locked := right.locked.trans left.locked
  systemTicks := right.systemTicks.trans left.systemTicks

/-- The links, the list heads and the freed allocations are the same. -/
structure SameLinks (before after : State) : Prop
    extends SameGlobals before after where
  next : nextOf after = nextOf before
  wait : waitOf after = waitOf before
  cleanup : cleanupOf after = cleanupOf before
  taskList : after.taskList = before.taskList
  pendingHead : after.pendingCleanupHead = before.pendingCleanupHead
  pendingTail : after.pendingCleanupTail = before.pendingCleanupTail
  queues : after.queues = before.queues
  kfreed : after.kfreed = before.kfreed

theorem SameLinks.refl (state : State) : SameLinks state state :=
  ⟨SameGlobals.refl state, rfl, rfl, rfl, rfl, rfl, rfl, rfl, rfl⟩

theorem SameLinks.trans {first second third : State}
    (left : SameLinks first second) (right : SameLinks second third) :
    SameLinks first third where
  toSameGlobals := left.toSameGlobals.trans right.toSameGlobals
  next := right.next.trans left.next
  wait := right.wait.trans left.wait
  cleanup := right.cleanup.trans left.cleanup
  taskList := right.taskList.trans left.taskList
  pendingHead := right.pendingHead.trans left.pendingHead
  pendingTail := right.pendingTail.trans left.pendingTail
  queues := right.queues.trans left.queues
  kfreed := right.kfreed.trans left.kfreed

theorem SameLinks.valid {before after : State} (same : SameLinks before after)
    (task : TaskRef) : after.Valid task ↔ before.Valid task := by
  unfold State.Valid
  rw [same.kfreed]

theorem view_setTask {view : TaskState → β} {state : State} {task : TaskRef}
    {update : TaskState → TaskState}
    (h : ∀ fields, view (update fields) = view fields) :
    (fun other => view ((state.setTask task update).tasks other)) =
      fun other => view (state.tasks other) := by
  funext other
  by_cases heq : other = task
  · subst other
    simp [h]
  · simp [State.setTask_of_ne _ _ _ _ heq]

theorem sameLinks_setTask (state : State) (task : TaskRef)
    {update : TaskState → TaskState}
    (next : ∀ fields, (update fields).nextTask = fields.nextTask)
    (wait : ∀ fields, (update fields).waitNext = fields.waitNext)
    (cleanup : ∀ fields, (update fields).cleanupNext = fields.cleanupNext) :
    SameLinks state (state.setTask task update) where
  toSameGlobals := ⟨rfl, rfl, rfl, rfl⟩
  next := view_setTask next
  wait := view_setTask wait
  cleanup := view_setTask cleanup
  taskList := rfl
  pendingHead := rfl
  pendingTail := rfl
  queues := rfl
  kfreed := rfl

theorem stateOf_setTask (state : State) (task other : TaskRef)
    (update : TaskState → TaskState) :
    stateOf (state.setTask task update) other =
      if other = task then (update (state.tasks task)).state
      else stateOf state other := by
  unfold stateOf
  by_cases heq : other = task
  · subst other
    simp
  · simp [State.setTask_of_ne _ _ _ _ heq, heq]

theorem Shape.restate {state after : State} {layout : Layout}
    (shape : Shape state layout) (same : SameLinks state after)
    (blocked : ∀ task, task ∈ layout.ring →
      (stateOf after task = .blocked ↔ stateOf state task = .blocked)) :
    Shape after layout where
  ring := by
    rw [same.next, same.taskList]
    exact shape.ring
  ring_nodup := shape.ring_nodup
  pending := by
    rw [same.cleanup, same.pendingHead, same.pendingTail]
    exact shape.pending
  pending_ring := shape.pending_ring
  waiting := by
    intro queue
    rw [same.wait, same.queues]
    exact shape.waiting queue
  waiting_unique := shape.waiting_unique
  waiting_ring := shape.waiting_ring
  blocked_iff := by
    intro task hring
    rw [blocked task hring]
    exact shape.blocked_iff task hring
  idle := by
    obtain ⟨idle, hidle, hring, hpending, hvalid⟩ := shape.idle
    exact ⟨idle, same.idleTask.trans hidle, hring, hpending,
      (same.valid idle).mpr hvalid⟩
  valid_ring := fun task hring =>
    (same.valid task).mpr (shape.valid_ring task hring)
  valid_pending := fun task hpending =>
    (same.valid task).mpr (shape.valid_pending task hpending)

/-- The other tasks of a ring in the order in which `task` reaches them. -/
def rotation (ring : List TaskRef) (task : TaskRef) : List TaskRef :=
  (ring.dropWhile (· ≠ task)).tail ++ ring.takeWhile (· ≠ task)

theorem split_at_task {ring : List TaskRef} {task : TaskRef}
    (hmem : task ∈ ring) :
    ring = ring.takeWhile (· ≠ task) ++
      task :: (ring.dropWhile (· ≠ task)).tail := by
  induction ring with
  | nil => simp at hmem
  | cons first rest ih =>
      by_cases heq : first = task
      · subst first
        simp
      · have hrest : task ∈ rest := by
          rcases List.mem_cons.mp hmem with h | h
          · exact absurd h.symm heq
          · exact h
        simpa [heq] using ih hrest

theorem mem_rotation {ring : List TaskRef} {task other : TaskRef}
    (nodup : ring.Nodup) (hmem : task ∈ ring) :
    other ∈ rotation ring task ↔ other ∈ ring ∧ other ≠ task := by
  have hsplit := split_at_task hmem
  rw [hsplit, List.nodup_middle, List.nodup_cons] at nodup
  constructor
  · intro hother
    constructor
    · rw [hsplit]
      simp only [rotation, List.mem_append] at hother
      simp only [List.mem_append, List.mem_cons]
      tauto
    · rintro rfl
      apply nodup.1
      simp only [rotation, List.mem_append] at hother ⊢
      tauto
  · rintro ⟨hring, hne⟩
    rw [hsplit] at hring
    simp only [rotation, List.mem_append, List.mem_cons] at hring ⊢
    tauto

theorem length_rotation {ring : List TaskRef} {task : TaskRef}
    (hmem : task ∈ ring) :
    (rotation ring task).length + 1 = ring.length := by
  have hlength := congrArg List.length (split_at_task hmem)
  simp only [List.length_append, List.length_cons] at hlength
  simp only [rotation, List.length_append]
  omega

theorem Shape.rotation_segment {state : State} {layout : Layout}
    (shape : Shape state layout) {task : TaskRef}
    (hmem : task ∈ layout.ring) :
    Segment (nextOf state) (nextOf state task) (rotation layout.ring task)
      (some task) := by
  have hring := shape.ring
  rw [split_at_task hmem] at hring
  exact ring_cons.mp hring.rotate

theorem Shape.scanReady_returns {state : State} {layout : Layout}
    (shape : Shape state layout) {task : TaskRef}
    (hmem : task ∈ layout.ring) {stopping : Sched (Option TaskRef)}
    (hstopping : stopping.run state = .ok (some task, state)) :
    Returns .budgetExhausted
      (fun budget => Scheduler.scanReady budget stopping
        (state.tasks task).nextTask) state layout.ring.length
      (some (firstReady state (rotation layout.ring task) task), state) := by
  have hlength := length_rotation hmem
  refine (Scheduler.scanReady_returns hstopping
    (shape.rotation_segment hmem) ?_ ?_).weaken (by omega)
  · intro other hother
    exact shape.valid_ring other
      ((mem_rotation shape.ring_nodup hmem).mp hother).1
  · intro hself
    exact ((mem_rotation shape.ring_nodup hmem).mp hself).2 rfl

/-- The task that the search finds: the searching task itself when no other
task is Ready, else another Ready task of the ring. -/
theorem firstReady_rotation_cases {ring : List TaskRef} {task : TaskRef}
    (nodup : ring.Nodup) (hmem : task ∈ ring) (state : State) :
    (firstReady state (rotation ring task) task = task ∧
      ∀ other, other ∈ ring → other ≠ task → isReady state other = false) ∨
    ∃ next, firstReady state (rotation ring task) task = next ∧
      next ∈ ring ∧ next ≠ task ∧ isReady state next = true := by
  unfold firstReady
  cases hfind : (rotation ring task).find? (isReady state) with
  | none =>
      refine .inl ⟨rfl, ?_⟩
      intro other hring hne
      have hnone := List.find?_eq_none.mp hfind other
        ((mem_rotation nodup hmem).mpr ⟨hring, hne⟩)
      simpa using hnone
  | some next =>
      have hnext := (mem_rotation nodup hmem).mp
        (List.mem_of_find?_eq_some hfind)
      exact .inr ⟨next, rfl, hnext.1, hnext.2, List.find?_some hfind⟩

theorem Shape.firstReady_cases {state : State} {layout : Layout}
    (shape : Shape state layout) {task : TaskRef}
    (hmem : task ∈ layout.ring) :
    (firstReady state (rotation layout.ring task) task = task ∧
      ∀ other, other ∈ layout.ring → other ≠ task →
        isReady state other = false) ∨
    ∃ next, firstReady state (rotation layout.ring task) task = next ∧
      next ∈ layout.ring ∧ next ≠ task ∧ isReady state next = true :=
  firstReady_rotation_cases shape.ring_nodup hmem state

/-- No task of the ring is running: the moment inside an operation at which
the next one is chosen. -/
def NoneRunning (state : State) (layout : Layout) : Prop :=
  ∀ task, task ∈ layout.ring → stateOf state task ≠ .running

def dispatch (state : State) (next : TaskRef) : State :=
  { state.setTask next fun fields => { fields with state := .running } with
    currentTask := some next }

theorem dispatch_sameLinks (state : State) (next : TaskRef) :
    SameLinks state (dispatch state next) :=
  have same := sameLinks_setTask state next
    (fun _ => rfl : ∀ fields : TaskState,
      ({ fields with state := .running } : TaskState).nextTask =
        fields.nextTask)
    (fun _ => rfl) (fun _ => rfl)
  ⟨⟨rfl, rfl, rfl, rfl⟩, same.next, same.wait, same.cleanup, rfl, rfl, rfl,
    rfl, rfl⟩

theorem stateOf_dispatch (state : State) (next other : TaskRef) :
    stateOf (dispatch state next) other =
      if other = next then .running else stateOf state other :=
  stateOf_setTask state next other
    fun fields => { fields with state := .running }

theorem Shape.dispatch {state : State} {layout : Layout}
    (shape : Shape state layout) (noneRunning : NoneRunning state layout)
    {next : TaskRef} (hnext : next ∈ layout.ring)
    (hready : isReady state next = true) :
    WellFormed (dispatch state next) layout where
  toShape := by
    refine shape.restate (dispatch_sameLinks state next) ?_
    intro task _
    rw [stateOf_dispatch]
    split
    · subst task
      have hstate : stateOf state next = .ready := isReady_iff.mp hready
      simp [hstate]
    · rfl
  running_iff := by
    intro task hring
    have hcurrent : (Task.dispatch state next).currentTask = some next := rfl
    rw [stateOf_dispatch, hcurrent]
    by_cases heq : task = next
    · subst task
      simp
    · simp [heq, noneRunning task hring, Ne.symm heq]
  current := by
    intro task hcurrent
    obtain rfl : next = task := Option.some.inj hcurrent
    exact .inl hnext
  unstarted := nofun

theorem Shape.dispatchIdle {state : State} {layout : Layout}
    (shape : Shape state layout) (noneRunning : NoneRunning state layout)
    {idle : TaskRef} (hidle : state.idleTask = some idle) :
    WellFormed (Task.dispatch state idle) layout := by
  have hring : idle ∉ layout.ring := by
    obtain ⟨other, hother, hring, _⟩ := shape.idle
    obtain rfl : idle = other := Option.some.inj (hidle.symm.trans hother)
    exact hring
  have hstate : ∀ task, task ∈ layout.ring →
      stateOf (Task.dispatch state idle) task = stateOf state task := by
    intro task htask
    rw [stateOf_dispatch, if_neg (by rintro rfl; exact hring htask)]
  refine ⟨shape.restate (dispatch_sameLinks state idle) ?_, ?_, ?_, nofun⟩
  · intro task htask
    rw [hstate task htask]
  · intro task htask
    have hcurrent : (Task.dispatch state idle).currentTask = some idle := rfl
    rw [hstate task htask, hcurrent]
    constructor
    · exact fun hrunning => absurd hrunning (noneRunning task htask)
    · intro heq
      obtain rfl : idle = task := Option.some.inj heq
      exact absurd htask hring
  · intro task hcurrent
    obtain rfl : idle = task := Option.some.inj hcurrent
    exact .inr hidle

theorem WellFormed.pause {state after : State} {layout : Layout}
    (wellFormed : WellFormed state layout) {current : TaskRef}
    (hcurrent : state.currentTask = some current)
    (hring : current ∈ layout.ring) (same : SameLinks state after)
    (hstate : stateOf after current ≠ .running ∧
      stateOf after current ≠ .blocked)
    (hothers : ∀ task, task ≠ current →
      stateOf after task = stateOf state task) :
    Shape after layout ∧ NoneRunning after layout := by
  have hrunning : stateOf state current = .running :=
    (wellFormed.running_iff current hring).mpr hcurrent
  constructor
  · refine wellFormed.restate same ?_
    intro task _
    by_cases heq : task = current
    · subst task
      simp [hstate.2, hrunning]
    · rw [hothers task heq]
  · intro task htask
    by_cases heq : task = current
    · subst task
      exact hstate.1
    · rw [hothers task heq]
      intro hother
      have hsame := (wellFormed.running_iff task htask).mp hother
      exact heq (Option.some.inj (hsame.symm.trans hcurrent))

end Planetoid.Task
