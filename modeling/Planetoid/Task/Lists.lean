import Planetoid.Task.Operations

namespace Planetoid.Task

open Planetoid Program Links

/-! The operations that change the lists of tasks. -/

namespace State

def withNext (state : State) (task : TaskRef) (value : Option TaskRef) :
    State :=
  state.setTask task fun fields => { fields with nextTask := value }

def withWait (state : State) (task : TaskRef) (value : Option TaskRef) :
    State :=
  state.setTask task fun fields => { fields with waitNext := value }

def withCleanup (state : State) (task : TaskRef) (value : Option TaskRef) :
    State :=
  state.setTask task fun fields => { fields with cleanupNext := value }

def withPending (state : State) (head tail : Option TaskRef) : State :=
  { state with pendingCleanupHead := head, pendingCleanupTail := tail }

def withKfreed (state : State) (allocations : List Freed) : State :=
  { state with kfreed := allocations ++ state.kfreed }

section

variable (state : State) (task other : TaskRef) (head tail : Option TaskRef)

@[simp] theorem withNext_valid :
    (state.withNext task head).Valid other ↔ state.Valid other := Iff.rfl
@[simp] theorem withNext_taskList :
    (state.withNext task head).taskList = state.taskList := rfl
@[simp] theorem withWait_valid :
    (state.withWait task head).Valid other ↔ state.Valid other := Iff.rfl
@[simp] theorem withWait_queues :
    (state.withWait task head).queues = state.queues := rfl
@[simp] theorem withCleanup_valid :
    (state.withCleanup task head).Valid other ↔ state.Valid other := Iff.rfl
@[simp] theorem withCleanup_taskList :
    (state.withCleanup task head).taskList = state.taskList := rfl
@[simp] theorem withCleanup_pendingCleanupTail :
    (state.withCleanup task head).pendingCleanupTail =
      state.pendingCleanupTail := rfl
@[simp] theorem withPending_valid :
    (state.withPending head tail).Valid other ↔ state.Valid other := Iff.rfl
@[simp] theorem withPending_pendingCleanupHead :
    (state.withPending head tail).pendingCleanupHead = head := rfl
@[simp] theorem withPending_pendingCleanupTail :
    (state.withPending head tail).pendingCleanupTail = tail := rfl

end

end State

theorem view_setTask_update {view : TaskState → β} {state : State}
    {task : TaskRef} {update : TaskState → TaskState} {value : β}
    (h : ∀ fields, view (update fields) = value) :
    (fun other => view ((state.setTask task update).tasks other)) =
      Function.update (fun other => view (state.tasks other)) task value := by
  funext other
  by_cases heq : other = task
  · subst other
    simp [h]
  · simp [State.setTask_of_ne _ _ _ _ heq, heq]

section Fields

variable (state : State) (task other : TaskRef) (value : Option TaskRef)

@[simp] theorem nextOf_withNext :
    nextOf (state.withNext task value) =
      Function.update (nextOf state) task value :=
  view_setTask_update fun _ => rfl

@[simp] theorem waitOf_withNext :
    waitOf (state.withNext task value) = waitOf state :=
  view_setTask fun _ => rfl

@[simp] theorem cleanupOf_withNext :
    cleanupOf (state.withNext task value) = cleanupOf state :=
  view_setTask fun _ => rfl

theorem stateOf_withNext :
    stateOf (state.withNext task value) = stateOf state :=
  view_setTask fun _ => rfl

@[simp] theorem nextOf_withWait :
    nextOf (state.withWait task value) = nextOf state :=
  view_setTask fun _ => rfl

@[simp] theorem waitOf_withWait :
    waitOf (state.withWait task value) =
      Function.update (waitOf state) task value :=
  view_setTask_update fun _ => rfl

@[simp] theorem cleanupOf_withWait :
    cleanupOf (state.withWait task value) = cleanupOf state :=
  view_setTask fun _ => rfl

theorem stateOf_withWait :
    stateOf (state.withWait task value) = stateOf state :=
  view_setTask fun _ => rfl

@[simp] theorem nextOf_withCleanup :
    nextOf (state.withCleanup task value) = nextOf state :=
  view_setTask fun _ => rfl

@[simp] theorem waitOf_withCleanup :
    waitOf (state.withCleanup task value) = waitOf state :=
  view_setTask fun _ => rfl

@[simp] theorem cleanupOf_withCleanup :
    cleanupOf (state.withCleanup task value) =
      Function.update (cleanupOf state) task value :=
  view_setTask_update fun _ => rfl

theorem stateOf_withCleanup :
    stateOf (state.withCleanup task value) = stateOf state :=
  view_setTask fun _ => rfl

@[simp] theorem stackBase_withCleanup :
    ((state.withCleanup task value).tasks other).stackBase =
      (state.tasks other).stackBase :=
  congrFun (@view_setTask _ TaskState.stackBase state task
    (fun fields => { fields with cleanupNext := value }) fun _ => rfl) other

end Fields

open Scheduler in
@[simp] theorem run_setPendingCleanupHead_bind (head : Option TaskRef)
    (next : Unit → Sched β) (state : State) :
    (setPendingCleanupHead head >>= next).run state =
      (next ()).run (state.withPending head state.pendingCleanupTail) := rfl

open Scheduler in
@[simp] theorem run_setPendingCleanupTail_bind (tail : Option TaskRef)
    (next : Unit → Sched β) (state : State) :
    (setPendingCleanupTail tail >>= next).run state =
      (next ()).run (state.withPending state.pendingCleanupHead tail) := rfl

section Runs

variable {state : State} {task : TaskRef} (valid : state.Valid task)
  (next : Unit → Sched β) (value : Option TaskRef)

include valid

open Scheduler in
theorem run_setState (changed : EState) :
    (setState task changed).run state =
      .ok ((), state.withState task changed) :=
  run_store valid _

open Scheduler in
@[simp] theorem run_setState_bind (changed : EState) :
    (setState task changed >>= next).run state =
      (next ()).run (state.withState task changed) :=
  run_store_bind valid _ next

open Scheduler in
@[simp] theorem run_setNextTask_bind :
    (setNextTask task value >>= next).run state =
      (next ()).run (state.withNext task value) :=
  run_store_bind valid _ next

open Scheduler in
@[simp] theorem run_setCleanupNext_bind :
    (setCleanupNext task value >>= next).run state =
      (next ()).run (state.withCleanup task value) :=
  run_store_bind valid _ next

open WaitQueue in
@[simp] theorem run_setWaitNext_bind :
    (setWaitNext task value >>= next).run state =
      (next ()).run (state.withWait task value) :=
  run_store_bind valid _ next

end Runs

structure SameButNext (before after : State) : Prop
    extends SameGlobals before after where
  wait : waitOf after = waitOf before
  cleanup : cleanupOf after = cleanupOf before
  states : stateOf after = stateOf before
  currentTask : after.currentTask = before.currentTask
  pendingHead : after.pendingCleanupHead = before.pendingCleanupHead
  pendingTail : after.pendingCleanupTail = before.pendingCleanupTail
  queues : after.queues = before.queues
  kfreed : after.kfreed = before.kfreed

theorem SameButNext.valid {before after : State}
    (same : SameButNext before after) (task : TaskRef) :
    after.Valid task ↔ before.Valid task := by
  unfold State.Valid
  rw [same.kfreed]

theorem Shape.reshape {state after : State} {layout : Layout}
    (shape : Shape state layout) (same : SameButNext state after)
    {ring : List TaskRef}
    (hring : Ring (nextOf after) after.taskList ring) (nodup : ring.Nodup)
    (pending : ∀ task, task ∈ layout.pending → task ∉ ring)
    (waiting : ∀ queue task, task ∈ layout.waiting queue → task ∈ ring)
    (blocked : ∀ task, task ∈ ring → stateOf state task = .blocked →
      task ∈ layout.ring)
    (idle : ∀ idle, state.idleTask = some idle → idle ∉ ring)
    (valid : ∀ task, task ∈ ring → state.Valid task) :
    Shape after { layout with ring := ring } where
  ring := hring
  ring_nodup := nodup
  pending := by
    rw [same.cleanup, same.pendingHead, same.pendingTail]
    exact shape.pending
  pending_ring := pending
  waiting := by
    intro queue
    rw [same.wait, same.queues]
    exact shape.waiting queue
  waiting_unique := shape.waiting_unique
  waiting_ring := waiting
  blocked_iff := by
    intro task htask
    rw [same.states]
    constructor
    · intro hblocked
      exact (shape.blocked_iff task (blocked task htask hblocked)).mp hblocked
    · rintro ⟨queue, hwaiting⟩
      exact (shape.blocked_iff task
        (shape.waiting_ring queue task hwaiting)).mpr ⟨queue, hwaiting⟩
  idle := by
    obtain ⟨idleTask, hidle, _, hpending, hvalid⟩ := shape.idle
    exact ⟨idleTask, same.idleTask.trans hidle, idle idleTask hidle, hpending,
      (same.valid idleTask).mpr hvalid⟩
  valid_ring := fun task htask => (same.valid task).mpr (valid task htask)
  valid_pending := fun task htask =>
    (same.valid task).mpr (shape.valid_pending task htask)

/-! Adding a task to the ring. -/

def insertSecond (task : TaskRef) : List TaskRef → List TaskRef
  | [] => [task]
  | head :: rest => head :: task :: rest

theorem insertSecond_perm (task : TaskRef) (ring : List TaskRef) :
    (insertSecond task ring).Perm (task :: ring) := by
  cases ring with
  | nil => exact List.Perm.refl _
  | cons head rest => exact List.Perm.swap task head rest

theorem mem_insertSecond {task other : TaskRef} {ring : List TaskRef} :
    other ∈ insertSecond task ring ↔ other = task ∨ other ∈ ring := by
  rw [(insertSecond_perm task ring).mem_iff, List.mem_cons]

namespace Scheduler

def linkIn (state : State) (task : TaskRef) : State :=
  match state.taskList with
  | none => (state.withTaskList (some task)).withNext task (some task)
  | some head =>
      (state.withNext task (nextOf state head)).withNext head (some task)

def addTaskEffect (state : State) (task : TaskRef) : State :=
  (linkIn (state.masked.withState task .ready) task).withDaif state.daif

theorem run_addTask {state : State} {task : TaskRef}
    (valid : state.Valid task)
    (head : ∀ head, state.taskList = some head → state.Valid head) :
    (addTask (some task)).run state = .ok ((), addTaskEffect state task) := by
  unfold addTask addTaskEffect
  cases hlist : state.taskList with
  | none =>
      simp [valid, hlist, linkIn]
      rfl
  | some first =>
      simp [valid, hlist, head first hlist, linkIn]
      rfl

theorem linkIn_ring {state : State} {ring : List TaskRef} {task : TaskRef}
    (hring : Ring (nextOf state) state.taskList ring) (nodup : ring.Nodup)
    (fresh : task ∉ ring) :
    Ring (nextOf (linkIn state task)) (linkIn state task).taskList
      (insertSecond task ring) := by
  cases ring with
  | nil =>
      have hnone : state.taskList = none := hring.head_eq
      simp only [linkIn, hnone, insertSecond, nextOf_withNext]
      exact ring_cons.mpr (Function.update_self ..)
  | cons head rest =>
      have hhead : state.taskList = some head := hring.head_eq
      have hne : task ≠ head := by
        rintro rfl
        exact fresh (by simp)
      have hlinks : Segment (nextOf state) (nextOf state head) rest
          (some head) := by
        rw [hhead] at hring
        exact ring_cons.mp hring
      have hinserted := hlinks.insert hne (by simp_all)
        (List.nodup_cons.mp nodup).1
      simp only [linkIn, hhead, insertSecond, nextOf_withNext,
        State.withNext_taskList]
      apply ring_cons.mpr
      rw [Function.update_self]
      exact hinserted

theorem linkIn_same (state : State) (task : TaskRef) :
    SameButNext state (linkIn state task) := by
  unfold linkIn
  split
  · exact ⟨⟨rfl, rfl, rfl, rfl⟩, waitOf_withNext .., cleanupOf_withNext ..,
      stateOf_withNext .., rfl, rfl, rfl, rfl, rfl⟩
  · exact ⟨⟨rfl, rfl, rfl, rfl⟩,
      (waitOf_withNext ..).trans (waitOf_withNext ..),
      (cleanupOf_withNext ..).trans (cleanupOf_withNext ..),
      (stateOf_withNext ..).trans (stateOf_withNext ..),
      rfl, rfl, rfl, rfl, rfl⟩

theorem addTaskEffect_currentTask (state : State) (task : TaskRef) :
    (addTaskEffect state task).currentTask = state.currentTask :=
  (linkIn_same (state.masked.withState task .ready) task).currentTask

theorem stateOf_addTaskEffect (state : State) (task other : TaskRef) :
    stateOf (addTaskEffect state task) other =
      if other = task then .ready else stateOf state other := by
  have same := linkIn_same (state.masked.withState task .ready) task
  exact (congrFun same.states other).trans (State.stateOf_withState ..)

structure Addable (state : State) (layout : Layout) (task : TaskRef) :
    Prop where
  ring : task ∉ layout.ring
  pending : task ∉ layout.pending
  idle : state.idleTask ≠ some task
  valid : state.Valid task

theorem addTaskEffect_wellFormed {state : State} {layout : Layout}
    (wellFormed : WellFormed state layout) {task : TaskRef}
    (addable : Addable state layout task) :
    WellFormed (addTaskEffect state task)
      { layout with ring := insertSecond task layout.ring } := by
  -- the state in which `add_task` changes the links
  have hready : ∀ other, stateOf (state.masked.withState task .ready) other =
      if other = task then .ready else stateOf state other :=
    fun other => State.stateOf_withState ..
  have shape : Shape (state.masked.withState task .ready) layout := by
    refine wellFormed.restate ((state.withDaif_sameLinks _).trans
      (State.withState_sameLinks ..)) ?_
    intro other hother
    rw [hready, if_neg (by rintro rfl; exact addable.ring hother)]
  have hlinked := shape.reshape (linkIn_same _ task)
    (linkIn_ring shape.ring shape.ring_nodup addable.ring)
    ((insertSecond_perm task layout.ring).nodup_iff.mpr
      (List.nodup_cons.mpr ⟨addable.ring, shape.ring_nodup⟩))
    (by
      intro other hpending hmem
      rcases mem_insertSecond.mp hmem with rfl | hring
      · exact addable.pending hpending
      · exact wellFormed.pending_ring other hpending hring)
    (fun queue other hmem =>
      mem_insertSecond.mpr (.inr (shape.waiting_ring queue other hmem)))
    (by
      intro other hmem hblocked
      rcases mem_insertSecond.mp hmem with rfl | hring
      · rw [hready, if_pos rfl] at hblocked
        cases hblocked
      · exact hring)
    (by
      intro idle hidle hmem
      rcases mem_insertSecond.mp hmem with rfl | hring
      · exact addable.idle hidle
      · obtain ⟨other, hother, hfresh, _⟩ := shape.idle
        cases hidle.symm.trans hother
        exact hfresh hring)
    (by
      intro other hmem
      rcases mem_insertSecond.mp hmem with rfl | hring
      · exact addable.valid
      · exact wellFormed.valid_ring other hring)
  have hstates := stateOf_addTaskEffect state task
  have hcurrent := addTaskEffect_currentTask state task
  have hidle : (addTaskEffect state task).idleTask = state.idleTask :=
    (linkIn_same (state.masked.withState task .ready) task).idleTask
  have hnotCurrent : state.currentTask ≠ some task := by
    intro hsame
    rcases wellFormed.current task hsame with hring | hisIdle
    · exact addable.ring hring
    · exact addable.idle hisIdle
  refine ⟨hlinked.restate (State.withDaif_sameLinks ..) fun _ _ => Iff.rfl,
    ?_, ?_, ?_⟩
  · intro other hmem
    rw [hstates, hcurrent]
    rcases mem_insertSecond.mp hmem with rfl | hring
    · simp [hnotCurrent]
    · rw [if_neg (by rintro rfl; exact addable.ring hring)]
      exact wellFormed.running_iff other hring
  · intro other hother
    rw [hcurrent] at hother
    rw [hidle]
    rcases wellFormed.current other hother with hring | hisIdle
    · exact .inl (mem_insertSecond.mpr (.inr hring))
    · exact .inr hisIdle
  · intro hnone other hmem
    rw [hcurrent] at hnone
    rw [isReady_iff]
    refine (hstates other).trans ?_
    rcases mem_insertSecond.mp hmem with rfl | hring
    · simp
    · rw [if_neg (by rintro rfl; exact addable.ring hring)]
      exact isReady_iff.mp (wellFormed.unstarted hnone other hring)

end Scheduler

end Planetoid.Task
