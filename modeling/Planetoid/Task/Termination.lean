import Planetoid.Task.Lists

namespace Planetoid.Task

open Planetoid Program Links

/-! Removing the current task from the ring and freeing it later. -/

/-- The layout after the current task of the ring was terminated. -/
def Layout.retire (layout : Layout) (task : TaskRef) : Layout :=
  { layout with
    ring := layout.ring.erase task
    pending := layout.pending ++ [task] }

namespace Scheduler

def unlink (state : State) (ring : List TaskRef) (task : TaskRef) : State :=
  match (rotation ring task).getLast? with
  | none => state.withTaskList none
  | some previous =>
      if state.taskList = some task then
        (state.withNext previous (nextOf state task)).withTaskList
          (nextOf state task)
      else state.withNext previous (nextOf state task)

theorem erase_eq_of_split {front back : List TaskRef} {task : TaskRef}
    (fresh : task ∉ front) :
    (front ++ task :: back).erase task = front ++ back := by
  rw [List.erase_append_right _ fresh, List.erase_cons_head]

theorem rotation_eq_of_split {front back : List TaskRef} {task : TaskRef}
    (fresh : task ∉ front) :
    rotation (front ++ task :: back) task = back ++ front := by
  have hfront : ∀ other, other ∈ front → decide (other ≠ task) = true := by
    intro other hother
    simp only [decide_eq_true_eq]
    rintro rfl
    exact fresh hother
  have htake : (front ++ task :: back).takeWhile (· ≠ task) = front := by
    rw [List.takeWhile_append_of_pos hfront]
    simp
  have hdrop : (front ++ task :: back).dropWhile (· ≠ task) =
      task :: back := by
    rw [List.dropWhile_append_of_pos hfront]
    simp
  unfold rotation
  rw [htake, hdrop, List.tail_cons]

theorem ring_split {state : State} {ring : List TaskRef} {task : TaskRef}
    (hring : Ring (nextOf state) state.taskList ring) (nodup : ring.Nodup)
    (hmem : task ∈ ring) :
    ∃ front back, ring = front ++ task :: back ∧ task ∉ front ∧
      task ∉ back ∧ rotation ring task = back ++ front ∧
      Segment (nextOf state) (nextOf state task) (back ++ front)
        (some task) := by
  obtain ⟨front, back, rfl⟩ := List.append_of_mem hmem
  have hnodup := List.nodup_cons.mp (List.nodup_middle.mp nodup)
  have hfront : task ∉ front := fun h => hnodup.1 (by simp [h])
  have hback : task ∉ back := fun h => hnodup.1 (by simp [h])
  exact ⟨front, back, rfl, hfront, hback, rotation_eq_of_split hfront,
    ring_cons.mp hring.rotate⟩

theorem findPrevious_ring {state : State} {ring : List TaskRef}
    {task first previous : TaskRef}
    (hring : Ring (nextOf state) state.taskList ring) (nodup : ring.Nodup)
    (hmem : task ∈ ring) (valid : ∀ other, other ∈ ring → state.Valid other)
    (hlist : state.taskList = some first)
    (hprevious : (rotation ring task).getLast? = some previous) :
    Returns .budgetExhausted (fun budget => findPrevious budget task first)
      state ring.length (previous, state) := by
  have hclosed := hring.closed
  obtain ⟨front, back, rfl, hfront, hback, hrotation, _⟩ :=
    ring_split hring nodup hmem
  rw [hrotation] at hprevious
  cases front with
  | nil =>
      obtain rfl : task = first :=
        Option.some.inj (hring.head_eq.symm.trans hlist)
      rw [hlist] at hclosed
      have hlast : (task :: back).getLast (by simp) = previous := by
        rw [List.append_nil] at hprevious
        cases back with
        | nil => cases hprevious
        | cons second rest =>
            rw [List.getLast?_eq_some_getLast (by simp)] at hprevious
            exact Option.some.inj hprevious
      have hwalk := findPrevious_returns hclosed hback valid
      rw [hlast] at hwalk
      exact hwalk.weaken (by simp)
  | cons head rest =>
      obtain rfl : head = first :=
        Option.some.inj (hring.head_eq.symm.trans hlist)
      obtain ⟨seam, hwalked, hseam, _⟩ := segment_append.mp hclosed
      subst hseam
      rw [hlist] at hwalked
      have hlast : (head :: rest).getLast (by simp) = previous := by
        rw [List.getLast?_append_of_ne_nil _ (by simp),
          List.getLast?_eq_some_getLast (by simp)] at hprevious
        exact Option.some.inj hprevious
      have hwalk := findPrevious_returns hwalked
        (fun hlater => hfront (by simp [hlater]))
        (fun node hnode => valid node (List.mem_append_left _ hnode))
      rw [hlast] at hwalk
      refine hwalk.weaken ?_
      simp only [List.length_append, List.length_cons]
      omega

theorem removeTask_returns {state : State} {ring : List TaskRef}
    {task : TaskRef} (hring : Ring (nextOf state) state.taskList ring)
    (nodup : ring.Nodup) (hmem : task ∈ ring)
    (valid : ∀ other, other ∈ ring → state.Valid other) :
    Returns .budgetExhausted (fun budget => removeTask budget (some task))
      state ring.length ((), unlink state ring task) := by
  have htask := valid task hmem
  obtain ⟨_, _, _, _, _, hrotation, hsegment⟩ := ring_split hring nodup hmem
  rw [← hrotation] at hsegment
  obtain ⟨first, hlist⟩ : ∃ first, state.taskList = some first := by
    rw [hring.head_eq]
    cases ring with
    | nil => simp at hmem
    | cons first rest => exact ⟨first, rfl⟩
  unfold unlink
  cases hlast : (rotation ring task).getLast? with
  | none =>
      have hself : (state.tasks task).nextTask = some task := by
        rw [List.getLast?_eq_none_iff] at hlast
        rw [hlast] at hsegment
        exact hsegment
      intro budget
      exact .inl (by simp [removeTask, hlist, htask, hself]; rfl)
  | some previous =>
      have hprevious := (mem_rotation nodup hmem).mp
        (List.mem_of_getLast? hlast)
      have hvalid := valid previous hprevious.1
      have hself : (state.tasks task).nextTask ≠ some task := by
        intro hself
        cases hrest : rotation ring task with
        | nil => simp [hrest] at hlast
        | cons second rest =>
            rw [hrest] at hsegment
            have hsecond := (mem_rotation nodup hmem).mp
              (hrest ▸ List.mem_cons_self : second ∈ rotation ring task)
            exact hsecond.2 (Option.some.inj (hsegment.1.symm.trans hself))
      have hkept : ((state.withNext previous (state.tasks task).nextTask).tasks
          task).nextTask = (state.tasks task).nextTask := by
        have hupdated := congrFun
          (nextOf_withNext state previous (nextOf state task)) task
        rw [Function.update_of_ne hprevious.2.symm] at hupdated
        exact hupdated
      intro budget
      rcases findPrevious_ring hring nodup hmem valid hlist hlast budget
        with ended | ⟨hle, failed⟩
      · left
        by_cases hfirst : first = task
        · subst first
          simp [removeTask, hlist, htask, hself, run_bind_ok ended, hvalid,
            hkept]
          rfl
        · simp [removeTask, hlist, htask, hself, run_bind_ok ended, hvalid,
            hfirst]
          rfl
      · right
        refine ⟨hle, ?_⟩
        simp [removeTask, hlist, htask, hself, run_bind_error failed]

theorem unlink_same (state : State) (ring : List TaskRef) (task : TaskRef) :
    SameButNext state (unlink state ring task) := by
  unfold unlink
  split
  · exact ⟨⟨rfl, rfl, rfl, rfl⟩, rfl, rfl, rfl, rfl, rfl, rfl, rfl, rfl⟩
  · split
    · exact ⟨⟨rfl, rfl, rfl, rfl⟩, waitOf_withNext .., cleanupOf_withNext ..,
        stateOf_withNext .., rfl, rfl, rfl, rfl, rfl⟩
    · exact ⟨⟨rfl, rfl, rfl, rfl⟩, waitOf_withNext .., cleanupOf_withNext ..,
        stateOf_withNext .., rfl, rfl, rfl, rfl, rfl⟩

theorem unlink_ring {state : State} {ring : List TaskRef} {task : TaskRef}
    (hring : Ring (nextOf state) state.taskList ring) (nodup : ring.Nodup)
    (hmem : task ∈ ring) :
    Ring (nextOf (unlink state ring task))
      (unlink state ring task).taskList (ring.erase task) := by
  obtain ⟨front, back, rfl, hfront, hback, hrotation, hsegment⟩ :=
    ring_split hring nodup hmem
  have hlist := hring.head_eq
  have hnodup : (back ++ front).Nodup := by
    have hrest := (List.nodup_cons.mp (List.nodup_middle.mp nodup)).2
    exact List.nodup_append_comm.mp hrest
  rw [erase_eq_of_split hfront]
  unfold unlink
  rw [hrotation]
  cases hlast : (back ++ front).getLast? with
  | none =>
      obtain ⟨rfl, rfl⟩ := List.append_eq_nil_iff.mp
        (List.getLast?_eq_none_iff.mp hlast)
      exact ring_nil
  | some previous =>
      obtain ⟨others, hothers⟩ := List.getLast?_eq_some_iff.mp hlast
      rw [hothers] at hsegment hnodup
      have hfresh : previous ∉ others := by
        rw [List.nodup_append] at hnodup
        exact fun hmem => hnodup.2.2 previous hmem previous (by simp) rfl
      have hredirected := hsegment.redirect hfresh (nextOf state task)
      rw [← nextOf_withNext] at hredirected
      -- behind `task` the remaining tasks form a ring
      have hremaining : Ring
          (nextOf (state.withNext previous (nextOf state task)))
          (nextOf state task) (back ++ front) := by
        rw [hothers]
        exact ⟨hsegment.head_eq (by simp), hredirected⟩
      cases front with
      | nil =>
          have hfirst : state.taskList = some task := hlist
          simp only [if_pos hfirst, List.nil_append]
          rw [List.append_nil] at hremaining
          exact hremaining
      | cons first rest =>
          have hfirst : state.taskList = some first := hlist
          have hne : first ≠ task := by
            rintro rfl
            exact hfront (by simp)
          have hkept : ¬ state.taskList = some task := by
            rw [hfirst]
            simpa using hne
          simp only [if_neg hkept, List.cons_append]
          rw [State.withNext_taskList, hfirst]
          exact hremaining.rotate

theorem findNextReadyTask_returns {state : State} {ring : List TaskRef}
    (hring : Ring (nextOf state) state.taskList ring) (nodup : ring.Nodup)
    (valid : ∀ task, task ∈ ring → state.Valid task) :
    Returns .budgetExhausted
      (fun budget => findNextReadyTask budget state.taskList) state
      ring.length (ring.find? (isReady state), state) := by
  cases ring with
  | nil =>
      have hnone : state.taskList = none := hring.head_eq
      intro budget
      exact .inl (by simp [findNextReadyTask, hnone])
  | cons first rest =>
      have hhead : state.taskList = some first := hring.head_eq
      rw [hhead] at hring ⊢
      refine ((scanRing_returns hring nodup valid).of_run_eq ?_).weaken
        (by simp)
      intro budget
      simp [findNextReadyTask, hhead]

/-- The state after `terminate_current` put the task on the cleanup list. -/
def retire (state : State) (task : TaskRef) : State :=
  match state.pendingCleanupTail with
  | none => (state.withCleanup task none).withPending (some task) (some task)
  | some tail =>
      ((state.withCleanup task none).withCleanup tail (some task)).withPending
        state.pendingCleanupHead (some task)

theorem retire_pending {state : State} {pending : List TaskRef}
    {task : TaskRef}
    (queue : Queue (cleanupOf state) state.pendingCleanupHead
      state.pendingCleanupTail pending) (fresh : task ∉ pending) :
    Queue (cleanupOf (retire state task))
      (retire state task).pendingCleanupHead
      (retire state task).pendingCleanupTail (pending ++ [task]) := by
  have hcleared : Queue (cleanupOf (state.withCleanup task none))
      state.pendingCleanupHead state.pendingCleanupTail pending := by
    rw [cleanupOf_withCleanup]
    apply queue.congr
    intro node hnode
    exact Function.update_of_ne (by rintro rfl; exact fresh hnode) ..
  have hlink : cleanupOf (state.withCleanup task none) task = none := by
    rw [cleanupOf_withCleanup, Function.update_self]
  unfold retire
  cases htail : state.pendingCleanupTail with
  | none =>
      obtain rfl := queue.tail_eq_none.mp htail
      exact Queue.singleton hlink
  | some tail =>
      rw [htail] at hcleared
      have hpushed := hcleared.push fresh hlink
      rw [← cleanupOf_withCleanup] at hpushed
      exact hpushed

structure SameButCleanup (before after : State) : Prop
    extends SameGlobals before after where
  next : nextOf after = nextOf before
  wait : waitOf after = waitOf before
  states : stateOf after = stateOf before
  currentTask : after.currentTask = before.currentTask
  taskList : after.taskList = before.taskList
  queues : after.queues = before.queues

theorem retire_same (state : State) (task : TaskRef) :
    SameButCleanup state (retire state task) := by
  unfold retire
  split
  · exact ⟨⟨rfl, rfl, rfl, rfl⟩, nextOf_withCleanup ..,
      waitOf_withCleanup .., stateOf_withCleanup .., rfl, rfl, rfl⟩
  · exact ⟨⟨rfl, rfl, rfl, rfl⟩,
      (nextOf_withCleanup ..).trans (nextOf_withCleanup ..),
      (waitOf_withCleanup ..).trans (waitOf_withCleanup ..),
      (stateOf_withCleanup ..).trans (stateOf_withCleanup ..),
      rfl, rfl, rfl⟩

theorem retire_kfreed (state : State) (task : TaskRef) :
    (retire state task).kfreed = state.kfreed := by
  unfold retire
  split <;> rfl

def retired (state : State) (layout : Layout) (current : TaskRef) : State :=
  unlink (retire state current) layout.ring current

theorem retired_states (state : State) (layout : Layout)
    (current : TaskRef) :
    stateOf (retired state layout current) = stateOf state :=
  (unlink_same ..).states.trans (retire_same ..).states

theorem retired_idleTask (state : State) (layout : Layout)
    (current : TaskRef) :
    (retired state layout current).idleTask = state.idleTask :=
  (unlink_same ..).idleTask.trans (retire_same ..).idleTask

theorem retired_valid (state : State) (layout : Layout)
    (current other : TaskRef) :
    (retired state layout current).Valid other ↔ state.Valid other := by
  unfold State.Valid
  rw [show (retired state layout current).kfreed = state.kfreed from
    (unlink_same ..).kfreed.trans (retire_kfreed ..)]

theorem retired_shape {state : State} {layout : Layout}
    (wellFormed : WellFormed state layout) {current : TaskRef}
    (hcurrent : state.currentTask = some current)
    (hring : current ∈ layout.ring) :
    Shape (retired state layout current) (layout.retire current) ∧
      NoneRunning (retired state layout current) (layout.retire current) := by
  have hrunning := (wellFormed.running_iff current hring).mpr hcurrent
  have hwaiting : ∀ queue, current ∉ layout.waiting queue := by
    intro queue hmem
    have hblocked := (wellFormed.blocked_iff current hring).mpr ⟨queue, hmem⟩
    rw [hrunning] at hblocked
    cases hblocked
  have same := retire_same state current
  have unlinked := unlink_same (retire state current) layout.ring current
  have herase : ∀ task, task ∈ layout.ring.erase current ↔
      task ≠ current ∧ task ∈ layout.ring :=
    fun task => wellFormed.ring_nodup.mem_erase_iff
  refine ⟨⟨?_, wellFormed.ring_nodup.erase _, ?_, ?_, ?_,
    wellFormed.waiting_unique, ?_, ?_, ?_, ?_, ?_⟩, ?_⟩
  · refine unlink_ring ?_ wellFormed.ring_nodup hring
    rw [same.next, same.taskList]
    exact wellFormed.ring
  · unfold retired
    rw [unlinked.cleanup, unlinked.pendingHead, unlinked.pendingTail]
    exact retire_pending wellFormed.pending
      fun hmem => wellFormed.pending_ring current hmem hring
  · intro task hpending hmem
    have htask := (herase task).mp hmem
    rcases List.mem_append.mp hpending with hold | hnew
    · exact wellFormed.pending_ring task hold htask.2
    · exact htask.1 (List.mem_singleton.mp hnew)
  · intro queue
    unfold retired
    rw [unlinked.wait, unlinked.queues, same.wait, same.queues]
    exact wellFormed.waiting queue
  · intro queue task hmem
    refine (herase task).mpr ⟨?_, wellFormed.waiting_ring queue task hmem⟩
    rintro rfl
    exact hwaiting queue hmem
  · intro task hmem
    rw [retired_states]
    exact wellFormed.blocked_iff task ((herase task).mp hmem).2
  · obtain ⟨idle, hidle, hfresh, hpending, hvalid⟩ := wellFormed.idle
    refine ⟨idle, (retired_idleTask ..).trans hidle, ?_, ?_,
      (retired_valid ..).mpr hvalid⟩
    · exact fun hmem => hfresh ((herase idle).mp hmem).2
    · intro hmem
      rcases List.mem_append.mp hmem with hold | hnew
      · exact hpending hold
      · obtain rfl := List.mem_singleton.mp hnew
        exact hfresh hring
  · intro task hmem
    exact (retired_valid ..).mpr
      (wellFormed.valid_ring task ((herase task).mp hmem).2)
  · intro task hmem
    apply (retired_valid ..).mpr
    rcases List.mem_append.mp hmem with hold | hnew
    · exact wellFormed.valid_pending task hold
    · obtain rfl := List.mem_singleton.mp hnew
      exact wellFormed.valid_ring task hring
  · intro task hmem hstate
    have htask := (herase task).mp hmem
    rw [retired_states] at hstate
    have hsame := (wellFormed.running_iff task htask.2).mp hstate
    exact htask.1 (Option.some.inj (hsame.symm.trans hcurrent))

def terminateEffect (state : State) (layout : Layout)
    (current idle : TaskRef) : Option Exit × State :=
  let after := retired state layout current
  let next := ((layout.ring.erase current).find? (isReady after)).getD idle
  (some (.switched current next), dispatch after next)

theorem terminateEffect_wellFormed {state : State} {layout : Layout}
    (wellFormed : WellFormed state layout) {current idle : TaskRef}
    (hcurrent : state.currentTask = some current)
    (hring : current ∈ layout.ring) (hidle : state.idleTask = some idle) :
    WellFormed (terminateEffect state layout current idle).2
      (layout.retire current) := by
  obtain ⟨shape, noneRunning⟩ := retired_shape wellFormed hcurrent hring
  cases hfind : (layout.ring.erase current).find?
      (isReady (retired state layout current)) with
  | none =>
      simp only [terminateEffect, hfind, Option.getD_none]
      exact shape.dispatchIdle noneRunning
        ((retired_idleTask ..).trans hidle)
  | some next =>
      simp only [terminateEffect, hfind, Option.getD_some]
      exact shape.dispatch noneRunning (List.mem_of_find?_eq_some hfind)
        (List.find?_some hfind)

theorem terminateCurrent_returns {state : State} {layout : Layout}
    (wellFormed : WellFormed state layout) {current idle : TaskRef}
    (hcurrent : state.currentTask = some current)
    (hring : current ∈ layout.ring) (hidle : state.idleTask = some idle)
    (hvalidIdle : state.Valid idle) (hnotIdle : current ≠ idle) :
    Returns .budgetExhausted terminateCurrent state layout.ring.length
      (terminateEffect state layout current idle) := by
  have hvalid := wellFormed.valid_ring current hring
  have same := retire_same state current
  obtain ⟨shape, _⟩ := retired_shape wellFormed hcurrent hring
  have hsearch := (findNextReadyTask_returns shape.ring shape.ring_nodup
    shape.valid_ring).weaken
      (List.length_erase_le : (layout.ring.erase current).length ≤ _)
  have hremove : Returns .budgetExhausted
      (fun budget => removeTask budget (some current)) (retire state current)
      layout.ring.length ((), retired state layout current) := by
    refine removeTask_returns ?_ wellFormed.ring_nodup hring ?_
    · rw [same.next, same.taskList]
      exact wellFormed.ring
    · intro task hmem
      unfold State.Valid
      rw [retire_kfreed]
      exact wellFormed.valid_ring task hmem
  intro budget
  have hpublish : (terminateCurrent budget).run state =
      (removeTask budget (some current) >>= fun _ => do
        if (← read (·.taskList)) = none then
          return some (← switchToIdle current)
        else do
          match ← findNextReadyTask budget (← read (·.taskList)) with
          | none => return some (← switchToIdle current)
          | some next => do
            setState next .running
            setCurrentTask (some next)
            return some (.switched current next)).run
        (retire state current) := by
    have hne : ¬ some current = state.idleTask := by
      rw [hidle]
      simpa using hnotIdle
    cases htail : state.pendingCleanupTail with
    | none =>
        simp [terminateCurrent, hcurrent, hne, hvalid, retire, htail]
        rfl
    | some tail =>
        have htailValid : state.Valid tail := by
          apply wellFormed.valid_pending
          apply List.mem_of_getLast?
          rw [← wellFormed.pending.tail_eq, htail]
        simp [terminateCurrent, hcurrent, hne, hvalid, retire, htail,
          htailValid]
        rfl
  rw [hpublish]
  rcases hremove budget with ended | ⟨hle, failed⟩
  · rw [run_bind_ok ended]
    have hidleAfter : (retired state layout current).idleTask = some idle :=
      (retired_idleTask ..).trans hidle
    have hvalidIdleAfter : (retired state layout current).Valid idle :=
      (retired_valid ..).mpr hvalidIdle
    cases hlist : (retired state layout current).taskList with
    | none =>
        have hempty : layout.ring.erase current = [] := by
          have hhead := shape.ring.head_eq
          rw [hlist] at hhead
          exact List.head?_eq_none_iff.mp hhead.symm
        left
        simp [hlist, run_bind_ok (run_switchToIdle hidleAfter hvalidIdleAfter
          current), terminateEffect, hempty]
    | some first =>
        rw [hlist] at hsearch
        rcases hsearch budget with found | ⟨hle, failed⟩
        · left
          cases hfind : (layout.ring.erase current).find?
              (isReady (retired state layout current)) with
          | none =>
              have found' : (findNextReadyTask budget (some first)).run
                  (retired state layout current) =
                    .ok (none, retired state layout current) := by
                rw [← hfind]
                exact found
              simp [hlist, run_bind_ok found', run_bind_ok
                (run_switchToIdle hidleAfter hvalidIdleAfter current),
                terminateEffect, hfind]
          | some next =>
              have found' : (findNextReadyTask budget (some first)).run
                  (retired state layout current) =
                    .ok (some next, retired state layout current) := by
                rw [← hfind]
                exact found
              have hvalidNext := shape.valid_ring next
                (List.mem_of_find?_eq_some hfind)
              simp [hlist, run_bind_ok found', hvalidNext, terminateEffect,
                hfind]
              rfl
        · right
          refine ⟨hle, ?_⟩
          simp [hlist, run_bind_error failed]
  · exact .inr ⟨hle, run_bind_error failed _⟩

end Scheduler

end Planetoid.Task
