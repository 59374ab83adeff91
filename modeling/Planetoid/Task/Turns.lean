import Mathlib.Data.List.Find
import Planetoid.Task.RingInvariant

namespace Planetoid.Task

open Planetoid Program Links Arch

/-! Which task the operations let run next. -/

inductive Turn (ready : TaskRef → Bool) :
    List TaskRef → Option TaskRef → List TaskRef → Option TaskRef → Prop
  | stay {ring : List TaskRef} {current : Option TaskRef} :
      Turn ready ring current ring current
  | insert {ring : List TaskRef} {current : Option TaskRef} {task : TaskRef}
      (fresh : task ∉ ring) :
      Turn ready ring current (insertSecond task ring) current
  | forward {ring : List TaskRef} {current next : TaskRef}
      (member : current ∈ ring)
      (found : (rotation ring current).find? ready = some next) :
      Turn ready ring (some current) ring (some next)
  | retire {ring : List TaskRef} {current next : TaskRef}
      (member : current ∈ ring)
      (found : (rotation ring current).find? ready = some next) :
      Turn ready ring (some current) (ring.erase current) (some next)
  | toIdle {ring after : List TaskRef} {current idle : TaskRef}
      (member : current ∈ ring)
      (missing : (rotation ring current).find? ready = none) :
      Turn ready ring (some current) after (some idle)
  | fromIdle {ring : List TaskRef} {idle next : TaskRef}
      (outside : idle ∉ ring) (found : ring.find? ready = some next) :
      Turn ready ring (some idle) ring (some next)

/-- `terminate_current`, which searches from `task_list`, finds the task that a
search behind the running task finds. -/
def Operation.KeepsTurn (history : History) : Operation → Prop
  | .terminateCurrent => ∀ tasks current,
    Ring (nextOf history.state) history.state.taskList tasks → tasks.Nodup →
    history.state.currentTask = some current →
    (tasks.erase current).find? (isReady history.state) =
      (rotation tasks current).find? (isReady history.state)
  | _ => True

theorem find_rotation {before after : State} {ring : List TaskRef}
    {current : TaskRef} (nodup : ring.Nodup) (member : current ∈ ring)
    (hothers : ∀ task, task ≠ current →
      stateOf after task = stateOf before task) :
    (rotation ring current).find? (isReady after) =
      (rotation ring current).find? (isReady before) := by
  apply List.find?_congr
  intro task htask
  unfold isReady
  rw [hothers task ((mem_rotation nodup member).mp htask).2]

theorem turn_of_firstReady {before after : State} {ring : List TaskRef}
    {current idle : TaskRef} (nodup : ring.Nodup) (member : current ∈ ring)
    (hothers : ∀ task, task ≠ current →
      stateOf after task = stateOf before task) :
    (firstReady after (rotation ring current) current = current ∧
        Turn (isReady before) ring (some current) ring (some idle)) ∨
      (firstReady after (rotation ring current) current ≠ current ∧
        Turn (isReady before) ring (some current) ring
          (some (firstReady after (rotation ring current) current))) := by
  have hsame := find_rotation nodup member hothers
  unfold firstReady
  cases hfind : (rotation ring current).find? (isReady after) with
  | none =>
      rw [hfind] at hsame
      exact .inl ⟨rfl, .toIdle member hsame.symm⟩
  | some next =>
      rw [hfind] at hsame
      refine .inr ⟨?_, .forward member hsame.symm⟩
      exact ((mem_rotation nodup member).mp
        (List.mem_of_find?_eq_some hfind)).2

namespace Scheduler

variable {state : State} {layout : Layout} {current idle : TaskRef}

theorem yieldEffect_turn (wellFormed : WellFormed state layout)
    (hcurrent : state.currentTask = some current)
    (member : current ∈ layout.ring) :
    Turn (isReady state) layout.ring state.currentTask layout.ring
      (yieldEffect state layout current).2.currentTask := by
  have hturn := @turn_of_firstReady state state _ current current
    wellFormed.ring_nodup member (fun _ _ => rfl)
  simp only [yieldEffect]
  rcases hturn with ⟨hsame, _⟩ | ⟨hne, turn⟩
  · rw [if_pos hsame]
    exact .stay
  · rw [if_neg hne, hcurrent]
    exact turn

theorem switchEffect_turn {before : State} (nodup : layout.ring.Nodup)
    (hcurrent : before.currentTask = some current)
    (member : current ∈ layout.ring)
    (hothers : ∀ task, task ≠ current →
      stateOf state task = stateOf before task) :
    Turn (isReady before) layout.ring before.currentTask layout.ring
      (switchEffect state layout current idle).2.currentTask := by
  have hturn := @turn_of_firstReady before state _ current idle nodup member
    hothers
  simp only [switchEffect]
  rw [hcurrent]
  rcases hturn with ⟨hsame, turn⟩ | ⟨hne, turn⟩
  · rw [if_pos hsame]
    exact turn
  · rw [if_neg hne]
    exact turn

theorem preemptTask_turn {before : State} (nodup : layout.ring.Nodup)
    (hcurrent : before.currentTask = some current)
    (hafter : state.currentTask = some current)
    (member : current ∈ layout.ring)
    (hstates : stateOf state = stateOf before) (context : ExceptionContext) :
    Turn (isReady before) layout.ring before.currentTask layout.ring
      (preemptTask state layout.ring current context).2.currentTask := by
  have hturn := @turn_of_firstReady before (paused state current context) _
    current current nodup member
    (fun task hne => by rw [stateOf_paused, if_neg hne, hstates])
  simp only [preemptTask]
  rcases hturn with ⟨hsame, _⟩ | ⟨hne, turn⟩
  · rw [if_pos hsame]
    change Turn _ _ _ _ state.currentTask
    rw [hafter, hcurrent]
    exact .stay
  · rw [if_neg hne, hcurrent]
    exact turn

theorem preemptEffect_turn (wellFormed : WellFormed state layout)
    (context : ExceptionContext) :
    Turn (isReady state) layout.ring state.currentTask layout.ring
      (preemptEffect state layout context).2.currentTask := by
  have same := cleanupEffect_same state layout.pending
  unfold preemptEffect
  cases hcurrent : state.currentTask with
  | none =>
      simp only
      rw [hcurrent]
      exact .stay
  | some current =>
      have hkept := same.currentTask.trans hcurrent
      simp only
      by_cases hidle : state.idleTask = some current
      · rw [if_pos hidle]
        have hready : isReady (cleanupEffect state layout.pending) =
            isReady state := by
          funext task
          unfold isReady
          rw [same.states]
        unfold preemptIdle
        rw [hready]
        cases hfind : layout.ring.find? (isReady state) with
        | none =>
            simp only
            rw [hkept]
            exact .stay
        | some next =>
            refine .fromIdle ?_ hfind
            obtain ⟨idle, hother, hfresh, _⟩ := wellFormed.idle
            cases hidle.symm.trans hother
            exact hfresh
      · rw [if_neg hidle, ← hcurrent]
        exact preemptTask_turn wellFormed.ring_nodup hcurrent hkept
          ((wellFormed.current current hcurrent).resolve_right hidle)
          same.states context

theorem terminateEffect_turn (hcurrent : state.currentTask = some current)
    (member : current ∈ layout.ring)
    (keeps : (layout.ring.erase current).find? (isReady state) =
      (rotation layout.ring current).find? (isReady state)) :
    Turn (isReady state) layout.ring state.currentTask
      (layout.retire current).ring
      (terminateEffect state layout current idle).2.currentTask := by
  have hready : isReady (retired state layout current) = isReady state := by
    funext task
    unfold isReady
    rw [retired_states]
  unfold terminateEffect
  simp only
  rw [hready, keeps, hcurrent]
  cases hfind : (rotation layout.ring current).find? (isReady state) with
  | none => exact .toIdle member hfind
  | some next => exact .retire member hfind

end Scheduler

/-- Every operation after `start` takes one of the turns. -/
theorem operation_turn {history : History} {layout : Layout}
    (consistent : Consistent history layout) {operation : Operation}
    (issued : operation.Issued history) (fresh : operation.AddsFresh history)
    (keeps : operation.KeepsTurn history) (started : history.started = true)
    {entry : Entry} {budget : Nat} {after : State}
    (ended : (operation.program entry budget).run history.state =
      .ok ((), after)) :
    ∃ next, Consistent (operation.record history after) next ∧
      Turn (isReady history.state) layout.ring history.state.currentTask
        next.ring after.currentTask := by
  obtain ⟨next, hnext, effect, _⟩ := operation_effect consistent issued fresh
    ended
  refine ⟨next, hnext, ?_⟩
  have wellFormed := consistent.wellFormed
  generalize next.ring = ring at effect
  cases effect with
  | addTask addable =>
      rw [Scheduler.addTaskEffect_currentTask]
      exact .insert addable.ring
  | start unstarted hidle =>
      rw [show history.started = false from issued] at started
      cases started
  | yield hcurrent member =>
      rw [finishEffect_currentTask]
      exact Scheduler.yieldEffect_turn wellFormed hcurrent member
  | preempt => exact Scheduler.preemptEffect_turn wellFormed _
  | rest => exact .stay
  | sleep hcurrent member hidle positive =>
      rw [finishEffect_currentTask]
      apply Scheduler.switchEffect_turn wellFormed.ring_nodup hcurrent member
      intro task hne
      rw [Scheduler.stateOf_asleep, if_neg hne]
  | updateSleepingTasks =>
      obtain ⟨_, hcurrent⟩ := Scheduler.foldl_wakeSleeper_sameLinks
        history.state.systemTicks layout.ring history.state
      unfold Scheduler.wakeSleepers
      rw [hcurrent]
      exact .stay
  | blockCurrent hcurrent member hidle =>
      rw [finishEffect_currentTask]
      apply Scheduler.switchEffect_turn wellFormed.ring_nodup hcurrent member
      intro task hne
      rw [WaitQueue.stateOf_join, if_neg hne]
  | wakeOne =>
      rw [(WaitQueue.wakeOneEffect_same ..).1.currentTask]
      exact .stay
  | wakeAll =>
      rw [(WaitQueue.wakeAllEffect_same ..).1.currentTask]
      exact .stay
  | @terminateCurrent current idle _ _ hcurrent member hidle terminated =>
      have turn := @Scheduler.terminateEffect_turn _ layout current idle
        hcurrent member (keeps layout.ring current wellFormed.ring
          wellFormed.ring_nodup hcurrent)
      rw [terminated] at turn
      rw [finishEffect_currentTask]
      exact turn

end Planetoid.Task
