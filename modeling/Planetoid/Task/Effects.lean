import Planetoid.Task.Runs

namespace Planetoid.Task

open Planetoid Program Links Arch

/-! What an operation that returned did to the ring and to the state. -/

/-- The ring and the state after an operation in a well-formed state. -/
inductive Effect (history : History) (layout : Layout) (entry : Entry) :
    Operation → List TaskRef → State → Prop
  | addTask {task : TaskRef}
      (addable : Scheduler.Addable history.state layout task) :
      Effect history layout entry (.addTask task)
        (insertSecond task layout.ring)
        (Scheduler.addTaskEffect history.state task)
  | start {launch idle : TaskRef}
      (unstarted : history.state.currentTask = none)
      (hidle : history.state.idleTask = some idle) :
      Effect history layout entry .start layout.ring
        (finishEffect entry
          (Scheduler.startEffect history.state layout launch idle))
  | yield {current : TaskRef}
      (hcurrent : history.state.currentTask = some current)
      (member : current ∈ layout.ring) :
      Effect history layout entry .yield layout.ring
        (finishEffect entry
          (Scheduler.yieldEffect history.state layout current))
  | preempt {context : ExceptionContext} :
      Effect history layout entry (.preempt context) layout.ring
        (Scheduler.preemptEffect history.state layout context).2
  | rest : Effect history layout entry (.sleep 0) layout.ring history.state
  | sleep {ticks : Nat} {current idle : TaskRef}
      (hcurrent : history.state.currentTask = some current)
      (member : current ∈ layout.ring)
      (hidle : history.state.idleTask = some idle) (positive : ticks ≠ 0) :
      Effect history layout entry (.sleep ticks) layout.ring
        (finishEffect entry (Scheduler.switchEffect
          (Scheduler.asleep history.state current ticks) layout current idle))
  | updateSleepingTasks :
      Effect history layout entry .updateSleepingTasks layout.ring
        (Scheduler.wakeSleepers history.state layout.ring)
  | blockCurrent {queue : QueueRef} {current idle : TaskRef}
      (hcurrent : history.state.currentTask = some current)
      (member : current ∈ layout.ring)
      (hidle : history.state.idleTask = some idle) :
      Effect history layout entry (.blockCurrent queue) layout.ring
        (finishEffect entry (WaitQueue.blockCurrentEffect history.state layout
          queue current idle))
  | wakeOne {queue : QueueRef} :
      Effect history layout entry (.wakeOne queue) layout.ring
        (WaitQueue.wakeOneEffect history.state queue (layout.waiting queue))
  | wakeAll {queue : QueueRef} :
      Effect history layout entry (.wakeAll queue) layout.ring
        (WaitQueue.wakeAllEffect history.state queue (layout.waiting queue))
  | terminateCurrent {current idle : TaskRef} {exit : Exit} {after : State}
      (hcurrent : history.state.currentTask = some current)
      (member : current ∈ layout.ring)
      (hidle : history.state.idleTask = some idle)
      (terminated : Scheduler.terminateEffect history.state layout current
        idle = (some exit, after)) :
      Effect history layout entry .terminateCurrent
        (layout.ring.erase current) (finishEffect entry (exit, after))

theorem Operation.record_state (operation : Operation) (history : History)
    (after : State) : (operation.record history after).state = after := by
  cases operation with
  | blockCurrent queue =>
      unfold Operation.record
      simp only
      split <;> rfl
  | terminateCurrent =>
      unfold Operation.record
      simp only
      split <;> rfl
  | _ => rfl

end Planetoid.Task
