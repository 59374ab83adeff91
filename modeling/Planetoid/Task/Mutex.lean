import Planetoid.Task.WaitQueue

namespace Planetoid.Task

open Planetoid Program

namespace Mutex

/-- A `MutexState*`; the mutex owns the wait queue of the same name. -/
abbrev MutexRef := QueueRef

def setLocked (mutex : MutexRef) (value : Bool) : Sched Unit :=
  write fun state =>
    { state with locked := Function.update state.locked mutex value }

def init (mutex : Option MutexRef) : Sched Unit := do
  match mutex with
  | none => pure ()
  | some mutex => do
    setLocked mutex false
    WaitQueue.init (some mutex)

/-- One round of the loop of `lock`: `none` when the mutex is taken, else how
`block_current` left the round. -/
def lockRound (budget : Nat) (mutex : MutexRef) : Sched (Option Exit) := do
  let irqState ← Interrupts.irqSave
  if (← read fun state => state.locked mutex) = false then do
    setLocked mutex true
    Interrupts.irqRestore irqState
    pure none
  else
    return some (← WaitQueue.blockCurrent budget (some mutex))

def unlock (mutex : Option MutexRef) : Sched Unit := do
  match mutex with
  | none => pure ()
  | some mutex => do
    let irqState ← Interrupts.irqSave
    setLocked mutex false
    if (← read fun state => (state.queues mutex).head) ≠ none then
      WaitQueue.wakeOne (some mutex)
    else pure ()
    Interrupts.irqRestore irqState

end Mutex

end Planetoid.Task
