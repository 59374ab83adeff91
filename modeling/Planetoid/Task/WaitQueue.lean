import Planetoid.Task.Scheduler

namespace Planetoid.Task

open Planetoid Program

namespace WaitQueue

def setHead (queue : QueueRef) (head : Option TaskRef) : Sched Unit :=
  write fun state =>
    state.setQueue queue { state.queues queue with head := head }

def setTail (queue : QueueRef) (tail : Option TaskRef) : Sched Unit :=
  write fun state =>
    state.setQueue queue { state.queues queue with tail := tail }

def setWaitNext (task : TaskRef) (value : Option TaskRef) : Sched Unit :=
  store task fun fields => { fields with waitNext := value }

def init (queue : Option QueueRef) : Sched Unit := do
  match queue with
  | none => pure ()
  | some queue => do
    setHead queue none
    setTail queue none

def blockCurrent (budget : Nat) (queue : Option QueueRef) : Sched Exit := do
  match queue, ← read (·.currentTask) with
  | none, _ => pure .returned
  | _, none => pure .returned
  | some queue, some current => do
    Scheduler.setState current .blocked
    setWaitNext current none
    match ← read fun state => (state.queues queue).tail with
    | none => do
      setHead queue (some current)
      setTail queue (some current)
    | some tail => do
      setWaitNext tail (some current)
      setTail queue (some current)
    Scheduler.blockCurrentTask budget

def wakeOne (queue : Option QueueRef) : Sched Unit := do
  match queue with
  | none => pure ()
  | some queue =>
    match ← read fun state => (state.queues queue).head with
    | none => pure ()
    | some task => do
      setHead queue (← load task (·.waitNext))
      if (← read fun state => (state.queues queue).head) = none then
        setTail queue none
      else pure ()
      setWaitNext task none
      Scheduler.setState task .ready

def wakeAll (budget : Nat) (queue : Option QueueRef) : Sched Unit := do
  match queue with
  | none => pure ()
  | some queue =>
    whileLoop .budgetExhausted (fun _ => do
      if (← read fun state => (state.queues queue).head) ≠ none then do
        wakeOne (some queue)
        pure (.inl ())
      else pure (.inr ())) budget ()

end WaitQueue

end Planetoid.Task
