import Planetoid.Base.Commutation
import Planetoid.Task.Operations

namespace Planetoid.Task

open Planetoid Program

/-! The handler of the timer neither reads nor writes the mask of the core. -/

def MaskBlind (program : Sched α) : Prop :=
  ∀ daif, program.Commutes fun state => state.withDaif daif

section

variable {program : Sched α}

theorem maskBlind_pure (value : α) : MaskBlind (pure value : Sched α) :=
  fun _ => commutes_pure value

theorem maskBlind_bind {next : α → Sched β} (first : MaskBlind program)
    (rest : ∀ value, MaskBlind (next value)) :
    MaskBlind (program >>= next) :=
  fun daif => commutes_bind (first daif) fun value => rest value daif

theorem maskBlind_read {view : State → α}
    (h : ∀ state daif, view (state.withDaif daif) = view state) :
    MaskBlind (read view : Sched α) :=
  fun daif => commutes_read fun state => h state daif

theorem maskBlind_write {update : State → State}
    (h : ∀ state daif,
      update (state.withDaif daif) = (update state).withDaif daif) :
    MaskBlind (write update) :=
  fun daif => commutes_write fun state => h state daif

theorem maskBlind_whileLoop {exhausted : Fault} {body : β → Sched (β ⊕ γ)}
    (hbody : ∀ value, MaskBlind (body value)) (budget : Nat) (value : β) :
    MaskBlind (whileLoop exhausted body budget value) :=
  fun daif => commutes_whileLoop (fun next => hbody next daif) budget value

theorem maskBlind_deref (task : Option TaskRef) : MaskBlind (deref task) := by
  intro daif
  cases task with
  | none => exact trivial
  | some task => exact trivial

theorem maskBlind_load (task : TaskRef) (field : TaskState → α) :
    MaskBlind (load task field) := by
  intro daif state
  refine ⟨rfl, rfl, ?_⟩
  by_cases valid : state.Valid task
  · simp only [if_pos valid]
    exact trivial
  · simp only [if_neg valid]
    exact trivial

theorem maskBlind_store (task : TaskRef) (update : TaskState → TaskState) :
    MaskBlind (store task update) := by
  intro daif state
  refine ⟨rfl, rfl, ?_⟩
  by_cases valid : state.Valid task
  · simp only [if_pos valid]
    exact trivial
  · simp only [if_neg valid]
    exact trivial

end

namespace Scheduler

theorem maskBlind_setCurrentTask (task : Option TaskRef) :
    MaskBlind (setCurrentTask task) :=
  maskBlind_write fun _ _ => rfl

theorem maskBlind_cleanupTerminatedTask :
    MaskBlind cleanupTerminatedTask := by
  refine maskBlind_bind (maskBlind_read fun _ _ => rfl) fun head => ?_
  split
  · exact maskBlind_pure _
  · refine maskBlind_bind (maskBlind_read fun _ _ => rfl) fun head => ?_
    refine maskBlind_bind (maskBlind_deref head) fun task => ?_
    refine maskBlind_bind (maskBlind_load task _) fun next => ?_
    refine maskBlind_bind (maskBlind_write fun _ _ => rfl) fun _ => ?_
    refine maskBlind_bind (maskBlind_read fun _ _ => rfl) fun head => ?_
    have freeing : MaskBlind (do
        setCleanupNext task none
        kfree (.stack (← load task (·.stackBase)))
        kfree (.state task)) := by
      refine maskBlind_bind (maskBlind_store task _) fun _ => ?_
      refine maskBlind_bind (maskBlind_load task _) fun base => ?_
      exact maskBlind_bind (maskBlind_write fun _ _ => rfl)
        fun _ => maskBlind_write fun _ _ => rfl
    dsimp only
    split
    · exact maskBlind_bind (maskBlind_write fun _ _ => rfl) fun _ => freeing
    · exact freeing

theorem maskBlind_scanReady (budget : Nat) (start : Option TaskRef) :
    MaskBlind (scanReady budget (read (·.currentTask)) start) := by
  refine maskBlind_whileLoop (fun next => ?_) budget start
  refine maskBlind_bind (maskBlind_read fun _ _ => rfl) fun value => ?_
  split
  · exact maskBlind_pure _
  · refine maskBlind_bind (maskBlind_deref next) fun task => ?_
    refine maskBlind_bind (maskBlind_load task _) fun value => ?_
    split
    · exact maskBlind_pure _
    · exact maskBlind_bind (maskBlind_load task _) fun _ => maskBlind_pure _

theorem maskBlind_scanFromIdle (budget : Nat) (start : Option TaskRef) :
    MaskBlind (scanFromIdle budget start) := by
  refine maskBlind_whileLoop (fun position => ?_) budget start
  split
  · exact maskBlind_pure _
  · rename_i task
    refine maskBlind_bind (maskBlind_load task _) fun value => ?_
    split
    · exact maskBlind_pure _
    · refine maskBlind_bind (maskBlind_load task _) fun next => ?_
      refine maskBlind_bind (maskBlind_read fun _ _ => rfl) fun list => ?_
      split
      · exact maskBlind_pure _
      · exact maskBlind_pure _

theorem maskBlind_restoreContext (task : TaskRef)
    (context : ExceptionContext) :
    MaskBlind (restoreContext task context) :=
  maskBlind_bind (maskBlind_load task _) fun _ => maskBlind_pure _

theorem maskBlind_resume (next : TaskRef) (context : ExceptionContext) :
    MaskBlind (do
      setState next .running
      setCurrentTask (some next)
      restoreContext next context) := by
  refine maskBlind_bind (maskBlind_store next _) fun _ => ?_
  refine maskBlind_bind (maskBlind_setCurrentTask _) fun _ => ?_
  exact maskBlind_restoreContext next context

theorem maskBlind_preempt (budget : Nat) (context : ExceptionContext) :
    MaskBlind (preempt budget context) := by
  refine maskBlind_bind (maskBlind_read fun _ _ => rfl) fun current => ?_
  split
  · exact maskBlind_pure _
  refine maskBlind_bind maskBlind_cleanupTerminatedTask fun _ => ?_
  refine maskBlind_bind (maskBlind_read fun _ _ => rfl) fun current => ?_
  refine maskBlind_bind (maskBlind_read fun _ _ => rfl) fun idle => ?_
  split
  · refine maskBlind_bind (maskBlind_read fun _ _ => rfl) fun list => ?_
    refine maskBlind_bind (maskBlind_scanFromIdle budget list) fun found => ?_
    split
    · exact maskBlind_pure _
    · exact maskBlind_resume _ context
  · refine maskBlind_bind (maskBlind_read fun _ _ => rfl) fun current => ?_
    refine maskBlind_bind (maskBlind_deref current) fun task => ?_
    refine maskBlind_bind (maskBlind_load task _) fun value => ?_
    split
    · exact maskBlind_pure _
    · refine maskBlind_bind (maskBlind_store task _) fun _ => ?_
      refine maskBlind_bind (maskBlind_store task _) fun _ => ?_
      refine maskBlind_bind (maskBlind_load task _) fun start => ?_
      refine maskBlind_bind (maskBlind_scanReady budget start)
        fun found => ?_
      refine maskBlind_bind (maskBlind_read fun _ _ => rfl) fun current => ?_
      split
      · exact maskBlind_bind (maskBlind_store task _)
          fun _ => maskBlind_pure _
      · exact maskBlind_bind (maskBlind_deref found)
          fun next => maskBlind_resume next context

theorem maskBlind_updateSleepingTasks (budget : Nat) :
    MaskBlind (updateSleepingTasks budget) := by
  refine maskBlind_bind (maskBlind_read fun _ _ => rfl) fun list => ?_
  split
  · exact maskBlind_pure _
  · refine maskBlind_bind (maskBlind_read fun _ _ => rfl) fun tick => ?_
    refine maskBlind_whileLoop (fun position => ?_) budget _
    refine maskBlind_bind (maskBlind_deref position) fun task => ?_
    have waking : MaskBlind (wakeExpired tick task) := by
      refine maskBlind_bind (maskBlind_load task _) fun value => ?_
      split
      · refine maskBlind_bind (maskBlind_load task _) fun wakeTick => ?_
        split
        · exact maskBlind_store task _
        · exact maskBlind_pure _
      · exact maskBlind_pure _
    refine maskBlind_bind waking fun _ => ?_
    refine maskBlind_bind (maskBlind_load task _) fun next => ?_
    refine maskBlind_bind (maskBlind_read fun _ _ => rfl) fun list => ?_
    split
    · exact maskBlind_pure _
    · exact maskBlind_pure _

end Scheduler

theorem maskBlind_onTimerInterrupt (budget : Nat)
    (context : ExceptionContext) :
    MaskBlind (onTimerInterrupt budget context) := by
  refine maskBlind_bind (maskBlind_write fun _ _ => rfl) fun _ => ?_
  refine maskBlind_bind (Scheduler.maskBlind_updateSleepingTasks budget)
    fun _ => ?_
  exact Scheduler.maskBlind_preempt budget context

end Planetoid.Task
