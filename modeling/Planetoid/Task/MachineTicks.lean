import Planetoid.Task.Effects
import Planetoid.Task.TickCount

namespace Planetoid.Task

open Planetoid Program Arch

/-! The tick counter over the steps of the machine. -/

def KeepsTicks (before after : Core) : Prop :=
  SameTicks before.state after.state

theorem keepsTicks_kernel {program : Sched α}
    (h : program.Respects SameTicks) :
    (kernel program).Respects KeepsTicks :=
  respects_zoom h fun _ _ same => same

theorem keepsTicks_saveTo (task : TaskRef)
    (save : Registers → CPUContext → CPUContext) :
    (saveTo task save).Respects KeepsTicks := by
  intro core
  refine ⟨rfl, ?_⟩
  by_cases valid : core.state.Valid task
  · simp only [if_pos valid]
    exact trivial
  · simp only [if_neg valid]
    exact trivial

theorem keepsTicks_loadFrom (task : TaskRef)
    (load : CPUContext → Registers → Registers) :
    (loadFrom task load).Respects KeepsTicks := by
  intro core
  refine ⟨rfl, ?_⟩
  by_cases valid : core.state.Valid task
  · simp only [if_pos valid]
    exact trivial
  · simp only [if_neg valid]
    exact trivial

theorem keepsTicks_leave (map : CodeMap) (back : Service) (exit : Exit) :
    (leave map back exit).Respects KeepsTicks := by
  cases exit with
  | returned => exact trivial
  | switched previous next =>
      have switching : (switchTo map previous next).Respects KeepsTicks := by
        refine respects_bind (keepsTicks_saveTo _ _) fun _ => ?_
        refine respects_bind (keepsTicks_saveTo _ _) fun _ => ?_
        refine respects_bind (keepsTicks_saveTo _ _) fun _ => ?_
        refine respects_bind (keepsTicks_loadFrom _ _) fun _ => ?_
        refine respects_bind (keepsTicks_loadFrom _ _) fun _ => ?_
        refine respects_bind (keepsTicks_loadFrom _ _) fun _ => ?_
        exact respects_write fun _ => rfl
      exact respects_bind switching fun _ => respects_pure _

theorem keepsTicks_lockOnce (map : CodeMap) (budget : Nat)
    (mutex : Mutex.MutexRef) :
    (lockOnce map budget mutex).Respects KeepsTicks := by
  refine respects_bind
    (keepsTicks_kernel (Mutex.sameTicks_lockRound budget mutex))
    fun exit => ?_
  split
  · exact respects_pure _
  · refine respects_bind (keepsTicks_leave map .again _) fun service => ?_
    split
    · exact respects_pure _
    · exact respects_pure _

theorem Request.program_keepsTicks (map : CodeMap) (budget : Nat)
    (request : Request) : (request.program map budget).Respects KeepsTicks := by
  cases request with
  | yield =>
      exact respects_bind (keepsTicks_kernel (Scheduler.sameTicks_yield budget))
        fun exit => keepsTicks_leave map .done exit
  | sleep ticks =>
      exact respects_bind
        (keepsTicks_kernel (Scheduler.sameTicks_sleep budget ticks))
        fun exit => keepsTicks_leave map .done exit
  | lock mutex =>
      exact respects_whileLoop (fun _ => keepsTicks_lockOnce map budget mutex)
        budget ()

theorem Routine.program_keepsTicks (map : CodeMap) (budget : Nat)
    (routine : Routine) : (routine.program map budget).Respects KeepsTicks := by
  cases routine with
  | start =>
      exact respects_bind (keepsTicks_kernel Scheduler.sameTicks_start)
        fun exit => keepsTicks_leave map .done exit
  | terminate =>
      refine respects_bind (keepsTicks_kernel
        (Scheduler.sameTicks_terminateCurrent budget)) fun exit => ?_
      split
      · exact respects_pure _
      · exact keepsTicks_leave map .again _

theorem sameTicks_of_run {program : Sched α} (h : program.Respects SameTicks)
    {state after : State} {value : α}
    (ended : program.run state = .ok (value, after)) :
    SameTicks state after := by
  have keeps : program.Keeps (SameTicks state) :=
    h.keeps fun _ _ same hbefore => same.trans hbefore
  exact (keeps.ends (SameTicks.refl state)).of_run ended

theorem keepsTicks_of_run {code : Code α} (h : code.Respects KeepsTicks)
    {core after : Core} {value : α}
    (ended : code.run core = .ok (value, after)) : KeepsTicks core after := by
  have keeps : code.Keeps (KeepsTicks core) :=
    h.keeps fun _ _ same hbefore => same.trans hbefore
  exact (keeps.ends (SameTicks.refl core.state)).of_run ended

/-- An interrupt of the timer counts one tick. -/
theorem ticks_onTimerInterrupt {budget : Nat} {context frame : ExceptionContext}
    {state after : State}
    (ended : (onTimerInterrupt budget context).run state =
      .ok (frame, after)) :
    after.systemTicks = (state.systemTicks + 1) % Timer.ticksModulus := by
  have rest : (do
      Scheduler.updateSleepingTasks budget
      Scheduler.preempt budget context).Respects SameTicks :=
    respects_bind (Scheduler.sameTicks_updateSleepingTasks budget)
      fun _ => Scheduler.sameTicks_preempt budget context
  exact sameTicks_of_run rest ended

def Activity.KeepsTicks : Activity → Prop
  | .inside _ _ _ rest => rest.Respects Task.KeepsTicks
  | _ => True

theorem Activity.left_keepsTicks (activity : Activity) :
    activity.left.KeepsTicks := by
  cases activity <;> exact trivial

namespace Machine

structure KeepsTicks (machine : Machine) : Prop where
  running : machine.running.activity.KeepsTicks
  suspended : ∀ task suspension, machine.suspended task = some suspension →
    suspension.execution.activity.KeepsTicks

namespace KeepsTicks

variable {map : CodeMap} {machine : Machine}

theorem of_eq (h : machine.KeepsTicks) {after : Machine}
    (hactivity : after.running.activity = machine.running.activity)
    (hsuspended : after.suspended = machine.suspended) :
    after.KeepsTicks where
  running := hactivity ▸ h.running
  suspended := by
    rw [hsuspended]
    exact h.suspended

theorem withActivity (h : machine.KeepsTicks) {activity : Activity}
    (hactivity : activity.KeepsTicks) :
    (machine.withActivity activity).KeepsTicks :=
  ⟨hactivity, h.suspended⟩

theorem suspend (h : machine.KeepsTicks) {suspension : Suspension}
    (hsuspension : suspension.execution.activity.KeepsTicks)
    (task : TaskRef) : (machine.suspend task suspension).KeepsTicks := by
  refine ⟨h.running, ?_⟩
  intro other found hfound
  by_cases heq : other = task
  · subst other
    rw [suspend_self] at hfound
    obtain rfl := Option.some.inj hfound
    exact hsuspension
  · rw [suspend_of_ne _ _ heq] at hfound
    exact h.suspended other found hfound

theorem dispatch (h : machine.KeepsTicks) (next : TaskRef)
    (registers resumed : Registers) :
    (machine.dispatch next registers resumed).KeepsTicks := by
  unfold Machine.dispatch
  split
  · exact ⟨trivial, h.suspended⟩
  · rename_i suspension hfound
    exact ⟨h.suspended next suspension hfound, h.suspended⟩

theorem arrive (h : machine.KeepsTicks) : (machine.arrive map).KeepsTicks :=
  h.of_eq (arrive_activity ..) (arrive_suspended ..)

theorem handOver (h : machine.KeepsTicks) (caller : Registers)
    (handover : Handover) (registers : Registers) :
    (machine.handOver map caller handover registers).KeepsTicks :=
  (h.suspend (Activity.left_keepsTicks _) _).dispatch ..

theorem saveInterrupted (h : machine.KeepsTicks) :
    machine.saveInterrupted.KeepsTicks := by
  unfold Machine.saveInterrupted
  split
  · exact h
  · exact h.suspend h.running _

theorem interrupted (h : machine.KeepsTicks) (frame : ExceptionContext)
    (after : State) : (machine.interrupted map frame after).KeepsTicks := by
  have saved : (machine.saveInterrupted.withState
      (after.withDaif frame.spsr.daif)).KeepsTicks :=
    h.saveInterrupted.of_eq rfl rfl
  unfold Machine.interrupted
  dsimp only
  split
  · exact saved.of_eq rfl rfl
  · split
    · exact saved.of_eq rfl rfl
    · exact (saved.dispatch ..).arrive

end KeepsTicks

variable {map : CodeMap} {machine after : Machine}

theorem interrupted_history (frame : ExceptionContext) (state : State) :
    (machine.interrupted map frame state).history.state =
      state.withDaif frame.spsr.daif := by
  unfold interrupted
  dsimp only
  split
  · rfl
  · split
    · rfl
    · rw [arrive_history, dispatch_history]
      rfl

theorem handOver_history (caller : Registers) (handover : Handover)
    (registers : Registers) :
    (machine.handOver map caller handover registers).history =
      machine.history :=
  dispatch_history ..

theorem Routine.record_state (routine : Routine) (history : History)
    (state : State) (handover : Handover) :
    (routine.record history state handover).state = state := by
  cases routine <;> rfl

theorem proceed_history (routine : Routine) (caller : Registers)
    (accesses : Nat) (rest : Code Service) (core : Core) :
    (machine.proceed map routine caller accesses rest core).history.state =
      core.state := by
  unfold proceed
  split
  · rw [handOver_history]
    exact Routine.record_state ..
  · rfl
  · rfl

theorem serve_history (call : Call) (task : TaskRef) (service : Service)
    (core : Core) :
    (machine.serve map call task service core).history.state =
      core.state := by
  unfold serve
  dsimp only
  split
  · rw [handOver_history]
    exact Request.record_state ..
  · exact Request.record_state ..

theorem Initial.keepsTicks (initial : machine.Initial map) :
    machine.KeepsTicks where
  running := by
    rw [initial.executes.own]
    exact trivial
  suspended := by
    rw [initial.suspended]
    exact nofun

theorem KeepsTicks.proceed (h : machine.KeepsTicks) {rest : Code Service}
    (hrest : rest.Respects Task.KeepsTicks) (routine : Routine)
    (caller : Registers) (accesses : Nat) (core : Core) :
    (machine.proceed map routine caller accesses rest core).KeepsTicks := by
  unfold Machine.proceed
  split
  · have recorded : ∀ history, (machine.withHistory history).KeepsTicks :=
      fun _ => h.of_eq rfl rfl
    exact (recorded _).handOver ..
  · exact ⟨trivial, h.suspended⟩
  · exact ⟨hrest, h.suspended⟩

theorem KeepsTicks.serve (h : machine.KeepsTicks) (call : Call)
    (task : TaskRef) (service : Service) (core : Core) :
    (machine.serve map call task service core).KeepsTicks := by
  have served : ((machine.withHistory (call.request.record machine.history
      core.state service)).withCall task (some (call.after service))).KeepsTicks :=
    h.of_eq rfl rfl
  unfold Machine.serve
  dsimp only
  split
  · exact served.handOver ..
  · exact served

/-- Only an interrupt counts. -/
theorem Step.ticks {event : Event} (h : machine.KeepsTicks)
    (step : Step map machine event after) :
    after.KeepsTicks ∧ (event ≠ .interrupt →
      SameTicks machine.history.state after.history.state) := by
  cases step with
  | add executes uncalled fresh ended =>
      refine ⟨h.of_eq rfl rfl, fun _ => ?_⟩
      exact (congrArg State.systemTicks (Operation.record_state ..)).trans
        (sameTicks_of_run (Scheduler.sameTicks_addTask _) ended)
  | call | giveBack | mask => exact ⟨h.of_eq rfl rfl, fun _ => rfl⟩
  | compute => exact ⟨h.of_eq rfl rfl, fun _ => rfl⟩
  | @serve task call budget service core executes runs called unserved ended =>
      refine ⟨h.serve call task service core, fun _ => ?_⟩
      exact (congrArg State.systemTicks (serve_history ..)).trans
        (keepsTicks_of_run (call.request.program_keepsTicks map budget) ended)
  | unlock executes runs uncalled ended =>
      refine ⟨h.of_eq rfl rfl, fun _ => ?_⟩
      exact sameTicks_of_run (Mutex.sameTicks_unlock _) ended
  | @enter routine budget executes uncalled enters =>
      exact ⟨h.withActivity (routine.program_keepsTicks map budget),
        fun _ => rfl⟩
  | access activity pc step =>
      have inside := h.running
      rw [activity] at inside
      obtain ⟨hsame, hleft⟩ := inside.step step
      refine ⟨h.proceed hleft .., fun _ => ?_⟩
      exact (congrArg State.systemTicks (proceed_history ..)).trans hsame
  | branch pc =>
      refine ⟨KeepsTicks.arrive (h.of_eq rfl rfl), fun _ => ?_⟩
      exact congrArg (·.state.systemTicks) (arrive_history ..)
  | interrupt enabled ended =>
      exact ⟨h.interrupted .., fun hne => absurd rfl hne⟩

end Machine

end Planetoid.Task
