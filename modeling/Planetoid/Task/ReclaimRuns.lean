import Planetoid.Task.Departures

namespace Planetoid.Task

open Planetoid Program Links Arch

/-! The cleanup list over the runs in which no timer interrupt comes between
the accesses of `terminate_current` to that list and the switch. -/

/-- A thread inside `terminate_current` that has read the end of the cleanup
list. -/
def Activity.Withdrawing : Activity → Prop
  -- an interrupt behind that read may free the last task of the list, and
  -- `pending_cleanup_tail->cleanup_next` would follow a null pointer
  | .inside .terminate _ accesses _ => 6 ≤ accesses
  | _ => False

/-- No interrupt is taken in `terminate_current` from its read of
`pending_cleanup_tail` on, nor between the store to `current_task` in `start`
and the end of the `task_switch` that follows it. The tasks to which
`task_switch` passes the core began, and no interrupt suspended them inside
`terminate_current`. -/
structure KeepsCleanup (machine : Machine) (event : Event) : Prop where
  threads : KeepsThreads machine event
  cleanup : event = .interrupt → ¬ machine.running.activity.Withdrawing

section

variable {map : CodeMap} {base : TaskRef → Nat} {launch idle : TaskRef}
  {machine : Machine}

theorem Orderly.interruptible (orderly : Orderly map base idle machine)
    (meets : KeepsCleanup machine .interrupt) :
    Settled map base idle machine := by
  cases orderly with
  | settled settled => exact settled
  | leaving before routine caller accesses rest inside leaving =>
      have undisturbed := leaving.undisturbed
      cases routine with
      | start =>
          refine absurd ?_ meets.threads
          rw [inside]
          exact undisturbed
      | terminate =>
          refine absurd ?_ (meets.cleanup rfl)
          rw [inside]
          exact undisturbed

theorem Orderly.of_own (orderly : Orderly map base idle machine)
    (own : machine.running.activity = .own) :
    Settled map base idle machine := by
  cases orderly with
  | settled settled => exact settled
  | leaving before routine caller accesses rest inside =>
      exact absurd (own.symm.trans inside) nofun

theorem Settled.saveInterrupted (settled : Settled map base idle machine) :
    Kept map base idle machine.saveInterrupted := by
  have hhistory : machine.saveInterrupted.history = machine.history :=
    machine.saveInterrupted_history
  refine ⟨?_, ?_, ?_⟩
  · rw [hhistory]
    exact settled.idleTask
  · rw [hhistory]
    exact settled.accounted
  · rw [hhistory]
    intro task suspension hsuspended
    rw [Machine.saveInterrupted_suspended] at hsuspended
    split at hsuspended
    · obtain rfl := Option.some.inj hsuspended
      exact settled.current task (savesTo_eq_some ‹_›).1
    · exact settled.suspended task suspension hsuspended

theorem Beginning.interrupted {routine : Routine} {accesses : Nat}
    {rest : Code Service} {layout : Layout} {context : ExceptionContext}
    (beginning : Beginning map idle machine.history routine accesses rest)
    (current : machine.history.state.currentTask = none) (daif : Nat) :
    Beginning map idle { machine.history with
      state := (Scheduler.interruptEffect machine.history.state layout
        context).2.withDaif daif } routine accesses rest := by
  have hlist : (Scheduler.interruptEffect machine.history.state layout
      context).2.taskList = machine.history.state.taskList := by
    rw [Scheduler.interruptEffect_unstarted layout context current]
    exact (Scheduler.foldl_wakeSleeper_sameLinks _ _ _).1.taskList
  obtain ⟨hroutine, unstarted, ⟨budget, chooses⟩, frees⟩ := beginning
  rw [← hlist] at chooses
  exact ⟨hroutine, unstarted, ⟨budget, chooses⟩, frees⟩

theorem Settled.interrupt (settled : Settled map base idle machine)
    (stacked : Stacked base idle machine) {budget daif esr far : Nat}
    {frame : ExceptionContext} {after : State}
    (ended : (onTimerInterrupt budget (saveFrame machine.running.registers
      daif esr far)).run machine.history.state = .ok (frame, after))
    (hidle : after.idleTask = some idle) :
    Settled map base idle (machine.interrupted map frame after) := by
  obtain ⟨layout, reaped, accounted⟩ := settled.accounted
  have returns := Scheduler.onTimerInterrupt_returns accounted.wellFormed
    (saveFrame machine.running.registers daif esr far)
  obtain rfl := congrArg Prod.snd (returns.unique ended)
  obtain ⟨next, freed, reclaimed⟩ := accounted.interrupted stacked.bases
    (saveFrame machine.running.registers daif esr far)
  have preempts := (onTimerInterrupt_preempts _ budget
    machine.history.state).of_run ended
  generalize hafter : (Scheduler.interruptEffect machine.history.state layout
    (saveFrame machine.running.registers daif esr far)).2 = after at *
  have spared : ∀ task, Spared machine.history { machine.history with
      state := after.withDaif frame.spsr.daif } task := by
    intro task live
    refine ⟨live, fun h => ?_⟩
    show cleanupOf after task = none
    rw [← hafter, Scheduler.interruptEffect_links _ _ _
      (accounted.not_pending live)]
    exact h
  have hhistory : machine.saveInterrupted.history = machine.history :=
    machine.saveInterrupted_history
  have hrunning : machine.saveInterrupted.running = machine.running :=
    machine.saveInterrupted_running
  have saved : Kept map base idle (machine.saveInterrupted.withState
      (after.withDaif frame.spsr.daif)) := by
    refine settled.saveInterrupted.transfer hidle ?_ rfl ?_
    · show ∃ layout reaped, Accounted base { machine.saveInterrupted.history
        with state := after.withDaif frame.spsr.daif } layout reaped
      rw [hhistory]
      exact ⟨next, freed, reclaimed.spared
        (reclaimed.withFlags after.locked frame.spsr.daif)
          ⟨rfl, rfl, rfl, rfl⟩ rfl⟩
    · show ∀ task, Spared machine.saveInterrupted.history
        { machine.saveInterrupted.history with
          state := after.withDaif frame.spsr.daif } task
      rw [hhistory]
      exact spared
  have stays : after.currentTask = machine.history.state.currentTask →
      ∀ registers, Settled map base idle ((machine.saveInterrupted.withState
        (after.withDaif frame.spsr.daif)).withRegisters registers) := by
    intro hsame registers
    refine ⟨saved.same rfl rfl, ?_, ?_⟩
    · show ∀ task, after.currentTask = some task →
        machine.saveInterrupted.running.activity.Retiring map idle task
          { machine.saveInterrupted.history with
            state := after.withDaif frame.spsr.daif }
      rw [hhistory, hrunning, hsame]
      exact fun task current =>
        (settled.current task current).keep (spared task)
    · show after.currentTask = none → ∀ routine caller accesses rest,
        machine.saveInterrupted.running.activity =
          .inside routine caller accesses rest →
        Beginning map idle { machine.saveInterrupted.history with
          state := after.withDaif frame.spsr.daif } routine accesses rest
      rw [hhistory, hrunning, hsame, ← hafter]
      exact fun current routine caller accesses rest inside =>
        (settled.starting current _ _ _ _ inside).interrupted current _
  unfold Machine.interrupted
  dsimp only
  cases preempts with
  | stays same =>
      have hsame := same.current.trans (interruptedBy_currentTask ..)
      rw [if_pos hsame]
      exact stays hsame _
  | passes leaves away other chosen =>
      by_cases hsame : after.currentTask = machine.history.state.currentTask
      · rw [if_pos hsame]
        exact stays hsame _
      · rw [if_neg hsame, chosen.current]
        exact (saved.dispatch chosen.current _ _).arrive

theorem Settled.serve (settled : Settled map base idle machine)
    (steady : Steady map launch idle machine)
    (executes : machine.Executes map) {task : TaskRef}
    (runs : machine.RunsTask task) {call : Call} {budget : Nat}
    {service : Service} {core : Core}
    (ended : (call.request.program map budget).run machine.core =
      .ok (service, core)) (hidle : core.state.idleTask = some idle) :
    Settled map base idle (machine.serve map call task service core) := by
  obtain ⟨layout, reaped, accounted⟩ := settled.accounted
  have hcurrent := (steady.current_of_runs runs).1
  obtain ⟨⟨next, recorded⟩, same⟩ := (Request.concludes accounted
    ⟨hcurrent, runs.live⟩ map machine.running.registers budget
      call.request).ended service core ended
  have hstate := call.request.record_state machine.history core.state service
  have hlive := (call.request.record_live machine.history core.state
    service).1
  have spared : ∀ task, Spared machine.history (call.request.record
      machine.history core.state service) task := by
    intro task live
    rw [hlive, hstate, same.links]
    exact ⟨live, fun h => h⟩
  have hrecorded := (congrArg State.idleTask hstate).trans hidle
  have called : Kept map base idle
      (machine.withCall task (some (call.after service))) :=
    settled.toKept.same rfl rfl
  have returned : Settled map base idle ((machine.withHistory
      (call.request.record machine.history core.state service)).withCall task
        (some (call.after service))) := by
    refine Kept.settled_of_own ?_ executes.own
    exact called.transfer hrecorded ⟨next, reaped, recorded⟩ rfl spared
  cases service with
  | done => exact returned
  | again => exact returned
  | switched handover =>
      have left := called.suspend hrecorded ⟨next, reaped, recorded⟩
        (fun task (_ : task ≠ handover.previous) => spared task)
        machine.running.registers
      have leaves := steady.leaves_served executes runs ended
      exact left.dispatch ((congrArg State.currentTask hstate).trans
        leaves.hands.current) core.registers _

theorem Settled.enter (settled : Settled map base idle machine)
    (steady : Steady map launch idle machine) {routine : Routine}
    (enters : machine.Enters routine) (budget : Nat) :
    Settled map base idle (machine.withActivity (.inside routine
      machine.running.registers 0 (routine.program map budget))) := by
  refine ⟨settled.toKept.same rfl rfl, ?_, ?_⟩
  · intro current hcurrent
    rintro _ _ _ _ ⟨⟩
    cases routine with
    | start =>
        have hnone := (steady.unstarted enters.2).1
        exact absurd (hcurrent.symm.trans hnone) nofun
    | terminate =>
        obtain ⟨task, runs⟩ := enters
        obtain ⟨htask, _, hidle⟩ := steady.current_of_runs runs
        obtain rfl := Option.some.inj (htask.symm.trans hcurrent)
        exact ⟨rfl, runs.live, ⟨budget, retires_start map budget hidle.symm⟩,
          nofun, Routine.freed_program map budget .terminate⟩
  · intro hnone
    rintro _ _ _ _ ⟨⟩
    cases routine with
    | start =>
        exact ⟨rfl, enters.2, ⟨budget, chooses_start map budget _ idle⟩,
          Routine.freed_program map budget .start⟩
    | terminate =>
        obtain ⟨task, runs⟩ := enters
        have hcurrent := (steady.current_of_runs runs).1
        exact absurd (hcurrent.symm.trans hnone) nofun

theorem Settled.add (settled : Settled map base idle machine)
    (executes : machine.Executes map) {task : TaskRef}
    (fresh : machine.New task) {after : State}
    (ended : (Scheduler.addTask (some task)).run machine.history.state =
      .ok ((), after)) (hidle : after.idleTask = some idle) :
    Settled map base idle (machine.withHistory
      ((Operation.addTask task).record machine.history after)) := by
  obtain ⟨layout, reaped, accounted⟩ := settled.accounted
  have performs := addTask_performs accounted.toConsistent
    (entryOn map machine.core) fresh.live ⟨fresh.terminated, fresh.idle⟩
  obtain ⟨⟨next, recorded⟩, same⟩ := @Performs.accounts base machine.history
    layout reaped (.addTask task) _ performs accounted trivial 0 () after ended
  refine Kept.settled_of_own ?_ executes.own
  exact settled.toKept.transfer hidle ⟨next, reaped, recorded⟩ rfl
    (@SameCleanup.spared machine.history
      ((Operation.addTask task).record machine.history after) same
      fun _ live => List.mem_cons_of_mem task live)

theorem Settled.unlock (settled : Settled map base idle machine)
    (executes : machine.Executes map) {mutex : Mutex.MutexRef}
    {after : State}
    (ended : (Mutex.unlock (some mutex)).run machine.history.state =
      .ok ((), after)) (hidle : after.idleTask = some idle) :
    Settled map base idle (machine.withHistory { machine.history with
      state := after
      waiting := Function.update machine.history.waiting mutex
        (machine.history.waiting mutex).tail }) := by
  obtain ⟨layout, reaped, accounted⟩ := settled.accounted
  obtain ⟨state, hrun, ⟨next, recorded⟩, same⟩ :=
    unlock_accounts accounted mutex
  cases hrun.symm.trans ended
  refine Kept.settled_of_own ?_ executes.own
  refine settled.toKept.transfer hidle ⟨next, reaped, recorded⟩ rfl ?_
  intro task live
  refine ⟨live, fun h => ?_⟩
  exact (congrFun same.links task).trans h

theorem Settled.mask (settled : Settled map base idle machine)
    (executes : machine.Executes map) (daif : Nat) :
    Settled map base idle
      (machine.withState (machine.history.state.withDaif daif)) := by
  obtain ⟨layout, reaped, accounted⟩ := settled.accounted
  have masked := accounted.spared
    (accounted.withFlags machine.history.state.locked daif)
    ⟨rfl, rfl, rfl, rfl⟩ rfl
  refine Kept.settled_of_own ?_ executes.own
  exact settled.toKept.transfer settled.idleTask ⟨layout, reaped, masked⟩ rfl
    fun _ live => ⟨live, fun h => h⟩

theorem Orderly.step {after : Machine} {event : Event}
    (orderly : Orderly map base idle machine)
    (sound : Sound map launch idle machine)
    (stacked : Stacked base idle machine)
    (meets : KeepsCleanup machine event)
    (step : Machine.Step map machine event after) :
    Orderly map base idle after := by
  have hidle := (sound.step meets.threads step).idleTask
  cases step with
  | add executes uncalled fresh ended =>
      have settled := orderly.of_own executes.own
      exact .settled (settled.add executes fresh ended hidle)
  | call request executes runs uncalled =>
      have settled := orderly.of_own executes.own
      exact .settled (Kept.settled_of_own (settled.toKept.same rfl rfl)
        executes.own)
  | serve executes runs called unserved ended =>
      have settled := orderly.of_own executes.own
      rw [Machine.serve_state] at hidle
      exact .settled (settled.serve (sound.of_own executes.own) executes runs
        ended hidle)
  | giveBack executes runs called served =>
      have settled := orderly.of_own executes.own
      exact .settled (Kept.settled_of_own (settled.toKept.same rfl rfl)
        executes.own)
  | unlock executes runs uncalled ended =>
      have settled := orderly.of_own executes.own
      exact .settled (settled.unlock executes ended hidle)
  | enter budget executes uncalled enters =>
      have settled := orderly.of_own executes.own
      exact .settled (settled.enter (sound.of_own executes.own) enters budget)
  | access activity pc step => exact orderly.access sound activity pc step
  | branch pc =>
      cases orderly with
      | settled settled =>
          have branched : Settled map base idle (machine.withRegisters
              { machine.running.registers with
                pc := machine.running.registers.x 2 }) :=
            ⟨settled.toKept.same rfl rfl, settled.current, settled.starting⟩
          exact .settled branched.arrive
      | leaving before routine caller accesses rest inside leaving =>
          exact absurd pc leaving.unbranched
  | interrupt enabled ended =>
      rw [Machine.interrupted_state] at hidle
      exact .settled ((orderly.interruptible meets).interrupt stacked ended
        hidle)
  | compute registers executes stack pc =>
      have settled := orderly.of_own executes.own
      exact .settled (Kept.settled_of_own (settled.toKept.same rfl rfl)
        executes.own)
  | mask daif executes uncalled =>
      have settled := orderly.of_own executes.own
      exact .settled (settled.mask executes daif)

end

end Planetoid.Task
