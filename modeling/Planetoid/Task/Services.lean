import Planetoid.Task.CleanupList
import Planetoid.Task.MutexProtocol
import Planetoid.Task.ThreadRuns

namespace Planetoid.Task

open Planetoid Program Links Arch

/-! The calls of a task and the routines of the machine, when nothing
interrupts them, are the operations of the runs. -/

theorem Operation.record_terminated (operation : Operation)
    (history : History) (after : State) (spares : operation.SparesCleanup) :
    (operation.record history after).terminated = history.terminated := by
  cases operation with
  | blockCurrent queue =>
      unfold Operation.record
      simp only
      split <;> rfl
  | terminateCurrent => exact spares.elim
  | _ => rfl

/-- The program ends as the other does, in the same state of the kernel. -/
def Mirrors (program : Code α) (model : Sched β) (core : Core)
    (state : State) : Prop :=
  (program.run core).map (fun result => result.2.state) =
    (model.run state).map fun result => result.2

def entryOn (map : CodeMap) (core : Core) : Entry where
  registers := core.registers
  resume := map.resume

section

variable {α β γ : Type} {program : Code α} {model : Sched β} {core : Core}
  {state : State}

theorem Mirrors.ended (mirrors : Mirrors program model core state) {value : α}
    {after : Core} (h : program.run core = .ok (value, after)) :
    ∃ result, model.run state = .ok (result, after.state) := by
  unfold Mirrors at mirrors
  rw [h] at mirrors
  cases hmodel : model.run state with
  | error fault =>
      rw [hmodel] at mirrors
      cases mirrors
  | ok result =>
      rw [hmodel] at mirrors
      have hstate : after.state = result.2 := Except.ok.inj mirrors
      exact ⟨result.1, by rw [hstate]⟩

theorem Mirrors.failed (mirrors : Mirrors program model core state)
    {fault : Fault} (h : program.run core = .error fault) :
    model.run state = .error fault := by
  unfold Mirrors at mirrors
  rw [h] at mirrors
  cases hmodel : model.run state with
  | error other =>
      rw [hmodel] at mirrors
      exact congrArg Except.error (Except.error.inj mirrors).symm
  | ok result =>
      rw [hmodel] at mirrors
      cases mirrors

theorem run_kernel (program : Sched α) (core : Core) :
    (kernel program).run core = (program.run core.state).map
      fun result => (result.1, core.withState result.2) :=
  run_zoom Core.state (fun state core => core.withState state)
    (fun _ _ => rfl) (fun _ _ _ => rfl) (fun _ => rfl) program core

theorem kernel_ended {program : Sched α} {value : α} {after : Core}
    (h : (kernel program).run core = .ok (value, after)) :
    program.run core.state = .ok (value, after.state) := by
  rw [run_kernel] at h
  cases hrun : program.run core.state with
  | error fault =>
      rw [hrun] at h
      cases h
  | ok result =>
      rw [hrun] at h
      obtain ⟨rfl, rfl⟩ := Prod.mk.inj (Except.ok.inj h)
      rfl

theorem kernel_mirrors {program : Sched α} {next : α → Code β}
    {model : α → Sched γ}
    (h : ∀ value after, program.run core.state = .ok (value, after) →
      Mirrors (next value) (model value) (core.withState after) after) :
    Mirrors (kernel program >>= next) (program >>= model) core
      core.state := by
  have hkernel := run_kernel program core
  unfold Mirrors
  cases hrun : program.run core.state with
  | error fault =>
      rw [hrun] at hkernel
      rw [run_bind_error hkernel, run_bind_error hrun]
      rfl
  | ok result =>
      rw [hrun] at hkernel
      rw [run_bind_ok hkernel, run_bind_ok hrun]
      exact h result.1 result.2 hrun

end

theorem leave_mirrors (map : CodeMap) (back : Service) (exit : Exit)
    (core : Core) :
    Mirrors (leave map back exit) ((entryOn map core).finish exit) core
      core.state := by
  cases exit with
  | returned => rfl
  | switched previous next =>
      have hswitch := run_switchTo_eq map previous next core
      unfold Mirrors leave Entry.finish Arch.finish entryOn
      cases hrun : (taskSwitch map.resume core.registers previous next).run
          core.state with
      | error fault =>
          rw [hrun] at hswitch
          rw [run_bind_error hswitch, run_bind_error hrun]
          rfl
      | ok result =>
          rw [hrun] at hswitch
          rw [run_bind_ok hswitch, run_bind_ok hrun]
          rfl

theorem kernel_leave_mirrors (map : CodeMap) (back : Service)
    (program : Sched Exit) (core : Core) :
    Mirrors (kernel program >>= leave map back)
      (program >>= (entryOn map core).finish) core core.state :=
  kernel_mirrors fun exit after _ =>
    leave_mirrors map back exit (core.withState after)

theorem Routine.terminate_mirrors (map : CodeMap) (budget : Nat)
    (core : Core) :
    Mirrors (Routine.terminate.program map budget)
      (Operation.terminateCurrent.program (entryOn map core) budget) core
        core.state := by
  refine kernel_mirrors fun exit after _ => ?_
  cases exit with
  | none => rfl
  | some exit => exact leave_mirrors map .again exit (core.withState after)

/-- Every end of the program satisfies `post`, and the program fails only for
want of budget. -/
structure Concludes (program : Code Service) (core : Core)
    (post : Service → Core → Prop) : Prop where
  ended : ∀ service after, program.run core = .ok (service, after) →
    post service after
  failed : ∀ fault, program.run core = .error fault →
    fault = .budgetExhausted

section

variable {base : TaskRef → Nat} {history : History} {layout : Layout}
  {reaped : List TaskRef} {map : CodeMap} {registers : Registers}
  {task : TaskRef}

theorem Performs.ended {operation : Operation} {entry : Entry}
    (performs : Performs operation history layout entry) {budget : Nat}
    {value : Unit} {after : State}
    (h : (operation.program entry budget).run history.state =
      .ok (value, after)) :
    ∃ next, Consistent (operation.record history after) next ∧
      Effect history layout entry operation next.ring after := by
  obtain ⟨_, expected, next, returns, consistent, effect, _⟩ := performs
  obtain rfl : expected = after := (congrArg Prod.snd (returns.unique h)).symm
  exact ⟨next, consistent, effect⟩

theorem Performs.failed {operation : Operation} {entry : Entry}
    (performs : Performs operation history layout entry) {budget : Nat}
    {fault : Fault}
    (h : (operation.program entry budget).run history.state =
      .error fault) : fault = .budgetExhausted := by
  obtain ⟨_, _, _, returns, _⟩ := performs
  rcases returns budget with ended | ⟨_, failed⟩
  · cases ended.symm.trans h
  · exact (Except.error.inj (failed.symm.trans h)).symm

theorem Performs.accounts {operation : Operation} {entry : Entry}
    (performs : Performs operation history layout entry)
    (accounted : Accounted base history layout reaped)
    (spares : operation.SparesCleanup) {budget : Nat} {value : Unit}
    {after : State} (h : (operation.program entry budget).run history.state =
      .ok (value, after)) :
    (∃ next, Accounted base (operation.record history after) next reaped) ∧
      SameCleanup history.state after := by
  obtain ⟨next, consistent, effect⟩ := performs.ended h
  have same := effect.sameCleanup spares
  refine ⟨⟨next, accounted.spared consistent ?_ ?_⟩, same⟩
  · rw [operation.record_state]
    exact same
  · exact operation.record_terminated history after spares

theorem Performs.spares {operation : Operation} {entry : Entry}
    (performs : Performs operation history layout entry)
    (accounted : Accounted base history layout reaped)
    (spares : operation.SparesCleanup) {program : Code Service} {core : Core}
    {budget : Nat} (mirrors : Mirrors program
      (operation.program entry budget) core history.state) :
    Concludes program core fun _ after =>
      (∃ next, Accounted base (operation.record history after.state) next
        reaped) ∧ SameCleanup history.state after.state where
  ended := by
    intro service after hrun
    obtain ⟨_, hmodel⟩ := mirrors.ended hrun
    exact performs.accounts accounted spares hmodel
  failed := fun fault hrun => performs.failed (mirrors.failed hrun)

theorem unlock_accounts (accounted : Accounted base history layout reaped)
    (mutex : Mutex.MutexRef) :
    ∃ after, (Mutex.unlock (some mutex)).run history.state =
        .ok ((), after) ∧
      (∃ next, Accounted base { history with
        state := after
        waiting := Function.update history.waiting mutex
          (history.waiting mutex).tail } next reaped) ∧
      SameCleanup history.state after := by
  have hrun := Mutex.run_unlock (accounted.wellFormed.waiting mutex)
    fun task hmem => accounted.wellFormed.valid_ring task
      (accounted.wellFormed.waiting_ring mutex task hmem)
  obtain ⟨⟨next, consistent⟩, _⟩ :=
    Mutex.unlock_frees accounted.toConsistent hrun
  have freed : SameCleanup history.state (history.state.withFlags
      (Function.update history.state.locked mutex false)
        history.state.masked.daif) := ⟨rfl, rfl, rfl, rfl⟩
  have woken := (WaitQueue.wakeOneEffect_same (history.state.withFlags
    (Function.update history.state.locked mutex false)
      history.state.masked.daif) mutex (layout.waiting mutex)).1.sameCleanup
  have same := (freed.trans woken).trans
    (State.withDaif_sameLinks _ history.state.daif).sameCleanup
  exact ⟨_, hrun, ⟨next, accounted.spared consistent same rfl⟩, same⟩

theorem blockCurrent_switches (consistent : Consistent history layout)
    (runs : history.Runs task) {mutex : Mutex.MutexRef} {budget : Nat}
    {exit : Exit} {after : State}
    (ended : (WaitQueue.blockCurrent budget (some mutex)).run history.state =
      .ok (exit, after)) : ∃ next, exit = .switched task next := by
  obtain ⟨current, idle, hcurrent, hring, hidle, hvalidIdle, _⟩ :=
    consistent.running ⟨task, runs⟩
  obtain rfl := Option.some.inj (hcurrent.symm.trans runs.1)
  have hsame := (WaitQueue.blockCurrent_returns consistent.wellFormed hcurrent
    hring hidle hvalidIdle).unique ended
  have hexit := congrArg Prod.fst hsame
  simp only [WaitQueue.blockCurrentEffect, Scheduler.switchEffect] at hexit
  split at hexit
  · exact ⟨_, hexit⟩
  · exact ⟨_, hexit⟩

section

variable {mutex : Mutex.MutexRef} {core : Core}

theorem run_lockRounds_free (free : core.state.locked mutex = false)
    (map : CodeMap) (budget : Nat) :
    (lockRounds map (budget + 1) mutex).run core = .ok (.done,
      core.withState (core.state.withFlags
        (Function.update core.state.locked mutex true) core.state.daif)) := by
  have hround := run_kernel (Mutex.lockRound (budget + 1) mutex) core
  rw [Mutex.run_lockRound_free free] at hround
  have honce : (lockOnce map (budget + 1) mutex).run core = .ok (.inr .done,
      core.withState (core.state.withFlags
        (Function.update core.state.locked mutex true) core.state.daif)) :=
    run_bind_ok hround _
  exact run_bind_ok honce _

theorem run_lockRounds_taken (taken : core.state.locked mutex = true)
    {budget : Nat} {next : TaskRef} {after : State}
    (hblocked : (WaitQueue.blockCurrent (budget + 1) (some mutex)).run
      core.state.masked = .ok (.switched task next, after)) (map : CodeMap) :
    (lockRounds map (budget + 1) mutex).run core =
      (leave map .again (.switched task next)).run
        (core.withState after) := by
  have hround := run_kernel (Mutex.lockRound (budget + 1) mutex) core
  rw [Mutex.run_lockRound_taken taken, run_bind_ok hblocked] at hround
  cases hswitch : (switchTo map task next).run (core.withState after) with
  | error fault =>
      have honce : (lockOnce map (budget + 1) mutex).run core =
          .error fault :=
        (run_bind_ok hround _).trans
          (run_bind_error (run_bind_error hswitch _) _)
      exact (run_bind_error honce _).trans (run_bind_error hswitch _).symm
  | ok result =>
      have hleave : (leave map .again (.switched task next)).run
          (core.withState after) =
            .ok (.switched ⟨task, next⟩, result.2) :=
        run_bind_ok hswitch _
      have honce : (lockOnce map (budget + 1) mutex).run core =
          .ok (.inr (.switched ⟨task, next⟩), result.2) :=
        (run_bind_ok hround _).trans (run_bind_ok hleave _)
      exact (run_bind_ok honce _).trans hleave.symm

theorem run_lockRounds_failed (taken : core.state.locked mutex = true)
    {budget : Nat} {fault : Fault}
    (hblocked : (WaitQueue.blockCurrent (budget + 1) (some mutex)).run
      core.state.masked = .error fault) (map : CodeMap) :
    (lockRounds map (budget + 1) mutex).run core = .error fault := by
  have hround := run_kernel (Mutex.lockRound (budget + 1) mutex) core
  rw [Mutex.run_lockRound_taken taken, run_bind_error hblocked] at hround
  have honce : (lockOnce map (budget + 1) mutex).run core = .error fault :=
    run_bind_error hround _
  exact run_bind_error honce _

end

theorem leave_switched {back service : Service} {previous next : TaskRef}
    {core after : Core}
    (ended : (leave map back (.switched previous next)).run core =
      .ok (service, after)) : service = .switched ⟨previous, next⟩ := by
  obtain ⟨_, last, _, hended⟩ := run_bind_eq_ok.mp ended
  exact (congrArg Prod.fst (Except.ok.inj hended)).symm

theorem lockRounds_mirrors {layout : Layout} {state : State}
    (consistent : Consistent { history with state := state.masked } layout)
    (runs : History.Runs { history with state := state.masked } task)
    {mutex : Mutex.MutexRef} (taken : state.locked mutex = true)
    (budget : Nat) :
    Mirrors (lockRounds map (budget + 1) mutex)
        ((Operation.blockCurrent mutex).program
          (entryOn map ⟨state, registers⟩) (budget + 1)) ⟨state, registers⟩
        state.masked ∧
      ∀ service after, (lockRounds map (budget + 1) mutex).run
        ⟨state, registers⟩ = .ok (service, after) →
          ∃ handover, service = .switched handover := by
  have hmodel := run_bind (WaitQueue.blockCurrent (budget + 1) (some mutex))
    (entryOn map ⟨state, registers⟩).finish state.masked
  cases hblocked : (WaitQueue.blockCurrent (budget + 1) (some mutex)).run
      state.masked with
  | error fault =>
      have hrun := @run_lockRounds_failed mutex ⟨state, registers⟩ taken _ _
        hblocked map
      rw [hblocked] at hmodel
      refine ⟨?_, fun service after ended => ?_⟩
      · exact (congrArg (Except.map _) hrun).trans
          (congrArg (Except.map _) hmodel).symm
      · cases hrun.symm.trans ended
  | ok result =>
      obtain ⟨exit, after⟩ := result
      obtain ⟨next, rfl⟩ := blockCurrent_switches consistent runs hblocked
      have hrun := @run_lockRounds_taken task mutex ⟨state, registers⟩ taken
        _ _ _ hblocked map
      rw [hblocked] at hmodel
      refine ⟨?_, fun service last ended => ?_⟩
      · exact (congrArg (Except.map _) hrun).trans ((leave_mirrors map .again
          (.switched task next) ⟨after, registers⟩).trans
            (congrArg (Except.map _) hmodel).symm)
      · exact ⟨_, leave_switched (hrun.symm.trans ended)⟩

theorem lockRounds_concludes
    (accounted : Accounted base history layout reaped)
    (runs : history.Runs task) (budget : Nat) (mutex : Mutex.MutexRef) :
    Concludes (lockRounds map budget mutex) ⟨history.state, registers⟩
      fun service after =>
        (∃ next, Accounted base ((Request.lock mutex).record history
          after.state service) next reaped) ∧
        SameCleanup history.state after.state := by
  cases budget with
  | zero => exact ⟨nofun, fun fault failed => (Except.error.inj failed).symm⟩
  | succ budget =>
      cases hlocked : history.state.locked mutex with
      | false =>
          have hrun := @run_lockRounds_free mutex
            ⟨history.state, registers⟩ hlocked map budget
          refine ⟨fun service after ended => ?_, fun fault failed => ?_⟩
          · cases hrun.symm.trans ended
            have same : SameCleanup history.state (history.state.withFlags
                (Function.update history.state.locked mutex true)
                  history.state.daif) := ⟨rfl, rfl, rfl, rfl⟩
            exact ⟨⟨layout, accounted.spared (accounted.withFlags ..) same
              rfl⟩, same⟩
          · cases hrun.symm.trans failed
      | true =>
          have same : SameCleanup history.state history.state.masked :=
            ⟨rfl, rfl, rfl, rfl⟩
          have masked : Accounted base
              { history with state := history.state.masked } layout reaped :=
            accounted.spared (accounted.withFlags history.state.locked
              history.state.masked.daif) same rfl
          obtain ⟨mirrors, switches⟩ := @lockRounds_mirrors history map
            registers task layout history.state masked.toConsistent runs mutex
            hlocked budget
          obtain ⟨ended, failed⟩ := (blockCurrent_performs
            masked.toConsistent (entryOn map ⟨history.state, registers⟩)
              mutex ⟨task, runs⟩).spares masked trivial mirrors
          refine ⟨fun service after hrun => ?_, failed⟩
          obtain ⟨handover, rfl⟩ := switches service after hrun
          obtain ⟨recorded, kept⟩ := ended _ after hrun
          exact ⟨recorded, same.trans kept⟩

theorem Request.concludes (accounted : Accounted base history layout reaped)
    (runs : history.Runs task) (map : CodeMap) (registers : Registers)
    (budget : Nat) (request : Request) :
    Concludes (request.program map budget) ⟨history.state, registers⟩
      fun service after =>
        (∃ next, Accounted base (request.record history after.state service)
          next reaped) ∧ SameCleanup history.state after.state := by
  cases request with
  | yield =>
      exact (yield_performs accounted.toConsistent _ ⟨task, runs⟩).spares
        accounted trivial (kernel_leave_mirrors map .done _ _)
  | sleep ticks =>
      exact (sleep_performs accounted.toConsistent _ ticks
        ⟨task, runs⟩).spares accounted trivial
          (kernel_leave_mirrors map .done _ _)
  | lock mutex => exact lockRounds_concludes accounted runs budget mutex

theorem start_switches (consistent : Consistent history layout)
    (unstarted : history.started = false) {core after : Core}
    (hcore : core.state = history.state) {service : Service}
    (ended : (kernel Scheduler.start >>= leave map .done).run core =
      .ok (service, after)) : ∃ handover, service = .switched handover := by
  obtain ⟨_, launch, hlaunch, _⟩ := consistent.unstarted unstarted
  obtain ⟨idle, hidle, _⟩ := consistent.wellFormed.idle
  have hrun := Scheduler.run_start consistent.wellFormed.toShape hlaunch hidle
  obtain ⟨exit, middle, hkernel, hleave⟩ := run_bind_eq_ok.mp ended
  have hstart := kernel_ended hkernel
  rw [hcore, hrun] at hstart
  obtain rfl := congrArg Prod.fst (Except.ok.inj hstart)
  exact ⟨_, leave_switched hleave⟩

theorem Routine.start_concludes
    (accounted : Accounted base history layout reaped)
    (unstarted : history.started = false) (map : CodeMap)
    (registers : Registers) (budget : Nat) :
    Concludes (Routine.start.program map budget) ⟨history.state, registers⟩
      fun service after => ∃ handover, service = .switched handover ∧
        (∃ next, Accounted base (Routine.start.record history after.state
          handover) next reaped) ∧ SameCleanup history.state after.state := by
  have performs := start_performs accounted.toConsistent
    (entryOn map ⟨history.state, registers⟩) unstarted
  have mirrors : Mirrors (Routine.start.program map budget)
      (Operation.start.program (entryOn map ⟨history.state, registers⟩) budget)
      ⟨history.state, registers⟩ history.state :=
    kernel_leave_mirrors map .done Scheduler.start ⟨history.state, registers⟩
  obtain ⟨ended, failed⟩ := performs.spares accounted trivial mirrors
  refine ⟨fun service after hrun => ?_, failed⟩
  obtain ⟨handover, hservice⟩ := start_switches accounted.toConsistent
    unstarted rfl hrun
  exact ⟨handover, hservice, ended service after hrun⟩

theorem terminate_switches (consistent : Consistent history layout)
    (runs : history.Runs task) {core after : Core}
    (hcore : core.state = history.state) {budget : Nat} {service : Service}
    (ended : (Routine.terminate.program map budget).run core =
      .ok (service, after)) :
    ∃ next, service = .switched ⟨task, next⟩ := by
  obtain ⟨current, idle, hcurrent, hring, hidle, hvalidIdle, hnotIdle, _⟩ :=
    consistent.running ⟨task, runs⟩
  obtain rfl := Option.some.inj (hcurrent.symm.trans runs.1)
  have returns := Scheduler.terminateCurrent_returns consistent.wellFormed
    hcurrent hring hidle hvalidIdle hnotIdle
  obtain ⟨exit, middle, hkernel, hleave⟩ := run_bind_eq_ok.mp ended
  have hterminate := kernel_ended hkernel
  rw [hcore] at hterminate
  obtain rfl := congrArg Prod.fst (returns.unique hterminate)
  exact ⟨_, leave_switched hleave⟩

theorem Routine.terminate_concludes
    (accounted : Accounted base history layout reaped)
    (runs : history.Runs task) (map : CodeMap) (registers : Registers)
    (budget : Nat) :
    Concludes (Routine.terminate.program map budget)
      ⟨history.state, registers⟩
      fun service after => ∃ handover, service = .switched handover ∧
        handover.previous = task ∧
        (∃ next, Accounted base (Routine.terminate.record history after.state
          handover) next reaped) ∧
        SameCleanup (Scheduler.retire history.state task) after.state := by
  have performs := terminateCurrent_performs accounted.toConsistent
    (entryOn map ⟨history.state, registers⟩) ⟨task, runs⟩
  have mirrors :=
    Routine.terminate_mirrors map budget ⟨history.state, registers⟩
  refine ⟨fun service after hrun => ?_,
    fun fault hrun => performs.failed (mirrors.failed hrun)⟩
  obtain ⟨_, rfl⟩ := terminate_switches accounted.toConsistent runs rfl hrun
  obtain ⟨_, hmodel⟩ := mirrors.ended hrun
  obtain ⟨next, consistent, effect⟩ := performs.ended hmodel
  simp only [Operation.record, runs.1] at consistent
  have same := effect.retires runs.1
  exact ⟨_, rfl, rfl, ⟨next, accounted.retired runs.2 consistent same rfl⟩,
    same⟩

end

/-! The routines free nothing. -/

def SameFreed (before after : State) : Prop :=
  after.kfreed = before.kfreed

def SameFreedOn (before after : Core) : Prop :=
  SameFreed before.state after.state

section

theorem SameFreed.refl (state : State) : SameFreed state state :=
  Eq.refl state.kfreed

theorem freed_store (task : TaskRef) (update : TaskState → TaskState) :
    (store task update).Respects SameFreed :=
  respects_store fun _ => rfl

theorem freed_read {α : Type} (view : State → α) :
    (read view : Sched α).Respects SameFreed :=
  respects_read SameFreed.refl view

namespace Scheduler

theorem freed_setCurrentTask (task : Option TaskRef) :
    (setCurrentTask task).Respects SameFreed :=
  respects_write fun _ => rfl

theorem freed_setTaskList (task : Option TaskRef) :
    (setTaskList task).Respects SameFreed :=
  respects_write fun _ => rfl

theorem freed_switchToIdle (previous : TaskRef) :
    (switchToIdle previous).Respects SameFreed := by
  refine respects_bind (freed_read _) fun idle => ?_
  refine respects_bind (respects_deref idle) fun task => ?_
  refine respects_bind (freed_store task _) fun _ => ?_
  refine respects_bind (freed_read _) fun idle => ?_
  refine respects_bind (freed_setCurrentTask idle) fun _ => ?_
  refine respects_bind (freed_read _) fun idle => ?_
  exact respects_bind (respects_deref idle) fun _ => respects_pure _

theorem freed_start : start.Respects SameFreed := by
  refine respects_bind (respects_firstTask SameFreed.refl) fun first => ?_
  cases first with
  | none => exact respects_pure _
  | some first =>
      refine respects_bind (freed_setCurrentTask (some first)) fun _ => ?_
      refine respects_bind (freed_read _) fun task => ?_
      refine respects_bind (respects_deref task) fun task => ?_
      refine respects_bind (freed_store task _) fun _ => ?_
      refine respects_bind (freed_read _) fun launch => ?_
      refine respects_bind (respects_deref launch) fun launch => ?_
      refine respects_bind (freed_read _) fun task => ?_
      exact respects_bind (respects_deref task) fun _ => respects_pure _

theorem freed_unlink (budget : Nat) (terminated : TaskRef) :
    (show Sched (Option Exit) from do
      removeTask budget (some terminated)
      if (← read (·.taskList)) = none then
        return some (← switchToIdle terminated)
      else do
        match ← findNextReadyTask budget (← read (·.taskList)) with
        | none => return some (← switchToIdle terminated)
        | some next => do
          setState next .running
          setCurrentTask (some next)
          return some (.switched terminated next)).Respects SameFreed := by
  have idles : (do return some (← switchToIdle terminated)).Respects
      SameFreed :=
    respects_bind (freed_switchToIdle terminated) fun _ => respects_pure _
  refine respects_bind (respects_removeTask SameFreed.refl
    (fun task value => freed_store task _) freed_setTaskList budget _)
      fun _ => ?_
  refine respects_bind (freed_read _) fun list => ?_
  split
  · exact idles
  · refine respects_bind (freed_read _) fun list => ?_
    refine respects_bind (respects_findNextReadyTask SameFreed.refl budget
      list) fun found => ?_
    cases found with
    | none => exact idles
    | some next =>
        refine respects_bind (freed_store next _) fun _ => ?_
        refine respects_bind (freed_setCurrentTask (some next)) fun _ => ?_
        exact respects_pure _

theorem freed_terminateCurrent (budget : Nat) :
    (terminateCurrent budget).Respects SameFreed := by
  refine respects_bind (freed_read _) fun current => ?_
  split
  · exact respects_pure _
  · refine respects_bind (freed_read _) fun current => ?_
    refine respects_bind (freed_read _) fun idle => ?_
    split
    · exact respects_pure _
    · refine respects_bind (freed_read _) fun current => ?_
      refine respects_bind (respects_deref current) fun terminated => ?_
      refine respects_bind (freed_store terminated _) fun _ => ?_
      refine respects_bind (freed_read _) fun tail => ?_
      cases tail with
      | none =>
          refine respects_bind (respects_write fun _ => rfl) fun _ => ?_
          refine respects_bind (respects_write fun _ => rfl) fun _ => ?_
          exact freed_unlink budget terminated
      | some tail =>
          refine respects_bind (freed_read _) fun tail => ?_
          refine respects_bind (respects_deref tail) fun last => ?_
          refine respects_bind (freed_store last _) fun _ => ?_
          refine respects_bind (respects_write fun _ => rfl) fun _ => ?_
          exact freed_unlink budget terminated

end Scheduler

theorem freed_kernel {α : Type} {program : Sched α}
    (freed : program.Respects SameFreed) :
    (kernel program).Respects SameFreedOn :=
  respects_zoom freed fun _ _ same => same

theorem freed_leave (map : CodeMap) (back : Service) (exit : Exit) :
    (leave map back exit).Respects SameFreedOn := by
  cases exit with
  | returned => exact respects_pure _
  | switched previous next =>
      exact respects_bind (@respects_switchTo SameFreedOn map
        (fun _ _ _ => rfl) (fun _ _ => rfl) (fun _ => rfl) previous next)
          fun _ => respects_pure _

theorem Routine.freed_program (map : CodeMap) (budget : Nat)
    (routine : Routine) :
    (routine.program map budget).Respects SameFreedOn := by
  cases routine with
  | start =>
      exact respects_bind (freed_kernel Scheduler.freed_start)
        fun exit => freed_leave map .done exit
  | terminate =>
      refine respects_bind (freed_kernel
        (Scheduler.freed_terminateCurrent budget)) fun exit => ?_
      cases exit with
      | none => exact respects_pure _
      | some exit => exact freed_leave map .again exit

end

end Planetoid.Task
