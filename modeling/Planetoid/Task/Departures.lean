import Planetoid.Task.Reclaiming

namespace Planetoid.Task

open Planetoid Program Links Arch

/-! The accesses of `start` and `terminate_current`, up to the switch to
another task. -/

section

variable {map : CodeMap} {launch idle : TaskRef} {machine : Machine}
  {routine : Routine} {caller : Registers} {accesses : Nat}
  {rest left : Code Service} {core : Core}

theorem Sound.idleTask (sound : Sound map launch idle machine) :
    machine.history.state.idleTask = some idle := by
  cases sound with
  | steady steady prepares => exact steady.idleTask
  | switching before _ _ _ _ steady _ _ _ _ _ _ switching =>
      exact switching.idle.trans steady.idleTask

theorem Sound.access_pc (sound : Sound map launch idle machine)
    (activity : machine.running.activity =
      .inside routine caller accesses rest)
    (pc : machine.running.registers.pc ≠ map.branch)
    (step : Program.Step (rest, machine.core) (left, core))
    (goesOn : ∀ service, left ≠ .ret service) :
    core.registers.pc ≠ map.branch := by
  rcases sound.accessed activity pc step with
    ⟨_, _, same, _⟩ | ⟨before, underway⟩
  · rw [same.registers]
    exact pc
  · have follows := underway.committed.follows
    cases left with
    | ret service => exact absurd rfl (goesOn service)
    | fail fault => exact Switching.unbranched follows
    | access update next => exact Switching.unbranched follows.1

/-- The access that changes the current task is the last one to do so. -/
theorem Sound.chosen (sound : Sound map launch idle machine)
    (activity : machine.running.activity =
      .inside routine caller accesses rest)
    (pc : machine.running.registers.pc ≠ map.branch)
    (step : Program.Step (rest, machine.core) (left, core))
    (changed : core.state.currentTask ≠ machine.history.state.currentTask) :
    left.Respects SameCurrent := by
  rcases sound.accessed activity pc step with
    ⟨_, _, same, _⟩ | ⟨before, underway⟩
  · exact absurd same.state.current changed
  · exact underway.committed.settled

end

section

variable {map : CodeMap} {base : TaskRef → Nat} {launch idle : TaskRef}
  {machine : Machine} {routine : Routine} {caller : Registers}
  {accesses : Nat} {rest left : Code Service} {before core : Core}

theorem Kept.entered (kept : Kept map base idle machine) {task : TaskRef}
    (current : machine.history.state.currentTask = some task)
    (live : task ∈ machine.history.live) :
    Entered task idle machine.core := by
  obtain ⟨layout, reaped, accounted⟩ := kept.accounted
  exact ⟨current, kept.idleTask, accounted.wellFormed.valid_ring task
    ((accounted.live_iff task).mpr live)⟩

theorem Kept.starting (kept : Kept map base idle machine) :
    Starting machine.history.state.taskList idle machine.core :=
  ⟨rfl, kept.idleTask⟩

/-- What is left of a routine goes on as the whole of it would have done, from
the state it finds or from an earlier one. -/
theorem Orderly.inside (orderly : Orderly map base idle machine)
    (activity : machine.running.activity =
      .inside routine caller accesses rest) :
    ∃ before : Core, Kept map base idle (machine.withState before.state) ∧
      routine.Called (machine.withState before.state).history ∧
      ∃ budget, rest.run machine.core =
        (routine.program map budget).run before := by
  cases orderly with
  | settled settled =>
      refine ⟨machine.core, settled.toKept, ?_⟩
      cases hcurrent : machine.history.state.currentTask with
      | none =>
          obtain ⟨rfl, unstarted, ⟨budget, chooses⟩, _⟩ :=
            settled.starting hcurrent _ _ _ _ activity
          exact ⟨unstarted, budget, chooses.run_eq settled.toKept.starting⟩
      | some task =>
          obtain ⟨rfl, live, ⟨budget, retires⟩, cleared, _⟩ :=
            settled.current task hcurrent _ _ _ _ activity
          exact ⟨⟨task, hcurrent, live⟩, budget,
            retires.run_eq (settled.toKept.entered hcurrent live) cleared⟩
  | leaving before _ _ _ _ inside leaving =>
      cases activity.symm.trans inside
      exact ⟨before, leaving.kept, leaving.called, leaving.runs⟩

theorem Kept.called_ended
    (kept : Kept map base idle (machine.withState before.state))
    (called : routine.Called (machine.withState before.state).history)
    {budget : Nat} {service : Service}
    (ended : (routine.program map budget).run before = .ok (service, core)) :
    ∃ handover, service = .switched handover ∧
      (∃ layout reaped, Accounted base
        (routine.record machine.history core.state handover) layout reaped) ∧
      ∀ task, task ≠ handover.previous →
        Spared (machine.withState before.state).history
          (routine.record machine.history core.state handover) task := by
  obtain ⟨layout, reaped, accounted⟩ := kept.accounted
  cases routine with
  | start =>
      obtain ⟨handover, hservice, ⟨next, recorded⟩, same⟩ :=
        (Routine.start_concludes accounted called map before.registers
          budget).ended service core ended
      have spared := @SameCleanup.spared
        (machine.withState before.state).history
        (Routine.start.record machine.history core.state handover) same
        fun _ live => live
      exact ⟨handover, hservice, ⟨next, reaped, recorded⟩,
        fun task _ => spared task⟩
  | terminate =>
      obtain ⟨task, runs⟩ := called
      obtain ⟨handover, hservice, rfl, ⟨next, recorded⟩, same⟩ :=
        (Routine.terminate_concludes accounted runs map before.registers
          budget).ended service core ended
      refine ⟨handover, hservice, ⟨next, reaped, recorded⟩, ?_⟩
      intro other hne live
      have hlinks := congrFun same.links other
      rw [Scheduler.retire_links accounted.wellFormed.pending hne
        (accounted.not_pending live)] at hlinks
      exact ⟨(List.mem_erase_of_ne hne).mpr live,
        fun h => hlinks.trans h⟩

theorem Kept.called_failed
    (kept : Kept map base idle (machine.withState before.state))
    (called : routine.Called (machine.withState before.state).history)
    {budget : Nat} {fault : Fault}
    (failed : (routine.program map budget).run before = .error fault) :
    fault = .budgetExhausted := by
  obtain ⟨layout, reaped, accounted⟩ := kept.accounted
  cases routine with
  | start =>
      exact (Routine.start_concludes accounted called map before.registers
        budget).failed fault failed
  | terminate =>
      obtain ⟨task, runs⟩ := called
      exact (Routine.terminate_concludes accounted runs map before.registers
        budget).failed fault failed

theorem Orderly.departs (orderly : Orderly map base idle machine)
    (sound : Sound map launch idle machine)
    (activity : machine.running.activity =
      .inside routine caller accesses rest)
    (pc : machine.running.registers.pc ≠ map.branch) {service : Service}
    (step : Program.Step (rest, machine.core) (.ret service, core))
    (made : Nat) :
    ∃ handover, service = .switched handover ∧ Settled map base idle
      (machine.proceed map routine caller made (.ret service) core) := by
  obtain ⟨before, kept, called, budget, hrun⟩ := orderly.inside activity
  obtain ⟨handover, rfl, recorded, spared⟩ :=
    kept.called_ended called (step.run_eq.trans hrun).symm
  obtain ⟨_, steady, leaves⟩ := sound.leaves activity pc step
  have hstate := routine.record_state machine.history core.state handover
  have left := kept.suspend ((congrArg State.idleTask hstate).trans
    (leaves.hands.idle.trans steady.idleTask)) recorded spared caller
  exact ⟨handover, rfl, left.dispatch ((congrArg State.currentTask
    hstate).trans leaves.hands.current) core.registers _⟩

theorem Machine.proceed_goesOn (goesOn : ∀ service, left ≠ .ret service)
    (map : CodeMap) (machine : Machine) (routine : Routine)
    (caller : Registers) (accesses : Nat) (core : Core) :
    machine.proceed map routine caller accesses left core =
      ((machine.withState core.state).withRegisters
        core.registers).withActivity
          (.inside routine caller accesses left) := by
  cases left with
  | ret service => exact absurd rfl (goesOn service)
  | fail fault => rfl
  | access update next => rfl

theorem Kept.withCleanup (kept : Kept map base idle machine) {task : TaskRef}
    (live : task ∈ machine.history.live) :
    Kept map base idle
      (machine.withState (machine.history.state.withCleanup task none)) := by
  obtain ⟨layout, reaped, accounted⟩ := kept.accounted
  refine kept.transfer kept.idleTask ⟨layout, reaped,
    accounted.withCleanup live⟩ rfl fun other hlive => ⟨hlive, fun h => ?_⟩
  show cleanupOf (machine.history.state.withCleanup task none) other = none
  rw [cleanupOf_withCleanup]
  by_cases heq : other = task
  · rw [heq, Function.update_self]
  · rw [Function.update_of_ne heq]
    exact h

/-- An access of `terminate_current` before it reads the end of the cleanup
list. -/
theorem Settled.retires (settled : Settled map base idle machine)
    {task : TaskRef} (current : machine.history.state.currentTask = some task)
    (retirement : Retirement map idle task machine.history routine accesses
      rest) (more : accesses < 5)
    (step : Program.Step (rest, machine.core) (left, core)) :
    Settled map base idle (((machine.withState core.state).withRegisters
      core.registers).withActivity
        (.inside routine caller (accesses + 1) left)) := by
  obtain ⟨rfl, live, ⟨budget, retires⟩, _, frees⟩ := retirement
  obtain ⟨following, hafter⟩ :=
    retires.step more (settled.toKept.entered current live) step
  have kept : Kept map base idle (machine.withState core.state) ∧
      core.state.currentTask = some task ∧
      (accesses + 1 = 5 → cleanupOf core.state task = none) := by
    rcases hafter with ⟨hearly, rfl⟩ | ⟨_, rfl⟩
    · exact ⟨settled.toKept, current, fun h => by omega⟩
    · refine ⟨settled.toKept.withCleanup live, current, fun _ => ?_⟩
      show cleanupOf (machine.history.state.withCleanup task none) task = none
      rw [cleanupOf_withCleanup, Function.update_self]
  obtain ⟨kept, hcurrent, cleared⟩ := kept
  refine ⟨kept.same rfl rfl, ?_, ?_⟩
  · intro other hother
    obtain rfl := Option.some.inj (hcurrent.symm.trans hother)
    rintro _ _ _ _ ⟨⟩
    exact ⟨rfl, live, ⟨budget, following⟩, cleared, (frees.step step).2⟩
  · exact fun hnone => absurd (hcurrent.symm.trans hnone) nofun

theorem Kept.leaving
    (kept : Kept map base idle (machine.withState before.state))
    (called : routine.Called (machine.withState before.state).history)
    (runs : ∃ budget, left.run core =
      (routine.program map budget).run before)
    (kfreed : core.state.kfreed = before.state.kfreed)
    (frees : left.Respects SameFreedOn)
    (unbranched : core.registers.pc ≠ map.branch)
    (undisturbed : routine.Undisturbed accesses left) :
    Orderly map base idle (((machine.withState core.state).withRegisters
      core.registers).withActivity (.inside routine caller accesses left)) :=
  .leaving before routine caller accesses left rfl
    ⟨kept.same rfl rfl, called, runs, kfreed, frees, unbranched,
      undisturbed⟩

theorem Orderly.goesOn (orderly : Orderly map base idle machine)
    (sound : Sound map launch idle machine)
    (activity : machine.running.activity =
      .inside routine caller accesses rest)
    (pc : machine.running.registers.pc ≠ map.branch)
    (step : Program.Step (rest, machine.core) (left, core))
    (goesOn : ∀ service, left ≠ .ret service) :
    Orderly map base idle (((machine.withState core.state).withRegisters
      core.registers).withActivity
        (.inside routine caller (accesses + 1) left)) := by
  have unbranched := sound.access_pc activity pc step goesOn
  cases orderly with
  | settled settled =>
      cases hcurrent : machine.history.state.currentTask with
      | none =>
          obtain ⟨rfl, unstarted, ⟨budget, chooses⟩, frees⟩ :=
            settled.starting hcurrent _ _ _ _ activity
          obtain ⟨kfreed, following⟩ := frees.step step
          rcases chooses.step settled.toKept.starting step with
            ⟨later, rfl⟩ | ⟨first, rfl⟩
          · refine .settled ⟨settled.toKept.same rfl rfl, ?_, fun _ => ?_⟩
            · exact fun task htask => absurd (hcurrent.symm.trans htask) nofun
            · rintro _ _ _ _ ⟨⟩
              exact ⟨rfl, unstarted, ⟨budget, later⟩, following⟩
          · refine @Kept.leaving map base idle machine .start caller _ left
              machine.core _ settled.toKept unstarted ⟨budget, ?_⟩ kfreed
              following unbranched ?_
            · exact step.run_eq.trans
                (chooses.run_eq settled.toKept.starting)
            · refine sound.chosen activity pc step ?_
              rw [hcurrent]
              exact nofun
      | some task =>
          have retirement :=
            settled.current task hcurrent _ _ _ _ activity
          by_cases more : accesses < 5
          · exact .settled (settled.retires hcurrent retirement more step)
          · obtain ⟨rfl, live, ⟨budget, retires⟩, cleared, frees⟩ :=
              retirement
            obtain ⟨kfreed, following⟩ := frees.step step
            refine @Kept.leaving map base idle machine .terminate caller _
              left machine.core core settled.toKept ⟨task, hcurrent, live⟩
              ⟨budget, ?_⟩ kfreed following unbranched ?_
            · exact step.run_eq.trans (retires.run_eq
                (settled.toKept.entered hcurrent live) cleared)
            · exact Nat.succ_le_succ (Nat.le_of_not_lt more)
  | leaving before _ _ _ _ inside leaving =>
      cases activity.symm.trans inside
      obtain ⟨budget, hrun⟩ := leaving.runs
      obtain ⟨kfreed, following⟩ := leaving.frees.step step
      refine leaving.kept.leaving leaving.called
        ⟨budget, step.run_eq.trans hrun⟩ (kfreed.trans leaving.kfreed)
        following unbranched ?_
      have undisturbed := leaving.undisturbed
      cases routine with
      | start => exact (undisturbed.step step).2
      | terminate => exact Nat.le_succ_of_le undisturbed

theorem Orderly.access (orderly : Orderly map base idle machine)
    (sound : Sound map launch idle machine)
    (activity : machine.running.activity =
      .inside routine caller accesses rest)
    (pc : machine.running.registers.pc ≠ map.branch)
    (step : Program.Step (rest, machine.core) (left, core)) :
    Orderly map base idle
      (machine.proceed map routine caller (accesses + 1) left core) := by
  by_cases returns : ∃ service, left = .ret service
  · obtain ⟨service, rfl⟩ := returns
    obtain ⟨_, _, settled⟩ :=
      orderly.departs sound activity pc step (accesses + 1)
    exact .settled settled
  · have goesOn : ∀ service, left ≠ .ret service :=
      fun service hleft => returns ⟨service, hleft⟩
    rw [Machine.proceed_goesOn goesOn]
    exact orderly.goesOn sound activity pc step goesOn

end

end Planetoid.Task
