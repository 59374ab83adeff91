import Planetoid.Task.CallMask
import Planetoid.Task.Execution
import Planetoid.Task.Turns

namespace Planetoid.Task

open Planetoid Program Links Arch

/-- What is left of a routine leaves no mask bit set when it switches. -/
def Activity.Unmasks : Activity → Prop
  | .inside _ _ _ rest => ∃ core, rest.Upholds
      (fun core => Unmaskable core.state) Task.Unmasks core
  | _ => True

def Activity.Unmaskable (activity : Activity) (daif : Nat) : Prop :=
  match activity with
  | .inside _ _ _ _ => unmasked daif = 0
  | _ => True

theorem Activity.unmaskable_zero (activity : Activity) :
    activity.Unmaskable 0 := by
  cases activity with
  | own => exact trivial
  | inside routine caller accesses rest =>
      show unmasked 0 = 0
      decide
  | halted => exact trivial

theorem Activity.unmasks_left (activity : Activity) :
    activity.left.Unmasks := by
  cases activity <;> exact trivial

/-- The mask of every call is known to the core or clear. -/
structure MaskInvariant (machine : Machine) : Prop where
  resumes : ResumesUnmasked machine.history.state
  routine : machine.running.activity.Unmasks
  suspended : ∀ task suspension,
    machine.suspended task = some suspension →
      suspension.execution.activity.Unmasks
  unmaskable : machine.running.activity.Unmaskable machine.history.state.daif
  away : ∀ task call, machine.calls task = some call → call.mask = 0 ∨
    machine.running.thread = some task ∧ machine.running.activity = .own
  running : ∀ task call, machine.running.thread = some task →
    machine.running.activity = .own → machine.calls task = some call →
      machine.history.state.daif = call.mask
  returned : ∀ masks, masks ∈ machine.returns → masks.1 = masks.2

/-- A machine in which the mask is clear in every call and on the core. -/
structure AllClear (machine : Machine) : Prop where
  resumes : ResumesUnmasked machine.history.state
  suspended : ∀ task suspension,
    machine.suspended task = some suspension →
      suspension.execution.activity.Unmasks
  daif : machine.history.state.daif = 0
  calls : ∀ task call, machine.calls task = some call → call.mask = 0
  returned : ∀ masks, masks ∈ machine.returns → masks.1 = masks.2

theorem AllClear.maskInvariant {machine : Machine} (clear : AllClear machine)
    (routine : machine.running.activity.Unmasks) : MaskInvariant machine where
  resumes := clear.resumes
  routine := routine
  suspended := clear.suspended
  unmaskable := by
    rw [clear.daif]
    exact Activity.unmaskable_zero _
  away := fun task call hcall => .inl (clear.calls task call hcall)
  running := fun task call _ _ hcall =>
    clear.daif.trans (clear.calls task call hcall).symm
  returned := clear.returned

theorem AllClear.dispatch {machine : Machine} (clear : AllClear machine)
    (next : TaskRef) (registers resumed : Registers) :
    AllClear (machine.dispatch next registers resumed) ∧
      (machine.dispatch next registers resumed).running.activity.Unmasks := by
  refine ⟨⟨?_, ?_, ?_, ?_, ?_⟩, ?_⟩
  · rw [Machine.dispatch_history]
    exact clear.resumes
  · rw [Machine.dispatch_suspended]
    exact clear.suspended
  · rw [Machine.dispatch_history]
    exact clear.daif
  · rw [Machine.dispatch_calls]
    exact clear.calls
  · rw [Machine.dispatch_returns]
    exact clear.returned
  · unfold Machine.dispatch
    split
    · exact trivial
    · rename_i suspension hsuspension
      exact clear.suspended next suspension hsuspension

theorem AllClear.suspend {machine : Machine} (clear : AllClear machine)
    (task : TaskRef) {suspension : Suspension}
    (h : suspension.execution.activity.Unmasks) :
    AllClear (machine.suspend task suspension) := by
  refine ⟨clear.resumes, ?_, clear.daif, clear.calls, clear.returned⟩
  intro other held hheld
  by_cases heq : other = task
  · subst other
    rw [Machine.suspend_self] at hheld
    obtain rfl := Option.some.inj hheld
    exact h
  · rw [Machine.suspend_of_ne _ _ heq] at hheld
    exact clear.suspended other held hheld

theorem AllClear.withHistory {machine : Machine} (clear : AllClear machine)
    {history : History} (resumes : ResumesUnmasked history.state)
    (hdaif : history.state.daif = 0) : AllClear (machine.withHistory history) :=
  ⟨resumes, clear.suspended, hdaif, clear.calls, clear.returned⟩

theorem AllClear.withCall {machine : Machine} (clear : AllClear machine)
    (task : TaskRef) {call : Call} (h : call.mask = 0) :
    AllClear (machine.withCall task (some call)) := by
  refine ⟨clear.resumes, clear.suspended, clear.daif, ?_, clear.returned⟩
  intro other held hheld
  by_cases heq : other = task
  · subst other
    rw [Machine.withCall_self] at hheld
    obtain rfl := Option.some.inj hheld
    exact h
  · rw [Machine.withCall_of_ne _ _ heq] at hheld
    exact clear.calls other held hheld

theorem AllClear.withRegisters {machine : Machine} (clear : AllClear machine)
    (registers : Registers) : AllClear (machine.withRegisters registers) :=
  ⟨clear.resumes, clear.suspended, clear.daif, clear.calls, clear.returned⟩

theorem AllClear.arrive {machine : Machine} (clear : AllClear machine)
    (map : CodeMap) : AllClear (machine.arrive map) := by
  refine ⟨?_, ?_, ?_, ?_, ?_⟩
  · rw [Machine.arrive_history]
    exact clear.resumes
  · rw [Machine.arrive_suspended]
    exact clear.suspended
  · rw [Machine.arrive_history]
    exact clear.daif
  · rw [Machine.arrive_calls]
    exact clear.calls
  · rw [Machine.arrive_returns]
    exact clear.returned

theorem AllClear.handOver {machine : Machine} (clear : AllClear machine)
    (map : CodeMap) (caller : Registers) (handover : Handover)
    (registers : Registers) :
    MaskInvariant (machine.handOver map caller handover registers) := by
  have suspended : AllClear (machine.suspend handover.previous
      (machine.switchedOut map caller)) :=
    clear.suspend handover.previous (Activity.unmasks_left _)
  have dispatched := suspended.dispatch handover.next registers
    { registers with pc := registers.x 2 }
  exact dispatched.1.maskInvariant dispatched.2

namespace MaskInvariant

variable {map : CodeMap} {machine : Machine}

/-- Every open call was made with a clear mask when the core is taken from a
thread whose mask is clear. -/
theorem calls_clear (invariant : MaskInvariant machine)
    (hdaif : machine.history.state.daif = 0) {task : TaskRef} {call : Call}
    (hcall : machine.calls task = some call) : call.mask = 0 := by
  rcases invariant.away task call hcall with hzero | ⟨hthread, hown⟩
  · exact hzero
  · exact (invariant.running task call hthread hown hcall).symm.trans hdaif

theorem calls_clear_of_inside (invariant : MaskInvariant machine)
    (h : machine.running.activity ≠ .own) {task : TaskRef} {call : Call}
    (hcall : machine.calls task = some call) : call.mask = 0 := by
  rcases invariant.away task call hcall with hzero | ⟨_, hown⟩
  · exact hzero
  · exact absurd hown h

theorem allClear (invariant : MaskInvariant machine)
    (hdaif : machine.history.state.daif = 0) : AllClear machine :=
  ⟨invariant.resumes, invariant.suspended, hdaif,
    fun _ _ hcall => invariant.calls_clear hdaif hcall, invariant.returned⟩

theorem withState (invariant : MaskInvariant machine)
    (own : machine.running.activity = .own) (uncalled : machine.Uncalled)
    {history : History} (resumes : ResumesUnmasked history.state) :
    MaskInvariant (machine.withHistory history) where
  resumes := resumes
  routine := invariant.routine
  suspended := invariant.suspended
  unmaskable := by
    show machine.running.activity.Unmaskable history.state.daif
    rw [own]
    exact trivial
  away := invariant.away
  running := by
    intro task call hthread _ hcall
    have hnone := uncalled task hthread
    exact absurd (hnone.symm.trans hcall) (by simp)
  returned := invariant.returned

theorem withRegisters (invariant : MaskInvariant machine)
    (registers : Registers) :
    MaskInvariant (machine.withRegisters registers) :=
  ⟨invariant.resumes, invariant.routine, invariant.suspended,
    invariant.unmaskable, invariant.away, invariant.running,
    invariant.returned⟩

theorem arrive (invariant : MaskInvariant machine) (map : CodeMap) :
    MaskInvariant (machine.arrive map) := by
  unfold Machine.arrive
  split
  · exact ⟨invariant.resumes, invariant.routine, invariant.suspended,
      invariant.unmaskable, invariant.away, invariant.running,
      invariant.returned⟩
  · exact invariant

theorem withCall (invariant : MaskInvariant machine)
    (own : machine.running.activity = .own) {task : TaskRef}
    (hthread : machine.running.thread = some task) {history : History}
    (resumes : ResumesUnmasked history.state) {call : Call}
    (hcall : call.mask = history.state.daif) :
    MaskInvariant ((machine.withHistory history).withCall task
      (some call)) where
  resumes := resumes
  routine := invariant.routine
  suspended := invariant.suspended
  unmaskable := by
    show machine.running.activity.Unmaskable history.state.daif
    rw [own]
    exact trivial
  away := by
    intro other held hheld
    by_cases heq : other = task
    · subst other
      exact .inr ⟨hthread, own⟩
    · rw [Machine.withCall_of_ne _ _ heq] at hheld
      exact invariant.away other held hheld
  running := by
    intro other held hother _ hheld
    obtain rfl := Option.some.inj (hthread.symm.trans hother)
    rw [Machine.withCall_self] at hheld
    obtain rfl := Option.some.inj hheld
    exact hcall.symm
  returned := invariant.returned

theorem giveBack (invariant : MaskInvariant machine)
    (own : machine.running.activity = .own) {task : TaskRef}
    (hthread : machine.running.thread = some task) {call : Call}
    (hcall : machine.calls task = some call) :
    MaskInvariant (machine.giveBack task call) := by
  have hmask := invariant.running task call hthread own hcall
  refine ⟨invariant.resumes, invariant.routine, invariant.suspended,
    invariant.unmaskable, ?_, ?_, ?_⟩
  · intro other held hheld
    have hwith : (machine.withCall task none).calls other = some held := hheld
    by_cases heq : other = task
    · subst other
      rw [Machine.withCall_self] at hwith
      cases hwith
    · rw [Machine.withCall_of_ne _ _ heq] at hwith
      exact invariant.away other held hwith
  · intro other held hother _ hheld
    obtain rfl := Option.some.inj (hthread.symm.trans hother)
    have hwith : (machine.withCall task none).calls task = some held := hheld
    rw [Machine.withCall_self] at hwith
    cases hwith
  · intro masks hmem
    rcases List.mem_cons.mp hmem with rfl | hold
    · exact hmask.symm
    · exact invariant.returned masks hold

theorem enter (invariant : MaskInvariant machine) (uncalled : machine.Uncalled)
    (hdaif : unmasked machine.history.state.daif = 0) (map : CodeMap)
    (routine : Routine) (budget : Nat) :
    MaskInvariant (machine.withActivity (.inside routine
      machine.running.registers 0 (routine.program map budget))) where
  resumes := invariant.resumes
  routine := ⟨machine.core,
    routine.program_upholds map budget ⟨invariant.resumes, hdaif⟩⟩
  suspended := invariant.suspended
  unmaskable := hdaif
  away := by
    intro task call hcall
    rcases invariant.away task call hcall with hzero | ⟨hthread, _⟩
    · exact .inl hzero
    · exact absurd ((uncalled task hthread).symm.trans hcall) (by simp)
  running := by
    intro task call _ hown _
    cases hown
  returned := invariant.returned

theorem access (invariant : MaskInvariant machine) {routine : Routine}
    {caller : Registers} {accesses : Nat} {rest left : Code Service}
    {core : Core} (activity : machine.running.activity =
      .inside routine caller accesses rest)
    (step : Program.Step (rest, machine.core) (left, core)) (map : CodeMap) :
    MaskInvariant (machine.proceed map routine caller (accesses + 1) left
      core) := by
  have hroutine := invariant.routine
  have hunmask := invariant.unmaskable
  rw [activity] at hroutine hunmask
  obtain ⟨start, upholds⟩ := hroutine
  have unmaskable : Unmaskable machine.core.state :=
    ⟨invariant.resumes, hunmask⟩
  obtain ⟨hcore, left_upholds⟩ := upholds.step unmaskable step
  have hcalls : ∀ task call, machine.calls task = some call → call.mask = 0 :=
    fun task call hcall => invariant.calls_clear_of_inside
      (by rw [activity]; simp) hcall
  unfold Machine.proceed
  split
  · rename_i handover
    have hdaif : core.state.daif = 0 := left_upholds
    have hrecord : (routine.record machine.history core.state
        handover).state = core.state := by
      cases routine <;> rfl
    have clear : AllClear (machine.withHistory
        (routine.record machine.history core.state handover)) := by
      refine ⟨?_, invariant.suspended, ?_, hcalls, invariant.returned⟩
      · show ResumesUnmasked (routine.record machine.history core.state
          handover).state
        rw [hrecord]
        exact hcore.resumes
      · show (routine.record machine.history core.state
          handover).state.daif = 0
        rw [hrecord]
        exact hdaif
    exact clear.handOver map caller handover core.registers
  · exact ⟨hcore.resumes, trivial, invariant.suspended, trivial,
      fun task call hcall => .inl (hcalls task call hcall),
      (fun _ _ _ hown => nomatch hown), invariant.returned⟩
  · exact ⟨hcore.resumes, ⟨core, left_upholds⟩, invariant.suspended,
      hcore.daif, fun task call hcall => .inl (hcalls task call hcall),
      (fun _ _ _ hown => nomatch hown), invariant.returned⟩

theorem serve (invariant : MaskInvariant machine)
    (own : machine.running.activity = .own) {task : TaskRef}
    (hthread : machine.running.thread = some task) {call : Call}
    (hcall : machine.calls task = some call) {service : Service} {core : Core}
    {budget : Nat} {map : CodeMap}
    (ended : (call.request.program map budget).run machine.core =
      .ok (service, core))
    (meets : service.next ≠ none → machine.history.state.daif = 0) :
    MaskInvariant (machine.serve map call task service core) := by
  have hmask := invariant.running task call hthread own hcall
  have start : MaskIs call.mask machine.core.state :=
    ⟨invariant.resumes, hmask⟩
  have after := (call.request.program_ends start map budget).of_run ended
  have hrecord := call.request.record_state machine.history core.state service
  have resumes : ResumesUnmasked
      (call.request.record machine.history core.state service).state := by
    rw [hrecord]
    exact after.resumes
  cases service with
  | done =>
      refine invariant.withCall own hthread resumes ?_
      rw [hrecord]
      exact (call.after_mask .done).trans after.mask.symm
  | again => exact after.mask.elim
  | switched handover =>
      have hdaif := meets (by simp [Service.next])
      have hzero : call.mask = 0 := hmask.symm.trans hdaif
      have hlast : (call.request.record machine.history core.state
          (.switched handover)).state.daif = 0 := by
        rw [hrecord]
        exact after.mask hzero
      have clear := (((invariant.allClear hdaif).withHistory resumes
        hlast).withCall task
          ((call.after_mask (.switched handover)).trans hzero))
      exact clear.handOver map machine.running.registers handover
        core.registers

theorem interrupt (invariant : MaskInvariant machine)
    (hdaif : machine.history.state.daif = 0) {budget esr far : Nat}
    {frame : ExceptionContext} {after : State}
    (ended : (onTimerInterrupt budget (saveFrame machine.running.registers
      machine.history.state.daif esr far)).run machine.history.state =
        .ok (frame, after)) (map : CodeMap) :
    MaskInvariant (machine.interrupted map frame after) := by
  obtain ⟨resumes, hframe⟩ := (@onTimerInterrupt_ends _ invariant.resumes
    (saveFrame machine.running.registers machine.history.state.daif esr far)
    hdaif budget).of_run ended
  have saving : AllClear machine.saveInterrupted := by
    unfold Machine.saveInterrupted
    split
    · exact invariant.allClear hdaif
    · exact (invariant.allClear hdaif).suspend _ invariant.routine
  have saved : AllClear (machine.saveInterrupted.withState
      (after.withDaif frame.spsr.daif)) :=
    saving.withHistory resumes hframe
  have continued : MaskInvariant ((machine.saveInterrupted.withState
      (after.withDaif frame.spsr.daif)).withRegisters
        (loadFrame frame machine.running.registers)) := by
    refine (saved.withRegisters _).maskInvariant ?_
    show machine.saveInterrupted.running.activity.Unmasks
    rw [Machine.saveInterrupted_running]
    exact invariant.routine
  unfold Machine.interrupted
  dsimp only
  split
  · exact continued
  · split
    · exact continued
    · rename_i next _
      have dispatched := saved.dispatch next
        (loadFrame frame machine.running.registers)
        (loadFrame frame machine.running.registers)
      exact (dispatched.1.maskInvariant dispatched.2).arrive map

end MaskInvariant

/-- The mask is clear when a call ends in `task_switch`, when an interrupt is
taken, and, but for the interrupt bit, when `start` and `terminate_current`
are called. -/
def SwitchesUnmasked (machine : Machine) : Event → Prop
  | .serve (some _) => machine.history.state.daif = 0
  | .interrupt => machine.history.state.daif = 0
  | .enter _ => unmasked machine.history.state.daif = 0
  | _ => True

instance (machine : Machine) (event : Event) :
    Decidable (SwitchesUnmasked machine event) := by
  unfold SwitchesUnmasked
  split <;> infer_instance

/-- Every call returned with the mask with which it was made. -/
def MasksRestored (machine : Machine) : Prop :=
  ∀ masks, masks ∈ machine.returns → masks.1 = masks.2

theorem Machine.Initial.maskInvariant {map : CodeMap} {machine : Machine}
    (initial : machine.Initial map) : MaskInvariant machine where
  resumes := by
    intro task
    by_cases hlaunch : machine.history.state.launchContext = some task
    · rw [initial.launch task hlaunch]
      rfl
    · rw [initial.created task hlaunch]
      rfl
  routine := by
    rw [initial.executes.own]
    exact trivial
  suspended := by
    rw [initial.suspended]
    exact nofun
  unmaskable := by
    rw [initial.executes.own]
    exact trivial
  away := by
    rw [initial.calls]
    exact nofun
  running := by
    rw [initial.calls]
    exact nofun
  returned := by
    rw [initial.logs.2.2]
    exact nofun

theorem MaskInvariant.step {map : CodeMap} {machine after : Machine}
    {event : Event} (invariant : MaskInvariant machine)
    (meets : SwitchesUnmasked machine event)
    (step : Machine.Step map machine event after) : MaskInvariant after := by
  cases step with
  | add executes uncalled fresh ended =>
      rename_i task after
      have added := (Scheduler.addTask_ends ⟨invariant.resumes, rfl⟩
        task).of_run ended
      refine invariant.withState executes.own uncalled ?_
      rw [Operation.record_state]
      exact added.resumes
  | call request executes runs uncalled =>
      exact invariant.withCall executes.own runs.thread invariant.resumes rfl
  | serve executes runs called unserved ended =>
      rename_i service core
      refine invariant.serve executes.own runs.thread called ended ?_
      intro hnext
      obtain ⟨next, hnext⟩ := Option.ne_none_iff_exists'.mp hnext
      rw [hnext] at meets
      exact meets
  | giveBack executes runs called served =>
      exact invariant.giveBack executes.own runs.thread called
  | unlock executes runs uncalled ended =>
      have unlocked := (Mutex.unlock_ends ⟨invariant.resumes, rfl⟩).of_run ended
      exact invariant.withState executes.own uncalled unlocked.resumes
  | enter budget executes uncalled enters =>
      exact invariant.enter uncalled meets map _ budget
  | access activity pc step => exact invariant.access activity step map
  | branch pc => exact (invariant.withRegisters _).arrive map
  | interrupt enabled ended => exact invariant.interrupt meets ended map
  | compute registers executes stack pc =>
      exact invariant.withRegisters registers
  | mask daif executes uncalled =>
      exact invariant.withState executes.own uncalled invariant.resumes

/-- In every run whose switches and interrupts find the mask clear, every call
of `yield`, `sleep` and `lock` returns with the mask with which it was made. -/
theorem masksRestored_of_reachable {map : CodeMap} {machine : Machine}
    (reachable : (machines map).Reachable SwitchesUnmasked machine) :
    MasksRestored machine :=
  (reachable.holds (fun _ initial => initial.maskInvariant)
    fun _ _ _ invariant meets step => invariant.step meets step).returned

/-- Two tasks of which the first yields to the other and, interrupted by the
timer in between, gets the processor back. -/
def unmaskedYield : List Event :=
  [.add 2, .add 3] ++ startEvents 2 ++ [.call .yield, .serve (some 3),
    .branch, .call .yield, .serve (some 2), .branch, .interrupt,
    .interrupt, .giveBack]

theorem masksRestored_unmaskedYield :
    ∃ machine, smallMachine.runEvents
        (fun machine event => decide (SwitchesUnmasked machine event))
          smallMap 4 unmaskedYield = some machine ∧
      machine.returns = [(0, 0)] ∧ MasksRestored machine := by
  obtain ⟨machine, hrun, hreturns⟩ := Option.map_eq_some_iff.mp
    (by decide +kernel : (smallMachine.runEvents
      (fun machine event => decide (SwitchesUnmasked machine event))
        smallMap 4 unmaskedYield).map (·.returns) = some [(0, 0)])
  have reachable : (machines smallMap).Reachable SwitchesUnmasked machine :=
    Machine.reachable_runEvents (fun _ _ h => of_decide_eq_true h)
      (.initial smallMachine_initial) hrun
  exact ⟨machine, hrun, hreturns, masksRestored_of_reachable reachable⟩

/-- A task masks interrupts and yields; `task_switch` unmasked them when the
task has the processor back. -/
def maskedYield : List Event :=
  [.add 2, .add 3] ++ startEvents 2 ++ [.mask 2, .call .yield,
    .serve (some 3), .branch, .call .yield, .serve (some 2), .branch,
    .giveBack]

theorem masksRestored_fails_for_masked_yield :
    ∃ machine, (machines smallMap).Reachable System.unguarded machine ∧
      ¬ MasksRestored machine := by
  obtain ⟨machine, hrun, hreturns⟩ := Option.map_eq_some_iff.mp
    (by decide +kernel : (smallMachine.runEvents (fun _ _ => true) smallMap 4
      maskedYield).map (·.returns) = some [(2, 0)])
  refine ⟨machine, Machine.reachable_runEvents (fun _ _ _ => trivial)
    (.initial smallMachine_initial) hrun, ?_⟩
  intro restored
  have hsame := restored (2, 0) (by rw [hreturns]; exact List.mem_singleton_self _)
  exact absurd hsame (by decide)

end Planetoid.Task
