import Planetoid.Task.Resumption

namespace Planetoid.Task

open Planetoid Program Arch

/-! The invariant of the saved contexts over the runs of the machine. -/

/-- What is left of a routine that wrote `current_task` for the last time. -/
def Activity.Published : Activity → Prop
  | .inside _ _ _ rest => rest.Respects SameCurrent
  | _ => False

/-- No interrupt is taken between the store to `current_task` in `start` or
`terminate_current` and the end of the `task_switch` that follows it. The
tasks to which `task_switch` passes the core began, and no interrupt suspended
them inside `terminate_current`. -/
def KeepsThreads (machine : Machine) : Event → Prop
  | .interrupt => ¬ machine.running.activity.Published
  | .serve (some next) | .access (some next) => ∀ suspension,
      machine.suspended next = some suspension →
        suspension.interrupted = true → suspension.execution.Plain
  | _ => True

/-- No interrupt is taken between the store to `current_task` in `start` or
`terminate_current` and the end of the `task_switch` that follows it, and
`task_switch` goes to no task that a timer interrupt suspended. -/
def KeepsRegisters (machine : Machine) : Event → Prop
  | .interrupt => ¬ machine.running.activity.Published
  | .serve (some next) | .access (some next) => ∀ suspension,
      machine.suspended next = some suspension →
        suspension.interrupted = false
  | _ => True

theorem KeepsRegisters.keepsThreads {machine : Machine} {event : Event}
    (keeps : KeepsRegisters machine event) : KeepsThreads machine event := by
  cases event with
  | interrupt => exact keeps
  | serve next =>
      cases next with
      | none => trivial
      | some next =>
          intro suspension hsuspended hinterrupted
          have hswitched := keeps suspension hsuspended
          exact absurd (hswitched.symm.trans hinterrupted) nofun
  | access next =>
      cases next with
      | none => trivial
      | some next =>
          intro suspension hsuspended hinterrupted
          have hswitched := keeps suspension hsuspended
          exact absurd (hswitched.symm.trans hinterrupted) nofun
  | _ => trivial

/-- The contexts hold what their tasks go on with, or a routine that has
chosen the next task is on its way to it. -/
inductive Sound (map : CodeMap) (launch idle : TaskRef)
    (machine : Machine) : Prop
  | steady (steady : Steady map launch idle machine)
      (prepares : machine.running.Prepares map launch idle
        machine.history.state.currentTask)
  | switching (before : Core) (routine : Routine) (caller : Registers)
      (accesses : Nat) (rest : Code Service)
      (steady : Steady map launch idle (machine.withState before.state))
      (inside : machine.running.activity =
        .inside routine caller accesses rest)
      (fresh : machine.running.fresh = false)
      (idle_ne : before.state.currentTask ≠ some idle)
      (started : routine = .terminate → before.state.currentTask ≠ none)
      (given : GivenBack caller before.registers)
      (committed : Committed (handing map before.state.currentTask (some idle)
        launch (before.state.currentTask.getD launch) caller) before rest
          machine.core)
      (switching : Switching map (before.state.currentTask.getD launch)
        before machine.core)

section

variable {map : CodeMap} {launch idle : TaskRef} {machine : Machine}

theorem Sound.of_own (sound : Sound map launch idle machine)
    (own : machine.running.activity = .own) :
    Steady map launch idle machine := by
  cases sound with
  | steady steady prepares => exact steady
  | switching before routine caller accesses rest steady inside =>
      exact absurd (own.symm.trans inside) nofun

theorem Sound.interruptible (sound : Sound map launch idle machine)
    (meets : KeepsThreads machine .interrupt) :
    Steady map launch idle machine ∧
      machine.running.Prepares map launch idle
        machine.history.state.currentTask := by
  cases sound with
  | steady steady prepares => exact ⟨steady, prepares⟩
  | switching _ _ _ _ _ _ inside _ _ _ _ committed _ =>
      refine absurd ?_ meets
      rw [inside]
      exact committed.settled

theorem prepares_of_own {execution : Execution}
    (own : execution.activity = .own) (current : Option TaskRef) :
    execution.Prepares map launch idle current :=
  fun _ _ _ _ inside => absurd (own.symm.trans inside) nofun

theorem Sound.own {after : Machine} (steady : Steady map launch idle after)
    (own : after.running.activity = .own) : Sound map launch idle after :=
  .steady steady (prepares_of_own own _)

theorem Steady.current_of_runs (steady : Steady map launch idle machine)
    {task : TaskRef} (runs : machine.RunsTask task) :
    machine.history.state.currentTask = some task ∧ task ≠ launch ∧
      task ≠ idle := by
  have hthread := steady.thread.symm.trans runs.thread
  obtain ⟨hcurrent, hlaunch⟩ := owner_eq_some hthread
  refine ⟨?_, steady.live task runs.live⟩
  cases hnone : machine.history.state.currentTask with
  | none =>
      rw [hnone] at hcurrent hlaunch
      exact absurd rfl hlaunch
  | some current =>
      rw [hnone] at hcurrent
      exact congrArg some hcurrent

theorem Steady.switchable (steady : Steady map launch idle machine)
    {previous next : TaskRef}
    (hprevious : previous =
      machine.history.state.currentTask.getD launch)
    (meets : ∀ suspension, machine.suspended next = some suspension →
      suspension.interrupted = true → suspension.execution.Plain)
    (hne : next ≠ previous) (suspension : Suspension)
    (hsuspended : machine.suspended next = some suspension) :
    suspension.execution.Plain := by
  by_cases hidle : next = idle
  · subst next
    exact absurd (steady.idleFree.symm.trans hsuspended) nofun
  · have howner : owner launch next ≠ machine.running.thread := by
      rw [steady.thread, ← hprevious]
      exact fun hsame => hne (owner_inj hsame)
    cases hinterrupted : suspension.interrupted with
    | true => exact meets suspension hsuspended hinterrupted
    | false =>
        exact (steady.held next hidle howner).plain suspension hsuspended
          hinterrupted

theorem Request.record_live (request : Request) (history : History)
    (after : State) (service : Service) :
    (request.record history after service).live = history.live ∧
      (request.record history after service).started = history.started := by
  unfold Request.record
  split
  · unfold Operation.record
    dsimp only
    split
    · exact ⟨rfl, rfl⟩
    · exact ⟨rfl, rfl⟩
  · exact ⟨rfl, rfl⟩

theorem Steady.started (steady : Steady map launch idle machine)
    {task : TaskRef}
    (current : machine.history.state.currentTask = some task) :
    machine.history.started = true := by
  cases hstarted : machine.history.started with
  | true => rfl
  | false =>
      have hnone := (steady.unstarted hstarted).1
      exact absurd (current.symm.trans hnone) nofun

theorem Steady.leaves_served (steady : Steady map launch idle machine)
    (executes : machine.Executes map) {task : TaskRef}
    (runs : machine.RunsTask task) {call : Call} {budget : Nat}
    {handover : Handover} {core : Core}
    (ended : (call.request.program map budget).run machine.core =
      .ok (.switched handover, core)) :
    Leaves map launch idle
      (machine.withCall task (some (call.after (.switched handover))))
      machine.core machine.running.registers handover core
      (call.request.record machine.history core.state
        (.switched handover)) := by
  obtain ⟨hcurrent, _, hidle⟩ := steady.current_of_runs runs
  obtain ⟨hleaves, hands⟩ := (call.request.program_serves map budget
    machine.core).of_run ended
  have hsame : handover.previous = task :=
    Option.some.inj (hleaves.symm.trans hcurrent)
  obtain ⟨hlive, hstarted⟩ := call.request.record_live machine.history
    core.state (.switched handover)
  refine ⟨steady.begun_of_pc executes.pc task hidle runs.thread, rfl, ?_,
    hsame ▸ hidle, ⟨fun _ _ _ => rfl, rfl⟩, hands,
    call.request.record_state machine.history core.state _, ?_,
    hstarted.trans (steady.started hcurrent)⟩
  · show handover.previous = machine.history.state.currentTask.getD launch
    rw [hsame, hcurrent]
    rfl
  · rw [hlive]
    exact steady.live

theorem Sound.serve (steady : Steady map launch idle machine)
    (executes : machine.Executes map) {task : TaskRef}
    (runs : machine.RunsTask task) {call : Call} {budget : Nat}
    {service : Service} {core : Core}
    (ended : (call.request.program map budget).run machine.core =
      .ok (service, core))
    (meets : KeepsThreads machine (.serve service.next)) :
    Sound map launch idle (machine.serve map call task service core) := by
  have serves := (call.request.program_serves map budget machine.core).of_run
    ended
  have hstate := call.request.record_state machine.history core.state service
  have returns : ∀ same : SameThread machine.history.state core.state,
      Steady map launch idle ((machine.withHistory (call.request.record
        machine.history core.state service)).withCall task
          (some (call.after service))) := by
    intro same
    obtain ⟨hlive, hstarted⟩ := call.request.record_live machine.history
      core.state service
    rw [← hstate] at same
    refine (steady.withHistory same ?_ hstarted).withCall task _
    rw [hlive]
    exact steady.live
  cases service with
  | done => exact .own (returns serves.state) executes.own
  | again => exact .own (returns serves.state) executes.own
  | switched handover =>
      have leaves := steady.leaves_served executes runs ended
      obtain ⟨after, prepares⟩ := (steady.withCall task
        (some (call.after (.switched handover)))).handOver leaves
          fun hne => steady.switchable leaves.previous meets hne
      have hafter : (machine.serve map call task (.switched handover)
          core).history.state.currentTask = some handover.next := by
        show (Machine.dispatch _ _ _ _).history.state.currentTask = _
        rw [Machine.dispatch_history]
        exact (congrArg State.currentTask hstate).trans
          leaves.hands.current
      refine .steady after ?_
      rw [hafter]
      exact prepares

theorem Routine.record_state (routine : Routine) (history : History)
    (after : State) (handover : Handover) :
    (routine.record history after handover).state = after := by
  cases routine <;> rfl

theorem Routine.record_live (routine : Routine) (history : History)
    (after : State) (handover : Handover) {task : TaskRef}
    (h : task ∈ (routine.record history after handover).live) :
    task ∈ history.live := by
  cases routine with
  | start => exact h
  | terminate => exact List.mem_of_mem_erase h

/-- The routine that was called with the registers `caller` chose the next task
in the state `before`. -/
structure Underway (map : CodeMap) (launch idle : TaskRef)
    (machine : Machine) (before : Core) (routine : Routine)
    (caller : Registers) (left : Code Service) (core : Core) : Prop where
  steady : Steady map launch idle (machine.withState before.state)
  fresh : machine.running.fresh = false
  idle_ne : before.state.currentTask ≠ some idle
  started : routine = .terminate → before.state.currentTask ≠ none
  given : GivenBack caller before.registers
  committed : Committed (handing map before.state.currentTask (some idle)
    launch (before.state.currentTask.getD launch) caller) before left core
  switching : Switching map (before.state.currentTask.getD launch) before
    machine.core

theorem Underway.leaves {before : Core} {routine : Routine}
    {caller : Registers} {service : Service} {core : Core}
    (underway : Underway map launch idle machine before routine caller
      (.ret service) core) :
    ∃ handover, service = .switched handover ∧
      Leaves map launch idle (machine.withState before.state) before caller
        handover core (routine.record machine.history core.state handover) := by
  obtain ⟨steady, fresh, idle_ne, started, given, committed, _⟩ := underway
  obtain ⟨next, hservice, hands⟩ := committed.follows
  refine ⟨_, hservice, fresh, rfl, rfl, ?_, given, hands,
    routine.record_state .., ?_, ?_⟩
  · show before.state.currentTask.getD launch ≠ idle
    cases hcurrent : before.state.currentTask with
    | none => exact steady.launch_ne
    | some current =>
        exact fun heq => idle_ne (hcurrent.trans (congrArg some heq))
  · exact fun task hmem => steady.live task (routine.record_live _ _ _ hmem)
  · cases routine with
    | start => rfl
    | terminate =>
        obtain ⟨current, hcurrent⟩ :=
          Option.ne_none_iff_exists'.mp (started rfl)
        have hstarted := steady.started hcurrent
        exact hstarted

theorem Underway.proceed {before : Core} {routine : Routine}
    {caller : Registers} {accesses : Nat} {left : Code Service} {core : Core}
    (underway : Underway map launch idle machine before routine caller left
      core) (meets : KeepsThreads machine (.access (passesTo left))) :
    Sound map launch idle
      (machine.proceed map routine caller accesses left core) := by
  cases left with
  | ret service =>
      obtain ⟨handover, rfl, leaves⟩ := underway.leaves
      obtain ⟨after, prepares⟩ := underway.steady.handOver leaves
        fun hne => underway.steady.switchable leaves.previous meets hne
      have hafter : (machine.proceed map routine caller accesses
          (.ret (.switched handover)) core).history.state.currentTask =
            some handover.next := by
        show (Machine.dispatch _ _ _ _).history.state.currentTask = _
        rw [Machine.dispatch_history]
        exact (congrArg State.currentTask leaves.recorded).trans
          leaves.hands.current
      refine .steady after ?_
      rw [hafter]
      exact prepares
  | fail fault =>
      obtain ⟨steady, fresh, idle_ne, started, given, committed, _⟩ := underway
      exact .switching before routine caller accesses (.fail fault)
        (steady.withRunning rfl rfl fun _ _ _ => fresh) rfl fresh idle_ne
        started given committed committed.follows
  | access update next =>
      obtain ⟨steady, fresh, idle_ne, started, given, committed, _⟩ := underway
      exact .switching before routine caller accesses (.access update next)
        (steady.withRunning rfl rfl fun _ _ _ => fresh) rfl fresh idle_ne
        started given committed committed.follows.1

/-- With its next access a routine has yet to choose the next task, or it has
done so with this access or before. -/
theorem Sound.accessed (sound : Sound map launch idle machine)
    {routine : Routine} {caller : Registers} {accesses : Nat}
    {rest left : Code Service} {core : Core}
    (activity : machine.running.activity =
      .inside routine caller accesses rest)
    (pc : machine.running.registers.pc ≠ map.branch)
    (step : Program.Step (rest, machine.core) (left, core)) :
    (Steady map launch idle machine ∧
      machine.running.Prepared map launch idle
        machine.history.state.currentTask routine caller rest ∧
      SameCore machine.core core ∧
      left.Commits (handing map machine.history.state.currentTask (some idle)
        launch (machine.history.state.currentTask.getD launch) caller)) ∨
    ∃ before, Underway map launch idle machine before routine caller left
      core := by
  cases sound with
  | steady steady prepares =>
      have prepared := prepares routine caller accesses rest activity
      have start : (handing map machine.history.state.currentTask (some idle)
          launch (machine.history.state.currentTask.getD launch)
            caller).invariant machine.core :=
        ⟨rfl, steady.idleTask, steady.launchContext, prepared.given, pc⟩
      rcases prepared.commits.step start step with ⟨same, commits⟩ | committed
      · exact .inl ⟨steady, prepared, same, commits⟩
      · exact .inr ⟨machine.core, steady, prepared.fresh, prepared.idle_ne,
          prepared.started, prepared.given, committed,
          .of_same pc (SameContexts.refl machine.history.state)⟩
  | switching before _ _ _ _ steady inside fresh idle_ne started given
      committed switching =>
      cases activity.symm.trans inside
      exact .inr ⟨before, steady, fresh, idle_ne, started, given,
        committed.step step, switching⟩

theorem Sound.prepare (steady : Steady map launch idle machine)
    {routine : Routine} {caller : Registers} {accesses : Nat}
    {rest left : Code Service} {core : Core}
    (prepared : machine.running.Prepared map launch idle
      machine.history.state.currentTask routine caller rest)
    (same : SameCore machine.core core)
    (commits : left.Commits (handing map machine.history.state.currentTask
      (some idle) launch (machine.history.state.currentTask.getD launch)
        caller)) :
    Sound map launch idle
      (machine.proceed map routine caller accesses left core) := by
  have moved : ∀ activity, Steady map launch idle
      (((machine.withState core.state).withRegisters
        core.registers).withActivity activity) := by
    intro activity
    have stored := @Steady.withHistory map launch idle machine steady
      { machine.history with state := core.state } same.state steady.live rfl
    exact stored.withRunning rfl rfl fun _ _ _ => prepared.fresh
  unfold Machine.proceed
  split
  · rename_i handover
    have hback : some handover.next = none := commits
    cases hback
  · refine .steady (moved .halted) ?_
    exact fun _ _ _ _ hinside => nomatch hinside
  · refine .steady (moved (.inside routine caller accesses left)) ?_
    rintro _ _ _ _ ⟨⟩
    have hcurrent : core.state.currentTask =
        machine.history.state.currentTask := same.state.current
    refine ⟨prepared.fresh, ?_, ?_, ?_, ?_⟩
    · show core.state.currentTask ≠ some idle
      rw [hcurrent]
      exact prepared.idle_ne
    · show routine = .terminate → core.state.currentTask ≠ none
      rw [hcurrent]
      exact prepared.started
    · show GivenBack caller core.registers
      rw [same.registers]
      exact prepared.given
    · show left.Commits (handing map core.state.currentTask _ _
        (core.state.currentTask.getD launch) caller)
      rw [hcurrent]
      exact commits

theorem Sound.access (sound : Sound map launch idle machine)
    {routine : Routine} {caller : Registers} {accesses : Nat}
    {rest left : Code Service} {core : Core}
    (activity : machine.running.activity =
      .inside routine caller accesses rest)
    (pc : machine.running.registers.pc ≠ map.branch)
    (step : Program.Step (rest, machine.core) (left, core))
    (meets : KeepsThreads machine (.access (passesTo left))) :
    Sound map launch idle
      (machine.proceed map routine caller (accesses + 1) left core) := by
  rcases sound.accessed activity pc step with
    ⟨steady, prepared, same, commits⟩ | ⟨before, underway⟩
  · exact prepare steady prepared same commits
  · exact underway.proceed meets

theorem Steady.branch_begun (steady : Steady map launch idle machine)
    (fresh : machine.running.fresh = false) (registers : Registers) :
    Steady map launch idle ((machine.withRegisters registers).arrive map) := by
  have stays : (machine.withRegisters registers).arrive map =
      machine.withRegisters registers := by
    refine if_neg fun harrives => ?_
    have hfresh : machine.running.fresh = true := harrives.1
    exact absurd (fresh.symm.trans hfresh) nofun
  rw [stays]
  exact steady.withRunning rfl rfl fun _ _ _ => fresh

theorem Steady.branch_fresh (steady : Steady map launch idle machine)
    (fresh : machine.running.fresh = true) {registers : Registers}
    (hregisters : registers = { machine.running.registers with
      pc := machine.running.registers.x 2 }) :
    Steady map launch idle ((machine.withRegisters registers).arrive map) := by
  by_cases hpc : registers.pc = map.branch
  · -- only the idle task may be at the branch still
    have stays : (machine.withRegisters registers).arrive map =
        machine.withRegisters registers :=
      if_neg fun harrives => harrives.2 hpc
    rw [stays]
    refine steady.withRunning rfl rfl fun task hidle hthread => ?_
    have starts := (steady.begins task hidle hthread).starts fresh
    rw [← hregisters] at starts
    exact absurd (starts.pc.symm.trans hpc) map.trampoline_ne
  · have arrives : (machine.withRegisters registers).arrive map =
        { machine.withRegisters registers with
          running := { machine.running with
            registers := registers
            fresh := false }
          begun := (machine.running.thread, registers) :: machine.begun } :=
      if_pos ⟨fresh, hpc⟩
    rw [arrives]
    refine ⟨steady.launchContext, steady.idleTask, steady.launch_ne,
      steady.live, ?_, steady.thread, steady.idleFree, steady.owned, ?_, ?_,
      ?_⟩
    · exact fun hstarted => ⟨(steady.unstarted hstarted).1, rfl⟩
    · intro task hidle howner
      refine (steady.held task hidle howner).keep ⟨rfl, ?_, rfl, rfl, rfl⟩
      refine List.count_cons_of_ne ?_
      intro heq
      refine howner ?_
      have hthread : machine.running.thread = some task := heq
      have hlaunch : task ≠ launch := (owner_eq_some
        (steady.thread.symm.trans hthread)).1 ▸ (owner_eq_some
          (steady.thread.symm.trans hthread)).2
      exact (owner_of_ne hlaunch).trans hthread.symm
    · intro task hidle hthread
      have hcount := (steady.begins task hidle hthread).count
      rw [fresh] at hcount
      refine ⟨?_, nofun, nofun, nofun⟩
      show (List.map Prod.fst ((machine.running.thread, registers) ::
        machine.begun)).count (some task) = 1
      have hthread : machine.running.thread = some task := hthread
      rw [List.map_cons, hthread, List.count_cons_self]
      exact congrArg (· + 1) hcount
    · intro task first hidle hmem
      rcases List.mem_cons.mp hmem with hfirst | hold
      · have hthread : machine.running.thread = some task :=
          (congrArg Prod.fst hfirst).symm
        have hsame : first = registers := congrArg Prod.snd hfirst
        have starts := (steady.begins task hidle hthread).starts fresh
        rw [hsame, hregisters]
        exact starts
      · exact steady.begun task first hidle hold

theorem Sound.branch (sound : Sound map launch idle machine)
    (pc : machine.running.registers.pc = map.branch) :
    Sound map launch idle ((machine.withRegisters
      { machine.running.registers with
        pc := machine.running.registers.x 2 }).arrive map) := by
  cases sound with
  | steady steady prepares =>
      refine .steady ?_ ?_
      · cases hfresh : machine.running.fresh with
        | false => exact steady.branch_begun hfresh _
        | true => exact steady.branch_fresh hfresh rfl
      · rw [Machine.arrive_history]
        intro routine caller accesses rest inside
        rw [Machine.arrive_activity] at inside
        have prepared := prepares routine caller accesses rest inside
        refine { prepared with fresh := ?_, given := ?_ }
        · unfold Machine.arrive
          split
          · rfl
          · exact prepared.fresh
        · rw [Machine.arrive_registers]
          exact ⟨prepared.given.x, prepared.given.sp⟩
  | switching _ _ _ _ _ _ _ _ _ _ _ _ switching =>
      exact absurd pc switching.unbranched

theorem Sound.enter (steady : Steady map launch idle machine)
    (executes : machine.Executes map) {routine : Routine}
    (enters : machine.Enters routine) (budget : Nat) :
    Sound map launch idle (machine.withActivity (.inside routine
      machine.running.registers 0 (routine.program map budget))) := by
  have commits := @Routine.program_commits map budget launch (some idle)
    machine.running.registers
  have given : GivenBack machine.running.registers
    machine.running.registers := ⟨fun _ _ _ => rfl, rfl⟩
  cases routine with
  | start =>
      obtain ⟨hthread, hstarted⟩ := enters
      obtain ⟨hcurrent, hfresh⟩ := steady.unstarted hstarted
      refine .steady (steady.withRunning rfl rfl fun _ _ _ => hfresh) ?_
      rintro _ _ _ _ ⟨⟩
      show Execution.Prepared _ _ _ _ machine.history.state.currentTask _ _ _
      rw [hcurrent]
      exact ⟨hfresh, nofun, nofun, given, commits.1⟩
  | terminate =>
      obtain ⟨task, runs⟩ := enters
      obtain ⟨hcurrent, _, hidle⟩ := steady.current_of_runs runs
      have begun := steady.begun_of_pc executes.pc
      have hfresh := begun task hidle runs.thread
      refine .steady (steady.withRunning rfl rfl begun) ?_
      rintro _ _ _ _ ⟨⟩
      show Execution.Prepared _ _ _ _ machine.history.state.currentTask _ _ _
      rw [hcurrent]
      refine ⟨hfresh, ?_, nofun, given, commits.2 task ?_⟩
      · exact fun heq => hidle (Option.some.inj heq)
      · exact fun heq => hidle (Option.some.inj heq).symm

theorem Machine.interrupted_state (map : CodeMap) (machine : Machine)
    (frame : ExceptionContext) (after : State) :
    (machine.interrupted map frame after).history.state =
      after.withDaif frame.spsr.daif := by
  unfold interrupted
  dsimp only
  split
  · rfl
  · split
    · rfl
    · rw [arrive_history, dispatch_history]
      rfl

theorem Sound.step {after : Machine} {event : Event}
    (sound : Sound map launch idle machine)
    (meets : KeepsThreads machine event)
    (step : Machine.Step map machine event after) :
    Sound map launch idle after := by
  cases step with
  | add executes uncalled fresh ended =>
      rename_i task state
      have steady := sound.of_own executes.own
      have added := ((Scheduler.addTask_respects task).keeps
        (fun _ _ same h => SameThread.trans h same)).ends
          (SameThread.refl machine.history.state) |>.of_run ended
      refine .own (steady.withHistory added ?_ rfl) executes.own
      intro other hmem
      rcases List.mem_cons.mp hmem with rfl | hold
      · refine ⟨?_, ?_⟩
        · rintro rfl
          exact fresh.launch steady.launchContext
        · rintro rfl
          exact fresh.idle steady.idleTask
      · exact steady.live other hold
  | call request executes runs uncalled =>
      exact .own ((sound.of_own executes.own).withCall _ _) executes.own
  | serve executes runs called unserved ended =>
      exact serve (sound.of_own executes.own) executes runs ended meets
  | giveBack executes runs called served =>
      have steady := sound.of_own executes.own
      refine .own (steady.transfer (SameThread.refl _) steady.live rfl rfl
        rfl rfl rfl fun _ _ _ _ => ⟨rfl, rfl⟩) executes.own
  | unlock executes runs uncalled ended =>
      rename_i task mutex state
      have steady := sound.of_own executes.own
      have unlocked := ((Mutex.unlock_respects mutex).keeps
        (fun _ _ same h => SameThread.trans h same)).ends
          (SameThread.refl machine.history.state) |>.of_run ended
      exact .own (steady.withHistory unlocked steady.live rfl) executes.own
  | enter budget executes uncalled enters =>
      exact enter (sound.of_own executes.own) executes enters budget
  | access activity pc step => exact sound.access activity pc step meets
  | branch pc => exact sound.branch pc
  | interrupt enabled ended =>
      rename_i budget esr far frame state
      obtain ⟨steady, prepares⟩ := sound.interruptible meets
      have preempts := (onTimerInterrupt_preempts _ budget
        machine.history.state).of_run ended
      obtain ⟨after, goesOn⟩ := steady.interrupt prepares preempts
      refine .steady after ?_
      rw [Machine.interrupted_state]
      exact goesOn
  | compute registers executes stack pc =>
      have steady := sound.of_own executes.own
      exact .own (steady.withRunning rfl rfl
        (steady.begun_of_pc executes.pc)) executes.own
  | mask daif executes uncalled =>
      have steady := sound.of_own executes.own
      have same : SameThread machine.history.state
          (machine.history.state.withDaif daif) :=
        { SameThread.refl machine.history.state with }
      exact .own (steady.withHistory same steady.live rfl) executes.own

theorem Machine.Initial.sound (initial : machine.Initial map) :
    ∃ launch idle, Sound map launch idle machine := by
  obtain ⟨before, launch, idle, hfreed, _, hrun, hlive, _, _, hstarted⟩ :=
    initial.history
  have valid : ∀ task, before.Valid task := by
    intro task
    unfold State.Valid
    rw [hfreed]
    exact List.not_mem_nil
  rw [Scheduler.run_init (valid launch) (valid idle)] at hrun
  have hstate : Scheduler.initEffect before launch idle =
      machine.history.state := congrArg Prod.snd (Except.ok.inj hrun)
  have hlaunch : machine.history.state.launchContext = some launch := by
    rw [← hstate]
    rfl
  have hidle : machine.history.state.idleTask = some idle := by
    rw [← hstate]
    rfl
  have hcurrent : machine.history.state.currentTask = none := by
    rw [← hstate]
    rfl
  refine ⟨launch, idle, .own ?_ initial.executes.own⟩
  refine ⟨hlaunch, hidle, ?_, ?_, fun _ => ⟨hcurrent, initial.begun⟩, ?_, ?_,
    ?_, ?_, ?_, ?_⟩
  · intro heq
    refine initial.launch_ne ?_
    rw [hlaunch, hidle, heq]
  · rw [hlive]
    exact nofun
  · rw [initial.thread, hcurrent]
    exact (owner_launch launch).symm
  · rw [initial.suspended]
  · rw [initial.suspended]
    exact nofun
  · intro task _ howner
    rw [initial.thread] at howner
    have hne : task ≠ launch := by
      rintro rfl
      exact howner (owner_launch task)
    refine ⟨fun _ => ⟨hne, initial.created task ?_, ?_⟩, ?_, ?_, ?_, ?_⟩
    · rw [hlaunch]
      exact fun heq => hne (Option.some.inj heq).symm
    · unfold Machine.beginnings
      rw [initial.logs.2.1]
      rfl
    · rw [initial.suspended]
      exact nofun
    · rw [initial.suspended]
      exact nofun
    · rw [initial.suspended]
      exact nofun
    · rw [initial.suspended]
      exact nofun
  · rw [initial.thread]
    exact nofun
  · rw [initial.logs.2.1]
    exact nofun

end

end Planetoid.Task
