import Planetoid.Task.Suspensions

namespace Planetoid.Task

open Planetoid Program Arch

/-! What the threads go on with after a switch and after an interrupt. -/

section

variable {map : CodeMap} {launch idle : TaskRef} {machine : Machine}

theorem switchedOut_saved {caller registers : Registers}
    (given : GivenBack caller registers) (map : CodeMap) (machine : Machine)
    (context : CPUContext) :
    (machine.switchedOut map caller).SavedIn
      (switchedContext map.resume registers context) where
  x := by
    intro index hlow hhigh
    have hcopied : copyCalleeSaved registers.x context.x index =
        registers.x index := if_pos ⟨hlow, hhigh⟩
    exact hcopied.trans (given.x index hlow hhigh)
  sp := given.sp
  pc := rfl
  interrupted := nofun

theorem switchedOut_plain (fresh : machine.running.fresh = false)
    (map : CodeMap) (caller : Registers) :
    (machine.switchedOut map caller).execution.Plain where
  fresh := fresh
  outside := by
    intro routine other accesses rest
    show machine.running.activity.left ≠ _
    cases machine.running.activity <;> exact nofun

theorem Execution.Plain.prepares {execution : Execution}
    (plain : execution.Plain) (map : CodeMap) (launch idle : TaskRef)
    (current : Option TaskRef) :
    execution.Prepares map launch idle current :=
  fun routine caller accesses rest hinside =>
    absurd hinside (plain.outside routine caller accesses rest)

section

variable (resume : Nat) (registers : Registers) (state : State)
  (previous : TaskRef)

theorem switchState_context :
    ((switchState resume registers state previous).tasks previous).cpuContext =
      switchedContext resume registers (state.tasks previous).cpuContext := by
  simp [switchState, State.withDaif]

theorem switchState_of_ne {task : TaskRef} (h : task ≠ previous) :
    ((switchState resume registers state previous).tasks task).cpuContext =
      (state.tasks task).cpuContext := by
  simp [switchState, State.withDaif, State.setTask_of_ne _ _ _ _ h]

theorem switchState_stack (task : TaskRef) :
    ((switchState resume registers state previous).tasks task).stackBase =
        (state.tasks task).stackBase ∧
      ((switchState resume registers state previous).tasks task).stackSize =
        (state.tasks task).stackSize := by
  by_cases heq : task = previous
  · subst task
    simp [switchState, State.withDaif]
  · simp [switchState, State.withDaif, State.setTask_of_ne _ _ _ _ heq]

end

theorem Steady.held_switched (steady : Steady map launch idle machine)
    (fresh : machine.running.fresh = false) {previous : TaskRef}
    (hprevious : previous = machine.history.state.currentTask.getD launch)
    (hidle : previous ≠ idle) {caller registers : Registers}
    (given : GivenBack caller registers) {after : Machine}
    (suspended : after.suspended previous =
      some (machine.switchedOut map caller))
    (beginnings : after.beginnings previous = machine.beginnings previous)
    {context : CPUContext}
    (saved : (after.history.state.tasks previous).cpuContext =
      switchedContext map.resume registers context) :
    Held map launch idle after previous := by
  have plain := switchedOut_plain fresh map caller
  have hcurrent := steady.thread
  rw [← hprevious] at hcurrent
  refine ⟨?_, ?_, ?_, ?_, ?_⟩
  · rw [suspended]
    exact nofun
  · rw [suspended, saved]
    rintro _ ⟨⟩
    exact switchedOut_saved given map machine context
  · rw [suspended]
    rintro _ ⟨⟩
    exact plain.prepares map launch idle _
  · rw [suspended]
    rintro _ ⟨⟩ _
    exact plain
  · rw [suspended, beginnings]
    rintro _ ⟨⟩ hlaunch
    have hthread := hcurrent.trans (owner_of_ne hlaunch)
    have hcount := (steady.begins previous hidle hthread).count
    rw [fresh] at hcount
    refine ⟨?_, ?_, ?_, ?_⟩
    · rw [plain.fresh]
      exact hcount
    · rw [plain.fresh]
      exact nofun
    · rw [plain.fresh]
      exact nofun
    · rw [plain.fresh]
      exact nofun

/-- The running thread leaves by a `task_switch` that was called with the
registers `caller`, and the kernel records `history`. -/
structure Leaves (map : CodeMap) (launch idle : TaskRef) (machine : Machine)
    (before : Core) (caller : Registers) (handover : Handover)
    (after : Core) (history : History) : Prop where
  fresh : machine.running.fresh = false
  entered : before.state = machine.history.state
  previous : handover.previous =
    machine.history.state.currentTask.getD launch
  idle_ne : handover.previous ≠ idle
  given : GivenBack caller before.registers
  hands : HandsOver map before handover after
  recorded : history.state = after.state
  live : ∀ task, task ∈ history.live → task ≠ launch ∧ task ≠ idle
  started : history.started = true

section

variable {before after : Core} {caller : Registers} {handover : Handover}
  {history : History}

theorem Steady.park_switch (steady : Steady map launch idle machine)
    (leaves : Leaves map launch idle machine before caller handover after
      history) :
    Parked map launch idle ((machine.withHistory history).suspend
      handover.previous (machine.switchedOut map caller)) := by
  obtain ⟨fresh, hbefore, hprevious, hidle, given, hands, hstate, live,
    started⟩ := leaves
  have same := hands.toSameContexts
  rw [hbefore, ← hstate] at same
  have stackOf : ∀ task, (history.state.tasks task).stackBase =
        (machine.history.state.tasks task).stackBase ∧
      (history.state.tasks task).stackSize =
        (machine.history.state.tasks task).stackSize := by
    intro task
    have hstack := switchState_stack map.resume before.registers
      machine.history.state handover.previous task
    exact ⟨(same.stackOf task).1.trans hstack.1,
      (same.stackOf task).2.trans hstack.2⟩
  refine ⟨same.launch.trans steady.launchContext,
    same.idle.trans steady.idleTask, steady.launch_ne, live, started, ?_, ?_,
    ?_, ?_⟩
  · rw [Machine.suspend_of_ne _ _ hidle.symm]
    exact steady.idleFree
  · intro task suspension hsuspended
    by_cases heq : task = handover.previous
    · subst task
      rw [Machine.suspend_self] at hsuspended
      obtain rfl := Option.some.inj hsuspended
      have hthread := steady.thread
      rw [← hprevious] at hthread
      exact hthread
    · rw [Machine.suspend_of_ne _ _ heq] at hsuspended
      exact steady.owned task suspension hsuspended
  · intro task htask
    have hcontext := same.contexts task
    by_cases heq : task = handover.previous
    · subst task
      rw [switchState_context] at hcontext
      exact steady.held_switched fresh hprevious hidle given
        (Machine.suspend_self ..) rfl hcontext
    · have howner : owner launch task ≠ machine.running.thread := by
        rw [steady.thread, ← hprevious]
        exact fun hsame => heq (owner_inj hsame)
      rw [switchState_of_ne _ _ _ _ heq] at hcontext
      exact (steady.held task htask howner).keep
        ⟨Machine.suspend_of_ne _ _ heq, rfl, hcontext, (stackOf task).1,
          (stackOf task).2⟩
  · intro task first htask hmem
    exact (steady.begun task first htask hmem).same (stackOf task).1
      (stackOf task).2

end

theorem starts_switched {state : State} {task : TaskRef}
    (created : Machine.Created map state task) (registers : Registers) :
    Starts map state task
      { registers.switched map (state.tasks task).cpuContext with
        pc := (registers.switched map
          (state.tasks task).cpuContext).x 2 } := by
  have hcontext : (state.tasks task).cpuContext = _ := created
  rw [hcontext]
  exact ⟨rfl, rfl, rfl⟩

theorem Parked.handOver (parked : Parked map launch idle machine)
    {next : TaskRef}
    (current : machine.history.state.currentTask = some next)
    (plain : ∀ suspension, machine.suspended next = some suspension →
      suspension.execution.Plain) {registers : Registers}
    (switched : registers.pc = map.branch)
    (starts : Machine.Created map machine.history.state next →
      Starts map machine.history.state next
        { registers with pc := registers.x 2 }) (resumed : Registers) :
    Steady map launch idle (machine.dispatch next registers resumed) ∧
      (machine.dispatch next registers resumed).running.Prepares map launch
        idle (some next) := by
  have cases := machine.dispatch_cases next registers resumed
  constructor
  · have resumes := @Parked.resume map launch idle machine next registers
      resumed parked current ?_
    · have stays : (machine.dispatch next registers resumed).arrive map =
          machine.dispatch next registers resumed := by
        refine if_neg fun harrives => harrives.2 ?_
        rw [Machine.dispatch_registers]
        exact switched
      rwa [stays] at resumes
    · intro hnext _ hfresh
      rw [if_pos switched]
      rcases cases with ⟨hnone, _⟩ | ⟨suspension, hsome, hrunning⟩
      · exact starts ((parked.held next hnext).unstarted hnone).2.1
      · rw [hrunning] at hfresh
        exact absurd ((plain suspension hsome).fresh.symm.trans hfresh) nofun
  · rcases cases with ⟨_, hrunning⟩ | ⟨suspension, hsome, hrunning⟩
    · rw [hrunning]
      exact nofun
    · rw [hrunning]
      exact fun routine other accesses rest hinside => absurd hinside
        ((plain suspension hsome).outside routine other accesses rest)

theorem Steady.handOver (steady : Steady map launch idle machine)
    {before after : Core} {caller : Registers} {handover : Handover}
    {history : History}
    (leaves : Leaves map launch idle machine before caller handover after
      history)
    (switchable : handover.next ≠ handover.previous → ∀ suspension,
      machine.suspended handover.next = some suspension →
        suspension.execution.Plain) :
    Steady map launch idle ((machine.withHistory history).handOver map caller
        handover after.registers) ∧
      ((machine.withHistory history).handOver map caller handover
        after.registers).running.Prepares map launch idle
          (some handover.next) := by
  have parked := steady.park_switch leaves
  have hregisters := leaves.hands.registers
  rw [← leaves.recorded] at hregisters
  refine parked.handOver ?_ ?_ ?_ ?_ _
  · exact (congrArg State.currentTask leaves.recorded).trans
      leaves.hands.current
  · intro suspension hsuspended
    by_cases heq : handover.next = handover.previous
    · rw [heq, Machine.suspend_self] at hsuspended
      obtain rfl := Option.some.inj hsuspended
      exact switchedOut_plain leaves.fresh map caller
    · rw [Machine.suspend_of_ne _ _ heq] at hsuspended
      exact switchable heq suspension hsuspended
  · rw [hregisters]
    rfl
  · intro created
    rw [hregisters]
    exact starts_switched created before.registers

/-! The same for the registers that `preempt` saves. -/

theorem loadFrame_saved (registers : Registers) (daif esr far : Nat) :
    loadFrame (saveFrame registers daif esr far) registers = registers := by
  have hx : Scheduler.copyRegisters registers.x registers.x =
      registers.x := by
    funext index
    exact ite_self _
  unfold loadFrame saveFrame
  rw [hx]

theorem interruptedOut_saved (machine : Machine) (daif esr far : Nat)
    (state : State) (task : TaskRef) :
    machine.interruptedOut.SavedIn ((Scheduler.withContext state task
      (saveFrame machine.running.registers daif esr far)).tasks
        task).cpuContext := by
  unfold Scheduler.withContext
  rw [State.setTask_self]
  have hx : ∀ index, index < 31 → Scheduler.copyRegisters
      machine.running.registers.x (state.tasks task).cpuContext.x index =
        machine.running.registers.x index := fun _ h => if_pos h
  exact ⟨fun index _ h => hx index h, rfl, rfl, fun _ => ⟨hx, rfl⟩⟩

/-- The registers that the end of the interrupt loads for `next`. -/
structure LoadedFrom (context : CPUContext) (registers : Registers) :
    Prop where
  x : ∀ index, index < 31 → registers.x index = context.x index
  sp : registers.sp = context.sp
  pc : registers.pc = context.pc
  nzcv : registers.nzcv = context.pstate.nzcv

theorem loadFrame_restored (state : State) (next : TaskRef)
    (frame : ExceptionContext) (registers : Registers) :
    LoadedFrom (state.tasks next).cpuContext
      (loadFrame (Scheduler.restored state next frame) registers) where
  x := by
    intro index h
    have hloaded : (loadFrame (Scheduler.restored state next frame)
        registers).x index = (Scheduler.restored state next frame).x index :=
      if_pos h
    exact hloaded.trans (if_pos h)
  sp := rfl
  pc := rfl
  nzcv := rfl

section

variable {context : CPUContext} {registers : Registers}

theorem LoadedFrom.starts (loaded : LoadedFrom context registers)
    {state : State} {task : TaskRef}
    (hcontext : (state.tasks task).cpuContext = context)
    (created : Machine.Created map state task) :
    Starts map state task registers := by
  have heq : context = _ := hcontext.symm.trans created
  subst heq
  exact ⟨loaded.pc, loaded.x 19 (by decide), loaded.sp⟩

theorem LoadedFrom.given {suspension : Suspension}
    (loaded : LoadedFrom context registers)
    (saved : suspension.SavedIn context) {caller : Registers}
    (given : GivenBack caller suspension.execution.registers) :
    GivenBack caller registers where
  x := fun index hlow hhigh => (loaded.x index hhigh).trans
    ((saved.x index hlow hhigh).trans (given.x index hlow hhigh))
  sp := loaded.sp.trans (saved.sp.trans given.sp)

end

theorem Steady.held_interrupted (steady : Steady map launch idle machine)
    {task : TaskRef} (current : machine.history.state.currentTask = some task)
    (hidle : task ≠ idle)
    (prepares : machine.running.Prepares map launch idle (some task))
    {after : Machine}
    (suspended : after.suspended task = some machine.interruptedOut)
    (beginnings : after.beginnings task = machine.beginnings task)
    (saved : machine.interruptedOut.SavedIn
      (after.history.state.tasks task).cpuContext)
    (stack : (after.history.state.tasks task).stackBase =
        (machine.history.state.tasks task).stackBase ∧
      (after.history.state.tasks task).stackSize =
        (machine.history.state.tasks task).stackSize) :
    Held map launch idle after task := by
  have hthread := steady.thread
  rw [current] at hthread
  refine ⟨?_, ?_, ?_, ?_, ?_⟩
  · rw [suspended]
    exact nofun
  · rw [suspended]
    rintro _ ⟨⟩
    exact saved
  · rw [suspended]
    rintro _ ⟨⟩
    exact prepares
  · rw [suspended]
    rintro _ ⟨⟩
    exact nofun
  · rw [suspended, beginnings]
    rintro _ ⟨⟩ hlaunch
    have begins := steady.begins task hidle
      (hthread.trans (owner_of_ne hlaunch))
    exact ⟨begins.count, begins.own, begins.pc,
      fun hfresh => (begins.starts hfresh).same stack.1 stack.2⟩

theorem Machine.saveInterrupted_suspended (machine : Machine)
    (task : TaskRef) :
    machine.saveInterrupted.suspended task =
      if machine.history.state.savesTo = some task then
        some machine.interruptedOut
      else machine.suspended task := by
  unfold saveInterrupted
  split
  · rename_i hnone
    rw [hnone]
    rfl
  · rename_i other hother
    by_cases heq : task = other
    · subst task
      rw [if_pos hother, suspend_self]
    · rw [suspend_of_ne _ _ heq, if_neg]
      rw [hother]
      exact fun hsame => heq (Option.some.inj hsame).symm

theorem Steady.held_after_interrupt
    (steady : Steady map launch idle machine)
    (prepares : machine.running.Prepares map launch idle
      machine.history.state.currentTask) {daif esr far : Nat} {after : State}
    (same : SameContexts (machine.history.state.interruptedBy
      (saveFrame machine.running.registers daif esr far)) after)
    {task : TaskRef} (hidle : task ≠ idle)
    (away : machine.history.state.savesTo = some task ∨
      owner launch task ≠ machine.running.thread) :
    Held map launch idle (machine.saveInterrupted.withState after) task := by
  have stack := interruptedBy_stack machine.history.state
    (saveFrame machine.running.registers daif esr far) task
  have stackOf : (after.tasks task).stackBase =
        (machine.history.state.tasks task).stackBase ∧
      (after.tasks task).stackSize =
        (machine.history.state.tasks task).stackSize :=
    ⟨(same.stackOf task).1.trans stack.1, (same.stackOf task).2.trans stack.2⟩
  have hcontext := same.contexts task
  have hbegun : machine.saveInterrupted.begun = machine.begun := by
    unfold Machine.saveInterrupted
    split <;> rfl
  have hcount : (machine.saveInterrupted.withState after).beginnings task =
      machine.beginnings task :=
    congrArg (fun begun : List (Option TaskRef × Registers) =>
      (begun.map Prod.fst).count (some task)) hbegun
  have hsuspended := machine.saveInterrupted_suspended task
  by_cases hsaves : machine.history.state.savesTo = some task
  · obtain ⟨hcurrent, _⟩ := savesTo_eq_some hsaves
    rw [if_pos hsaves] at hsuspended
    rw [hcurrent] at prepares
    refine steady.held_interrupted hcurrent hidle prepares hsuspended hcount
      ?_ stackOf
    show machine.interruptedOut.SavedIn (after.tasks task).cpuContext
    rw [hcontext]
    unfold State.interruptedBy
    rw [hsaves]
    exact interruptedOut_saved machine daif esr far _ task
  · rw [if_neg hsaves] at hsuspended
    rw [interruptedBy_context hsaves] at hcontext
    have howner := away.resolve_left hsaves
    exact (steady.held task hidle howner).keep
      ⟨hsuspended, hcount, hcontext, stackOf.1, stackOf.2⟩

@[simp] theorem Machine.saveInterrupted_begun (machine : Machine) :
    machine.saveInterrupted.begun = machine.begun := by
  unfold saveInterrupted
  split <;> rfl

@[simp] theorem Machine.saveInterrupted_history (machine : Machine) :
    machine.saveInterrupted.history = machine.history := by
  unfold saveInterrupted
  split <;> rfl

theorem Steady.owned_saved (steady : Steady map launch idle machine)
    {task : TaskRef} {suspension : Suspension}
    (h : machine.saveInterrupted.suspended task = some suspension) :
    suspension.execution.thread = owner launch task := by
  rw [Machine.saveInterrupted_suspended] at h
  split at h
  · rename_i hsaves
    obtain rfl := Option.some.inj h
    have hthread := steady.thread
    rw [(savesTo_eq_some hsaves).1] at hthread
    exact hthread
  · exact steady.owned task suspension h

theorem Steady.idleFree_saved (steady : Steady map launch idle machine) :
    machine.saveInterrupted.suspended idle = none := by
  rw [Machine.saveInterrupted_suspended, if_neg]
  · exact steady.idleFree
  · exact fun hsaves => (savesTo_eq_some hsaves).2 steady.idleTask

theorem Steady.interrupt_stays (steady : Steady map launch idle machine)
    (prepares : machine.running.Prepares map launch idle
      machine.history.state.currentTask) {daif esr far : Nat} {after : State}
    (same : SameContexts (machine.history.state.interruptedBy
      (saveFrame machine.running.registers daif esr far)) after)
    (current : after.currentTask = machine.history.state.currentTask)
    {registers : Registers}
    (hregisters : ∀ task, task ≠ idle →
      machine.running.thread = some task →
        registers = machine.running.registers) :
    Steady map launch idle
      ((machine.saveInterrupted.withState after).withRegisters registers) := by
  have stackOf : ∀ task, (after.tasks task).stackBase =
        (machine.history.state.tasks task).stackBase ∧
      (after.tasks task).stackSize =
        (machine.history.state.tasks task).stackSize := by
    intro task
    have stack := interruptedBy_stack machine.history.state
      (saveFrame machine.running.registers daif esr far) task
    exact ⟨(same.stackOf task).1.trans stack.1,
      (same.stackOf task).2.trans stack.2⟩
  have hrunning : ((machine.saveInterrupted.withState after).withRegisters
      registers).running = { machine.running with registers := registers } :=
    congrArg (fun running : Execution =>
      { running with registers := registers }) machine.saveInterrupted_running
  have hhistory : machine.saveInterrupted.history = machine.history :=
    machine.saveInterrupted_history
  refine ⟨?_, ?_, steady.launch_ne, ?_, ?_, ?_, steady.idleFree_saved,
    fun _ _ => steady.owned_saved, ?_, ?_, ?_⟩
  · exact (same.launch.trans (interruptedBy_launchContext ..)).trans
      steady.launchContext
  · exact (same.idle.trans (interruptedBy_idleTask ..)).trans steady.idleTask
  · show ∀ task, task ∈ machine.saveInterrupted.history.live → _
    rw [hhistory]
    exact steady.live
  · rw [hrunning]
    show machine.saveInterrupted.history.started = false →
      after.currentTask = none ∧ _
    rw [hhistory, current]
    exact steady.unstarted
  · rw [hrunning]
    show machine.running.thread = owner launch (after.currentTask.getD launch)
    rw [current]
    exact steady.thread
  · rw [hrunning]
    intro task hidle howner
    exact (steady.held_after_interrupt prepares same hidle
      (.inr howner)).keep ⟨rfl, rfl, rfl, rfl, rfl⟩
  · rw [hrunning]
    intro task hidle hthread
    have begins := steady.begins task hidle hthread
    have hsame := hregisters task hidle hthread
    subst hsame
    refine ⟨?_, begins.own, begins.pc, fun hfresh =>
      (begins.starts hfresh).same (stackOf task).1 (stackOf task).2⟩
    show (machine.saveInterrupted.begun.map Prod.fst).count (some task) = _
    rw [Machine.saveInterrupted_begun]
    exact begins.count
  · intro task first hidle hmem
    have hbegun : (some task, first) ∈ machine.saveInterrupted.begun := hmem
    rw [Machine.saveInterrupted_begun] at hbegun
    exact (steady.begun task first hidle hbegun).same (stackOf task).1
      (stackOf task).2

theorem Steady.park_interrupt (steady : Steady map launch idle machine)
    (prepares : machine.running.Prepares map launch idle
      machine.history.state.currentTask) {daif esr far : Nat} {after : State}
    (same : SameContexts (machine.history.state.interruptedBy
      (saveFrame machine.running.registers daif esr far)) after)
    {current : TaskRef}
    (leaves : machine.history.state.currentTask = some current)
    (away : machine.history.state.savesTo = some current ∨
      machine.history.state.idleTask = some current) :
    Parked map launch idle (machine.saveInterrupted.withState after) := by
  have hhistory : machine.saveInterrupted.history = machine.history :=
    machine.saveInterrupted_history
  have hthread := steady.thread
  rw [leaves] at hthread
  refine ⟨?_, ?_, steady.launch_ne, ?_, ?_, steady.idleFree_saved,
    fun _ _ => steady.owned_saved, ?_, ?_⟩
  · exact (same.launch.trans (interruptedBy_launchContext ..)).trans
      steady.launchContext
  · exact (same.idle.trans (interruptedBy_idleTask ..)).trans steady.idleTask
  · show ∀ task, task ∈ machine.saveInterrupted.history.live → _
    rw [hhistory]
    exact steady.live
  · show machine.saveInterrupted.history.started = true
    rw [hhistory]
    cases hstarted : machine.history.started with
    | true => rfl
    | false =>
        have hnone := (steady.unstarted hstarted).1
        exact absurd (leaves.symm.trans hnone) nofun
  · intro task hidle
    refine steady.held_after_interrupt prepares same hidle ?_
    rcases away with hsaves | hcurrent
    · by_cases heq : task = current
      · exact .inl (hsaves.trans (congrArg some heq.symm))
      · refine .inr ?_
        rw [hthread]
        exact fun howner => heq (owner_inj howner)
    · obtain rfl := Option.some.inj (steady.idleTask.symm.trans hcurrent)
      refine .inr ?_
      rw [hthread]
      exact fun howner => hidle (owner_inj howner)
  · intro task first hidle hmem
    have hbegun : (some task, first) ∈ machine.saveInterrupted.begun := hmem
    rw [Machine.saveInterrupted_begun] at hbegun
    have stack := interruptedBy_stack machine.history.state
      (saveFrame machine.running.registers daif esr far) task
    exact (steady.begun task first hidle hbegun).same
      ((same.stackOf task).1.trans stack.1) ((same.stackOf task).2.trans stack.2)

theorem Parked.eret (parked : Parked map launch idle machine) {next : TaskRef}
    (current : machine.history.state.currentTask = some next)
    {registers : Registers} (loaded : LoadedFrom
      (machine.history.state.tasks next).cpuContext registers)
    (resumed : Registers) :
    Steady map launch idle
        ((machine.dispatch next registers resumed).arrive map) ∧
      ((machine.dispatch next registers resumed).arrive
        map).running.Prepares map launch idle (some next) := by
  have cases := machine.dispatch_cases next registers resumed
  constructor
  · refine parked.resume current fun hidle hlaunch hfresh => ?_
    have held := parked.held next hidle
    rcases cases with ⟨hnone, _⟩ | ⟨suspension, hsome, hrunning⟩
    · have starts := loaded.starts rfl (held.unstarted hnone).2.1
      rw [if_neg]
      · exact starts
      · rw [starts.pc]
        exact map.trampoline_ne
    · rw [hrunning] at hfresh
      have saved := held.saved suspension hsome
      have begins := held.begins suspension hsome hlaunch
      have starts := begins.starts hfresh
      have interrupted : suspension.interrupted = true := by
        cases hswitched : suspension.interrupted with
        | true => rfl
        | false =>
            have plain := held.plain suspension hsome hswitched
            exact absurd (plain.fresh.symm.trans hfresh) nofun
      have hx : ∀ index, index < 31 → registers.x index =
          suspension.execution.registers.x index := fun index h =>
        (loaded.x index h).trans ((saved.interrupted interrupted).1 index h)
      rw [if_pos (loaded.pc.trans (saved.pc.trans (begins.pc hfresh)))]
      exact ⟨(hx 2 (by decide)).trans starts.pc,
        (hx 19 (by decide)).trans starts.entry,
        (loaded.sp.trans saved.sp).trans starts.sp⟩
  · have hkeeps : ∀ other : Machine, other.running.Prepares map launch idle
        (some next) → (other.arrive map).running.Prepares map launch idle
          (some next) := by
      intro other hprepares routine caller accesses rest hinside
      rw [Machine.arrive_activity] at hinside
      have prepared := hprepares routine caller accesses rest hinside
      refine { prepared with fresh := ?_, given := ?_ }
      · unfold Machine.arrive
        split
        · rfl
        · exact prepared.fresh
      · rw [Machine.arrive_registers]
        exact prepared.given
    apply hkeeps
    rcases cases with ⟨_, hrunning⟩ | ⟨suspension, hsome, hrunning⟩
    · rw [hrunning]
      exact nofun
    · rw [hrunning]
      intro routine caller accesses rest hinside
      by_cases hidle : next = idle
      · subst next
        exact absurd (parked.idleFree.symm.trans hsome) nofun
      · have held := parked.held next hidle
        have prepared := held.prepares suspension hsome routine caller
          accesses rest hinside
        exact { prepared with
          given := loaded.given (held.saved suspension hsome) prepared.given }

theorem Steady.interrupt (steady : Steady map launch idle machine)
    (prepares : machine.running.Prepares map launch idle
      machine.history.state.currentTask) {daif esr far : Nat}
    {frame : ExceptionContext} {after : State}
    (preempts : Preempts machine.history.state
      (saveFrame machine.running.registers daif esr far) frame after) :
    Steady map launch idle (machine.interrupted map frame after) ∧
      (machine.interrupted map frame after).running.Prepares map launch idle
        after.currentTask := by
  have kept : ∀ registers, (∀ routine caller accesses rest,
      machine.running.activity = .inside routine caller accesses rest →
        registers = machine.running.registers) →
      ({ machine.running with registers := registers } :
        Execution).Prepares map launch idle
          machine.history.state.currentTask := by
    intro registers hregisters routine caller accesses rest hinside
    have prepared := prepares routine caller accesses rest hinside
    refine { prepared with given := ?_ }
    rw [hregisters routine caller accesses rest hinside]
    exact prepared.given
  have hrunning : machine.saveInterrupted.running = machine.running :=
    machine.saveInterrupted_running
  have resumed : ∀ registers, ((machine.saveInterrupted.withState
      (after.withDaif frame.spsr.daif)).withRegisters registers).running =
        { machine.running with registers := registers } :=
    fun registers => congrArg (fun running : Execution =>
      { running with registers := registers }) hrunning
  unfold Machine.interrupted
  dsimp only
  cases preempts with
  | stays same =>
      have hcurrent := same.current.trans (interruptedBy_currentTask ..)
      rw [if_pos hcurrent, loadFrame_saved, resumed, hcurrent]
      have saved := same.toSameContexts.withDaif
        (saveFrame machine.running.registers daif esr far).spsr.daif
      exact ⟨steady.interrupt_stays prepares saved hcurrent fun _ _ _ => rfl,
        kept _ fun _ _ _ _ _ => rfl⟩
  | passes leaves away other chosen =>
      rename_i current next
      by_cases hsame : after.currentTask = machine.history.state.currentTask
      · rw [if_pos hsame, resumed, hsame]
        have hnext : current = next := Option.some.inj
          ((leaves.symm.trans hsame.symm).trans chosen.current)
        rw [hnext] at leaves away
        have hidle := Option.some.inj
          (steady.idleTask.symm.trans (away.resolve_left other))
        have hthread := steady.thread
        rw [leaves] at hthread
        have saved := chosen.toSameContexts.withDaif (Scheduler.restored after
          next (saveFrame machine.running.registers daif esr far)).spsr.daif
        refine ⟨steady.interrupt_stays prepares saved hsame ?_, kept _ ?_⟩
        · intro task hne htask
          have howner := owner_eq_some (hthread.symm.trans htask)
          exact absurd (howner.1.symm.trans hidle.symm) hne
        · intro routine caller accesses rest hinside
          exact absurd (leaves.trans (congrArg some hidle.symm))
            (prepares routine caller accesses rest hinside).idle_ne
      · rw [if_neg hsame]
        have parked := @Steady.park_interrupt map launch idle machine steady
          prepares daif esr far (after.withDaif (Scheduler.restored after next
            (saveFrame machine.running.registers daif esr far)).spsr.daif)
          (chosen.toSameContexts.withDaif _) current leaves away
        have loaded := loadFrame_restored after next
          (saveFrame machine.running.registers daif esr far)
          machine.running.registers
        simp only [chosen.current]
        exact parked.eret chosen.current loaded _

end

end Planetoid.Task
