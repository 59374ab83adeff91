import Planetoid.Base.Commitment
import Planetoid.Task.Machine
import Planetoid.Task.Passing

namespace Planetoid.Task

open Planetoid Program Arch

/-! How `task_switch` passes the core on, and when `start` and
`terminate_current` commit themselves to it. -/

/-- `task_switch`, called with the registers of `before`, saved them for the
one task and loaded those of the other. -/
structure HandsOver (map : CodeMap) (before : Core) (handover : Handover)
    (after : Core) : Prop extends
    SameContexts (switchState map.resume before.registers before.state
      handover.previous) after.state where
  current : after.state.currentTask = some handover.next
  registers : after.registers = before.registers.switched map
    (after.state.tasks handover.next).cpuContext

theorem SameContexts.switchState {before state : State}
    (same : SameContexts before state) (resume : Nat) (registers : Registers)
    (previous : TaskRef) :
    SameContexts (switchState resume registers before previous)
      (switchState resume registers state previous) where
  contexts := by
    intro other
    by_cases heq : other = previous
    · subst other
      simp [Task.switchState, same.contexts, State.withDaif]
    · simp [Task.switchState, State.withDaif,
        State.setTask_of_ne _ _ _ _ heq, same.contexts]
  stackOf := by
    intro other
    by_cases heq : other = previous
    · subst other
      simpa [Task.switchState, State.withDaif] using same.stackOf previous
    · simpa [Task.switchState, State.withDaif,
        State.setTask_of_ne _ _ _ _ heq] using same.stackOf other
  launch := same.launch
  idle := same.idle

section

variable {map : CodeMap} {before core : Core} {previous next : TaskRef}

theorem switchTo_hands (chosen : Chosen before.state next core.state)
    (hregisters : core.registers = before.registers) :
    (switchTo map previous next).Ends
      (fun _ => HandsOver map before ⟨previous, next⟩) core := by
  by_cases hprevious : core.state.Valid previous
  · by_cases hnext : core.state.Valid next
    · refine ends_of_run (run_switchTo hprevious hnext map) ?_
      have same := chosen.toSameContexts.switchState map.resume
        before.registers previous
      rw [hregisters]
      exact ⟨same, chosen.current, rfl⟩
    · simp [switchTo, saveTo, loadFrom, hprevious, hnext, ends_iff,
        Core.withState, run_bind, Except.bind]
  · simp [switchTo, saveTo, hprevious, ends_iff, run_bind, Except.bind]

/-- The core has not reached the `br x2` of `task_switch`, which saves no
other context than that of `previous`. -/
structure Switching (map : CodeMap) (previous : TaskRef)
    (before core : Core) : Prop where
  unbranched : core.registers.pc ≠ map.branch
  contexts : ∀ task, task ≠ previous →
    (core.state.tasks task).cpuContext = (before.state.tasks task).cpuContext
  stackOf : ∀ task, (core.state.tasks task).stackBase =
    (before.state.tasks task).stackBase ∧
      (core.state.tasks task).stackSize = (before.state.tasks task).stackSize
  launch : core.state.launchContext = before.state.launchContext
  idle : core.state.idleTask = before.state.idleTask

theorem Switching.of_same {core : Core}
    (unbranched : core.registers.pc ≠ map.branch)
    (same : SameContexts before.state core.state) :
    Switching map previous before core :=
  ⟨unbranched, fun task _ => same.contexts task, same.stackOf, same.launch,
    same.idle⟩

theorem Switching.trans {core after : Core}
    (switching : Switching map previous before core)
    (unbranched : after.registers.pc ≠ map.branch)
    (same : SameContexts core.state after.state) :
    Switching map previous before after where
  unbranched := unbranched
  contexts := fun task hne =>
    (same.contexts task).trans (switching.contexts task hne)
  stackOf := fun task => ⟨(same.stackOf task).1.trans (switching.stackOf task).1,
    (same.stackOf task).2.trans (switching.stackOf task).2⟩
  launch := same.launch.trans switching.launch
  idle := same.idle.trans switching.idle

theorem saveTo_follows {core : Core}
    (h : Switching map previous before core)
    (save : Registers → CPUContext → CPUContext) :
    (saveTo previous save).Follows (Switching map previous before)
      (fun _ => Switching map previous before) core := by
  refine ⟨h, ?_⟩
  have hafter : Switching map previous before (core.withState
      (core.state.setTask previous fun fields => { fields with
        cpuContext := save core.registers fields.cpuContext })) := by
    refine ⟨h.unbranched, ?_, ?_, h.launch, h.idle⟩
    · intro task hne
      unfold Core.withState
      rw [State.setTask_of_ne _ _ _ _ hne]
      exact h.contexts task hne
    · intro task
      unfold Core.withState
      by_cases heq : task = previous
      · subst task
        rw [State.setTask_self]
        exact h.stackOf previous
      · rw [State.setTask_of_ne _ _ _ _ heq]
        exact h.stackOf task
  by_cases valid : core.state.Valid previous
  · simp only [if_pos valid]
    exact hafter
  · simp only [if_neg valid]
    exact hafter

theorem loadFrom_follows {core : Core}
    (h : Switching map previous before core) (task : TaskRef)
    {load : CPUContext → Registers → Registers}
    (hload : ∀ context registers, (load context registers).pc =
      registers.pc) :
    (loadFrom task load).Follows (Switching map previous before)
      (fun _ => Switching map previous before) core := by
  refine ⟨h, ?_⟩
  have hafter : Switching map previous before { core with
      registers := load (core.state.tasks task).cpuContext core.registers } := by
    refine h.trans ?_ (SameContexts.refl core.state)
    rw [hload]
    exact h.unbranched
  by_cases valid : core.state.Valid task
  · simp only [if_pos valid]
    exact hafter
  · simp only [if_neg valid]
    exact hafter

theorem switchTo_follows {core : Core}
    (h : Switching map previous before core) (next : TaskRef) :
    (switchTo map previous next).Follows (Switching map previous before)
      (fun _ _ => True) core := by
  refine follows_bind (saveTo_follows h _) fun _ first hfirst => ?_
  refine follows_bind (saveTo_follows hfirst _) fun _ second hsecond => ?_
  refine follows_bind (saveTo_follows hsecond _) fun _ third hthird => ?_
  refine follows_bind (loadFrom_follows hthird next fun _ _ => rfl)
    fun _ fourth hfourth => ?_
  refine follows_bind (loadFrom_follows hfourth next fun _ _ => rfl)
    fun _ fifth hfifth => ?_
  refine follows_bind (loadFrom_follows hfifth next fun _ _ => rfl)
    fun _ last hlast => ?_
  exact ⟨hlast, trivial⟩

def SameCurrent (before after : Core) : Prop :=
  after.state.currentTask = before.state.currentTask

theorem respects_switchTo {relation : Core → Core → Prop} {map : CodeMap}
    (saves : ∀ core task update,
      relation core (core.withState (core.state.setTask task update)))
    (loads : ∀ core registers,
      relation core { core with registers := registers })
    (unmasks : ∀ core, relation core {
      state := core.state.withDaif (unmasked core.state.daif)
      registers := { core.registers with pc := map.branch } })
    (previous next : TaskRef) :
    (switchTo map previous next).Respects relation := by
  have saving : ∀ task save, (saveTo task save).Respects relation := by
    intro task save core
    refine ⟨saves core task _, ?_⟩
    by_cases valid : core.state.Valid task
    · simp only [if_pos valid]
      exact trivial
    · simp only [if_neg valid]
      exact trivial
  have loading : ∀ task load, (loadFrom task load).Respects relation := by
    intro task load core
    refine ⟨loads core _, ?_⟩
    by_cases valid : core.state.Valid task
    · simp only [if_pos valid]
      exact trivial
    · simp only [if_neg valid]
      exact trivial
  refine respects_bind (saving previous _) fun _ => ?_
  refine respects_bind (saving previous _) fun _ => ?_
  refine respects_bind (saving previous _) fun _ => ?_
  refine respects_bind (loading next _) fun _ => ?_
  refine respects_bind (loading next _) fun _ => ?_
  refine respects_bind (loading next _) fun _ => ?_
  exact respects_write unmasks

theorem switchTo_respects (map : CodeMap) (previous next : TaskRef) :
    (switchTo map previous next).Respects SameCurrent :=
  @respects_switchTo SameCurrent map (fun _ _ _ => rfl) (fun _ _ => rfl)
    (fun _ => rfl) previous next

structure SameCore (before after : Core) : Prop where
  state : SameThread before.state after.state
  registers : after.registers = before.registers

theorem SameCore.refl (core : Core) : SameCore core core :=
  ⟨SameThread.refl core.state, rfl⟩

theorem kernel_respects {program : Sched α}
    (respects : program.Respects SameThread) :
    (kernel program).Respects SameCore :=
  respects_zoom respects fun _ _ same => ⟨same, rfl⟩

theorem kernel_quiet {program : Sched α} (quiet : program.Respects Quiet) :
    (kernel program).Respects SameCore :=
  kernel_respects (sameThread_of_quiet quiet)

theorem kernel_follows {program : Sched α} {post : α → State → Prop}
    (quiet : program.Respects Quiet) (ends : program.Ends post core.state)
    (h : Switching map previous before core) :
    (kernel program).Follows (Switching map previous before)
      (fun value after => Switching map previous before after ∧
        after.registers = core.registers ∧ post value after.state) core := by
  have keeps : (kernel program).Keeps (Switching map previous before) := by
    refine (kernel_quiet quiet).keeps fun first second same hfirst => ?_
    refine hfirst.trans ?_ same.state.toSameContexts
    rw [same.registers]
    exact hfirst.unbranched
  refine keeps.follows (ends_iff.mpr fun value after hrun => ?_) h
  have hends : (kernel program).Ends (fun value after =>
      after.registers = core.registers ∧ post value after.state) core :=
    ends_kernel.mpr (ends.weaken fun _ _ hpost => ⟨rfl, hpost⟩)
  exact ⟨(keeps.ends h).of_run hrun, hends.of_run hrun⟩

end

structure GivenBack (caller registers : Registers) : Prop where
  x : ∀ index, 19 ≤ index → index < 31 →
    registers.x index = caller.x index
  sp : registers.sp = caller.sp

/-- A routine called with the registers `caller` while `current` was the
current task: its store to `current_task` commits it to a switch. -/
def handing (map : CodeMap) (current idle : Option TaskRef)
    (launch previous : TaskRef) (caller : Registers) :
    Promise Core Service where
  invariant core := core.state.currentTask = current ∧
    core.state.idleTask = idle ∧ core.state.launchContext = some launch ∧
    GivenBack caller core.registers ∧ core.registers.pc ≠ map.branch
  prepares := SameCore
  settled := SameCurrent
  during := Switching map previous
  back service := service.next = none
  post before service after := ∃ next,
    service = .switched ⟨previous, next⟩ ∧
      HandsOver map before ⟨previous, next⟩ after

section

variable {map : CodeMap} {current idle : Option TaskRef}
  {launch previous : TaskRef} {caller : Registers}

theorem leave_committed {before core : Core} {next : TaskRef}
    (chosen : Chosen before.state next core.state)
    (hregisters : core.registers = before.registers)
    (h : core.registers.pc ≠ map.branch) (back : Service) :
    Committed (handing map current idle launch previous caller) before
      (leave map back (.switched previous next)) core where
  settled := respects_bind (switchTo_respects map previous next)
    fun _ => respects_pure _
  follows := by
    have hands := (switchTo_follows (.of_same h chosen.toSameContexts)
      next).ends_with
      (@switchTo_hands map before core previous next chosen hregisters)
    exact follows_bind hands fun _ after hafter => ⟨next, rfl, hafter⟩

theorem commits_kernel {α β : Type} {program : Sched α}
    {next : α → Sched β} {rest : β → Code Service}
    (first : program.Respects Quiet)
    (h : ∀ value, (kernel (next value) >>= rest).Commits
      (handing map current idle launch previous caller)) :
    (kernel (program >>= next) >>= rest).Commits
      (handing map current idle launch previous caller) := by
  have hsplit : kernel (program >>= next) >>= rest =
      kernel program >>= fun value => kernel (next value) >>= rest :=
    (congrArg (· >>= rest) (zoom_bind ..)).trans (bind_bind ..)
  rw [hsplit]
  exact commits_bind (kernel_quiet first) h

theorem commits_kernel_read {α β : Type} {view : State → α}
    {next : α → Sched β} {rest : β → Code Service}
    (h : ∀ core, (handing map current idle launch previous
        caller).invariant core →
      (kernel (next (view core.state)) >>= rest).Commits
        (handing map current idle launch previous caller)) :
    (kernel (read view >>= next) >>= rest).Commits
      (handing map current idle launch previous caller) :=
  fun core hcore => .inl ⟨SameCore.refl core, h core hcore⟩

theorem commits_kernel_deref {β : Type} {task : TaskRef}
    {next : TaskRef → Sched β} {rest : β → Code Service}
    (h : (kernel (next task) >>= rest).Commits
      (handing map current idle launch previous caller)) :
    (kernel (deref (some task) >>= next) >>= rest).Commits
      (handing map current idle launch previous caller) :=
  h

theorem commits_kernel_choose {β : Type} {next : TaskRef}
    {following : Unit → Sched β} {rest : β → Code Service}
    (h : ∀ before after, (handing map current idle launch previous
        caller).invariant before → Chosen before.state next after.state →
      after.registers = before.registers → after.registers.pc ≠ map.branch →
      Committed (handing map current idle launch previous caller) before
        (kernel (following ()) >>= rest) after) :
    (kernel (Scheduler.setCurrentTask (some next) >>= following) >>=
      rest).Commits (handing map current idle launch previous caller) :=
  fun core hcore => .inr (h core _ hcore
    ((SameThread.refl core.state).choose next) rfl hcore.2.2.2.2)

theorem leave_respects (map : CodeMap) (back : Service) (exit : Exit) :
    (leave map back exit).Respects SameCurrent := by
  cases exit with
  | returned => exact trivial
  | switched previous next =>
      exact respects_bind (switchTo_respects map previous next)
        fun _ => respects_pure _

theorem kernel_committed {β : Type} {before core : Core} {next : TaskRef}
    {program : Sched β} {rest : β → Code Service}
    (chosen : Chosen before.state next core.state)
    (hregisters : core.registers = before.registers)
    (h : core.registers.pc ≠ map.branch) (exit : β) (back : Service)
    (quiet : program.Respects Quiet)
    (ends : program.Ends (fun value _ => value = exit) core.state)
    (hrest : ∀ value, (rest value).Respects SameCurrent)
    (hexit : rest exit = leave map back (.switched previous next)) :
    Committed (handing map current idle launch previous caller) before
      (kernel program >>= rest) core where
  settled := by
    refine respects_bind ((kernel_quiet quiet).weaken ?_) hrest
    exact fun _ _ same => same.state.current
  follows := by
    have kept := (keeps_chosen quiet).ends chosen
    have both : program.Ends (fun value after => value = exit ∧
        Chosen before.state next after) core.state :=
      ends_iff.mpr fun value after hrun =>
        ⟨ends.of_run hrun, kept.of_run hrun⟩
    refine follows_bind (kernel_follows quiet both
      (.of_same h chosen.toSameContexts)) ?_
    rintro _ after ⟨switching, hsame, rfl, hchosen⟩
    rw [hexit]
    exact (leave_committed hchosen (hsame.trans hregisters)
      switching.unbranched back).follows

def Routine.afterTerminate (map : CodeMap) : Option Exit → Code Service
  | none => pure .again
  | some exit => leave map .again exit

theorem Routine.afterTerminate_respects (map : CodeMap)
    (exit : Option Exit) :
    (afterTerminate map exit).Respects SameCurrent := by
  cases exit with
  | none => exact trivial
  | some exit => exact leave_respects map .again exit

namespace Scheduler

theorem switchToIdle_commits (previous : TaskRef) :
    (kernel (do return some (← switchToIdle previous)) >>=
      Routine.afterTerminate map).Commits
        (handing map current idle launch previous caller) := by
  have hsplit : (do return some (← switchToIdle previous)) =
      (show Sched (Option Exit) from do
        let idle ← deref (← read (·.idleTask))
        setState idle .running
        setCurrentTask (← read (·.idleTask))
        return some (.switched previous
          (← deref (← read (·.idleTask))))) := by
    unfold switchToIdle
    simp only [bind_bind]
    rfl
  rw [hsplit]
  refine commits_kernel_read fun core hcore => ?_
  rw [hcore.2.1]
  cases idle with
  | none => exact trivial
  | some idle =>
      refine commits_kernel (respects_deref (some idle)) fun task => ?_
      refine commits_kernel (quiet_setState task .running) fun _ => ?_
      refine commits_kernel_read fun core hcore => ?_
      rw [hcore.2.1]
      refine commits_kernel_choose
        fun before after hbefore hchosen hregisters hafter => ?_
      refine kernel_committed hchosen hregisters hafter
        (some (.switched previous idle)) .again ?_ ?_
          (Routine.afterTerminate_respects map) rfl
      · refine respects_bind (quiet_read _) fun idle => ?_
        exact respects_bind (respects_deref idle) fun _ => respects_pure _
      · refine ends_bind.mpr ((ends_read _).mpr ?_)
        rw [hchosen.idle, hbefore.2.1]
        exact rfl

theorem take_commits (previous next : TaskRef) :
    (kernel (do
      setState next .running
      setCurrentTask (some next)
      return some (.switched previous next)) >>=
        Routine.afterTerminate map).Commits
          (handing map current idle launch previous caller) := by
  refine commits_kernel (quiet_setState next .running) fun _ => ?_
  refine commits_kernel_choose
    fun before after _ hchosen hregisters hafter => ?_
  exact leave_committed hchosen hregisters hafter .again

theorem unlink_commits (budget : Nat) (terminated : TaskRef) :
    (kernel (removeTask budget (some terminated) >>= fun _ => do
      if (← read (·.taskList)) = none then
        return some (← switchToIdle terminated)
      else do
        match ← findNextReadyTask budget (← read (·.taskList)) with
        | none => return some (← switchToIdle terminated)
        | some next => do
          setState next .running
          setCurrentTask (some next)
          return some (.switched terminated next)) >>=
      Routine.afterTerminate map).Commits
        (handing map current idle launch terminated caller) := by
  refine commits_kernel (quiet_removeTask budget _) fun _ => ?_
  refine commits_kernel (quiet_read _) fun list => ?_
  split
  · exact switchToIdle_commits terminated
  · refine commits_kernel (quiet_read _) fun list => ?_
    refine commits_kernel (quiet_findNextReadyTask budget list)
      fun found => ?_
    cases found with
    | none => exact switchToIdle_commits terminated
    | some next => exact take_commits terminated next

theorem terminateCurrent_commits {task : TaskRef} (hidle : idle ≠ some task)
    (budget : Nat) :
    (kernel (terminateCurrent budget) >>=
      Routine.afterTerminate map).Commits
        (handing map (some task) idle launch task caller) := by
  refine commits_kernel_read fun core hcore => ?_
  rw [hcore.1, if_neg (Option.some_ne_none task)]
  refine commits_kernel_read fun core hcore => ?_
  refine commits_kernel_read fun other hother => ?_
  rw [hcore.1, hother.2.1, if_neg hidle.symm]
  refine commits_kernel_read fun core hcore => ?_
  rw [hcore.1]
  refine commits_kernel_deref ?_
  refine commits_kernel (quiet_of_calm (calm_setCleanupNext task none))
    fun _ => ?_
  refine commits_kernel (quiet_read _) fun tail => ?_
  cases tail with
  | none =>
      refine commits_kernel
        (quiet_of_calm (calm_setPendingCleanupHead _)) fun _ => ?_
      refine commits_kernel
        (quiet_of_calm (calm_setPendingCleanupTail _)) fun _ => ?_
      exact unlink_commits budget task
  | some tail =>
      refine commits_kernel (quiet_read _) fun tail => ?_
      refine commits_kernel (respects_deref tail) fun last => ?_
      refine commits_kernel
        (quiet_of_calm (calm_setCleanupNext last _)) fun _ => ?_
      refine commits_kernel
        (quiet_of_calm (calm_setPendingCleanupTail _)) fun _ => ?_
      exact unlink_commits budget task

theorem start_commits :
    (kernel start >>= leave map .done).Commits
      (handing map current idle launch launch caller) := by
  refine commits_kernel quiet_firstTask fun first => ?_
  cases first with
  | none => exact rfl
  | some first =>
      refine commits_kernel_choose
        fun before after hbefore hchosen hregisters hafter => ?_
      refine kernel_committed hchosen hregisters hafter
        (.switched launch first) .done ?_ ?_ (leave_respects map .done) rfl
      · refine respects_bind (quiet_read _) fun task => ?_
        refine respects_bind (respects_deref task) fun task => ?_
        refine respects_bind (quiet_setState task .running) fun _ => ?_
        refine respects_bind (quiet_read _) fun launch => ?_
        refine respects_bind (respects_deref launch) fun launch => ?_
        refine respects_bind (quiet_read _) fun task => ?_
        exact respects_bind (respects_deref task) fun _ => respects_pure _
      · refine ends_bind.mpr ((ends_read _).mpr ?_)
        rw [hchosen.current]
        refine (keeps_chosen (quiet_setState first .running)).ends_bind
          hchosen fun _ last hlast => ?_
        refine ends_bind.mpr ((ends_read _).mpr ?_)
        rw [hlast.launch, hbefore.2.2.1, deref_some]
        refine ends_bind.mpr ((ends_pure launch).mpr ?_)
        refine ends_bind.mpr ((ends_read _).mpr ?_)
        rw [hlast.current]
        exact rfl

end Scheduler

end

def Serves (map : CodeMap) (before : Core) (service : Service)
    (after : Core) : Prop :=
  match service with
  | .switched handover =>
    before.state.currentTask = some handover.previous ∧
      HandsOver map before handover after
  | _ => SameCore before after

section

variable {map : CodeMap} {before core : Core}

theorem leave_serves {exit : Exit}
    (passes : PassesOn before.state exit core.state)
    (hregisters : core.registers = before.registers) {back : Service}
    (hback : back.next = none) :
    (leave map back exit).Ends (Serves map before) core := by
  cases exit with
  | returned =>
      cases back with
      | done => exact ⟨passes, hregisters⟩
      | again => exact ⟨passes, hregisters⟩
      | switched handover => cases hback
  | switched previous next =>
      have hands := @switchTo_hands map before core previous next passes.2
        hregisters
      exact ends_bind.mpr (hands.weaken fun _ _ hafter => ⟨passes.1, hafter⟩)

theorem lockOnce_serves (same : SameCore before core) (budget : Nat)
    (mutex : Mutex.MutexRef) :
    (lockOnce map budget mutex).Ends (fun result after => match result with
      | .inl _ => SameCore before after
      | .inr service => Serves map before service after) core := by
  refine ends_bind.mpr (ends_kernel.mpr
    ((Mutex.lockRound_passes same.state budget mutex).weaken
      fun exit after hafter => ?_))
  cases exit with
  | none => exact ⟨hafter, same.registers⟩
  | some exit =>
      refine ends_bind.mpr ((@leave_serves map before (core.withState after)
        exit hafter same.registers .again rfl).weaken
          fun service last hlast => ?_)
      cases service with
      | done => exact hlast
      | again => exact hlast
      | switched handover => exact hlast

theorem Request.program_serves (map : CodeMap) (budget : Nat)
    (request : Request) (before : Core) :
    (request.program map budget).Ends (Serves map before) before := by
  cases request with
  | yield =>
      exact ends_bind.mpr (ends_kernel.mpr
        ((Scheduler.yield_passes budget before.state).weaken
          fun exit after hafter => @leave_serves map before
            (before.withState after) exit hafter rfl .done rfl))
  | sleep ticks =>
      exact ends_bind.mpr (ends_kernel.mpr
        ((Scheduler.sleep_passes budget ticks before.state).weaken
          fun exit after hafter => @leave_serves map before
            (before.withState after) exit hafter rfl .done rfl))
  | lock mutex =>
      refine @ends_whileLoop Core Fault Unit Service before .budgetExhausted
        (fun _ => lockOnce map budget mutex) (fun _ => SameCore before)
        (Serves map before) (fun _ core hcore => ?_) ()
        (SameCore.refl before) budget
      refine (lockOnce_serves hcore budget mutex).weaken
        fun result after hafter => ?_
      cases result with
      | inl _ => exact hafter
      | inr service => exact hafter

end

theorem Routine.program_commits (map : CodeMap) (budget : Nat)
    {launch : TaskRef} {idle : Option TaskRef} (caller : Registers) :
    (Routine.start.program map budget).Commits
        (handing map none idle launch launch caller) ∧
      ∀ task, idle ≠ some task →
        (Routine.terminate.program map budget).Commits
          (handing map (some task) idle launch task caller) := by
  refine ⟨Scheduler.start_commits, fun task hidle => ?_⟩
  have program_eq : Routine.terminate.program map budget =
      kernel (Scheduler.terminateCurrent budget) >>=
        Routine.afterTerminate map := by
    refine congrArg (kernel (Scheduler.terminateCurrent budget) >>= ·)
      (funext fun exit => ?_)
    cases exit <;> rfl
  rw [program_eq]
  exact Scheduler.terminateCurrent_commits hidle budget

end Planetoid.Task
