import Planetoid.Task.Handover

namespace Planetoid.Task

open Planetoid Program Arch

/-! What `start` and `terminate_current` do before they change anything that
others read. -/

section

variable {invariant : Core → Prop} {last : Code Service}
  {updates : List (Core → Core)}

theorem opens_kernel_read {α β : Type} {view : State → α} {value : α}
    {next : α → Sched β} {rest : β → Code Service}
    (hview : ∀ core, invariant core → view core.state = value)
    (opens : (kernel (next value) >>= rest).Opens invariant updates last) :
    (kernel (read view >>= next) >>= rest).Opens invariant (id :: updates)
      last := by
  refine ⟨rfl, fun core hcore => ?_⟩
  show (kernel (next (view core.state)) >>= rest).Opens invariant updates last
  rw [hview core hcore]
  exact opens

theorem opens_kernel_store {β : Type} {task : TaskRef}
    {update : TaskState → TaskState} {next : Unit → Sched β}
    {rest : β → Code Service}
    (valid : ∀ core, invariant core → core.state.Valid task)
    (opens : (kernel (next ()) >>= rest).Opens invariant updates last) :
    (kernel (store task update >>= next) >>= rest).Opens invariant
      ((fun core => core.withState (core.state.setTask task update)) ::
        updates) last := by
  refine ⟨rfl, fun core hcore => ?_⟩
  show (kernel ((if core.state.Valid task then (.ret () : Sched Unit)
    else .fail .useAfterFree) >>= next) >>= rest).Opens invariant updates last
  rw [if_pos (valid core hcore)]
  exact opens

end

structure Entered (task idle : TaskRef) (core : Core) : Prop where
  current : core.state.currentTask = some task
  idleTask : core.state.idleTask = some idle
  valid : core.state.Valid task

/-- The core after `terminated->cleanup_next = nullptr`. -/
def clearLink (task : TaskRef) (core : Core) : Core :=
  core.withState (core.state.withCleanup task none)

/-- The accesses of `terminate_current` before it reads the end of the cleanup
list. -/
def retiring (task : TaskRef) : List (Core → Core) :=
  [id, id, id, id, clearLink task]

theorem retiring_keeps {task idle : TaskRef} :
    ∀ made, made ∈ retiring task → ∀ core, Entered task idle core →
      Entered task idle (made core) := by
  intro made hmem core entered
  have cleared : Entered task idle (clearLink task core) :=
    ⟨entered.current, entered.idleTask, entered.valid⟩
  simp only [retiring, List.mem_cons, List.not_mem_nil, or_false] at hmem
  rcases hmem with rfl | rfl | rfl | rfl | rfl
  · exact entered
  · exact entered
  · exact entered
  · exact entered
  · exact cleared

theorem State.setTask_eq_self {state : State} {task : TaskRef}
    {update : TaskState → TaskState}
    (h : update (state.tasks task) = state.tasks task) :
    state.setTask task update = state := by
  unfold State.setTask
  rw [h, Function.update_eq_self]

theorem clearLink_eq {task : TaskRef} {core : Core}
    (h : cleanupOf core.state task = none) : clearLink task core = core := by
  have hstate : core.state.withCleanup task none = core.state := by
    apply State.setTask_eq_self
    rw [← h]
    rfl
  unfold clearLink
  rw [hstate]
  rfl

theorem terminate_opens (map : CodeMap) (budget : Nat) {task idle : TaskRef}
    (hne : idle ≠ task) :
    ∃ last, (Routine.terminate.program map budget).Opens (Entered task idle)
      (retiring task) last := by
  apply Exists.intro
  apply opens_kernel_read fun _ entered => entered.current
  rw [if_neg (Option.some_ne_none task)]
  apply opens_kernel_read fun _ entered => entered.current
  apply opens_kernel_read fun _ entered => entered.idleTask
  rw [if_neg fun heq => hne (Option.some.inj heq).symm]
  apply opens_kernel_read fun _ entered => entered.current
  apply opens_kernel_store fun _ entered => entered.valid
  exact opens_nil ..

/-- What is left of `terminate_current`, called by `task`, after so many
accesses. -/
def Retires (map : CodeMap) (idle task : TaskRef) (budget accesses : Nat)
    (rest : Code Service) : Prop :=
  ∃ last, Opened (Entered task idle) (retiring task)
    (Routine.terminate.program map budget) accesses rest last

section

variable {map : CodeMap} {idle task : TaskRef} {budget accesses : Nat}
  {rest : Code Service} {core : Core}

theorem retires_start (map : CodeMap) (budget : Nat) (hne : idle ≠ task) :
    Retires map idle task budget 0
      (Routine.terminate.program map budget) := by
  obtain ⟨last, opens⟩ := terminate_opens map budget hne
  exact ⟨last, opens.opened⟩

theorem Retires.bound (retires : Retires map idle task budget accesses rest) :
    accesses ≤ 5 := by
  obtain ⟨_, opened⟩ := retires
  exact opened.bound

/-- The first four accesses change nothing, the fifth clears the link. -/
theorem Retires.step (retires : Retires map idle task budget accesses rest)
    (more : accesses < 5) (entered : Entered task idle core)
    {left : Code Service} {after : Core}
    (step : Program.Step (rest, core) (left, after)) :
    Retires map idle task budget (accesses + 1) left ∧
      (accesses < 4 ∧ after = core ∨
        accesses = 4 ∧ after = clearLink task core) := by
  obtain ⟨last, opened⟩ := retires
  obtain ⟨following, hafter⟩ := opened.step more entered step
  refine ⟨⟨last, following⟩, ?_⟩
  match accesses, more, hafter with
  | 0, _, hafter => exact .inl ⟨by decide, hafter⟩
  | 1, _, hafter => exact .inl ⟨by decide, hafter⟩
  | 2, _, hafter => exact .inl ⟨by decide, hafter⟩
  | 3, _, hafter => exact .inl ⟨by decide, hafter⟩
  | 4, _, hafter => exact .inr ⟨rfl, hafter⟩

/-- The accesses made so far would be made again with the same outcome. -/
theorem Retires.run_eq (retires : Retires map idle task budget accesses rest)
    (entered : Entered task idle core)
    (cleared : accesses = 5 → cleanupOf core.state task = none) :
    rest.run core = (Routine.terminate.program map budget).run core := by
  obtain ⟨last, opened⟩ := retires
  refine opened.run_eq retiring_keeps entered ?_
  have bound : accesses ≤ 5 := opened.bound
  match accesses, bound, cleared with
  | 0, _, _ => rfl
  | 1, _, _ => rfl
  | 2, _, _ => rfl
  | 3, _, _ => rfl
  | 4, _, _ => rfl
  | 5, _, cleared => exact (clearLink_eq (cleared rfl)).symm

end

structure Starting (list : Option TaskRef) (idle : TaskRef) (core : Core) :
    Prop where
  taskList : core.state.taskList = list
  idleTask : core.state.idleTask = some idle

def choosing : Option TaskRef → List (Core → Core)
  | some _ => [id]
  | none => [id, id]

theorem start_opens (map : CodeMap) (budget : Nat) (list : Option TaskRef)
    (idle : TaskRef) :
    ∃ (first : TaskRef) (following : Unit → Sched Exit),
      (Routine.start.program map budget).Opens (Starting list idle)
        (choosing list) (kernel (Scheduler.setCurrentTask (some first) >>=
          following) >>= leave map .done) := by
  have hlist : ∀ core, Starting list idle core →
      core.state.taskList = list := fun _ starting => starting.taskList
  have hidle : ∀ core, Starting list idle core →
      core.state.idleTask = some idle := fun _ starting => starting.idleTask
  unfold Routine.program Scheduler.start Scheduler.firstTask
  rw [bind_bind]
  cases list with
  | some first =>
      apply Exists.intro first
      apply Exists.intro
      apply opens_kernel_read hlist
      exact opens_nil ..
  | none =>
      apply Exists.intro idle
      apply Exists.intro
      apply opens_kernel_read hlist
      apply opens_kernel_read hidle
      exact opens_nil ..

/-- What is left of `start` after so many accesses that changed nothing. -/
def Chooses (map : CodeMap) (list : Option TaskRef) (idle : TaskRef)
    (budget accesses : Nat) (rest : Code Service) : Prop :=
  ∃ (first : TaskRef) (following : Unit → Sched Exit),
    Opened (Starting list idle) (choosing list)
      (Routine.start.program map budget) accesses rest
      (kernel (Scheduler.setCurrentTask (some first) >>= following) >>=
        leave map .done)

section

variable {map : CodeMap} {list : Option TaskRef} {idle : TaskRef}
  {budget accesses : Nat} {rest : Code Service} {core : Core}

theorem chooses_start (map : CodeMap) (budget : Nat)
    (list : Option TaskRef) (idle : TaskRef) :
    Chooses map list idle budget 0 (Routine.start.program map budget) := by
  obtain ⟨first, following, opens⟩ := start_opens map budget list idle
  exact ⟨first, following, opens.opened⟩

theorem choosing_eq_id {made : Core → Core} (h : made ∈ choosing list) :
    made = id := by
  cases list with
  | some first => exact List.mem_singleton.mp h
  | none =>
      rcases List.mem_cons.mp h with first | later
      · exact first
      · exact List.mem_singleton.mp later

/-- An access changes nothing, or it is the store to `current_task`. -/
theorem Chooses.step (chooses : Chooses map list idle budget accesses rest)
    (starting : Starting list idle core) {left : Code Service} {after : Core}
    (step : Program.Step (rest, core) (left, after)) :
    Chooses map list idle budget (accesses + 1) left ∧ after = core ∨
      ∃ first : TaskRef, after =
        core.withState (core.state.withCurrentTask (some first)) := by
  obtain ⟨first, following, opened⟩ := chooses
  by_cases more : accesses < (choosing list).length
  · obtain ⟨later, hafter⟩ := opened.step more starting step
    rw [choosing_eq_id (List.getElem_mem more)] at hafter
    exact .inl ⟨⟨first, following, later⟩, hafter⟩
  · have hlast := opened.ends (Nat.le_of_not_lt more)
    subst hlast
    cases step
    exact .inr ⟨first, rfl⟩

theorem Chooses.run_eq (chooses : Chooses map list idle budget accesses rest)
    (starting : Starting list idle core) :
    rest.run core = (Routine.start.program map budget).run core := by
  obtain ⟨first, following, opened⟩ := chooses
  have same : ∀ updates : List (Core → Core),
      (∀ made, made ∈ updates → made = id) → updated updates core = core := by
    intro updates hupdates
    induction updates with
    | nil => rfl
    | cons made later ih =>
        rw [hupdates made List.mem_cons_self]
        exact ih fun other hmem =>
          hupdates other (List.mem_cons_of_mem _ hmem)
  refine opened.run_eq ?_ starting ?_
  · intro made hmem state hstate
    rw [choosing_eq_id hmem]
    exact hstate
  · rw [same _ fun made hmem => choosing_eq_id (List.mem_of_mem_drop hmem),
      same _ fun made hmem => choosing_eq_id hmem]

end

end Planetoid.Task
