import Planetoid.Task.Layout

namespace Planetoid.Task

open Planetoid Program Links

/-! What each uninterrupted operation of the scheduler does to a well-formed
state. -/

namespace State

def withDaif (state : State) (daif : Nat) : State :=
  { state with daif := daif }

def masked (state : State) : State :=
  state.withDaif (state.daif ||| Interrupts.irqBit)

def withCurrentTask (state : State) (task : Option TaskRef) : State :=
  { state with currentTask := task }

def withTaskList (state : State) (task : Option TaskRef) : State :=
  { state with taskList := task }

def withState (state : State) (task : TaskRef) (value : EState) : State :=
  state.setTask task fun fields => { fields with state := value }

section

variable (state : State) (task other : TaskRef) (link : Option TaskRef)
  (value : EState) (daif : Nat)

@[simp] theorem withDaif_valid :
    (state.withDaif daif).Valid other ↔ state.Valid other := Iff.rfl
@[simp] theorem masked_valid :
    state.masked.Valid other ↔ state.Valid other := Iff.rfl
@[simp] theorem masked_currentTask :
    state.masked.currentTask = state.currentTask := rfl
@[simp] theorem masked_taskList :
    state.masked.taskList = state.taskList := rfl
@[simp] theorem withCurrentTask_currentTask :
    (state.withCurrentTask link).currentTask = link := rfl
@[simp] theorem withCurrentTask_idleTask :
    (state.withCurrentTask link).idleTask = state.idleTask := rfl
@[simp] theorem withCurrentTask_valid :
    (state.withCurrentTask link).Valid other ↔ state.Valid other := Iff.rfl
@[simp] theorem withTaskList_valid :
    (state.withTaskList link).Valid other ↔ state.Valid other := Iff.rfl
@[simp] theorem withState_valid :
    (state.withState task value).Valid other ↔ state.Valid other := Iff.rfl
@[simp] theorem withState_taskList :
    (state.withState task value).taskList = state.taskList := rfl
@[simp] theorem withState_currentTask :
    (state.withState task value).currentTask = state.currentTask := rfl
@[simp] theorem withState_idleTask :
    (state.withState task value).idleTask = state.idleTask := rfl
@[simp] theorem withState_queues :
    (state.withState task value).queues = state.queues := rfl

end

theorem withDaif_sameLinks (state : State) (daif : Nat) :
    SameLinks state (state.withDaif daif) :=
  ⟨⟨rfl, rfl, rfl, rfl⟩, rfl, rfl, rfl, rfl, rfl, rfl, rfl, rfl⟩

theorem masked_withDaif (state : State) :
    state.masked.withDaif state.daif = state := rfl

theorem withState_sameLinks (state : State) (task : TaskRef)
    (value : EState) : SameLinks state (state.withState task value) :=
  sameLinks_setTask state task (fun _ => rfl) (fun _ => rfl) (fun _ => rfl)

theorem stateOf_withState (state : State) (task other : TaskRef)
    (value : EState) :
    stateOf (state.withState task value) other =
      if other = task then value else stateOf state other :=
  stateOf_setTask state task other
    fun fields => { fields with state := value }

end State

open Scheduler in
@[simp] theorem run_setCurrentTask_bind (task : Option TaskRef)
    (next : Unit → Sched β) (state : State) :
    (setCurrentTask task >>= next).run state =
      (next ()).run (state.withCurrentTask task) := rfl

open Scheduler in
@[simp] theorem run_setTaskList_bind (task : Option TaskRef)
    (next : Unit → Sched β) (state : State) :
    (setTaskList task >>= next).run state =
      (next ()).run (state.withTaskList task) := rfl

@[simp] theorem run_irqSave_bind (next : Nat → Sched β) (state : State) :
    (Interrupts.irqSave >>= next).run state =
      (next state.daif).run state.masked := rfl

@[simp] theorem run_irqRestore_bind (daif : Nat) (next : Unit → Sched β)
    (state : State) :
    (Interrupts.irqRestore daif >>= next).run state =
      (next ()).run (state.withDaif daif) := rfl

theorem Shape.masked {state : State} {layout : Layout}
    (shape : Shape state layout) : Shape state.masked layout :=
  shape.restate (state.withDaif_sameLinks _) fun _ _ => Iff.rfl

theorem Shape.scanReady_cases {state : State} {layout : Layout}
    (shape : Shape state layout) {task : TaskRef}
    (hmem : task ∈ layout.ring) {stopping : Sched (Option TaskRef)}
    (hstopping : stopping.run state = .ok (some task, state))
    (budget : Nat) :
    (Scheduler.scanReady budget stopping (state.tasks task).nextTask).run
        state =
      .ok (some (firstReady state (rotation layout.ring task) task), state) ∨
    budget ≤ layout.ring.length ∧
      (Scheduler.scanReady budget stopping (state.tasks task).nextTask).run
        state = .error .budgetExhausted :=
  shape.scanReady_returns hmem hstopping budget

namespace Scheduler

def yieldEffect (state : State) (layout : Layout) (current : TaskRef) :
    Exit × State :=
  let next := firstReady state (rotation layout.ring current) current
  if next = current then (.returned, state)
  else (.switched current next,
    dispatch (state.masked.withState current .ready) next)

theorem yield_returns {state : State} {layout : Layout}
    (wellFormed : WellFormed state layout) {current : TaskRef}
    (hcurrent : state.currentTask = some current)
    (hring : current ∈ layout.ring) :
    Returns .budgetExhausted yield state layout.ring.length
      (yieldEffect state layout current) := by
  have hvalid := wellFormed.valid_ring current hring
  have hmasked : state.masked.currentTask = some current := hcurrent
  have hsame : firstReady state.masked (rotation layout.ring current) current =
      firstReady state (rotation layout.ring current) current := rfl
  intro budget
  rcases wellFormed.masked.scanReady_cases hring (run_read_eq hmasked) budget
    with ended | ⟨hle, failed⟩
  · left
    rcases wellFormed.firstReady_cases hring with
      ⟨hnone, _⟩ | ⟨next, hnext, hmem, hne, _⟩
    · rw [hsame, hnone] at ended
      simp [yield, hcurrent, hvalid, run_bind_ok ended, yieldEffect, hnone,
        State.masked_withDaif]
    · rw [hsame, hnext] at ended
      have hvalidNext := wellFormed.valid_ring next hmem
      simp [yield, hcurrent, hvalid, run_bind_ok ended, yieldEffect, hnext,
        hne, setState, hvalidNext]
      rfl
  · right
    refine ⟨hle, ?_⟩
    simp [yield, hcurrent, hvalid, run_bind_error failed]

theorem yieldEffect_wellFormed {state : State} {layout : Layout}
    (wellFormed : WellFormed state layout) {current : TaskRef}
    (hcurrent : state.currentTask = some current)
    (hring : current ∈ layout.ring) :
    WellFormed (yieldEffect state layout current).2 layout := by
  rcases wellFormed.firstReady_cases hring with
    ⟨hnone, _⟩ | ⟨next, hnext, hmem, hne, hready⟩
  · simpa [yieldEffect, hnone] using wellFormed
  · obtain ⟨shape, noneRunning⟩ := wellFormed.pause hcurrent hring
      ((state.withDaif_sameLinks _).trans
        (state.masked.withState_sameLinks current .ready))
      (by rw [State.stateOf_withState]; simp)
      (fun task hne => by
        rw [State.stateOf_withState, if_neg hne]
        rfl)
    simp only [yieldEffect, hnext, if_neg hne]
    apply shape.dispatch noneRunning hmem
    rw [isReady_iff] at hready ⊢
    rw [← hready]
    exact (State.stateOf_withState ..).trans (if_neg hne)

theorem run_switchToIdle {state : State} {idle : TaskRef}
    (hidle : state.idleTask = some idle) (hvalid : state.Valid idle)
    (previous : TaskRef) :
    (switchToIdle previous).run state =
      .ok (.switched previous idle, dispatch state idle) := by
  simp [switchToIdle, hidle, hvalid, setState]
  rfl

/-- Choosing the next task behind `previous`, with the idle task as the last
resort. -/
def switchEffect (state : State) (layout : Layout)
    (previous idle : TaskRef) : Exit × State :=
  let next := firstReady state (rotation layout.ring previous) previous
  if next = previous then (.switched previous idle, dispatch state idle)
  else (.switched previous next, dispatch state next)

theorem switchEffect_wellFormed {state : State} {layout : Layout}
    (shape : Shape state layout) (noneRunning : NoneRunning state layout)
    {previous idle : TaskRef} (hring : previous ∈ layout.ring)
    (hidle : state.idleTask = some idle) :
    WellFormed (switchEffect state layout previous idle).2 layout := by
  rcases shape.firstReady_cases hring with
    ⟨hnone, _⟩ | ⟨next, hnext, hmem, hne, hready⟩
  · simpa [switchEffect, hnone] using shape.dispatchIdle noneRunning hidle
  · simpa [switchEffect, hnext, hne] using
      shape.dispatch noneRunning hmem hready

theorem blockCurrentTask_returns {state : State} {layout : Layout}
    (shape : Shape state layout) {current idle : TaskRef}
    (hcurrent : state.currentTask = some current)
    (hring : current ∈ layout.ring)
    (hidle : state.idleTask = some idle) (hvalidIdle : state.Valid idle) :
    Returns .budgetExhausted blockCurrentTask state layout.ring.length
      (switchEffect state layout current idle) := by
  have hvalid := shape.valid_ring current hring
  intro budget
  rcases shape.scanReady_cases hring (run_read_eq hcurrent) budget
    with ended | ⟨hle, failed⟩
  · left
    rcases shape.firstReady_cases hring with
      ⟨hnone, _⟩ | ⟨next, hnext, hmem, hne, _⟩
    · rw [hnone] at ended
      simp [blockCurrentTask, hcurrent, hvalid, run_bind_ok ended, hidle,
        setState, hvalidIdle, switchEffect, hnone]
      rfl
    · rw [hnext] at ended
      have hvalidNext := shape.valid_ring next hmem
      simp [blockCurrentTask, hcurrent, hvalid, run_bind_ok ended,
        setState, hvalidNext, switchEffect, hnext, hne]
      rfl
  · right
    refine ⟨hle, ?_⟩
    simp [blockCurrentTask, hcurrent, hvalid, run_bind_error failed]

def asleep (state : State) (current : TaskRef) (ticks : Nat) : State :=
  (state.masked.setTask current fun fields =>
    { fields with
      wakeTick := (state.systemTicks + ticks) % Timer.ticksModulus }).withState
    current .sleeping

theorem asleep_sameLinks (state : State) (current : TaskRef) (ticks : Nat) :
    SameLinks state (asleep state current ticks) := by
  have deadline : SameLinks state.masked
      (state.masked.setTask current fun fields =>
        { fields with
          wakeTick := (state.systemTicks + ticks) % Timer.ticksModulus }) :=
    sameLinks_setTask _ current (fun _ => rfl) (fun _ => rfl) (fun _ => rfl)
  exact ((state.withDaif_sameLinks _).trans deadline).trans
    (State.withState_sameLinks ..)

theorem stateOf_asleep (state : State) (current other : TaskRef)
    (ticks : Nat) :
    stateOf (asleep state current ticks) other =
      if other = current then .sleeping else stateOf state other := by
  unfold asleep
  rw [State.stateOf_withState]
  split
  · rfl
  · rename_i hne
    rw [stateOf_setTask, if_neg hne]
    rfl

theorem sleep_returns {state : State} {layout : Layout}
    (wellFormed : WellFormed state layout) {current idle ticks : Nat}
    (hcurrent : state.currentTask = some current)
    (hring : current ∈ layout.ring)
    (hidle : state.idleTask = some idle) (hvalidIdle : state.Valid idle)
    (hticks : ticks ≠ 0) :
    Returns .budgetExhausted (fun budget => sleep budget ticks) state
      layout.ring.length
      (switchEffect (asleep state current ticks) layout current idle) := by
  have hvalid := wellFormed.valid_ring current hring
  have shape := (wellFormed.pause hcurrent hring
    (asleep_sameLinks state current ticks)
    (by rw [stateOf_asleep]; simp)
    (fun task hne => by rw [stateOf_asleep, if_neg hne])).1
  have hasleepValid : (asleep state current ticks).Valid current := hvalid
  have hasleepIdle : (asleep state current ticks).idleTask = some idle := hidle
  have hasleepIdleValid : (asleep state current ticks).Valid idle := hvalidIdle
  intro budget
  have hsearch : (sleep budget ticks).run state =
      (scanReady budget (pure (some current))
        ((asleep state current ticks).tasks current).nextTask >>= fun next =>
          if next = some current then switchToIdle current
          else do
            let next ← deref next
            setState next .running
            setCurrentTask (some next)
            pure (.switched current next)).run
        (asleep state current ticks) := by
    have hlink : ((asleep state current ticks).tasks current).nextTask =
        (state.masked.tasks current).nextTask := by
      simp [asleep, State.withState]
    rw [hlink]
    simp [sleep, hcurrent, hticks, hvalid, Timer.getTicks, setState]
    rfl
  rw [hsearch]
  rcases shape.scanReady_cases hring (run_pure _ _) budget
    with ended | ⟨hle, failed⟩
  · left
    rw [run_bind_ok ended]
    rcases shape.firstReady_cases hring with
      ⟨hnone, _⟩ | ⟨next, hnext, hmem, hne, _⟩
    · simp [hnone, run_switchToIdle hasleepIdle hasleepIdleValid, switchEffect]
    · have hvalidNext : (asleep state current ticks).Valid next :=
        shape.valid_ring next hmem
      simp [hnext, hne, setState, hvalidNext, switchEffect]
      rfl
  · exact .inr ⟨hle, run_bind_error failed _⟩

/-! The timer's walk over the sleeping tasks. -/

def wakeSleepers (state : State) (tasks : List TaskRef) : State :=
  tasks.foldl (wakeSleeper state.systemTicks) state

theorem wakeSleeper_sameLinks (tick : Nat) (state : State) (task : TaskRef) :
    SameLinks state (wakeSleeper tick state task) := by
  unfold wakeSleeper
  split
  · exact sameLinks_setTask state task (fun _ => rfl) (fun _ => rfl)
      (fun _ => rfl)
  · exact SameLinks.refl state

theorem wakeSleeper_currentTask (tick : Nat) (state : State)
    (task : TaskRef) :
    (wakeSleeper tick state task).currentTask = state.currentTask := by
  unfold wakeSleeper
  split <;> rfl

theorem stateOf_wakeSleeper (tick : Nat) (state : State)
    (task other : TaskRef) :
    stateOf (wakeSleeper tick state task) other =
      if other = task ∧ stateOf state task = .sleeping ∧
          (state.tasks task).wakeTick ≤ tick then .ready
      else stateOf state other := by
  unfold wakeSleeper
  by_cases hexpired : stateOf state task = .sleeping ∧
      (state.tasks task).wakeTick ≤ tick
  · rw [if_pos hexpired, stateOf_setTask]
    simp [hexpired]
  · rw [if_neg hexpired, if_neg]
    exact fun h => hexpired h.2

theorem wakeTick_wakeSleeper (tick : Nat) (state : State)
    (task other : TaskRef) :
    ((wakeSleeper tick state task).tasks other).wakeTick =
      (state.tasks other).wakeTick := by
  unfold wakeSleeper
  split
  · by_cases heq : other = task
    · subst other
      simp
    · rw [State.setTask_of_ne _ _ _ _ heq]
  · rfl

/-- The walk over `tasks` makes the sleepers among them Ready whose time has
come and changes no other state. -/
theorem stateOf_wakeAll (tick : Nat) (tasks : List TaskRef) (state : State)
    (task : TaskRef) :
    stateOf (tasks.foldl (wakeSleeper tick) state) task =
      if task ∈ tasks ∧ stateOf state task = .sleeping ∧
          (state.tasks task).wakeTick ≤ tick then .ready
      else stateOf state task := by
  induction tasks generalizing state with
  | nil => simp
  | cons first rest ih =>
      rw [List.foldl_cons, ih, wakeTick_wakeSleeper, stateOf_wakeSleeper]
      by_cases heq : task = first
      · subst first
        by_cases hexpired : stateOf state task = .sleeping ∧
            (state.tasks task).wakeTick ≤ tick
        · simp [hexpired]
        · have hnot : ¬ (task ∈ rest ∧ stateOf state task = .sleeping ∧
              (state.tasks task).wakeTick ≤ tick) :=
            fun h => hexpired h.2
          simp only [true_and, if_neg hexpired, if_neg hnot,
            List.mem_cons, true_or]
      · simp [heq]

theorem foldl_wakeSleeper_sameLinks (tick : Nat) (tasks : List TaskRef)
    (state : State) :
    SameLinks state (tasks.foldl (wakeSleeper tick) state) ∧
      (tasks.foldl (wakeSleeper tick) state).currentTask =
        state.currentTask := by
  induction tasks generalizing state with
  | nil => exact ⟨SameLinks.refl state, rfl⟩
  | cons first rest ih =>
      rw [List.foldl_cons]
      have step := ih (wakeSleeper tick state first)
      exact ⟨(wakeSleeper_sameLinks tick state first).trans step.1,
        step.2.trans (wakeSleeper_currentTask tick state first)⟩

theorem wakeSleepers_wellFormed {state : State} {layout : Layout}
    (wellFormed : WellFormed state layout) :
    WellFormed (wakeSleepers state layout.ring) layout := by
  obtain ⟨same, hcurrent⟩ :=
    foldl_wakeSleeper_sameLinks state.systemTicks layout.ring state
  have hstate := stateOf_wakeAll state.systemTicks layout.ring state
  unfold wakeSleepers
  refine ⟨wellFormed.restate same ?_, ?_, ?_, ?_⟩
  · intro task _
    rw [hstate]
    split
    · rename_i hexpired
      simp [hexpired.2.1]
    · rfl
  · intro task hring
    rw [hstate, hcurrent, ← wellFormed.running_iff task hring]
    split
    · rename_i hexpired
      simp [hexpired.2.1]
    · rfl
  · intro task htask
    rw [hcurrent] at htask
    rw [same.idleTask]
    exact wellFormed.current task htask
  · intro hnone task hring
    rw [hcurrent] at hnone
    have hready := isReady_iff.mp (wellFormed.unstarted hnone task hring)
    rw [isReady_iff]
    refine (hstate task).trans ?_
    simp [stateOf, hready]

end Scheduler

end Planetoid.Task
