import Planetoid.Arch.Board
import Planetoid.Base.Refinement
import Planetoid.Task.Execution

namespace Planetoid.Arch

open Planetoid Program Planetoid.Memory Planetoid.Task

/-! The steps of the board as a function of the event. -/

instance (gic : Gic) (name : Nat) : Decidable (gic.Forwards name) :=
  decidable_of_iff (gic.distCtl % 2 = 1 ∧ gic.cpuCtl % 2 = 1 ∧
      interruptId name < gic.lineCount ∧ interruptId name < 1020 ∧
      gic.enabled (interruptId name) = true ∧
      gic.priority (interruptId name) < gic.pmr ∧
      ∀ running ∈ gic.active,
        gic.priority (interruptId name) < gic.priority (interruptId running))
    ⟨fun ⟨dist, cpu, exist, known, enabled, unmasked, preempts⟩ =>
        ⟨dist, cpu, exist, known, enabled, unmasked, preempts⟩,
      fun h => ⟨h.dist, h.cpu, h.exist, h.known, h.enabled, h.unmasked,
        h.preempts⟩⟩

instance (timer : GenericTimer) : Decidable timer.Asserted :=
  inferInstanceAs (Decidable (_ ∧ _ ∧ _))

instance (devices : Devices) (name : Nat) :
    Decidable (devices.Pending name) := by
  unfold Devices.Pending
  infer_instance

instance (devices : Devices) (name : Nat) :
    Decidable (devices.Signals name) :=
  inferInstanceAs (Decidable (_ ∧ _))

namespace Board

instance (map : CodeMap) (board : Board) : Decidable (board.BringsUp map) :=
  decidable_of_iff (board.irq.isNone ∧ board.machine.running.thread = none ∧
      board.machine.Executes map ∧
      board.machine.history.state.daif &&& Interrupts.irqBit ≠ 0)
    ⟨fun h => ⟨Option.isNone_iff_eq_none.mp h.1, h.2.1, h.2.2.1, h.2.2.2⟩,
      fun h => ⟨Option.isNone_iff_eq_none.mpr h.idle, h.main, h.executes,
        h.masked⟩⟩

variable (map : CodeMap) (platform : Platform) (board : Board)

/-- What the event makes of the board, with `budget` for every loop. A read of
IAR that finds nothing signalled is left out. -/
def attempt (budget : Nat) : BoardEvent → Option Board
  | .thread .interrupt => none
  | .thread event =>
    match board.irq, board.machine.attempt map budget event with
    | none, some after => some { board with machine := after }
    | _, _ => none
  | .enableTimer =>
    match (GIC.enableInterrupt platform Timer.timerInterrupt).run
        board.devices.gic with
    | .ok (_, gic) =>
      if board.BringsUp map then
        some (board.withDevices (board.devices.withGic gic))
      else none
    | .error _ => none
  | .initTimer =>
    match (Timer.init 100).run board.devices with
    | .ok (_, devices) =>
      if board.BringsUp map ∧ board.devices.timerFrequency = 0 then
        some { board.withDevices devices with
          timerStart := board.devices.timer.counter }
      else none
    | .error _ => none
  | .elapse => some (board.withDevices
      { board.devices with timer := board.devices.timer.elapse })
  | .line name pending =>
    if 1024 ≤ name → interruptId name < 16 then
      some (board.withDevices (board.devices.withGic { board.devices.gic with
        pending := Function.update board.devices.gic.pending name pending }))
    else none
  | .take =>
    match board.irq with
    | none =>
      if board.machine.history.state.daif &&& Interrupts.irqBit = 0 then
        some { board with irq := some (Irq.entered board.machine 0 0) }
      else none
    | some _ => none
  | .acknowledge name =>
    match board.irq with
    | none => none
    | some irq =>
      if irq.stage = .taken ∧ board.devices.Signals name then
        some { (board.withDevices
            (board.devices.acknowledge name)).withStage irq
              (.acknowledged name) with
          acknowledged := name :: board.acknowledged }
      else none
  | .ignore =>
    match board.irq with
    | some irq =>
      match irq.stage with
      | .acknowledged name =>
        match (Interrupts.dispatchInterrupt name).run
            board.devices.handlers with
        | .ok (none, _) => some (board.withStage irq (.handled name))
        | _ => none
      | _ => none
    | none => none
  | .tick =>
    match board.irq with
    | some irq =>
      match irq.stage with
      | .acknowledged name =>
        match (Interrupts.dispatchInterrupt name).run
            board.devices.handlers, Timer.reload.run board.devices,
            (onTimerInterrupt budget irq.frame).run irq.state with
        | .ok (some .onTimerInterrupt, _), .ok (_, devices),
            .ok (frame, after) => some { board with
              devices := devices
              irq := some {
                stage := .handled name
                frame := frame
                state := after
                served := true }
              ticked := board.ticked + 1 }
        | _, _, _ => none
      | _ => none
    | none => none
  | .endInterrupt =>
    match board.irq with
    | some irq =>
      match irq.stage with
      | .handled name =>
        match (GIC.endInterrupt platform name).run board.devices.gic with
        | .ok (_, gic) => some
            { (board.withDevices (board.devices.withGic gic)).withStage irq
                .ended with
              ended := name :: board.ended }
        | .error _ => none
      | _ => none
    | none => none
  | .eret =>
    match board.irq with
    | some irq =>
      match irq.stage with
      | .ended => some { board with
          machine := irq.leave map board.machine
          irq := none }
      | _ => none
    | none => none

variable {map platform board}

theorem step_of_attempt {budget : Nat} {event : BoardEvent} {after : Board}
    (h : board.attempt map platform budget event = some after) :
    Step map platform board event after := by
  cases event with
  | thread event =>
      have hsome : ∀ {event : Event}, event ≠ .interrupt →
          (match board.irq, board.machine.attempt map budget event with
            | none, some after => some { board with machine := after }
            | _, _ => none) = some after →
          Step map platform board (.thread event) after := by
        intro event hne h
        split at h
        · rename_i idle hattempt
          cases h
          exact .thread idle hne (Machine.step_of_attempt hattempt)
        · cases h
      cases event with
      | interrupt => cases h
      | _ => exact hsome nofun h
  | enableTimer =>
      simp only [attempt] at h
      split at h
      · rename_i hrun
        split at h
        · rename_i up
          cases h
          exact .enableTimer up hrun
        · cases h
      · cases h
  | initTimer =>
      simp only [attempt] at h
      split at h
      · rename_i hrun
        split at h
        · rename_i hmeets
          cases h
          exact .initTimer hmeets.1 hmeets.2 hrun
        · cases h
      · cases h
  | elapse =>
      cases h
      exact .elapse
  | line name pending =>
      simp only [attempt] at h
      split at h
      · rename_i software
        cases h
        exact .line name pending software
      · cases h
  | take =>
      simp only [attempt] at h
      split at h
      · rename_i idle
        split at h
        · rename_i enabled
          cases h
          exact .take 0 0 idle enabled
        · cases h
      · cases h
  | acknowledge name =>
      simp only [attempt] at h
      split at h
      · cases h
      · rename_i handling
        split at h
        · rename_i hmeets
          cases h
          exact .acknowledge handling hmeets.1 (.inl hmeets.2)
        · cases h
  | ignore =>
      simp only [attempt] at h
      split at h
      · rename_i handling
        split at h
        · rename_i stage
          split at h
          · rename_i dispatched
            cases h
            exact .ignore handling stage dispatched
          · cases h
        · cases h
      · cases h
  | tick =>
      simp only [attempt] at h
      split at h
      · rename_i handling
        split at h
        · rename_i stage
          split at h
          · rename_i dispatched reloaded ended
            cases h
            exact .tick handling stage dispatched reloaded ended
          · cases h
        · cases h
      · cases h
  | endInterrupt =>
      simp only [attempt] at h
      split at h
      · rename_i handling
        split at h
        · rename_i stage
          split at h
          · rename_i ended
            cases h
            exact .endInterrupt handling stage ended
          · cases h
        · cases h
      · cases h
  | eret =>
      simp only [attempt] at h
      split at h
      · rename_i handling
        split at h
        · rename_i stage
          cases h
          exact .eret handling stage
        · cases h
      · cases h

/-- The board after the events, if each of them can happen and meets
`meets`. -/
def runEvents (meets : Board → BoardEvent → Bool) (map : CodeMap)
    (platform : Platform) (budget : Nat) (board : Board) :
    List BoardEvent → Option Board
  | [] => some board
  | event :: rest =>
    if meets board event then
      match board.attempt map platform budget event with
      | none => none
      | some after => after.runEvents meets map platform budget rest
    else none

theorem trace_runEvents {meets : Board → BoardEvent → Bool}
    {guard : Board → BoardEvent → Prop} {starts : Board → Prop}
    (hguard : ∀ board event, meets board event = true → guard board event)
    {budget : Nat} {past events : List BoardEvent} {after : Board}
    (trace : (System.mk starts (Step map platform)).Trace guard past board)
    (h : board.runEvents meets map platform budget events = some after) :
    (System.mk starts (Step map platform)).Trace guard
      (events.reverse ++ past) after := by
  induction events generalizing board past with
  | nil =>
      obtain rfl := Option.some.inj h
      exact trace
  | cons event rest ih =>
      simp only [runEvents] at h
      split at h
      · rename_i hmeets
        split at h
        · cases h
        · rename_i hattempt
          have hrest := ih (.step trace (hguard board event hmeets)
            (step_of_attempt hattempt)) h
          rwa [List.reverse_cons, List.append_assoc]
      · cases h

end Board

/-! The small kernel on a board whose timer rings with every hundredth part of
a second, one count. -/

def smallGic : Gic where
  distCtl := 0
  typer := 0
  enabled := fun _ => false
  priority := fun _ => 0
  cpuCtl := 0
  pmr := 0
  pending := fun _ => false
  active := []

def smallBoard : Board where
  machine := smallMachine
  devices := {
    gic := smallGic.initialised
    timer := { frequency := 100, counter := 0, compare := 0, control := 0 }
    timerTicks := 0
    timerFrequency := 0
    handlers := fun _ => none }
  irq := none
  acknowledged := []
  ended := []
  ticked := 0
  timerStart := 0

theorem smallBoard_initial : smallBoard.Initial smallMap .virt where
  machine := smallMachine_initial
  handlers := ⟨fun _ => none, Interrupts.run_init _⟩
  gic := ⟨smallGic, GIC.run_init .virt smallGic⟩
  systemTicks := rfl
  frequency := by decide
  timerFrequency := rfl
  idle := rfl
  logs := ⟨rfl, rfl, rfl⟩

/-- `kernel_main` starts the timer and enables interrupts; the timer rings
once. -/
def oneTick : List BoardEvent :=
  [.thread (.mask 2), .enableTimer, .initTimer, .thread (.mask 0), .elapse,
    .take, .acknowledge 30, .tick, .endInterrupt, .eret]

end Planetoid.Arch
