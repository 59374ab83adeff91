import Planetoid.Arch.BoardExecution
import Planetoid.Task.MaskBlind

namespace Planetoid.Arch

open Planetoid Program Planetoid.Memory Planetoid.Task

/-! The runs of the board are runs of the machine, in which an interrupt of the
timer is one step and every other interrupt is none. -/

section

variable {map : CodeMap} {platform : Platform}

@[simp] theorem loadFrame_saveFrame (registers : Registers)
    (daif esr far : Nat) :
    loadFrame (saveFrame registers daif esr far) registers = registers := by
  have hx : Scheduler.copyRegisters registers.x registers.x =
      registers.x := by
    funext index
    exact ite_self _
  unfold loadFrame saveFrame
  rw [hx]

namespace Irq

theorem leave_unserved {irq : Irq} (h : irq.served = false)
    {machine : Machine} {esr far : Nat}
    (frame : irq.frame = saveFrame machine.running.registers
      machine.history.state.daif esr far)
    (state : irq.state = machine.history.state.withDaif allMasked) :
    irq.leave map machine = machine := by
  unfold leave
  rw [h, frame, state, loadFrame_saveFrame]
  rfl

end Irq

/-- The machine that the board shows: before the handler of the timer was
called the one that was interrupted, then the one to which the `eret` will
return. -/
inductive Board.Shows (map : CodeMap) (board : Board) : Machine → Prop
  | thread (idle : board.irq = none) : Board.Shows map board board.machine
  | waiting {irq : Irq} {esr far : Nat} (handling : board.irq = some irq)
      (unserved : irq.served = false)
      (enabled : board.machine.history.state.daif &&& Interrupts.irqBit = 0)
      (frame : irq.frame = saveFrame board.machine.running.registers
        board.machine.history.state.daif esr far)
      (state : irq.state = board.machine.history.state.withDaif allMasked) :
      Board.Shows map board board.machine
  | served {irq : Irq} {after : State} (handling : board.irq = some irq)
      (served : irq.served = true)
      (stage : (∃ name, irq.stage = .handled name) ∨ irq.stage = .ended)
      (state : irq.state = after.withDaif allMasked) :
      Board.Shows map board (board.machine.interrupted map irq.frame after)

namespace Board.Shows

variable {board after : Board} {machine : Machine}

theorem devices (shows : Shows map board machine)
    (hmachine : after.machine = board.machine) (hirq : after.irq = board.irq) :
    Shows map after machine := by
  cases shows with
  | thread idle =>
      rw [← hmachine]
      exact .thread (hirq.trans idle)
  | waiting handling unserved enabled frame state =>
      rw [← hmachine] at enabled frame state ⊢
      exact .waiting (hirq.trans handling) unserved enabled frame state
  | served handling served stage state =>
      rw [← hmachine]
      exact .served (hirq.trans handling) served stage state

theorem withStage {irq : Irq} (shows : Shows map board machine)
    (handling : board.irq = some irq) {stage : Stage}
    (hmachine : after.machine = board.machine)
    (hirq : after.irq = some { irq with stage := stage })
    (later : irq.served = true →
      (∃ name, stage = .handled name) ∨ stage = .ended) :
    Shows map after machine := by
  cases shows with
  | thread idle =>
      rw [idle] at handling
      cases handling
  | waiting known unserved enabled frame state =>
      cases handling.symm.trans known
      rw [← hmachine] at enabled frame state ⊢
      exact @waiting map after { irq with stage := stage } _ _ hirq unserved
        enabled frame state
  | served known served _ state =>
      cases handling.symm.trans known
      rw [← hmachine]
      exact @Board.Shows.served map after { irq with stage := stage } _ hirq
        served (later served) state

theorem unserved {irq : Irq} (shows : Shows map board machine)
    (handling : board.irq = some irq)
    (early : irq.stage = .taken ∨ ∃ name, irq.stage = .acknowledged name) :
    irq.served = false ∧ machine = board.machine ∧
      board.machine.history.state.daif &&& Interrupts.irqBit = 0 ∧
      irq.state = board.machine.history.state.withDaif allMasked ∧
      ∃ esr far, irq.frame = saveFrame board.machine.running.registers
        board.machine.history.state.daif esr far := by
  cases shows with
  | thread idle =>
      rw [idle] at handling
      cases handling
  | waiting known unserved enabled frame state =>
      cases handling.symm.trans known
      exact ⟨unserved, rfl, enabled, state, _, _, frame⟩
  | served known _ late _ =>
      cases handling.symm.trans known
      obtain ⟨name, hstage⟩ | hstage := late
      · obtain h | ⟨_, h⟩ := early
        · rw [hstage] at h
          cases h
        · rw [hstage] at h
          cases h
      · obtain h | ⟨_, h⟩ := early
        · rw [hstage] at h
          cases h
        · rw [hstage] at h
          cases h

theorem leave {irq : Irq} (shows : Shows map board machine)
    (handling : board.irq = some irq) :
    irq.leave map board.machine = machine := by
  cases shows with
  | thread idle =>
      rw [idle] at handling
      cases handling
  | waiting known unserved _ frame state =>
      cases handling.symm.trans known
      exact Irq.leave_unserved unserved frame state
  | served known served _ state =>
      cases handling.symm.trans known
      unfold Irq.leave
      rw [if_pos served, state]
      rfl

end Board.Shows

theorem Board.Shows.tick {board : Board} {machine : Machine}
    (shows : Board.Shows map board machine) {irq : Irq} {name budget : Nat}
    {frame : ExceptionContext} {after : State}
    (handling : board.irq = some irq) (stage : irq.stage = .acknowledged name)
    (ended : (onTimerInterrupt budget irq.frame).run irq.state =
      .ok (frame, after)) :
    ∃ unmasked, after = unmasked.withDaif allMasked ∧
      Machine.Step map machine .interrupt
        (board.machine.interrupted map frame unmasked) := by
  obtain ⟨_, rfl, enabled, hstate, esr, far, hframe⟩ :=
    shows.unserved handling (.inr ⟨name, stage⟩)
  rw [hstate, hframe] at ended
  obtain ⟨unmasked, hrun, hafter⟩ := (maskBlind_onTimerInterrupt budget _
    allMasked).run_eq_ok ended
  exact ⟨unmasked, hafter, .interrupt enabled hrun⟩

/-- Every step of the board is one step of the machine or none. -/
theorem boards_follow (map : CodeMap) (platform : Platform) :
    System.Follows (boards map platform) System.unguarded (machines map)
      System.unguarded BoardEvent.label (Board.Shows map) where
  initial := fun board initial =>
    ⟨board.machine, initial.machine, .thread initial.idle⟩
  silent := by
    intro board event after machine shows _ step hlabel
    cases step with
    | thread | tick => cases hlabel
    | enableTimer | initTimer | elapse | line => exact shows.devices rfl rfl
    | take esr far idle enabled =>
        cases shows with
        | thread => exact .waiting rfl rfl enabled rfl rfl
        | waiting handling | served handling =>
            rw [idle] at handling
            cases handling
    | acknowledge handling stage =>
        have hunserved := (shows.unserved handling (.inl stage)).1
        refine shows.withStage handling rfl rfl fun served => ?_
        rw [hunserved] at served
        cases served
    | ignore handling =>
        exact shows.withStage handling rfl rfl fun _ => .inl ⟨_, rfl⟩
    | endInterrupt handling =>
        exact shows.withStage handling rfl rfl fun _ => .inr rfl
    | eret handling =>
        rw [← shows.leave handling]
        exact .thread rfl
  visible := by
    intro board event after machine named shows _ step hlabel
    cases step with
    | thread idle other step =>
        cases hlabel
        cases shows with
        | thread => exact ⟨_, trivial, step, .thread idle⟩
        | waiting handling | served handling =>
            rw [idle] at handling
            cases handling
    | @tick _ name _ _ _ frame after handling stage _ _ ended =>
        cases hlabel
        obtain ⟨unmasked, hafter, hstep⟩ := shows.tick handling stage ended
        exact ⟨_, trivial, hstep, @Board.Shows.served _ _
          ⟨.handled name, frame, after, true⟩ unmasked rfl rfl
          (.inl ⟨name, rfl⟩) hafter⟩
    | _ => cases hlabel

/-- Whatever the interrupt controller, the timer and the other devices do, the
kernel goes through a run of the machine in which exactly the calls of
`on_timer_interrupt` are interrupts. -/
theorem boardTrace_isMachineTrace {events : List BoardEvent} {board : Board}
    (trace : (boards map platform).Trace System.unguarded events board) :
    ∃ machine, (machines map).Trace System.unguarded
        (events.filterMap BoardEvent.label) machine ∧
      Board.Shows map board machine :=
  (boards_follow map platform).trace trace

end

theorem boardTrace_oneTick :
    ∃ board machine, (boards smallMap .virt).Trace System.unguarded
        oneTick.reverse board ∧ board.ticked = 1 ∧
      (machines smallMap).Trace System.unguarded
        [.interrupt, .mask 0, .mask 2] machine ∧
      Board.Shows smallMap board machine := by
  obtain ⟨board, hrun, hticked⟩ := Option.map_eq_some_iff.mp
    (by decide +kernel : (smallBoard.runEvents (fun _ _ => true) smallMap
      .virt 4 oneTick).map (·.ticked) = some 1)
  have trace := Board.trace_runEvents (fun _ _ _ => trivial)
    (.initial smallBoard_initial) hrun
  rw [List.append_nil] at trace
  obtain ⟨machine, htrace, hshows⟩ := boardTrace_isMachineTrace trace
  exact ⟨board, machine, trace, hticked, htrace, hshows⟩

end Planetoid.Arch
