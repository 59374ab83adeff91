import Planetoid.Arch.Timer
import Planetoid.Task.Machine

namespace Planetoid.Arch

open Program Planetoid.Memory Planetoid.Task

/-! The core with its interrupt controller and its timer: an interrupt goes
through `exception_irq` and `irq_exception_handler`, and the devices go on
between any two of their steps. -/

inductive Stage where
  | taken
  | acknowledged (name : Nat)
  | handled (name : Nat)
  | ended
  deriving DecidableEq, Repr

/-- An interrupt that was taken and has not returned: the frame of
`exception_irq`, the kernel's memory, and whether the handler of the timer was
called. -/
structure Irq where
  stage : Stage
  frame : ExceptionContext
  state : State
  served : Bool

/-- The machine, whose state `irq` replaces while an interrupt is handled, the
devices, and what the run did: the values read from IAR, the values written to
EOIR, the number of calls of `on_timer_interrupt`, and the counter at
`Timer::init`. -/
structure Board where
  machine : Machine
  devices : Devices
  irq : Option Irq
  acknowledged : List Nat
  ended : List Nat
  ticked : Nat
  timerStart : Nat

def allMasked : Nat := 15

inductive BoardEvent where
  | thread (event : Event)
  | enableTimer
  | initTimer
  | elapse
  | line (name : Nat) (pending : Bool)
  | take
  | acknowledge (name : Nat)
  | ignore
  | tick
  | endInterrupt
  | eret

def BoardEvent.label : BoardEvent → Option Event
  | .thread event => some event
  | .tick => some .interrupt
  | _ => none

def Gic.acknowledge (gic : Gic) (name : Nat) : Gic :=
  if name = spurious then gic
  else { gic with
    pending := Function.update gic.pending name false
    active := name :: gic.active }

namespace Devices

/-- The line of the timer is its state; the others are what the devices behind
them made of them. -/
def Pending (devices : Devices) (name : Nat) : Prop :=
  if interruptId name = Timer.timerInterrupt then
    name = Timer.timerInterrupt ∧ devices.timer.Asserted
  else devices.gic.pending name = true

def Signals (devices : Devices) (name : Nat) : Prop :=
  devices.Pending name ∧ devices.gic.Forwards name

def Acknowledges (devices : Devices) (name : Nat) : Prop :=
  devices.Signals name ∨ name = spurious ∧ ∀ other, ¬ devices.Signals other

def withGic (devices : Devices) (gic : Gic) : Devices :=
  { devices with gic := gic }

def acknowledge (devices : Devices) (name : Nat) : Devices :=
  devices.withGic (devices.gic.acknowledge name)

end Devices

namespace Irq

/-- The entry to `exception_irq`, with the two registers that describe an
exception as `esr` and `far`. -/
def entered (machine : Machine) (esr far : Nat) : Irq where
  stage := .taken
  frame := saveFrame machine.running.registers machine.history.state.daif
    esr far
  state := machine.history.state.withDaif allMasked
  served := false

def leave (map : CodeMap) (irq : Irq) (machine : Machine) : Machine :=
  if irq.served then machine.interrupted map irq.frame irq.state
  else (machine.withState (irq.state.withDaif irq.frame.spsr.daif)).withRegisters
    (loadFrame irq.frame machine.running.registers)

end Irq

namespace Board

structure BringsUp (map : CodeMap) (board : Board) : Prop where
  idle : board.irq = none
  main : board.machine.running.thread = none
  executes : board.machine.Executes map
  masked : board.machine.history.state.daif &&& Interrupts.irqBit ≠ 0

def withDevices (board : Board) (devices : Devices) : Board :=
  { board with devices := devices }

def withStage (board : Board) (irq : Irq) (stage : Stage) : Board :=
  { board with irq := some { irq with stage := stage } }

inductive Step (map : CodeMap) (platform : Platform) :
    Board → BoardEvent → Board → Prop
  | thread {board : Board} {event : Event} {after : Machine}
      (idle : board.irq = none) (other : event ≠ .interrupt)
      (step : Machine.Step map board.machine event after) :
      Step map platform board (.thread event) { board with machine := after }
  | enableTimer {board : Board} {gic : Gic} (up : board.BringsUp map)
      (ended : (GIC.enableInterrupt platform Timer.timerInterrupt).run
        board.devices.gic = .ok ((), gic)) :
      Step map platform board .enableTimer
        (board.withDevices (board.devices.withGic gic))
  | initTimer {board : Board} {devices : Devices} (up : board.BringsUp map)
      (once : board.devices.timerFrequency = 0)
      (ended : (Timer.init 100).run board.devices = .ok ((), devices)) :
      Step map platform board .initTimer { board.withDevices devices with
        timerStart := board.devices.timer.counter }
  | elapse {board : Board} :
      Step map platform board .elapse (board.withDevices
        { board.devices with timer := board.devices.timer.elapse })
  | line {board : Board} (name : Nat) (pending : Bool)
      (software : 1024 ≤ name → interruptId name < 16) :
      Step map platform board (.line name pending)
        (board.withDevices (board.devices.withGic { board.devices.gic with
          pending := Function.update board.devices.gic.pending name pending }))
  | take {board : Board} (esr far : Nat) (idle : board.irq = none)
      (enabled : board.machine.history.state.daif &&& Interrupts.irqBit = 0) :
      Step map platform board .take
        { board with irq := some (Irq.entered board.machine esr far) }
  | acknowledge {board : Board} {irq : Irq} {name : Nat}
      (handling : board.irq = some irq) (stage : irq.stage = .taken)
      (acknowledges : board.devices.Acknowledges name) :
      Step map platform board (.acknowledge name)
        { (board.withDevices (board.devices.acknowledge name)).withStage irq
            (.acknowledged name) with
          acknowledged := name :: board.acknowledged }
  | ignore {board : Board} {irq : Irq} {name : Nat}
      {handlers : Interrupts.Handlers Handler}
      (handling : board.irq = some irq) (stage : irq.stage = .acknowledged name)
      (dispatched : (Interrupts.dispatchInterrupt name).run
        board.devices.handlers = .ok (none, handlers)) :
      Step map platform board .ignore (board.withStage irq (.handled name))
  | tick {board : Board} {irq : Irq} {name budget : Nat}
      {handlers : Interrupts.Handlers Handler} {devices : Devices}
      {frame : ExceptionContext} {after : State}
      (handling : board.irq = some irq) (stage : irq.stage = .acknowledged name)
      (dispatched : (Interrupts.dispatchInterrupt name).run
        board.devices.handlers = .ok (some .onTimerInterrupt, handlers))
      (reloaded : Timer.reload.run board.devices = .ok ((), devices))
      (ended : (onTimerInterrupt budget irq.frame).run irq.state =
        .ok (frame, after)) :
      Step map platform board .tick { board with
        devices := devices
        irq := some {
          stage := .handled name
          frame := frame
          state := after
          served := true }
        ticked := board.ticked + 1 }
  | endInterrupt {board : Board} {irq : Irq} {name : Nat} {gic : Gic}
      (handling : board.irq = some irq) (stage : irq.stage = .handled name)
      (ended : (GIC.endInterrupt platform name).run board.devices.gic =
        .ok ((), gic)) :
      Step map platform board .endInterrupt
        { (board.withDevices (board.devices.withGic gic)).withStage irq
            .ended with
          ended := name :: board.ended }
  | eret {board : Board} {irq : Irq} (handling : board.irq = some irq)
      (stage : irq.stage = .ended) :
      Step map platform board .eret { board with
        machine := irq.leave map board.machine
        irq := none }

/-- `kernel_main` after `Interrupts::init`, `GIC::init` and
`Scheduler::init`, before `Timer::init` wrote a global of `timer.cpp`. -/
structure Initial (map : CodeMap) (platform : Platform) (board : Board) :
    Prop where
  machine : Machine.Initial map board.machine
  handlers : ∃ before, (Interrupts.init (η := Handler)).run before =
    .ok ((), board.devices.handlers)
  gic : ∃ before : Gic,
    (GIC.init platform).run before = .ok ((), board.devices.gic)
  systemTicks : board.machine.history.state.systemTicks = 0
  frequency : board.devices.timer.frequency < 2 ^ 32
  timerFrequency : board.devices.timerFrequency = 0
  idle : board.irq = none
  logs : board.acknowledged = [] ∧ board.ended = [] ∧ board.ticked = 0

end Board

def boards (map : CodeMap) (platform : Platform) :
    System Board BoardEvent where
  initial := Board.Initial map platform
  step := Board.Step map platform

end Planetoid.Arch
