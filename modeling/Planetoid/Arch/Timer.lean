import Planetoid.Arch.Gic
import Planetoid.Core.Interrupts

namespace Planetoid.Arch

open Program

/-! The timer of the core and its driver `timer.cpp`. -/

structure GenericTimer where
  frequency : Nat
  counter : Nat
  compare : Nat
  control : Nat

namespace GenericTimer

/-- The 32 bits of CNTP_TVAL as an offset of 64 bits. -/
def signExtend (value : Nat) : Nat :=
  if value % 2 ^ 32 < 2 ^ 31 then value % 2 ^ 32
  else 2 ^ 64 - 2 ^ 32 + value % 2 ^ 32

def writeTval (timer : GenericTimer) (value : Nat) : GenericTimer :=
  { timer with
    compare := (timer.counter + signExtend value) % 2 ^ 64 }

/-- The timer is enabled, its interrupt is not masked, and its time has come:
the line to the controller is high. -/
def Asserted (timer : GenericTimer) : Prop :=
  timer.control % 2 = 1 ∧ timer.control / 2 % 2 = 0 ∧
    timer.compare ≤ timer.counter

def elapse (timer : GenericTimer) : GenericTimer :=
  { timer with counter := (timer.counter + 1) % 2 ^ 64 }

end GenericTimer

inductive Handler where
  | onTimerInterrupt
  deriving DecidableEq, Repr

/-- The controller, the timer, and the globals of `timer.cpp` and
`interrupts.cpp`; `system_ticks` is `State.systemTicks`. -/
structure Devices where
  gic : Gic
  timer : GenericTimer
  timerTicks : Nat
  timerFrequency : Nat
  handlers : Interrupts.Handlers Handler

abbrev DeviceCode (α : Type) := Program Devices Fault α

namespace Timer

def timerInterrupt : Nat := 30

def setTval (value : Nat) : DeviceCode Unit :=
  write fun devices => { devices with timer := devices.timer.writeTval value }

def init (frequency : Nat) : DeviceCode Unit := do
  let counterFrequency ← read (·.timer.frequency)
  write fun devices =>
    { devices with timerTicks := counterFrequency / frequency }
  write fun devices => { devices with timerFrequency := frequency }
  setTval (← read (·.timerTicks))
  write fun devices =>
    { devices with timer := { devices.timer with control := 1 } }
  let _ ← (Interrupts.registerHandler timerInterrupt
    (some .onTimerInterrupt)).zoom Devices.handlers
      fun handlers devices => { devices with handlers := handlers }
  pure ()

/-- The reload of `on_interrupt`; its count is `Task.Timer.onInterrupt`. -/
def reload : DeviceCode Unit := do
  setTval (← read (·.timerTicks))

def getMilliseconds (devices : Devices) (systemTicks : Nat) : Nat :=
  systemTicks * 1000 % 2 ^ 64 / devices.timerFrequency

end Timer

namespace Devices

def timed (devices : Devices) (frequency : Nat) : Devices :=
  { devices with
    timer := { devices.timer.writeTval
      (devices.timer.frequency / frequency) with control := 1 }
    timerTicks := devices.timer.frequency / frequency
    timerFrequency := frequency
    handlers := Function.update devices.handlers
      ⟨Timer.timerInterrupt, by decide⟩ (some .onTimerInterrupt) }

def reloaded (devices : Devices) : Devices :=
  { devices with timer := devices.timer.writeTval devices.timerTicks }

end Devices

namespace Timer

/-- Both outcomes of the registration leave the same table: no other handler
can be there. -/
theorem run_register (handlers : Interrupts.Handlers Handler) :
    ∃ registered, (Interrupts.registerHandler timerInterrupt
      (some Handler.onTimerInterrupt)).run handlers =
        .ok (registered, Function.update handlers
          ⟨timerInterrupt, by decide⟩ (some .onTimerInterrupt)) := by
  rw [Interrupts.run_registerHandler]
  have hid : timerInterrupt < Interrupts.maxInterrupts := by decide
  rw [dif_pos hid]
  cases hold : handlers ⟨timerInterrupt, hid⟩ with
  | none => exact ⟨true, rfl⟩
  | some old =>
      cases old
      rw [Function.update_eq_self_iff.mpr hold.symm]
      exact ⟨false, rfl⟩

theorem run_init (devices : Devices) (frequency : Nat) :
    (init frequency).run devices = .ok ((), devices.timed frequency) := by
  obtain ⟨registered, hregister⟩ := run_register devices.handlers
  have hzoom := run_zoom Devices.handlers
    (fun handlers (devices : Devices) => { devices with handlers := handlers })
    (fun _ _ => rfl) (fun _ _ _ => rfl) (fun _ => rfl)
    (Interrupts.registerHandler timerInterrupt (some .onTimerInterrupt))
    { devices with
      timer := { devices.timer.writeTval
        (devices.timer.frequency / frequency) with control := 1 }
      timerTicks := devices.timer.frequency / frequency
      timerFrequency := frequency }
  rw [hregister] at hzoom
  exact run_bind_ok hzoom _

theorem run_reload (devices : Devices) :
    reload.run devices = .ok ((), devices.reloaded) := rfl

end Timer

end Planetoid.Arch
