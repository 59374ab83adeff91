import Planetoid.Task.Scheduler

namespace Planetoid.Arch

open Program Planetoid.Task Planetoid.Task.Scheduler

/-! `task_switch` and the register frame of `exception_irq`. -/

structure Registers where
  x : Nat → Nat
  sp : StackPointer
  pc : Nat
  nzcv : Nat

def copyCalleeSaved (source target : Nat → Nat) : Nat → Nat :=
  fun index => if 19 ≤ index ∧ index < 31 then source index else target index

def daifClr : Sched Unit :=
  write fun state => { state with
    daif := if state.daif &&& Interrupts.irqBit = 0 then state.daif
      else state.daif - Interrupts.irqBit }

/-- `task_switch`; `resume` is the address of its label `.Lresume`. -/
def taskSwitch (resume : Nat) (registers : Registers)
    (current next : TaskRef) : Sched Registers := do
  store current fun fields => { fields with
    cpuContext := { fields.cpuContext with
      x := copyCalleeSaved registers.x fields.cpuContext.x } }
  store current fun fields => { fields with
    cpuContext := { fields.cpuContext with sp := registers.sp } }
  store current fun fields => { fields with
    cpuContext := { fields.cpuContext with pc := resume } }
  let x ← load next (·.cpuContext.x)
  let sp ← load next (·.cpuContext.sp)
  let pc ← load next (·.cpuContext.pc)
  daifClr
  -- `x2` is the scratch register that ends up with the loaded `pc`
  pure {
    x := Function.update (copyCalleeSaved x registers.x) 2 pc
    sp := sp
    pc := pc
    nzcv := registers.nzcv }

/-- A scheduler function up to the moment at which its caller or the next task
runs. -/
def finish (resume : Nat) (registers : Registers) : Exit → Sched Registers
  | .returned => pure registers
  | .switched previous next => taskSwitch resume registers previous next

def saveFrame (registers : Registers) (daif esr far : Nat) :
    ExceptionContext where
  x := registers.x
  elr := registers.pc
  esr := esr
  far := far
  spsr := { nzcv := registers.nzcv, daif := daif }
  sp := registers.sp

def loadFrame (frame : ExceptionContext) (registers : Registers) :
    Registers where
  x := copyRegisters frame.x registers.x
  sp := frame.sp
  pc := frame.elr
  nzcv := frame.spsr.nzcv

end Planetoid.Arch
