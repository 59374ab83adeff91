import Planetoid.Base.Assertions
import Planetoid.Task.Launch

namespace Planetoid.Arch

open Program Planetoid.Task

/-! The code of the kernel on the core, with the registers. -/

/-- Addresses in the kernel's code: the label `.Lresume` and the instruction
`br x2` of `task_switch`, `task_entry_trampoline`, and the entry point of each
task. -/
structure CodeMap where
  resume : Nat
  branch : Nat
  trampoline : Nat
  entry : TaskRef → Nat
  resume_ne : resume ≠ branch
  trampoline_ne : trampoline ≠ branch

structure Core where
  state : State
  registers : Registers

abbrev Code (α : Type) := Program Core Fault α

def Core.withState (core : Core) (state : State) : Core :=
  { core with state := state }

/-- A function of the kernel. Which registers its code uses is left open. -/
def kernel (program : Sched α) : Code α :=
  program.zoom Core.state fun state core => core.withState state

def saveTo (task : TaskRef) (save : Registers → CPUContext → CPUContext) :
    Code Unit :=
  .access
    (fun core => core.withState (core.state.setTask task fun fields =>
      { fields with cpuContext := save core.registers fields.cpuContext }))
    fun core =>
      if core.state.Valid task then .ret () else .fail .useAfterFree

def loadFrom (task : TaskRef) (load : CPUContext → Registers → Registers) :
    Code Unit :=
  .access
    (fun core => { core with
      registers := load (core.state.tasks task).cpuContext core.registers })
    fun core =>
      if core.state.Valid task then .ret () else .fail .useAfterFree

def unmask (map : CodeMap) : Code Unit :=
  write fun core => {
    state := core.state.withDaif (unmasked core.state.daif)
    registers := { core.registers with pc := map.branch } }

def switchTo (map : CodeMap) (current next : TaskRef) : Code Unit := do
  saveTo current fun registers context =>
    { context with x := copyCalleeSaved registers.x context.x }
  saveTo current fun registers context =>
    { context with sp := registers.sp }
  saveTo current fun _ context => { context with pc := map.resume }
  loadFrom next fun context registers =>
    { registers with x := copyCalleeSaved context.x registers.x }
  loadFrom next fun context registers => { registers with sp := context.sp }
  loadFrom next fun context registers =>
    { registers with x := Function.update registers.x 2 context.pc }
  unmask map

structure Handover where
  previous : TaskRef
  next : TaskRef

/-- How a function of the kernel leaves the core: it returned, its caller
tries again, or another task goes on. -/
inductive Service where
  | done
  | again
  | switched (handover : Handover)

def Service.next : Service → Option TaskRef
  | .switched handover => some handover.next
  | _ => none

/-- The task that has the core when nothing is left of a function. -/
def passesTo : Code Service → Option TaskRef
  | .ret service => service.next
  | _ => none

/-- The end of a scheduler function that may have chosen the next task. -/
def leave (map : CodeMap) (back : Service) : Exit → Code Service
  | .returned => pure back
  | .switched previous next => do
    switchTo map previous next
    pure (.switched ⟨previous, next⟩)

/-- The registers at the `br x2` that goes on with `context`. -/
def Registers.switched (map : CodeMap) (registers : Registers)
    (context : CPUContext) : Registers :=
  { resumed registers context with pc := map.branch }

theorem ends_kernel {program : Sched α} {post : α → Core → Prop}
    {core : Core} : (kernel program).Ends post core ↔
      program.Ends (fun value after => post value (core.withState after))
        core.state :=
  @ends_zoom _ _ _ _ program Core.state
    (fun state core => core.withState state) (fun _ _ => rfl)
    (fun _ _ _ => rfl) (fun _ => rfl) post core

theorem run_switchTo_eq (map : CodeMap) (previous next : TaskRef)
    (core : Core) :
    (switchTo map previous next).run core =
      ((taskSwitch map.resume core.registers previous next).run
        core.state).map fun result =>
          ((), ⟨result.2, { result.1 with pc := map.branch }⟩) := by
  by_cases hprevious : core.state.Valid previous
  · by_cases hnext : core.state.Valid next
    · rw [run_taskSwitch hprevious hnext]
      simp [switchTo, saveTo, loadFrom, unmask, hprevious, hnext,
        Core.withState, Except.map, run_bind, Except.bind, resumed]
      exact ⟨rfl, rfl, rfl⟩
    · simp [switchTo, saveTo, loadFrom, taskSwitch, store, load, hprevious,
        hnext, Core.withState, Except.map, run_bind, Except.bind]
  · simp [switchTo, saveTo, taskSwitch, store, hprevious, Except.map,
      run_bind, Except.bind]

theorem run_switchTo {core : Core} {previous next : TaskRef}
    (hprevious : core.state.Valid previous) (hnext : core.state.Valid next)
    (map : CodeMap) :
    (switchTo map previous next).run core = .ok ((), {
      state := switchState map.resume core.registers core.state previous
      registers := core.registers.switched map
        ((switchState map.resume core.registers core.state previous).tasks
          next).cpuContext }) := by
  rw [run_switchTo_eq, run_taskSwitch hprevious hnext]
  rfl

end Planetoid.Arch
