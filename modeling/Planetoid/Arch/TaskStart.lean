import Planetoid.Arch.SwitchCode
import Planetoid.Task.NewTasks

namespace Planetoid.Arch

open A64 Planetoid.Memory Planetoid.Task

/-! From `create_task` to the first instruction of the task. -/

/-- The memory of the core has the words that the heap sees. -/
def Mirrors (words : Nat → Nat) (view : View) : Prop :=
  ∀ address word, view address = some word → words (address / 8) = word.toNat

section

variable {view : View} {words : Nat → Nat} {task entry start stack size : Nat}
  {cleanupNext : Option TaskRef}

theorem Mirrors.word (mirrors : Mirrors words view) {offset value : Nat}
    (hoffset : offset % 8 = 0)
    (h : view (task + offset) = some (BitVec.ofNat 64 value))
    (hvalue : value < 2 ^ 64) :
    words (task / 8 + offset / 8) = value := by
  have hword := mirrors _ _ h
  rw [BitVec.toNat_ofNat, Nat.mod_eq_of_lt hvalue] at hword
  rw [← hword]
  congr 1
  omega

end

section

variable {platform : Platform} {image : KernelImage platform}
  {run : HeapRun} {after : HeapState} {code : Image} {cpu : Cpu}
  {entry trampoline aligned task stack start taskTerminated current : Nat}

theorem atContext_of_holdsTask {fields : TaskState}
    (holds : HoldsTask (after.view image) task fields)
    (haligned : task % 8 = 0) : AtContext task := by
  refine ⟨haligned, ?_⟩
  obtain ⟨⟨_, hhigh, _⟩, _⟩ := view_eq_some.mp holds.pc
  unfold VirtualMemory.virtualMemoryEnd at hhigh
  unfold contextSize
  omega

theorem madeTask_enters
    (made : MadeBeside image run entry trampoline aligned task stack after)
    (hentry : entry < 2 ^ 64) (htrampoline : trampoline < 2 ^ 64)
    (placed : Placed code start (taskSwitchCode start))
    (placedEntry : Placed code trampoline
      (taskEntryTrampoline trampoline taskTerminated))
    (mirrors : Mirrors cpu.words (after.view image)) (hpc : cpu.pc = start)
    (hcurrent : cpu.x 0 = current) (hnext : cpu.x 1 = task)
    (context : AtContext current) (apart : Apart current task) :
    ∃ entered, Reaches code cpu entered ∧ entered.pc = entry ∧
      entered.sp = stack + aligned ∧ entered.daif = cpu.daif &&& 13 ∧
      ∀ returned : Cpu, returned.pc = entered.x 30 →
        ∃ left, Reaches code returned left ∧ left.pc = taskTerminated ∧
          left.sp = returned.sp := by
  obtain ⟨cleanupNext, holds⟩ := made.holds
  have haligned := made.safe.aligned task
    (List.mem_cons_of_mem _ (List.mem_cons_self ..))
  have hfresh := @Mirrors.word _ _ task mirrors 256 _ rfl holds.pc htrampoline
  have hx := @Mirrors.word _ _ task mirrors (8 * 19) _ rfl
    (holds.x 19 (by decide)) hentry
  have hsp := @Mirrors.word _ _ task mirrors 248 _ rfl holds.sp made.stackEnd
  obtain ⟨entered, hreaches, hentered, hstack, hrest⟩ :=
    taskSwitch_enters placed placedEntry hpc hcurrent hnext context
      (atContext_of_holdsTask holds haligned) apart hfresh
  exact ⟨entered, hreaches, hentered.trans hx, hstack.trans hsp, hrest⟩

end

/-- The first switch to a task that `create_task` returned, whatever else the
heap holds, enters the entry point at the end of the task's own stack, and the
entry point returns to a call of `task_terminated`. -/
theorem createTask_enters {platform : Platform} {image : KernelImage platform}
    {memory : MemoryState} {ram : Nat → BitVec 64} {heap after : HeapState}
    {run : HeapRun} {budget task entry trampoline stackSize : Nat}
    (hheap : (initHeap image).run (bootHeap memory ram) = .ok ((), heap))
    (reachable : (heapRuns image heap).Reachable (FreesSafely image) run)
    (hsize : stackSize < 2 ^ 64) (hentry : entry < 2 ^ 64)
    (htrampoline : trampoline < 2 ^ 64)
    (hrun : (createTask image trampoline budget entry stackSize).run run.heap =
      .ok (task, after)) (hne : task ≠ 0)
    {code : Image} {cpu : Cpu} {start taskTerminated current : Nat}
    (placed : Placed code start (taskSwitchCode start))
    (placedEntry : Placed code trampoline
      (taskEntryTrampoline trampoline taskTerminated))
    (mirrors : Mirrors cpu.words (after.view image)) (hpc : cpu.pc = start)
    (hcurrent : cpu.x 0 = current) (hnext : cpu.x 1 = task)
    (context : AtContext current) (apart : Apart current task) :
    ∃ stack entered, Reaches code cpu entered ∧ entered.pc = entry ∧
      entered.sp = stack + alignStackSize stackSize ∧
      alignStackSize stackSize ≤ recordedSize image after stack ∧
      HeapSafe image ⟨after, stack :: task :: run.live⟩ ∧
      entered.daif = cpu.daif &&& 13 ∧
      ∀ returned : Cpu, returned.pc = entered.x 30 →
        ∃ left, Reaches code returned left ∧ left.pc = taskTerminated ∧
          left.sp = returned.sp := by
  obtain ⟨stack, made⟩ := createTask_makes hheap reachable hsize hrun hne
  obtain ⟨entered, hreaches, hpc, hsp, hrest⟩ := madeTask_enters made hentry
    htrampoline placed placedEntry mirrors hpc hcurrent hnext context apart
  exact ⟨stack, entered, hreaches, hpc, hsp, made.stackRoom, made.safe, hrest⟩

/-! The first task of a heap, from a context at address 0. -/

def startImage : Image := fun pc =>
  if pc < 0x40000000 then (taskSwitchCode 4096)[(pc - 4096) / 4]?
  else (taskEntryTrampoline 0x400800A0 0x40080200)[(pc - 0x400800A0) / 4]?

theorem startImage_switch :
    Placed startImage 4096 (taskSwitchCode 4096) := by
  refine placed_of_getElem? fun index instruction hindex => ?_
  have hlast : index < 23 := (List.getElem?_eq_some_iff.mp hindex).1
  unfold startImage
  rw [if_pos (by omega), show (4096 + 4 * index - 4096) / 4 = index by omega]
  exact hindex

theorem startImage_trampoline : Placed startImage 0x400800A0
    (taskEntryTrampoline 0x400800A0 0x40080200) := by
  refine placed_of_getElem? fun index instruction hindex => ?_
  unfold startImage
  rw [if_neg (by omega),
    show (0x400800A0 + 4 * index - 0x400800A0) / 4 = index by omega]
  exact hindex

def startCpu (view : View) : Cpu where
  x := fun index => if index = 1 then 0x80000018 else 0
  sp := 0x40100000
  pc := 4096
  nzcv := 0
  daif := 2
  system := fun _ => 0
  words := fun word => ((view (8 * word)).getD 0).toNat
  stackCheck := false

theorem startCpu_mirrors {platform : Platform} {image : KernelImage platform}
    (state : HeapState) :
    Mirrors (startCpu (state.view image)).words (state.view image) := by
  intro address word h
  obtain ⟨⟨_, _, haligned⟩, _⟩ := view_eq_some.mp h
  unfold startCpu
  dsimp only
  rw [show 8 * (address / 8) = address by omega, h]
  rfl

theorem createTask_enters_first :
    ∃ heap budget after stack entered,
      (initHeap smallImage).run (bootHeap bootMemory fun _ => 0) =
        .ok ((), heap) ∧
      (createTask smallImage 0x400800A0 budget 0x40080100 64).run heap =
        .ok (0x80000018, after) ∧
      Reaches startImage (startCpu (after.view smallImage)) entered ∧
      entered.pc = 0x40080100 ∧ entered.sp = stack + alignStackSize 64 ∧
      entered.daif = 0 := by
  obtain ⟨heap, _, hheap, staged, _⟩ :=
    staged_start smallImage bootMemory fun _ => 0
  obtain ⟨budget, after, hrun⟩ := @createTask_listed _ smallImage _ 0x40080100
    64 0x400800A0 _ staged.arranged [] [] [⟨0x80000000, 328, false⟩] []
    (newChunk 0) ⟨0x80000160, 3720, true⟩ (by decide) (by decide)
    (by decide) rfl nofun (by decide) rfl (by decide) (by decide)
    (by decide) (by decide)
  have first : (heapRuns smallImage heap).Reachable (FreesSafely smallImage)
      ⟨heap, []⟩ := .initial rfl
  obtain ⟨stack, entered, hreaches, hpc, hsp, _, _, hdaif, _⟩ :=
    createTask_enters hheap first (by decide) (by decide) (by decide) hrun
      (by decide) startImage_switch startImage_trampoline
      (startCpu_mirrors after) rfl rfl rfl
      (show AtContext 0 from ⟨rfl, by decide⟩)
      (show Apart 0 0x80000018 from .inl (by decide))
  exact ⟨heap, budget, after, stack, entered, hheap, hrun, hreaches, hpc, hsp,
    hdaif.trans (show 2 &&& 13 = 0 by decide)⟩

end Planetoid.Arch
