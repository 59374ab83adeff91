import Planetoid.Memory.HeapRoom
import Planetoid.Task.Kernel

namespace Planetoid.Task

open Planetoid Program Memory VirtualMemory KernelHeapAllocator Arch

/-! `Scheduler::init` on the heap that `KernelHeapAllocator::init` left. -/

section

variable {platform : Platform} {image : KernelImage platform}
  {state : HeapState} {layout : Memory.Layout} {used frames : Nat}

theorem place_takes {chunk : Chunk} {size : Nat} (hfits : Fits size chunk) :
    ∃ taken ∈ place chunk size, taken.address = chunk.address ∧
      taken.free = false ∧ size ≤ taken.size := by
  unfold place
  split
  · exact ⟨_, List.mem_cons_self .., rfl, rfl, Nat.le_refl size⟩
  · exact ⟨_, List.mem_cons_self .., rfl, rfl, hfits.2⟩

theorem makeTask_succeeds (roomy : Roomy state.memory used frames)
    (arranged : Arranged image state layout) {before rest : List Chunk}
    {chunk : Chunk} (hblocks : layout.blocks = before ++ chunk :: rest)
    (hbefore : ∀ other ∈ before, ¬ Fits sizeofTaskState other)
    (hfits : Fits sizeofTaskState chunk) (hpages : used + 2 ≤ virtualPageCount)
    (hframes : 6 ≤ frames) {entry pc : Nat}
    {stores : Nat → Nat → HeapProgram Unit}
    (hmakes : ∀ {state layout chunk}, Arranged image state layout →
      layout.Holds chunk → sizeofTaskState ≤ chunk.size → ∀ stack,
        ∃ after, (stores chunk.payload stack).run state = .ok ((), after) ∧
          Makes image entry pc 4096 state layout chunk stack after) :
    ∃ after, (∀ budget, layout.blocks.length < budget →
        (makeTask image budget 4096 stores).run state =
          .ok (chunk.payload, after)) ∧
      HasStackBase image after chunk.payload (pageAddress used + sizeofBlock) ∧
      Arranged image after {
        blocks := before ++ place chunk sizeofTaskState ++ rest
        larges := ⟨pageAddress used, 4096, false⟩ :: layout.larges } ∧
      Roomy after.memory (used + 2) (frames - 6) := by
  have hpagesFor : pagesFor (alignSize 4096) = 2 := by decide
  obtain ⟨middle, htask, arranged₁, roomy₁⟩ := @Roomy.serve _ _ _ _ _ _
    sizeofTaskState roomy arranged _ _ _ hblocks hbefore hfits (by decide)
      (by decide)
  obtain ⟨last, hstack, arranged₂, roomy₂⟩ := @Roomy.kmalloc _ _ _ _ _ _ 4096
    roomy₁ arranged₁ (by decide) (by decide) (by rw [hpagesFor]; exact hpages)
    (by rw [hpagesFor]; exact hframes)
  rw [hpagesFor] at roomy₂
  obtain ⟨taken, hmem, haddress, htaken, hsize⟩ := place_takes hfits
  have hpayload : taken.payload = chunk.payload :=
    congrArg (· + sizeofBlock) haddress
  have hblock : taken ∈ before ++ place chunk sizeofTaskState ++ rest :=
    List.mem_append_left _ (List.mem_append_right _ hmem)
  obtain ⟨after, hstores, makes⟩ := hmakes arranged₂
    (.inl ⟨hblock, htaken⟩) hsize (pageAddress used + sizeofBlock)
  rw [hpayload] at hstores
  obtain ⟨cleanupNext, holds⟩ := makes.holds
  rw [hpayload] at holds
  have hstackEnd : pageAddress used + sizeofBlock < 2 ^ 64 := by
    rw [virtualPageCount_eq] at hpages
    unfold pageAddress virtualMemoryStart pageSize sizeofBlock
    omega
  refine ⟨after, fun budget hbudget => ?_, ⟨hstackEnd, holds.stackBase⟩,
    makes.arranged, ?_⟩
  · unfold makeTask
    rw [run_bind_ok (htask budget hbudget), if_neg chunk.payload_ne_zero,
      run_bind_ok (hstack budget), if_neg (by unfold sizeofBlock; omega),
      run_bind_ok hstores]
    rfl
  · rw [makes.memory]
    exact roomy₂

def bootLayout : Memory.Layout where
  blocks := [⟨0x80000000, 328, false⟩, ⟨0x80000160, 328, false⟩,
    ⟨0x800002C0, 3368, true⟩]
  larges := [⟨0x80003000, 4096, false⟩, ⟨0x80001000, 4096, false⟩]

theorem initTasks_succeeds {trampoline idleTaskFunc : Nat}
    (hfunc : idleTaskFunc ≠ 0) (memory : MemoryState)
    (ram : Nat → BitVec 64) :
    ∃ start after, (initHeap image).run (bootHeap memory ram) =
        .ok ((), start) ∧
      (∀ budget, 2 < budget →
        (initTasks image trampoline budget idleTaskFunc).run start =
          .ok ((0x80000018, 0x80000178), after)) ∧
      Arranged image after bootLayout ∧ Roomy after.memory 5 0x3F4 := by
  obtain ⟨start, hstart, arranged, roomy⟩ := initHeap_roomy image memory ram
  have hcount : 5 ≤ virtualPageCount := by
    rw [virtualPageCount_eq]
    decide
  obtain ⟨blank, hblank, _, arranged₁, roomy₁⟩ := @makeTask_succeeds _ _ _ _ _ _
    roomy arranged [] [] (newChunk 0) rfl nofun (by decide) (by omega)
      (by decide) 0 0 (fun task stack => storeBlankTask image task stack 4096)
      (fun arranged hholds hsize stack =>
        run_storeBlankTask_makes arranged hholds hsize stack 4096)
  obtain ⟨launched, _, hstate, arranged₂, _, stores₁⟩ := @Arranged.storePayload
    _ _ _ _ ⟨0x80000000, 328, false⟩ arranged₁ (.inl ⟨by decide, rfl⟩)
    (0x80000018 + 288) (by decide) (by decide) 1
  obtain ⟨created, hcreated, _, arranged₃, roomy₃⟩ := @makeTask_succeeds _ _ _ _ _
    _ (stores₁.memory ▸ roomy₁) arranged₂ [⟨0x80000000, 328, false⟩] []
      ⟨0x80000160, 3720, true⟩ rfl (by decide) (by decide) (by omega)
      (by decide) idleTaskFunc trampoline (fun task stack =>
        storeTask image trampoline task idleTaskFunc stack 4096)
      (fun arranged hholds hsize stack => run_storeTask_makes arranged hholds
        hsize trampoline idleTaskFunc stack 4096)
  obtain ⟨after, _, hready, arranged₄, _, stores₂⟩ := @Arranged.storePayload
    _ _ _ _ ⟨0x80000160, 328, false⟩ arranged₃ (.inl ⟨by decide, rfl⟩)
    (0x80000178 + 288) (by decide) (by decide) 0
  refine ⟨start, after, hstart, fun budget hbudget => ?_, arranged₄,
    stores₂.memory ▸ roomy₃⟩
  have hsize : alignStackSize 4096 = 4096 := by decide
  have hblocks : ([] ++ place (newChunk 0) sizeofTaskState ++ []).length = 2 :=
    by decide
  unfold initTasks
  rw [createBlankTask_eq, createTask_eq hfunc (by decide), hsize,
    run_bind_ok (hblank budget (Nat.lt_of_succ_lt hbudget))]
  change (storeByte image (0x80000018 + 288) 1 >>= _).run blank = _
  rw [run_bind_ok hstate, run_bind_ok (hcreated budget (hblocks ▸ hbudget))]
  change (storeByte image (0x80000178 + 288) 0 >>= _).run created = _
  rw [run_bind_ok hready]
  rfl

def booted (machine : Machine) (launch idle : TaskRef) (heap : HeapState)
    (launchStack idleStack : Nat) : Kernel where
  machine := machine
  heap := ⟨heap, [idleStack, 0x80000178, launchStack, 0x80000018]⟩
  made := [idle, launch]
  place := fun allocation =>
    if allocation = .state launch then 0x80000018
    else if allocation =
        .stack (machine.history.state.tasks launch).stackBase then launchStack
    else if allocation = .state idle then 0x80000178
    else idleStack
  owed := []
  clients := []

theorem booted_initial {map : CodeMap} {machine : Machine}
    (initial : machine.Initial map) {launch idle : TaskRef}
    (hlaunch : machine.history.state.launchContext = some launch)
    (hidle : machine.history.state.idleTask = some idle)
    {start heap : HeapState} {memory : MemoryState} {ram : Nat → BitVec 64}
    (hstart : (initHeap image).run (bootHeap memory ram) = .ok ((), start))
    (hrun : ∀ budget, 2 < budget →
      (initTasks image map.trampoline budget (map.entry idle)).run start =
        .ok ((0x80000018, 0x80000178), heap)) :
    ∃ launchStack idleStack, Kernel.Initial image map start
      (booted machine launch idle heap launchStack idleStack) := by
  obtain ⟨other, another, tended⟩ := initial.tended
  have steady := tended.sound.of_own initial.executes.own
  have hne : launch ≠ idle := by
    rw [Option.some.inj (hlaunch.symm.trans steady.launchContext),
      Option.some.inj (hidle.symm.trans steady.idleTask)]
    exact steady.launch_ne
  have hbase : (machine.history.state.tasks launch).stackBase ≠
      (machine.history.state.tasks idle).stackBase :=
    fun heq => hne (initial.distinct launch idle heq)
  obtain ⟨layout, keeps, _⟩ := keeps_of_initHeap hstart
  obtain ⟨launchStack, idleStack, hfirst, hsecond, _⟩ := initTasks_reachable
    ⟨.initial rfl, keeps⟩ (hrun 3 (by decide)) (by decide) (by decide)
  refine ⟨launchStack, idleStack, initial, ?_, rfl, rfl⟩
  refine ⟨launch, idle, 3, _, _, launchStack, idleStack, heap, hlaunch, hidle,
    hrun 3 (by decide), by decide, by decide, hfirst.base, hsecond.base, rfl,
    rfl, ?_, ?_, ?_, ?_⟩
  · simp [booted]
  · simp [booted, Kernel.base]
  · simp [booted, hne.symm]
  · simp [booted, Kernel.base, hbase.symm]

end

end Planetoid.Task
