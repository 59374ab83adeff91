import Planetoid.Task.KernelRuns

namespace Planetoid.Task

open Planetoid Program Memory KernelHeapAllocator Arch

/-! What the heap has for the tasks in every reachable state. -/

section

variable {platform : Platform} {image : KernelImage platform} {map : CodeMap}
  {start : HeapState} {base : TaskRef → Nat} {launch idle : TaskRef}
  {kernel : Kernel}

/-- What belongs to no terminated task is live. -/
theorem Kernel.Invariant.live_of_made
    (invariant : kernel.Invariant image map start base launch idle)
    {task : TaskRef} (made : task ∈ kernel.made)
    (active : task ∉ kernel.machine.history.terminated) {allocation : Freed}
    (hallocation : allocation ∈ allocations base task) :
    kernel.place allocation ∈ kernel.heap.live := by
  have hkept : allocation ∉ kernel.machine.history.state.kfreed := by
    intro hfreed
    obtain ⟨other, hterminated, hother⟩ :=
      (invariant.tended.freed invariant.distinct).2 allocation hfreed
    rw [allocations_inj invariant.distinct hallocation hother] at active
    exact active hterminated
  refine invariant.accounted.mem_iff.mpr (List.mem_append_left _
    (List.mem_map_of_mem ?_))
  rw [invariant.held_eq]
  exact List.mem_append_left _ (List.mem_filter.mpr
    ⟨List.mem_flatMap.mpr ⟨task, made, hallocation⟩, decide_eq_true hkept⟩)

theorem Kernel.Invariant.safe
    (invariant : kernel.Invariant image map start base launch idle)
    {memory : MemoryState} {ram : Nat → BitVec 64}
    (hstart : (initHeap image).run (bootHeap memory ram) = .ok ((), start)) :
    kernel.Safe image map := by
  obtain ⟨layout, keeps⟩ := keeps_of_reachable hstart invariant.heap
  have tended := invariant.tended
  have hbase := invariant.base_eq
  have howed : ∀ allocation ∈ kernel.owed,
      kernel.place allocation ∈ kernel.heap.live := fun allocation hmem =>
    invariant.accounted.mem_iff.mpr (List.mem_append_left _
      (List.mem_map_of_mem (List.mem_append_right _ hmem)))
  have hfrees : ∀ allocation ∈ kernel.owed, ∃ budget heap,
      (KernelHeapAllocator.kfree image budget (kernel.place allocation)).run
        kernel.heap.heap = .ok ((), heap) := by
    intro allocation hmem
    obtain ⟨budget, ⟨⟨⟩, heap⟩, h⟩ :=
      keeps.callsReturn.2 _ (howed allocation hmem)
    exact ⟨budget, heap, h⟩
  refine ⟨keeps.heapSafe, invariant.accounted, hbase ▸ invariant.records, howed,
    ?_, ?_, ?_, ?_⟩
  · intro hne
    obtain ⟨task, rest, hqueue | hqueue⟩ := invariant.whole.cases hne
    · rw [← hbase] at hqueue
      obtain ⟨budget, heap, h⟩ := hfrees (.stack (kernel.base task)) (by
        rw [hqueue]
        exact List.mem_cons_self ..)
      have hmem : Freed.state task ∈ kernel.held := by
        refine List.mem_append_right _ ?_
        rw [hqueue]
        exact List.mem_cons_of_mem _ (List.mem_cons_self ..)
      have reads := (invariant.records task hmem).base
      rw [← hbase] at reads
      exact ⟨_, .freeStack hqueue reads h⟩
    · obtain ⟨budget, heap, h⟩ := hfrees (.state task) (by
        rw [hqueue]
        exact List.mem_cons_self ..)
      exact ⟨_, .freeTask hqueue h⟩
  · intro task made active
    rw [hbase]
    exact ⟨invariant.live_of_made made active (List.mem_cons_self ..),
      invariant.live_of_made made active
        (List.mem_cons_of_mem _ (List.mem_cons_self ..))⟩
  · intro task hthread
    rw [hbase]
    have own := tended.stacked.running
    rw [hthread] at own
    exact ⟨invariant.thread task hthread,
      fun hterminated => tended.departed task hterminated hthread, own⟩
  · intro task hlive
    exact ⟨invariant.knows task (.inl hlive),
      tended.orderly.live_not_terminated hlive⟩

theorem reachable_create
    (reachable : (kernels image map start).Reachable (KernelKeeps image)
      kernel) (settled : kernel.owed = []) {task : TaskRef}
    (fresh : task ∉ kernel.made) (hentry : map.entry task ≠ 0)
    {used frames : Nat} (roomy : Roomy kernel.heap.heap.memory used frames)
    {layout : Memory.Layout}
    (arranged : Arranged image kernel.heap.heap layout)
    {before rest : List Chunk} {chunk : Chunk}
    (hblocks : layout.blocks = before ++ chunk :: rest)
    (hbefore : ∀ other ∈ before, ¬ Fits sizeofTaskState other)
    (hfits : Fits sizeofTaskState chunk)
    (hpages : used + 2 ≤ VirtualMemory.virtualPageCount)
    (hframes : 6 ≤ frames) :
    ∃ heap,
      (kernels image map start).Reachable (KernelKeeps image) { kernel with
        heap := ⟨heap, (pageAddress used + sizeofBlock) :: chunk.payload ::
          kernel.heap.live⟩
        made := task :: kernel.made
        place := kernel.placed task chunk.payload
          (pageAddress used + sizeofBlock) } ∧
      Arranged image heap {
        blocks := before ++ place chunk sizeofTaskState ++ rest
        larges := ⟨pageAddress used, 4096, false⟩ :: layout.larges } ∧
      Roomy heap.memory (used + 2) (frames - 6) := by
  obtain ⟨heap, hrun, hbase, room⟩ := @makeTask_succeeds _ _ _ _ _ _ roomy
    arranged before rest chunk hblocks hbefore hfits hpages hframes
    (map.entry task) map.trampoline (fun address stack => storeTask image
      map.trampoline address (map.entry task) stack 4096)
    (fun arranged hholds hsize stack => run_storeTask_makes arranged hholds
      hsize map.trampoline (map.entry task) stack 4096)
  have hcreate : (createTask image map.trampoline (layout.blocks.length + 1)
      (map.entry task) 4096).run kernel.heap.heap =
        .ok (chunk.payload, heap) := by
    rw [createTask_eq hentry (by decide)]
    exact hrun _ (Nat.lt_succ_self _)
  have meets : KernelKeeps image kernel (.create task) := trivial
  exact ⟨heap, reachable.step meets (.create settled fresh (by decide) hcreate
    chunk.payload_ne_zero hbase), room⟩

def mainLayout : Memory.Layout where
  blocks := [⟨0x80000000, 328, false⟩, ⟨0x80000160, 328, false⟩,
    ⟨0x800002C0, 328, false⟩, ⟨0x80000420, 328, false⟩,
    ⟨0x80000580, 2664, true⟩]
  larges := [⟨0x80007000, 4096, false⟩, ⟨0x80005000, 4096, false⟩,
    ⟨0x80003000, 4096, false⟩, ⟨0x80001000, 4096, false⟩]

/-- The two calls of `create_task` in `kernel_main`. -/
theorem reachable_main {machine : Machine} (initial : machine.Initial map)
    (entries : ∀ task, map.entry task ≠ 0) {launch idle taskA taskB : TaskRef}
    (hlaunch : machine.history.state.launchContext = some launch)
    (hidle : machine.history.state.idleTask = some idle)
    (distinct : [taskB, taskA, idle, launch].Nodup) (memory : MemoryState)
    (ram : Nat → BitVec 64) :
    ∃ start, ∃ kernel : Kernel,
      (initHeap image).run (bootHeap memory ram) = .ok ((), start) ∧
      (kernels image map start).Reachable (KernelKeeps image) kernel ∧
      kernel.machine = machine ∧ kernel.owed = [] ∧
      kernel.made = [taskB, taskA, idle, launch] ∧
      kernel.place (.state taskA) = 0x800002D8 ∧
      kernel.place (.stack (machine.history.state.tasks taskA).stackBase) =
        0x80005018 ∧
      (∃ idleStack launchStack, kernel.heap.live = [0x80007018, 0x80000438,
        0x80005018, 0x800002D8, idleStack, 0x80000178, launchStack,
        0x80000018]) ∧
      Arranged image kernel.heap.heap mainLayout ∧
      Roomy kernel.heap.heap.memory 9 0x3E8 := by
  obtain ⟨start, heap, hstart, hrun, arranged, roomy⟩ := @initTasks_succeeds _
    image map.trampoline _ (entries idle) memory ram
  obtain ⟨launchStack, idleStack, hinitial⟩ :=
    booted_initial initial hlaunch hidle hstart hrun
  obtain ⟨hB, hA⟩ := List.nodup_cons.mp distinct
  have hne : taskA ≠ taskB := fun heq => hB (heq ▸ List.mem_cons_self ..)
  replace hA := (List.nodup_cons.mp hA).1
  have hcount : 9 ≤ VirtualMemory.virtualPageCount := by
    rw [VirtualMemory.virtualPageCount_eq]
    decide
  obtain ⟨first, reachable₁, arranged₁, roomy₁⟩ := @reachable_create _ image
    map start _ (.initial hinitial) rfl taskA hA (entries taskA) _ _ roomy _ arranged [⟨0x80000000, 328, false⟩, ⟨0x80000160, 328, false⟩] []
    ⟨0x800002C0, 3368, true⟩ rfl (by decide) (by decide) (by omega)
    (by decide)
  obtain ⟨second, reachable₂, arranged₂, roomy₂⟩ := @reachable_create _ image
    map start _ reachable₁ rfl taskB hB (entries taskB) _ _ roomy₁ _
    arranged₁ [⟨0x80000000, 328, false⟩, ⟨0x80000160, 328, false⟩,
      ⟨0x800002C0, 328, false⟩] [] ⟨0x80000420, 3016, true⟩ rfl (by decide)
    (by decide) (by omega) (by decide)
  have hbase : (machine.history.state.tasks taskA).stackBase ≠
      (machine.history.state.tasks taskB).stackBase :=
    fun heq => hne (initial.distinct taskA taskB heq)
  refine ⟨start, _, hstart, reachable₂, rfl, rfl, rfl, ?_, ?_,
    ⟨idleStack, launchStack, rfl⟩, arranged₂, roomy₂⟩
  · simp [Kernel.placed, hne, Chunk.payload, sizeofBlock]
  · simp [Kernel.placed, Kernel.base, booted, hbase, pageAddress,
      VirtualMemory.virtualMemoryStart, pageSize, sizeofBlock]

end

section

variable {platform : Platform} {image : KernelImage platform} {map : CodeMap}
  {start : HeapState} {kernel : Kernel}

end

section

variable {platform : Platform} {image : KernelImage platform} {map : CodeMap}
  {start : HeapState} {kernel : Kernel}

end

end Planetoid.Task
