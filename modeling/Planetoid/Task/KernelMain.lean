import Planetoid.Task.KernelSafety

namespace Planetoid.Task

open Planetoid Program Memory KernelHeapAllocator Arch

/-! `kernel_main` up to `Scheduler::start`. -/

section

variable {platform : Platform} {image : KernelImage platform} {map : CodeMap}
  {start : HeapState} {kernel : Kernel}

/-- `add_task` is called by the boot thread. -/
theorem reachable_add {memory : MemoryState} {ram : Nat → BitVec 64}
    (hstart : (initHeap image).run (bootHeap memory ram) = .ok ((), start))
    (reachable : (kernels image map start).Reachable (KernelKeeps image)
      kernel) (settled : kernel.owed = [])
    (executes : kernel.machine.Executes map)
    (uncalled : kernel.machine.Uncalled) {task : TaskRef}
    (fresh : kernel.machine.New task) (made : task ∈ kernel.made) :
    (kernels image map start).Reachable (KernelKeeps image) { kernel with
      machine := kernel.machine.withHistory
        ((Operation.addTask task).record kernel.machine.history
          (Scheduler.addTaskEffect kernel.machine.history.state task))
      owed := [] } := by
  obtain ⟨base, launch, idle, invariant⟩ := kernel_invariant hstart reachable
  obtain ⟨layout, reaped, accounted⟩ :=
    (invariant.tended.orderly.of_own executes.own).accounted
  have valid : kernel.machine.history.state.Valid task := by
    by_contra hfreed
    exact fresh.terminated (accounted.freed task hfreed)
  have hrun := Scheduler.run_addTask valid fun head hhead =>
    accounted.wellFormed.valid_ring head (by
      apply List.mem_of_head?
      rw [← accounted.wellFormed.ring.head_eq, hhead])
  have same := Scheduler.linkIn_same
    (kernel.machine.history.state.masked.withState task .ready) task
  have meets : KernelKeeps image kernel (.machine (.add task)) :=
    keepsCleanup_of_apart rfl
  refine reachable.step meets (@KernelStep.machine _ image map kernel
    (.add task) _ [] settled (.add executes uncalled fresh hrun) ?_ same.kfreed)
  rintro _ ⟨⟩
  exact made

/-- `kernel_main` has both of its tasks made and added before `start`, whatever
the memory holds. -/
theorem kernelMain_adds {machine : Machine} (initial : machine.Initial map)
    (entries : ∀ task, map.entry task ≠ 0) {launch idle taskA taskB : TaskRef}
    (hlaunch : machine.history.state.launchContext = some launch)
    (hidle : machine.history.state.idleTask = some idle)
    (distinct : [taskB, taskA, idle, launch].Nodup) (memory : MemoryState)
    (ram : Nat → BitVec 64) :
    ∃ start, ∃ kernel : Kernel,
      (initHeap image).run (bootHeap memory ram) = .ok ((), start) ∧
      (kernels image map start).Reachable (KernelKeeps image) kernel ∧
      kernel.owed = [] ∧ kernel.made = [taskB, taskA, idle, launch] ∧
      kernel.machine.history.live = [taskB, taskA] ∧
      Roomy kernel.heap.heap.memory 9 0x3E8 := by
  obtain ⟨start, kernel, hstart, reachable, hmachine, settled, hmade, _, _, _,
    _, roomy⟩ := @reachable_main _ image _ _ initial entries _ _ _ _ hlaunch
      hidle distinct memory ram
  obtain ⟨hB, hA⟩ := List.nodup_cons.mp distinct
  replace hA := (List.nodup_cons.mp hA).1
  obtain ⟨_, _, _, _, _, _, hlive, hterminated, _⟩ := initial.history
  have uncalled : machine.Uncalled := by
    intro task hthread
    rw [initial.thread] at hthread
    cases hthread
  have freshA : machine.New taskA := by
    refine ⟨hlive ▸ List.not_mem_nil, hterminated ▸ List.not_mem_nil, ?_, ?_⟩
    · rintro h
      exact hA (Option.some.inj (hidle.symm.trans h) ▸ List.mem_cons_self ..)
    · rintro h
      exact hA (Option.some.inj (hlaunch.symm.trans h) ▸
        List.mem_cons_of_mem _ (List.mem_cons_self ..))
  have added := reachable_add hstart reachable settled
    (hmachine ▸ initial.executes) (hmachine ▸ uncalled) (hmachine ▸ freshA)
    (by simp [hmade])
  have same := Scheduler.linkIn_same
    (machine.history.state.masked.withState taskA .ready) taskA
  have freshB : (machine.withHistory ((Operation.addTask taskA).record
      machine.history (Scheduler.addTaskEffect machine.history.state
        taskA))).New taskB := by
    refine ⟨?_, hterminated ▸ List.not_mem_nil, ?_, ?_⟩
    · change taskB ∉ taskA :: machine.history.live
      rw [hlive, List.mem_singleton]
      rintro rfl
      exact hB (List.mem_cons_self ..)
    · rintro h
      have hsame := hidle.symm.trans (same.idleTask.symm.trans h)
      exact hB (Option.some.inj hsame ▸
        List.mem_cons_of_mem _ (List.mem_cons_self ..))
    · rintro h
      have hsame := hlaunch.symm.trans (same.launchContext.symm.trans h)
      exact hB (Option.some.inj hsame ▸ List.mem_cons_of_mem _
        (List.mem_cons_of_mem _ (List.mem_cons_self ..)))
  rw [← hmachine] at freshB
  have last := reachable_add hstart added rfl
    (hmachine ▸ ⟨initial.executes.own, initial.executes.pc⟩)
    (hmachine ▸ uncalled) freshB (by simp [hmade])
  refine ⟨start, _, hstart, last, rfl, hmade, ?_, roomy⟩
  change taskB :: taskA :: kernel.machine.history.live = _
  rw [hmachine, hlive]

end

theorem kernelMain_adds_small :
    ∃ start, ∃ kernel : Kernel,
      (initHeap smallImage).run (bootHeap bootMemory fun _ => 0) =
        .ok ((), start) ∧
      (kernels smallImage smallMap start).Reachable (KernelKeeps smallImage)
        kernel ∧
      kernel.owed = [] ∧ kernel.made = [3, 2, 1, 0] ∧
      kernel.machine.history.live = [3, 2] ∧
      Roomy kernel.heap.heap.memory 9 0x3E8 := by
  refine kernelMain_adds smallMachine_initial ?_ rfl rfl (by decide) bootMemory
    fun _ => 0
  intro task
  exact Nat.ne_of_gt (Nat.lt_of_lt_of_le (by decide) (Nat.le_add_right 100 task))

end Planetoid.Task
