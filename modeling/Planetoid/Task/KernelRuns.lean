import Planetoid.Task.KernelBoot

namespace Planetoid.Task

open Planetoid Program Memory KernelHeapAllocator Arch

/-! The runs of the machine on the heap. -/

section

variable {α : Type} [DecidableEq α] {all kept freed : List α}

theorem filter_perm_freed (hall : all.Nodup)
    (hnodup : (freed.reverse ++ kept).Nodup) (hfreed : ∀ item ∈ freed, item ∈ all) :
    (all.filter fun item => decide (item ∉ kept)).Perm
      ((all.filter fun item => decide (item ∉ freed.reverse ++ kept)) ++
        freed) := by
  obtain ⟨hreverse, _, hapart⟩ := List.nodup_append.mp hnodup
  have hkept : ∀ item ∈ freed, item ∉ kept := fun item hmem hin =>
    hapart item (List.mem_reverse.mpr hmem) item hin rfl
  have hright : ((all.filter fun item =>
      decide (item ∉ freed.reverse ++ kept)) ++ freed).Nodup := by
    refine List.nodup_append.mpr ⟨hall.filter _,
      List.nodup_reverse.mp hreverse, ?_⟩
    rintro item hin _ hmem rfl
    simp [hmem] at hin
  rw [List.perm_ext_iff_of_nodup (hall.filter _) hright]
  intro item
  by_cases hmem : item ∈ freed
  · simp [hmem, hfreed item hmem, hkept item hmem]
  · simp [hmem]

end

/-- An allocation belongs to one task. -/
theorem allocations_inj {base : TaskRef → Nat}
    (distinct : Function.Injective base) {first second : TaskRef}
    {allocation : Freed} (hfirst : allocation ∈ allocations base first)
    (hsecond : allocation ∈ allocations base second) : first = second := by
  cases allocation with
  | state task =>
      have hsame : task = first ∧ task = second := by
        simpa [allocations] using And.intro hfirst hsecond
      exact hsame.1.symm.trans hsame.2
  | stack stack =>
      have hsame : stack = base first ∧ stack = base second := by
        simpa [allocations] using And.intro hfirst hsecond
      exact distinct (hsame.1.symm.trans hsame.2)

section

variable {platform : Platform} {image : KernelImage platform} {map : CodeMap}
  {start : HeapState} {base : TaskRef → Nat} {launch idle : TaskRef}
  {kernel after : Kernel} {event : KernelEvent}

/-- Whole tasks are to be freed, but that the stack of the first may be gone
already. -/
def WholeTasks (base : TaskRef → Nat) (owed : List Freed) : Prop :=
  ∃ tasks : List TaskRef, owed = tasks.flatMap (releases base) ∨
    ∃ task, owed = .state task :: tasks.flatMap (releases base)

theorem WholeTasks.cases {owed : List Freed} (whole : WholeTasks base owed)
    (hne : owed ≠ []) :
    ∃ task rest, owed = .stack (base task) :: .state task :: rest ∨
      owed = .state task :: rest := by
  obtain ⟨tasks, howed | ⟨task, howed⟩⟩ := whole
  · cases tasks with
    | nil => exact absurd howed hne
    | cons task tasks => exact ⟨task, _, .inl howed⟩
  · exact ⟨task, _, .inr howed⟩

theorem WholeTasks.freeStack {task : TaskRef} {rest : List Freed} {stack : Nat}
    (whole : WholeTasks base (.stack stack :: .state task :: rest)) :
    WholeTasks base (.state task :: rest) := by
  obtain ⟨tasks, howed | ⟨other, howed⟩⟩ := whole
  · cases tasks with
    | nil => cases howed
    | cons first tasks =>
        cases howed
        exact ⟨tasks, .inr ⟨task, rfl⟩⟩
  · cases howed

theorem WholeTasks.freeTask {task : TaskRef} {rest : List Freed}
    (whole : WholeTasks base (.state task :: rest)) : WholeTasks base rest := by
  obtain ⟨tasks, howed | ⟨other, howed⟩⟩ := whole
  · cases tasks <;> cases howed
  · cases howed
    exact ⟨tasks, .inl rfl⟩

structure Kernel.Invariant (image : KernelImage platform) (map : CodeMap)
    (start : HeapState) (base : TaskRef → Nat) (launch idle : TaskRef)
    (kernel : Kernel) : Prop where
  tended : Tended map base launch idle kernel.machine
  distinct : Function.Injective base
  heap : (heapRuns image start).Reachable (FreesSafely image) kernel.heap
  nodup : kernel.made.Nodup
  knows : ∀ task, kernel.machine.Knows task → task ∈ kernel.made
  idle : idle ∈ kernel.made
  thread : ∀ task, kernel.machine.running.thread = some task →
    task ∈ kernel.made
  accounted : kernel.heap.live.Perm
    (kernel.held.map kernel.place ++ kernel.clients)
  records : ∀ task, Freed.state task ∈ kernel.held →
    Records image kernel.heap (kernel.place (.state task))
      (kernel.place (.stack (base task)))
  whole : WholeTasks base kernel.owed

namespace Kernel.Invariant

theorem base_eq (invariant : kernel.Invariant image map start base launch idle) :
    kernel.base = base :=
  funext invariant.tended.stacked.bases

theorem held_eq (invariant : kernel.Invariant image map start base launch idle) :
    kernel.held = (kernel.made.flatMap (allocations base)).filter
      (fun allocation =>
        decide (allocation ∉ kernel.machine.history.state.kfreed)) ++
      kernel.owed := by
  unfold Kernel.held
  rw [invariant.base_eq]

/-- A step of the machine moves what it frees to what is owed. -/
theorem machine (invariant : kernel.Invariant image map start base launch idle)
    {event : Event} {next : Machine} {freed : List Freed}
    (settled : kernel.owed = [])
    (step : Machine.Step map kernel.machine event next)
    (made : ∀ task, event = .add task → task ∈ kernel.made)
    (frees : next.history.state.kfreed =
      freed.reverse ++ kernel.machine.history.state.kfreed)
    (meets : KeepsCleanup kernel.machine event) :
    Kernel.Invariant image map start base launch idle
      { kernel with machine := next, owed := freed } := by
  have tended := invariant.tended.step meets step
  have knows : ∀ task, next.Knows task → task ∈ kernel.made := by
    intro task hknows
    rcases invariant.tended.knows step hknows with hold | hadd
    · exact invariant.knows task hold
    · exact made task hadd
  have hheld : kernel.held.Perm
      (Kernel.held { kernel with machine := next, owed := freed }) := by
    obtain ⟨hnodup, hfreed⟩ := tended.freed invariant.distinct
    rw [frees] at hnodup hfreed
    have hmem : ∀ allocation ∈ freed,
        allocation ∈ kernel.made.flatMap (allocations base) := by
      intro allocation hin
      obtain ⟨task, hterminated, hallocation⟩ := hfreed allocation
        (List.mem_append_left _ (List.mem_reverse.mpr hin))
      exact List.mem_flatMap.mpr
        ⟨task, knows task (.inr hterminated), hallocation⟩
    have hperm := filter_perm_freed
      (allocations_nodup invariant.distinct invariant.nodup) hnodup hmem
    rw [← frees] at hperm
    have hafter : Kernel.held { kernel with machine := next, owed := freed } =
        (kernel.made.flatMap (allocations base)).filter (fun allocation =>
          decide (allocation ∉ next.history.state.kfreed)) ++ freed := by
      rw [← show Kernel.base { kernel with machine := next, owed := freed } =
        base from funext tended.stacked.bases]
      rfl
    rw [hafter, invariant.held_eq, settled, List.append_nil]
    exact hperm
  refine ⟨tended, invariant.distinct, invariant.heap, invariant.nodup, knows,
    invariant.idle, ?_, ?_, ?_, ?_⟩
  · intro task hthread
    rcases invariant.tended.thread_step meets step hthread with
      hsame | hknows | rfl
    · exact invariant.thread task hsame
    · exact knows task hknows
    · exact invariant.idle
  · exact invariant.accounted.trans ((hheld.map _).append_right _)
  · exact fun task hin => invariant.records task (hheld.mem_iff.mpr hin)
  · obtain ⟨tasks, htasks⟩ := invariant.tended.frees meets step
    have hreverse := List.append_cancel_right (frees.symm.trans htasks)
    refine ⟨tasks.reverse, .inl ?_⟩
    rw [← reverse_allocations, ← hreverse, List.reverse_reverse]

theorem new (invariant : kernel.Invariant image map start base launch idle)
    {task : TaskRef} (fresh : task ∉ kernel.made) {allocation : Freed}
    (hnew : allocation ∈ allocations base task) :
    allocation ∉ kernel.made.flatMap (allocations base) ∧
      allocation ∉ kernel.machine.history.state.kfreed := by
  have hother : ∀ other ∈ kernel.made,
      allocation ∉ allocations base other := by
    intro other hmade hold
    exact fresh (allocations_inj invariant.distinct hold hnew ▸ hmade)
  refine ⟨?_, ?_⟩
  · intro hmem
    obtain ⟨other, hmade, hold⟩ := List.mem_flatMap.mp hmem
    exact hother other hmade hold
  · intro hmem
    obtain ⟨other, hterminated, hold⟩ :=
      (invariant.tended.freed invariant.distinct).2 allocation hmem
    exact hother other (invariant.knows other (.inr hterminated)) hold

theorem cleanup_frees
    (invariant : kernel.Invariant image map start base launch idle)
    (step : KernelStep image map kernel .cleanup after) :
    ∃ allocation rest budget heap, kernel.owed = allocation :: rest ∧
      (kfree image budget (kernel.place allocation)).run kernel.heap.heap =
        .ok ((), heap) ∧ WholeTasks base rest ∧
      after = { kernel with
        heap := ⟨heap, kernel.heap.live.erase (kernel.place allocation)⟩
        owed := rest } := by
  have whole := invariant.whole
  cases step with
  | freeStack owes reads h =>
      rename_i task rest budget stack heap
      have hmem : Freed.state task ∈ kernel.held := by
        refine List.mem_append_right _ ?_
        rw [owes]
        exact List.mem_cons_of_mem _ (List.mem_cons_self ..)
      have hbase := invariant.records task hmem
      rw [← invariant.base_eq] at hbase
      obtain rfl := hbase.base.unique reads
      rw [owes] at whole
      exact ⟨_, _, budget, heap, owes, h, whole.freeStack, rfl⟩
  | freeTask owes h =>
      rename_i task rest budget heap
      rw [owes] at whole
      exact ⟨_, _, budget, heap, owes, h, whole.freeTask, rfl⟩

section

variable {memory : MemoryState} {ram : Nat → BitVec 64}
  (hstart : (initHeap image).run (bootHeap memory ram) = .ok ((), start))

include hstart

theorem records_step
    (invariant : kernel.Invariant image map start base launch idle)
    {event : HeapEvent} {next : HeapRun}
    (step : HeapStep image kernel.heap event next)
    (safely : FreesSafely image kernel.heap event)
    (apart : ∀ address byte, event = .store address byte →
      ∀ task, Freed.state task ∈ kernel.held →
        address < kernel.place (.state task) + 272 ∨
          kernel.place (.state task) + 280 ≤ address)
    {held : List Freed} {clients : List Nat}
    (hheld : ∀ allocation ∈ held, allocation ∈ kernel.held)
    (accounted : next.live.Perm (held.map kernel.place ++ clients)) :
    ∀ task, Freed.state task ∈ held →
      Records image next (kernel.place (.state task))
        (kernel.place (.stack (base task))) := by
  intro task hmem
  obtain ⟨layout, keeps⟩ := keeps_of_reachable hstart invariant.heap
  have hbefore : kernel.place (.state task) ∈ kernel.heap.live :=
    invariant.accounted.mem_iff.mpr (List.mem_append_left _
      (List.mem_map_of_mem (hheld _ hmem)))
  have hnext : kernel.place (.state task) ∈ next.live :=
    accounted.mem_iff.mpr (List.mem_append_left _ (List.mem_map_of_mem hmem))
  exact (invariant.records task (hheld _ hmem)).step keeps step safely hbefore
    hnext fun address byte hevent => apart address byte hevent task
      (hheld _ hmem)

theorem cleanup (invariant : kernel.Invariant image map start base launch idle)
    {allocation : Freed} {rest : List Freed} {budget : Nat} {heap : HeapState}
    (howed : kernel.owed = allocation :: rest)
    (h : (kfree image budget (kernel.place allocation)).run kernel.heap.heap =
      .ok ((), heap))
    (safely : FreesSafely image kernel.heap
      (.kfree (kernel.place allocation))) (whole : WholeTasks base rest) :
    Kernel.Invariant image map start base launch idle { kernel with
      heap := ⟨heap, kernel.heap.live.erase (kernel.place allocation)⟩
      owed := rest } := by
  have hheld : kernel.held.Perm (allocation ::
      Kernel.held { kernel with
        heap := ⟨heap, kernel.heap.live.erase (kernel.place allocation)⟩
        owed := rest }) := by
    unfold Kernel.held
    rw [howed]
    exact List.perm_middle
  have hperm := invariant.accounted.trans
    ((hheld.map kernel.place).append_right kernel.clients)
  have hlive : kernel.place allocation ∈ kernel.heap.live :=
    hperm.mem_iff.mpr (List.mem_cons_self ..)
  have herase := hperm.erase (kernel.place allocation)
  rw [List.map_cons, List.cons_append, List.erase_cons_head] at herase
  have step : HeapStep image kernel.heap (.kfree _) _ := .kfree hlive h
  exact ⟨invariant.tended, invariant.distinct, invariant.heap.step safely step,
    invariant.nodup, invariant.knows, invariant.idle, invariant.thread, herase,
    invariant.records_step hstart step safely nofun
      (fun _ hmem => hheld.mem_iff.mpr (List.mem_cons_of_mem _ hmem)) herase,
    whole⟩

theorem cleanup_step
    (invariant : kernel.Invariant image map start base launch idle)
    (step : KernelStep image map kernel .cleanup after)
    (meets : KernelKeeps image kernel .cleanup) :
    after.Invariant image map start base launch idle := by
  obtain ⟨allocation, rest, budget, heap, owes, h, whole, rfl⟩ :=
    invariant.cleanup_frees step
  exact invariant.cleanup hstart owes h (meets _ (by rw [owes]; rfl)) whole

theorem create (invariant : kernel.Invariant image map start base launch idle)
    {task : TaskRef} {budget stackSize address stack : Nat} {heap : HeapState}
    (settled : kernel.owed = []) (fresh : task ∉ kernel.made)
    (size : stackSize < 2 ^ 64)
    (h : (createTask image map.trampoline budget (map.entry task)
      stackSize).run kernel.heap.heap = .ok (address, heap))
    (served : address ≠ 0) (hbase : HasStackBase image heap address stack) :
    Kernel.Invariant image map start base launch idle { kernel with
      heap := ⟨heap, stack :: address :: kernel.heap.live⟩
      made := task :: kernel.made
      place := kernel.placed task address stack } := by
  obtain ⟨layout, keeps⟩ := keeps_of_reachable hstart invariant.heap
  have written : Written image start kernel.heap.live layout
      kernel.heap.heap := ⟨invariant.heap, keeps⟩
  obtain ⟨other, next, made, has⟩ := createTask_written written size h served
  obtain rfl := made.hasStackBase.unique hbase
  have hheld := invariant.held_eq
  rw [settled, List.append_nil] at hheld
  have hafter : Kernel.held { kernel with
      heap := ⟨heap, other :: address :: kernel.heap.live⟩
      made := task :: kernel.made
      place := kernel.placed task address other } =
        allocations base task ++ kernel.held := by
    rw [hheld]
    unfold Kernel.held
    rw [show Kernel.base { kernel with
      heap := ⟨heap, other :: address :: kernel.heap.live⟩
      made := task :: kernel.made
      place := kernel.placed task address other } = base
        from invariant.base_eq]
    dsimp only
    rw [settled, List.append_nil, List.flatMap_cons, List.filter_append]
    refine congrArg (· ++ _) (List.filter_eq_self.mpr fun allocation hmem => ?_)
    exact decide_eq_true (invariant.new fresh hmem).2
  have hold : ∀ allocation ∈ kernel.held,
      allocation ∉ allocations base task := by
    intro allocation hmem hnew
    rw [hheld] at hmem
    exact (invariant.new fresh hnew).1 (List.mem_of_mem_filter hmem)
  have hplaced : ∀ allocation, allocation ∉ allocations base task →
      kernel.placed task address other allocation =
        kernel.place allocation := by
    intro allocation hnot
    unfold Kernel.placed
    rw [invariant.base_eq, Function.update_of_ne, Function.update_of_ne]
    · rintro rfl
      exact hnot (List.mem_cons_self ..)
    · rintro rfl
      exact hnot (List.mem_cons_of_mem _ (List.mem_cons_self ..))
  have hstate : kernel.placed task address other (.state task) = address := by
    unfold Kernel.placed
    rw [Function.update_of_ne (by simp), Function.update_self]
  have hstack : kernel.placed task address other (.stack (base task)) =
      other := by
    unfold Kernel.placed
    rw [invariant.base_eq, Function.update_self]
  refine ⟨invariant.tended, invariant.distinct, has.written.reachable,
    List.nodup_cons.mpr ⟨fresh, invariant.nodup⟩,
    fun known hknows => List.mem_cons_of_mem _ (invariant.knows known hknows),
    List.mem_cons_of_mem _ invariant.idle,
    fun thread hthread => List.mem_cons_of_mem _
      (invariant.thread thread hthread), ?_, ?_, ?_⟩
  · rw [hafter, List.map_append, List.map_congr_left fun allocation hmem =>
      hplaced allocation (hold allocation hmem)]
    unfold allocations
    simp only [List.map_cons, List.map_nil, hstate, hstack]
    exact (List.Perm.swap ..).trans ((invariant.accounted.cons _).cons _)
  · intro known hmem
    rw [hafter] at hmem
    rcases List.mem_append.mp hmem with hnew | hkept
    · obtain rfl : known = task := by simpa [allocations] using hnew
      dsimp only
      rw [hstate, hstack]
      exact made.records has
    · have hknown : known ≠ task := by
        rintro rfl
        exact hold _ hkept (List.mem_cons_self ..)
      dsimp only
      rw [hplaced _ (hold _ hkept), hplaced _ fun hnew => hknown (by
        simpa [allocations, invariant.distinct.eq_iff] using hnew)]
      exact made.records_kept has written (invariant.records known hkept)
        (invariant.accounted.mem_iff.mpr (List.mem_append_left _
          (List.mem_map_of_mem hkept)))
  · exact invariant.whole

theorem kmalloc (invariant : kernel.Invariant image map start base launch idle)
    {heap : HeapState} {budget size result : Nat}
    (h : (kmalloc image budget size).run kernel.heap.heap =
      .ok (result, heap)) :
    Kernel.Invariant image map start base launch idle { kernel with
      heap := ⟨heap, if result = 0 then kernel.heap.live
        else result :: kernel.heap.live⟩
      clients := if result = 0 then kernel.clients
        else result :: kernel.clients } := by
  have step : HeapStep image kernel.heap (.kmalloc size) _ := .kmalloc h
  have safely : FreesSafely image kernel.heap (.kmalloc size) :=
    fun _ h => by cases h
  have accounted : (if result = 0 then kernel.heap.live
      else result :: kernel.heap.live).Perm (kernel.held.map kernel.place ++
        if result = 0 then kernel.clients else result :: kernel.clients) := by
    split
    · exact invariant.accounted
    · exact (invariant.accounted.cons result).trans List.perm_middle.symm
  exact ⟨invariant.tended, invariant.distinct,
    invariant.heap.step safely step, invariant.nodup, invariant.knows,
    invariant.idle, invariant.thread, accounted,
    invariant.records_step hstart step safely nofun (fun _ hmem => hmem)
      accounted, invariant.whole⟩

theorem kfree (invariant : kernel.Invariant image map start base launch idle)
    {heap : HeapState} {budget pointer : Nat} (own : pointer ∈ kernel.clients)
    (h : (kfree image budget pointer).run kernel.heap.heap = .ok ((), heap))
    (safely : FreesSafely image kernel.heap (.kfree pointer)) :
    Kernel.Invariant image map start base launch idle { kernel with
      heap := ⟨heap, kernel.heap.live.erase pointer⟩
      clients := kernel.clients.erase pointer } := by
  have hlive : pointer ∈ kernel.heap.live :=
    invariant.accounted.mem_iff.mpr (List.mem_append_right _ own)
  have step : HeapStep image kernel.heap (.kfree _) _ := .kfree hlive h
  obtain ⟨layout, keeps⟩ := keeps_of_reachable hstart invariant.heap
  have hnodup := invariant.accounted.nodup_iff.mp keeps.nodup
  have hapart : pointer ∉ kernel.held.map kernel.place := fun hmem =>
    (List.nodup_append.mp hnodup).2.2 pointer hmem pointer own rfl
  have herase := invariant.accounted.erase pointer
  rw [List.erase_append_right _ hapart] at herase
  exact ⟨invariant.tended, invariant.distinct, invariant.heap.step safely step,
    invariant.nodup, invariant.knows, invariant.idle, invariant.thread, herase,
    invariant.records_step hstart step safely nofun (fun _ hmem => hmem) herase,
    invariant.whole⟩

theorem step (invariant : kernel.Invariant image map start base launch idle)
    (meets : KernelKeeps image kernel event)
    (step : KernelStep image map kernel event after) :
    after.Invariant image map start base launch idle := by
  cases step with
  | machine settled step made frees =>
      exact invariant.machine settled step made frees meets
  | freeStack owes reads h =>
      exact invariant.cleanup_step hstart (.freeStack owes reads h) meets
  | freeTask owes h =>
      exact invariant.cleanup_step hstart (.freeTask owes h) meets
  | create settled fresh size h served hbase =>
      exact invariant.create hstart settled fresh size h served hbase
  | kmalloc settled h => exact invariant.kmalloc hstart h
  | kfree settled own h => exact invariant.kfree hstart own h meets.1
  | store live inside h =>
      have step := HeapStep.store live inside h
      exact ⟨invariant.tended, invariant.distinct,
        invariant.heap.step meets.1 step, invariant.nodup, invariant.knows,
        invariant.idle, invariant.thread, invariant.accounted,
        invariant.records_step hstart step meets.1 meets.2
          (fun _ hmem => hmem) invariant.accounted, invariant.whole⟩

end

end Kernel.Invariant

theorem Kernel.Initial.invariant {memory : MemoryState} {ram : Nat → BitVec 64}
    (hstart : (initHeap image).run (bootHeap memory ram) = .ok ((), start))
    (initial : kernel.Initial image map start) :
    ∃ launch idle, kernel.Invariant image map start
      (fun task => (kernel.machine.history.state.tasks task).stackBase)
        launch idle := by
  obtain ⟨machine, ⟨launch, idle, budget, launchAddress, idleAddress,
    launchStack, idleStack, heap, hlaunch, hidle, hrun, hlaunchNe, hidleNe,
    hlaunchStack, hidleStack, hheap, hmade, hplaces⟩, settled, hclients⟩ :=
      initial
  obtain ⟨other, another, tended⟩ := machine.tended
  have steady := tended.sound.of_own machine.executes.own
  obtain rfl : launch = other :=
    Option.some.inj (hlaunch.symm.trans steady.launchContext)
  obtain rfl : idle = another :=
    Option.some.inj (hidle.symm.trans steady.idleTask)
  have distinct : Function.Injective fun task =>
      (kernel.machine.history.state.tasks task).stackBase :=
    fun first second => machine.distinct first second
  obtain ⟨_, _, _, _, _, _, hlive, hterminated, _⟩ := machine.history
  have hunknown : ∀ task, ¬ kernel.machine.Knows task := by
    rintro task (hmem | hmem)
    · rw [hlive] at hmem
      cases hmem
    · rw [hterminated] at hmem
      cases hmem
  have hkfreed : kernel.machine.history.state.kfreed = [] := by
    refine List.eq_nil_iff_forall_not_mem.mpr fun allocation hmem => ?_
    obtain ⟨task, hin, _⟩ := (tended.freed distinct).2 allocation hmem
    exact hunknown task (.inr hin)
  obtain ⟨layout, keeps, _⟩ := keeps_of_initHeap hstart
  obtain ⟨_, _, hfirst, hsecond, hreached⟩ :=
    initTasks_reachable ⟨.initial rfl, keeps⟩ hrun hlaunchNe hidleNe
  obtain rfl := hfirst.base.unique hlaunchStack
  obtain rfl := hsecond.base.unique hidleStack
  refine ⟨launch, idle, tended, distinct, ?_, ?_, ?_, ?_, ?_, ?_, ?_, ?_⟩
  · rw [hheap]
    exact hreached
  · rw [hmade]
    simp [steady.launch_ne.symm]
  · exact fun task hknows => absurd hknows (hunknown task)
  · rw [hmade]
    exact List.mem_cons_self ..
  · rw [machine.thread]
    nofun
  · obtain ⟨hlaunchPlace, hlaunchBase, hidlePlace, hidleBase⟩ := hplaces
    unfold Kernel.held
    rw [settled, hclients, hheap, hmade, hkfreed]
    simp only [allocations, List.flatMap_cons, List.flatMap_nil,
      List.append_nil, List.not_mem_nil, not_false_eq_true, decide_true,
      List.filter_true, List.cons_append, List.nil_append, List.map_cons,
      List.map_nil, hlaunchPlace, hlaunchBase, hidlePlace, hidleBase]
    exact (List.Perm.swap ..).trans
      (((List.Perm.swap ..).cons _).cons _)
  · obtain ⟨hlaunchPlace, hlaunchBase, hidlePlace, hidleBase⟩ := hplaces
    intro task hmem
    have hmade' : task = idle ∨ task = launch := by
      unfold Kernel.held at hmem
      rw [settled, hmade] at hmem
      simpa [allocations, hkfreed] using hmem
    rw [hheap]
    change Records image _ _ (kernel.place (.stack (kernel.base task)))
    rcases hmade' with rfl | rfl
    · rw [hidlePlace, hidleBase]
      exact hsecond
    · rw [hlaunchPlace, hlaunchBase]
      exact hfirst
  · exact ⟨[], .inl settled⟩

theorem kernel_invariant {memory : MemoryState} {ram : Nat → BitVec 64}
    (hstart : (initHeap image).run (bootHeap memory ram) = .ok ((), start))
    (reachable : (kernels image map start).Reachable (KernelKeeps image)
      kernel) :
    ∃ base launch idle, kernel.Invariant image map start base launch idle := by
  refine @System.Reachable.holds _ _ _ _ (fun kernel : Kernel =>
    ∃ base launch idle, kernel.Invariant image map start base launch idle) _
      reachable ?_ ?_
  · intro kernel initial
    obtain ⟨launch, idle, invariant⟩ := initial.invariant hstart
    exact ⟨_, launch, idle, invariant⟩
  · rintro before event next ⟨base, launch, idle, invariant⟩ meets step
    exact ⟨base, launch, idle, invariant.step hstart meets step⟩

end

end Planetoid.Task
