import Planetoid.Arch.ExceptionStub
import Planetoid.Memory.HeapFrame
import Planetoid.Task.Creation
import Planetoid.Task.Machine

namespace Planetoid.Task

open Planetoid Program Memory KernelHeapAllocator

/-! The tasks that `create_task` and `create_blank_task` leave in memory. -/

def EState.value : EState → BitVec 8
  | .ready => 0
  | .running => 1
  | .sleeping => 2
  | .blocked => 3
  | .terminated => 4

/-- A `TaskState*`. -/
def pointerValue (task : Option TaskRef) : Nat := task.getD 0

/-- The words at `task` are those of a `struct TaskState` with these fields. -/
structure HoldsTask (words : View) (task : TaskRef) (fields : TaskState) :
    Prop where
  x : ∀ index, index < 31 → words (task + 8 * index) =
    some (BitVec.ofNat 64 (fields.cpuContext.x index))
  sp : words (task + 248) =
    some (BitVec.ofNat 64 (Arch.address fields.cpuContext.sp))
  pc : words (task + 256) = some (BitVec.ofNat 64 fields.cpuContext.pc)
  pstate : words (task + 264) =
    some (BitVec.ofNat 64 (Arch.spsrOf fields.cpuContext.pstate))
  stackBase : words (task + 272) = some (BitVec.ofNat 64 fields.stackBase)
  stackSize : words (task + 280) = some (BitVec.ofNat 64 fields.stackSize)
  state : ∃ word, words (task + 288) = some word ∧
    byteOf word 0 = fields.state.value
  wakeTick : words (task + 296) = some (BitVec.ofNat 64 fields.wakeTick)
  nextTask : words (task + 304) =
    some (BitVec.ofNat 64 (pointerValue fields.nextTask))
  waitNext : words (task + 312) =
    some (BitVec.ofNat 64 (pointerValue fields.waitNext))
  cleanupNext : words (task + 320) =
    some (BitVec.ofNat 64 (pointerValue fields.cleanupNext))

/-- A task that was not added yet. `cleanup_next` is not initialised. -/
def newTask (entry start stack size : Nat) (cleanupNext : Option TaskRef) :
    TaskState where
  cpuContext := initialContext entry start ⟨stack, size⟩
  stackBase := stack
  stackSize := size
  state := .ready
  wakeTick := 0
  nextTask := none
  waitNext := none
  cleanupNext := cleanupNext

section

variable {platform : Platform} (image : KernelImage platform)

def createBlankTask (budget : Nat) : HeapProgram Nat := do
  let task ← kmalloc image budget sizeofTaskState
  if task = 0 then
    pure 0
  else do
    let alignedStackSize := alignStackSize 4096
    let stack ← kmalloc image budget alignedStackSize
    if stack = 0 then do
      kfree image budget task
      pure 0
    else do
      storeBlankTask image task stack alignedStackSize
      pure task

end

section

variable {platform : Platform} {image : KernelImage platform}
  {before state : HeapState} {layout : Memory.Layout} {chunk : Chunk}
  {words : Nat → Option (BitVec 64)} {offset : Nat}

theorem Fills.holdsTask {entry pc stack aligned : Nat} {word : BitVec 64}
    (fills : Fills image layout chunk before
      (filledWords words pc stack aligned (setByte word 0 0)) state)
    (hholds : layout.Holds chunk) (hsize : sizeofTaskState ≤ chunk.size)
    (hx : ∀ index, index < 31 → words (8 * index) = some (BitVec.ofNat 64
      (Function.update (fun _ => 0) 19 entry index))) :
    ∃ cleanupNext, HoldsTask (state.view image) chunk.payload
      (newTask entry pc stack aligned cleanupNext) := by
  have hpayload := (hholds.aligned fills.arranged).1
  have hcovers : chunk.Covers (chunk.payload + 320) := by
    unfold sizeofTaskState at hsize
    unfold Chunk.payload Chunk.Covers Chunk.finish
    omega
  have haligned : (chunk.payload + 320) % 8 = 0 := by
    unfold Chunk.payload sizeofBlock
    omega
  obtain ⟨last, hlast⟩ := fills.arranged.toPaged.backed_of_holds hholds _
    hcovers haligned
  have hflags := fills.words 288 (setByte word 0 0) rfl
  refine ⟨some last.toNat, ?_, fills.words 248 _ rfl, fills.words 256 _ rfl,
    ?_, fills.words 272 _ rfl, fills.words 280 _ rfl,
    ⟨_, hflags, byteOf_setByte word (by decide) 0⟩,
    fills.words 296 _ rfl, fills.words 304 _ rfl, fills.words 312 _ rfl, ?_⟩
  · intro index hindex
    apply fills.words
    unfold filledWords
    repeat rw [if_neg (by omega)]
    exact hx index hindex
  · have hpstate : Arch.spsrOf { nzcv := 0, daif := 0 } = 0x5 := by
      unfold Arch.spsrOf A64.Cpu.spsrMode
      rw [Nat.zero_mul, Nat.zero_mul]
    show _ = some (BitVec.ofNat 64 (Arch.spsrOf { nzcv := 0, daif := 0 }))
    rw [hpstate]
    exact fills.words 264 _ rfl
  · rw [hlast]
    exact congrArg some (BitVec.ofNat_toNat 64 last).symm

structure Makes (image : KernelImage platform) (entry pc aligned : Nat)
    (state : HeapState) (layout : Memory.Layout) (chunk : Chunk) (stack : Nat)
    (after : HeapState) : Prop where
  arranged : Arranged image after layout
  holds : ∃ cleanupNext, HoldsTask (after.view image) chunk.payload
    (newTask entry pc stack aligned cleanupNext)
  outside : ∀ address, address < chunk.payload ∨
    chunk.payload + 320 ≤ address →
      after.view image address = state.view image address
  memory : after.memory = state.memory

theorem run_storeTask_makes (arranged : Arranged image state layout)
    (hholds : layout.Holds chunk) (hsize : sizeofTaskState ≤ chunk.size)
    (trampoline entry stack aligned : Nat) :
    ∃ after, (storeTask image trampoline chunk.payload entry stack
        aligned).run state = .ok ((), after) ∧
      Makes image entry trampoline aligned state layout chunk stack after := by
  obtain ⟨after, word, hrun, fills⟩ := (keptByStores_fills hholds hsize
    _).storeTask (.refl arranged chunk) trampoline entry stack aligned
  refine ⟨after, hrun, fills.arranged, ?_, fills.outside, fills.memory⟩
  refine fills.holdsTask hholds hsize fun index hindex => ?_
  rw [Function.update_apply, Function.update_apply]
  by_cases heq : index = 19
  · subst heq
    rfl
  · rw [if_neg (by omega), if_neg heq]
    exact if_pos (by omega)

theorem run_storeBlankTask_makes (arranged : Arranged image state layout)
    (hholds : layout.Holds chunk) (hsize : sizeofTaskState ≤ chunk.size)
    (stack aligned : Nat) :
    ∃ after, (storeBlankTask image chunk.payload stack aligned).run state =
        .ok ((), after) ∧
      Makes image 0 0 aligned state layout chunk stack after := by
  obtain ⟨after, word, hrun, fills⟩ := (keptByStores_fills hholds hsize
    _).storeBlankTask (.refl arranged chunk) stack aligned
  refine ⟨after, hrun, fills.arranged, ?_, fills.outside, fills.memory⟩
  refine fills.holdsTask hholds hsize fun index hindex => ?_
  rw [Function.update_apply]
  split
  · exact if_pos (by omega)
  · exact if_pos (by omega)

def makeTask (image : KernelImage platform) (budget aligned : Nat)
    (stores : Nat → Nat → HeapProgram Unit) : HeapProgram Nat := do
  let task ← kmalloc image budget sizeofTaskState
  if task = 0 then
    pure 0
  else do
    let stack ← kmalloc image budget aligned
    if stack = 0 then do
      kfree image budget task
      pure 0
    else do
      stores task stack
      pure task

theorem createTask_eq {entry stackSize : Nat} (hentry : entry ≠ 0)
    (hstack : stackSize ≠ 0) (trampoline budget : Nat) :
    createTask image trampoline budget entry stackSize =
      makeTask image budget (alignStackSize stackSize) fun task stack =>
        storeTask image trampoline task entry stack
          (alignStackSize stackSize) := by
  unfold createTask
  rw [if_neg (by simp [hentry, hstack])]
  rfl

theorem createBlankTask_eq (budget : Nat) : createBlankTask image budget =
    makeTask image budget (alignStackSize 4096) fun task stack =>
      storeBlankTask image task stack (alignStackSize 4096) := rfl

section

variable {run : HeapRun} {after : HeapState}
  {budget entry pc aligned task : Nat}
  {stores : Nat → Nat → HeapProgram Unit}

structure MadeBeside (image : KernelImage platform) (run : HeapRun)
    (entry pc aligned task stack : Nat) (after : HeapState) : Prop where
  holds : ∃ cleanupNext, HoldsTask (after.view image) task
    (newTask entry pc stack aligned cleanupNext)
  stackRoom : aligned ≤ recordedSize image after stack
  stackEnd : stack + aligned < 2 ^ 64
  /-- The task and its stack are live, among all others. -/
  safe : HeapSafe image ⟨after, stack :: task :: run.live⟩
  payloads : ∀ pointer ∈ run.live, ∀ place,
    InPayload image run.heap pointer place →
      after.view image place = run.heap.view image place

structure Obtains (image : KernelImage platform) (state : HeapState)
    (budget aligned : Nat) (stores : Nat → Nat → HeapProgram Unit)
    (task stack : Nat) (after : HeapState) : Prop where
  task_ne : task ≠ 0
  stack_ne : stack ≠ 0
  calls : ∃ middle last,
    (kmalloc image budget sizeofTaskState).run state = .ok (task, middle) ∧
      (kmalloc image budget aligned).run middle = .ok (stack, last) ∧
      (stores task stack).run last = .ok ((), after)

theorem makeTask_obtains {state : HeapState}
    (hrun : (makeTask image budget aligned stores).run state =
      .ok (task, after)) (hne : task ≠ 0) :
    ∃ stack, Obtains image state budget aligned stores task stack after := by
  unfold makeTask at hrun
  obtain ⟨first, middle, htask, hrun⟩ := run_bind_eq_ok.mp hrun
  split at hrun
  · cases hrun
    exact absurd rfl hne
  obtain ⟨stack, last, hstack, hrun⟩ := run_bind_eq_ok.mp hrun
  split at hrun
  · obtain ⟨_, _, _, hrun⟩ := run_bind_eq_ok.mp hrun
    cases hrun
    exact absurd rfl hne
  rename_i hstackNe
  obtain ⟨_, final, hstores, hrun⟩ := run_bind_eq_ok.mp hrun
  cases hrun
  exact ⟨stack, hne, hstackNe, middle, last, htask, hstack, hstores⟩

theorem Obtains.makes {stack : Nat} (keeps : run.Keeps image layout)
    (obtains : Obtains image run.heap budget aligned stores task stack after)
    (hmakes : ∀ {state layout chunk}, Arranged image state layout →
      layout.Holds chunk → sizeofTaskState ≤ chunk.size → ∀ stack,
        ∃ after, (stores chunk.payload stack).run state = .ok ((), after) ∧
          Makes image entry pc aligned state layout chunk stack after)
    (haligned : aligned ≠ 0 → alignSize aligned = aligned) :
    MadeBeside image run entry pc aligned task stack after := by
  obtain ⟨hfirst, hstackNe, middle, last, htask, hstack, hstores⟩ := obtains
  obtain ⟨_, _, layout₁, returns₁, served₁⟩ :=
    kmalloc_returns keeps.arranged sizeofTaskState
  cases returns₁.unique htask
  obtain ⟨keeps₁, _⟩ := keeps.kmalloc served₁
  rw [if_neg hfirst] at keeps₁
  obtain ⟨_, _, layout₂, returns₂, served₂⟩ :=
    kmalloc_returns keeps₁.arranged aligned
  cases returns₂.unique hstack
  obtain ⟨keeps₂, _⟩ := keeps₁.kmalloc served₂
  rw [if_neg hstackNe] at keeps₂
  have hnonzero : aligned ≠ 0 := by
    rintro rfl
    cases hstack
    exact absurd rfl hstackNe
  rw [haligned hnonzero] at served₂
  obtain ⟨_, takes₁⟩ := served₁.result.resolve_left fun h => hfirst h.1
  obtain ⟨_, takes₂⟩ := served₂.result.resolve_left fun h => hstackNe h.1
  obtain ⟨taskChunk, rfl, htaskSize, hholds₁⟩ := takes₁.added
  obtain ⟨stackChunk, rfl, hstackSize, hholds₂⟩ := takes₂.added
  have htaskRoom : sizeofTaskState ≤ taskChunk.size := htaskSize
  have htaskHolds : layout₂.Holds taskChunk :=
    (hholds₂ taskChunk).mpr (.inl ((hholds₁ taskChunk).mpr (.inr rfl)))
  have hstackHolds : layout₂.Holds stackChunk :=
    (hholds₂ stackChunk).mpr (.inr rfl)
  obtain ⟨_, hother, makes⟩ :=
    hmakes keeps₂.arranged htaskHolds htaskRoom stackChunk.payload
  cases hother.symm.trans hstores
  have keeps₃ : HeapRun.Keeps image
      ⟨after, stackChunk.payload :: taskChunk.payload :: run.live⟩ layout₂ :=
    ⟨makes.arranged, keeps₂.coalesced, keeps₂.nodup, keeps₂.held⟩
  refine ⟨makes.holds, ?_, ?_, keeps₃.heapSafe, ?_⟩
  · rw [(keeps₃.recordedSize hstackHolds).2]
    exact hstackSize
  · have hfinish := finish_lt_of_holds makes.arranged hstackHolds
    unfold Chunk.finish at hfinish
    unfold Chunk.payload
    omega
  · intro pointer hlive place hplace
    obtain ⟨chunk, hholds, rfl⟩ := keeps.held pointer hlive
    obtain ⟨hlow, hhigh⟩ := (keeps.inPayload hholds).mp hplace
    have hkept₁ := (hholds₁ chunk).mpr (.inl hholds)
    have hkept₂ := (hholds₂ chunk).mpr (.inl hkept₁)
    have hfirst := kmalloc_keepsPayloads keeps.arranged htask chunk hholds
      place hlow hhigh
    have hsecond := kmalloc_keepsPayloads keeps₁.arranged hstack chunk hkept₁
      place hlow hhigh
    have hapart : ¬ (taskChunk.payload ≤ place ∧
        place < taskChunk.payload + 320) := by
      intro hin
      have hdistinct : chunk.payload ≠ taskChunk.payload := by
        intro heq
        have hnodup := keeps₁.nodup
        rw [List.nodup_cons] at hnodup
        exact hnodup.1 (heq ▸ hlive)
      refine keeps₂.heapSafe.disjoint chunk.payload ?_ taskChunk.payload ?_
        hdistinct place ((keeps₂.inPayload hkept₂).mpr ⟨hlow, hhigh⟩)
        ((keeps₂.inPayload htaskHolds).mpr ⟨hin.1, ?_⟩)
      · exact List.mem_cons_of_mem _ (List.mem_cons_of_mem _ hlive)
      · exact List.mem_cons_of_mem _ (List.mem_cons_self ..)
      · unfold sizeofTaskState at htaskRoom
        unfold Chunk.finish
        unfold Chunk.payload at hin
        omega
    rw [makes.outside place (by omega), hsecond, hfirst]

end

end

section

variable {platform : Platform} {image : KernelImage platform}
  {memory : MemoryState} {ram : Nat → BitVec 64} {start after : HeapState}
  {run : HeapRun} {layout : Memory.Layout} {budget task : Nat}

theorem createTask_obtains {trampoline entry stackSize : Nat}
    (keeps : run.Keeps image layout) (hsize : stackSize < 2 ^ 64)
    (hrun : (createTask image trampoline budget entry stackSize).run run.heap =
      .ok (task, after)) (hne : task ≠ 0) :
    ∃ stack, Obtains image run.heap budget (alignStackSize stackSize)
        (fun task stack => storeTask image trampoline task entry stack
          (alignStackSize stackSize)) task stack after ∧
      MadeBeside image run entry trampoline (alignStackSize stackSize) task
        stack after := by
  by_cases hrejected : entry = 0 ∨ stackSize = 0
  · unfold createTask at hrun
    rw [if_pos hrejected] at hrun
    cases hrun
    exact absurd rfl hne
  · rw [not_or] at hrejected
    rw [createTask_eq hrejected.1 hrejected.2] at hrun
    obtain ⟨stack, obtains⟩ := makeTask_obtains hrun hne
    refine ⟨stack, obtains, obtains.makes keeps ?_ fun h =>
      (alignStackSize_spec h hsize).2.2⟩
    intro state layout chunk arranged hholds hroom stack
    exact run_storeTask_makes arranged hholds hroom trampoline entry stack _

theorem createBlankTask_obtains (keeps : run.Keeps image layout)
    (hrun : (createBlankTask image budget).run run.heap = .ok (task, after))
    (hne : task ≠ 0) :
    ∃ stack, Obtains image run.heap budget 4096
        (fun task stack => storeBlankTask image task stack 4096) task stack
          after ∧
      MadeBeside image run 0 0 4096 task stack after := by
  rw [createBlankTask_eq] at hrun
  obtain ⟨stack, obtains⟩ := makeTask_obtains hrun hne
  refine ⟨stack, obtains, obtains.makes keeps ?_ fun _ => rfl⟩
  intro state layout chunk arranged hholds hroom stack
  exact run_storeBlankTask_makes arranged hholds hroom stack 4096

/-- In every state of the heap, `create_task` makes a task that starts in the
trampoline, with its entry point in `x19`, on a stack of its own, and leaves
all other allocations as they were. -/
theorem createTask_makes
    (hstart : (initHeap image).run (bootHeap memory ram) = .ok ((), start))
    (reachable : (heapRuns image start).Reachable (FreesSafely image) run)
    {trampoline entry stackSize : Nat} (hsize : stackSize < 2 ^ 64)
    (hrun : (createTask image trampoline budget entry stackSize).run run.heap =
      .ok (task, after)) (hne : task ≠ 0) :
    ∃ stack, MadeBeside image run entry trampoline (alignStackSize stackSize)
      task stack after := by
  obtain ⟨layout, keeps⟩ := keeps_of_reachable hstart reachable
  obtain ⟨stack, _, made⟩ := createTask_obtains keeps hsize hrun hne
  exact ⟨stack, made⟩

/-- A task beside two other allocations, with its stack in the block before
them. -/
theorem createTask_makes_twoLive :
    ∃ start run budget after stack,
      (initHeap smallImage).run (bootHeap bootMemory fun _ => 0) =
        .ok ((), start) ∧
      (heapRuns smallImage start).Reachable (FreesSafely smallImage) run ∧
      run.live = [0x800000C8, 0x80000070] ∧
      (createTask smallImage 0x400800A0 budget 0x40080100 64).run run.heap =
        .ok (0x80000120, after) ∧
      MadeBeside smallImage run 0x40080100 0x400800A0 (alignStackSize 64)
        0x80000120 stack after := by
  obtain ⟨start, _, run, hstart, reached, staged⟩ :=
    reached_twoLive smallImage bootMemory fun _ => 0
  obtain ⟨budget, after, hrun⟩ := @createTask_listed _ smallImage _ 0x40080100
    64 0x400800A0 _ staged.arranged [⟨0x80000000, 64, true⟩,
      ⟨0x80000058, 64, false⟩, ⟨0x800000B0, 64, false⟩] [] []
    [⟨0x80000058, 64, false⟩, ⟨0x800000B0, 64, false⟩,
      ⟨0x80000108, 328, false⟩, ⟨0x80000268, 3456, true⟩]
    ⟨0x80000108, 3808, true⟩ ⟨0x80000000, 64, true⟩ (by decide) (by decide)
    (by decide) rfl (by decide) (by decide) rfl nofun (by decide)
    (by decide) (by decide)
  have safely := reached.weaken fun _ _ h => FreesListed.safely h
  obtain ⟨stack, made⟩ :=
    createTask_makes hstart safely (by decide) hrun (by decide)
  exact ⟨start, run, budget, after, stack, hstart, safely, staged.live, hrun,
    made⟩

theorem createBlankTask_makes
    (hstart : (initHeap image).run (bootHeap memory ram) = .ok ((), start))
    (reachable : (heapRuns image start).Reachable (FreesSafely image) run)
    (hrun : (createBlankTask image budget).run run.heap = .ok (task, after))
    (hne : task ≠ 0) :
    ∃ stack, MadeBeside image run 0 0 4096 task stack after := by
  obtain ⟨layout, keeps⟩ := keeps_of_reachable hstart reachable
  obtain ⟨stack, _, made⟩ := createBlankTask_obtains keeps hrun hne
  exact ⟨stack, made⟩

end

end Planetoid.Task
