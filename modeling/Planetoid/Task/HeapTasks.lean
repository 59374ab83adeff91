import Planetoid.Memory.HeapStores
import Planetoid.Task.NewTasks

namespace Planetoid.Task

open Planetoid Program Memory KernelHeapAllocator

/-! Tasks are made by a run of the heap. -/

section

variable {platform : Platform} {image : KernelImage platform}
  {start state : HeapState} {live : List Nat} {layout : Memory.Layout}
  {chunk : Chunk} {offset : Nat}

theorem storeWord_written (written : Written image start live layout state)
    (hholds : layout.Holds chunk) (hlive : chunk.payload ∈ live)
    (hsize : sizeofTaskState ≤ chunk.size) (haligned : offset % 8 = 0)
    (hoffset : offset < 320) (value : Nat) :
    ∃ after, (storeWord image (chunk.payload + offset) value).run state =
        .ok ((), after) ∧ Written image start live layout after := by
  have hpayload := (hholds.aligned written.keeps.arranged).1
  have hplace : (chunk.payload + offset) % 8 = 0 := by
    unfold Chunk.payload sizeofBlock
    omega
  have hlast : chunk.payload + offset < chunk.finish := by
    unfold sizeofTaskState at hsize
    unfold Chunk.finish Chunk.payload
    omega
  exact written.store hholds hlive (Nat.le_add_right ..) hlast hplace _

theorem storeState_written (written : Written image start live layout state)
    (hholds : layout.Holds chunk) (hlive : chunk.payload ∈ live)
    (hsize : sizeofTaskState ≤ chunk.size) (byte : BitVec 8) :
    ∃ after, (storeByte image (chunk.payload + 288) byte).run state =
        .ok ((), after) ∧ Written image start live layout after ∧
      HeapStep image ⟨state, live⟩ (.store (chunk.payload + 288) byte)
        ⟨after, live⟩ := by
  have hpayload := (hholds.aligned written.keeps.arranged).1
  have hplace : (chunk.payload + 288) % 8 = 0 := by
    unfold Chunk.payload sizeofBlock
    omega
  have hlast : chunk.payload + 288 < chunk.finish := by
    unfold sizeofTaskState at hsize
    unfold Chunk.finish Chunk.payload
    omega
  obtain ⟨hrun, hafter⟩ := @Written.modify _ _ _ _ _ _ _ _ written hholds hlive
    (Nat.le_add_right ..) hlast hplace 0 (by decide) byte
  exact ⟨_, hrun, hafter, .store hlive
    (written.inPayload hholds (Nat.le_add_right ..) hlast) hrun⟩

theorem keptByStores_written (hholds : layout.Holds chunk)
    (hlive : chunk.payload ∈ live) (hsize : sizeofTaskState ≤ chunk.size) :
    KeptByStores image chunk.payload
      fun _ state => Written image start live layout state where
  word := fun written haligned hoffset value =>
    storeWord_written written hholds hlive hsize haligned hoffset value
  state := by
    intro words state written byte
    obtain ⟨after, hrun, hafter, _⟩ :=
      storeState_written written hholds hlive hsize byte
    exact ⟨after, 0, hrun, hafter⟩

end

section

variable {platform : Platform} {image : KernelImage platform}
  {start state after : HeapState} {live : List Nat} {layout : Memory.Layout}
  {budget aligned task stack : Nat} {stores : Nat → Nat → HeapProgram Unit}

/-- The heap with a `TaskState` at `task`, and with all that `layout` has. -/
structure HasTask (image : KernelImage platform) (start : HeapState)
    (live : List Nat) (layout next : Memory.Layout) (task : Nat)
    (state : HeapState) : Prop where
  written : Written image start live next state
  chunk : ∃ chunk, next.Holds chunk ∧ chunk.payload = task ∧
    sizeofTaskState ≤ chunk.size
  kept : ∀ other, layout.Holds other → next.Holds other

theorem Obtains.hasTask (written : Written image start live layout state)
    (obtains : Obtains image state budget aligned stores task stack after)
    (hstores : ∀ {state live layout chunk},
      Written image start live layout state → layout.Holds chunk →
        chunk.payload ∈ live → sizeofTaskState ≤ chunk.size → ∀ stack,
          ∃ after, (stores chunk.payload stack).run state = .ok ((), after) ∧
            Written image start live layout after) :
    ∃ next, HasTask image start (stack :: task :: live) layout next task
      after := by
  obtain ⟨htaskNe, hstackNe, middle, last, htask, hstack, hrun⟩ := obtains
  obtain ⟨reachable, keeps⟩ := written
  obtain ⟨_, _, layout₁, returns₁, served₁⟩ :=
    kmalloc_returns keeps.arranged sizeofTaskState
  cases returns₁.unique htask
  obtain ⟨keeps₁, _⟩ := keeps.kmalloc served₁
  have reachable₁ := reachable.step (fun _ h => by cases h)
    (HeapStep.kmalloc htask)
  rw [if_neg htaskNe] at keeps₁ reachable₁
  obtain ⟨_, _, layout₂, returns₂, served₂⟩ :=
    kmalloc_returns keeps₁.arranged aligned
  cases returns₂.unique hstack
  obtain ⟨keeps₂, _⟩ := keeps₁.kmalloc served₂
  have reachable₂ := reachable₁.step (fun _ h => by cases h)
    (HeapStep.kmalloc hstack)
  rw [if_neg hstackNe] at keeps₂ reachable₂
  obtain ⟨_, takes₁⟩ := served₁.result.resolve_left fun h => htaskNe h.1
  obtain ⟨_, takes₂⟩ := served₂.result.resolve_left fun h => hstackNe h.1
  obtain ⟨chunk, rfl, hsize, hholds₁⟩ := takes₁.added
  obtain ⟨_, _, _, hholds₂⟩ := takes₂.added
  have hholds : layout₂.Holds chunk :=
    (hholds₂ chunk).mpr (.inl ((hholds₁ chunk).mpr (.inr rfl)))
  obtain ⟨_, hother, hafter⟩ := hstores ⟨reachable₂, keeps₂⟩ hholds
    (List.mem_cons_of_mem _ (List.mem_cons_self ..)) hsize stack
  cases hother.symm.trans hrun
  exact ⟨layout₂, hafter, ⟨chunk, hholds, rfl, hsize⟩, fun other h =>
    (hholds₂ other).mpr (.inl ((hholds₁ other).mpr (.inl h)))⟩

theorem createTask_written {trampoline entry stackSize : Nat}
    (written : Written image start live layout state)
    (hsize : stackSize < 2 ^ 64)
    (hrun : (createTask image trampoline budget entry stackSize).run state =
      .ok (task, after)) (hne : task ≠ 0) :
    ∃ stack next, MadeBeside image ⟨state, live⟩ entry trampoline
        (alignStackSize stackSize) task stack after ∧
      HasTask image start (stack :: task :: live) layout next task after := by
  obtain ⟨stack, obtains, made⟩ :=
    createTask_obtains written.keeps hsize hrun hne
  obtain ⟨next, hasTask⟩ := obtains.hasTask written
    fun written hholds hlive hroom stack => by
      obtain ⟨after, _, hrun, hafter⟩ :=
        @KeptByStores.storeTask _ _ _ _ _ (fun _ => none)
          (keptByStores_written hholds hlive hroom) written trampoline entry
          stack (alignStackSize stackSize)
      exact ⟨after, hrun, hafter⟩
  exact ⟨stack, next, made, hasTask⟩

theorem createBlankTask_written
    (written : Written image start live layout state)
    (hrun : (createBlankTask image budget).run state = .ok (task, after))
    (hne : task ≠ 0) :
    ∃ stack next, MadeBeside image ⟨state, live⟩ 0 0 4096 task stack after ∧
      HasTask image start (stack :: task :: live) layout next task after := by
  obtain ⟨stack, obtains, made⟩ :=
    createBlankTask_obtains written.keeps hrun hne
  obtain ⟨next, hasTask⟩ := obtains.hasTask written
    fun written hholds hlive hroom stack => by
      obtain ⟨after, _, hrun, hafter⟩ :=
        @KeptByStores.storeBlankTask _ _ _ _ _ (fun _ => none)
          (keptByStores_written hholds hlive hroom) written stack 4096
      exact ⟨after, hrun, hafter⟩
  exact ⟨stack, next, made, hasTask⟩

def HasStackBase (image : KernelImage platform) (heap : HeapState)
    (task stack : Nat) : Prop :=
  stack < 2 ^ 64 ∧ heap.view image (task + 272) = some (BitVec.ofNat 64 stack)

theorem HasStackBase.unique {heap : HeapState} {first second : Nat}
    (hfirst : HasStackBase image heap task first)
    (hsecond : HasStackBase image heap task second) : first = second := by
  have hword := Option.some.inj (hfirst.2.symm.trans hsecond.2)
  have hsame := congrArg BitVec.toNat hword
  rwa [BitVec.toNat_ofNat, BitVec.toNat_ofNat, Nat.mod_eq_of_lt hfirst.1,
    Nat.mod_eq_of_lt hsecond.1] at hsame

theorem MadeBeside.hasStackBase {run : HeapRun} {entry pc : Nat}
    (made : MadeBeside image run entry pc aligned task stack after) :
    HasStackBase image after task stack := by
  obtain ⟨cleanupNext, holds⟩ := made.holds
  have hend := made.stackEnd
  exact ⟨by omega, holds.stackBase⟩

structure Records (image : KernelImage platform) (run : HeapRun)
    (task stack : Nat) : Prop where
  room : sizeofTaskState ≤ recordedSize image run.heap task
  base : HasStackBase image run.heap task stack

theorem Records.inPayload {run : HeapRun}
    (records : Records image run task stack) :
    InPayload image run.heap task (task + 272) := by
  have hroom := records.room
  unfold sizeofTaskState at hroom
  unfold InPayload
  omega

theorem Records.step {before next : HeapRun} {event : HeapEvent}
    (records : Records image before task stack)
    (keeps : before.Keeps image layout)
    (step : HeapStep image before event next)
    (safely : FreesSafely image before event) (hbefore : task ∈ before.live)
    (hnext : task ∈ next.live)
    (apart : ∀ address byte, event = .store address byte →
      address < task + 272 ∨ task + 280 ≤ address) :
    Records image next task stack := by
  obtain ⟨later, hkeeps, _, held⟩ := step.keeps keeps safely
  have hword := step.keepsWord keeps safely hbefore hnext records.inPayload
    fun address byte hevent heq => by
      have hout := apart address byte hevent
      omega
  obtain ⟨chunk, hholds, rfl⟩ := keeps.held task hbefore
  have hroom := records.room
  rw [(keeps.recordedSize hholds).2] at hroom
  refine ⟨?_, records.base.1, hword.trans records.base.2⟩
  rw [(hkeeps.recordedSize (held chunk hholds hnext)).2]
  exact hroom

theorem MadeBeside.records {entry pc : Nat} {next : Memory.Layout}
    (made : MadeBeside image ⟨state, live⟩ entry pc aligned task stack after)
    (has : HasTask image start (stack :: task :: live) layout next task
      after) :
    Records image ⟨after, stack :: task :: live⟩ task stack := by
  obtain ⟨chunk, hholds, rfl, hroom⟩ := has.chunk
  refine ⟨?_, made.hasStackBase⟩
  rw [(has.written.keeps.recordedSize hholds).2]
  exact hroom

theorem MadeBeside.records_kept {entry pc other base : Nat}
    {next : Memory.Layout}
    (made : MadeBeside image ⟨state, live⟩ entry pc aligned task stack after)
    (has : HasTask image start (stack :: task :: live) layout next task after)
    (written : Written image start live layout state)
    (records : Records image ⟨state, live⟩ other base)
    (hlive : other ∈ live) :
    Records image ⟨after, stack :: task :: live⟩ other base := by
  have hword := made.payloads other hlive _ records.inPayload
  obtain ⟨chunk, hholds, rfl⟩ := written.keeps.held other hlive
  have hroom := records.room
  rw [(written.keeps.recordedSize hholds).2] at hroom
  refine ⟨?_, records.base.1, hword.trans records.base.2⟩
  rw [(has.written.keeps.recordedSize (has.kept chunk hholds)).2]
  exact hroom

def initTasks (image : KernelImage platform)
    (trampoline budget idleTaskFunc : Nat) : HeapProgram (Nat × Nat) := do
  let launchContext ← createBlankTask image budget
  storeByte image (launchContext + 288) 1
  let idleTask ← createTask image trampoline budget idleTaskFunc 4096
  storeByte image (idleTask + 288) 0
  pure (launchContext, idleTask)

theorem initTasks_reachable {trampoline idleTaskFunc launch idle : Nat}
    (written : Written image start [] layout state)
    (hrun : (initTasks image trampoline budget idleTaskFunc).run state =
      .ok ((launch, idle), after)) (hlaunch : launch ≠ 0) (hidle : idle ≠ 0) :
    ∃ launchStack idleStack,
      Records image ⟨after, [idleStack, idle, launchStack, launch]⟩ launch
        launchStack ∧
      Records image ⟨after, [idleStack, idle, launchStack, launch]⟩ idle
        idleStack ∧
      (heapRuns image start).Reachable (FreesSafely image)
        ⟨after, [idleStack, idle, launchStack, launch]⟩ := by
  unfold initTasks at hrun
  obtain ⟨first, blank, hblank, hrun⟩ := run_bind_eq_ok.mp hrun
  obtain ⟨_, launched, hstate, hrun⟩ := run_bind_eq_ok.mp hrun
  obtain ⟨second, created, hcreate, hrun⟩ := run_bind_eq_ok.mp hrun
  obtain ⟨_, ready, hready, hrun⟩ := run_bind_eq_ok.mp hrun
  cases hrun
  obtain ⟨stack₁, layout₁, made₁, has₁⟩ :=
    createBlankTask_written written hblank hlaunch
  have records₁ := made₁.records has₁
  obtain ⟨chunk₁, hholds₁, rfl, hroom₁⟩ := has₁.chunk
  have hlive₁ : chunk₁.payload ∈ [stack₁, chunk₁.payload] := by simp
  obtain ⟨_, hother, written₂, step₁⟩ :=
    storeState_written has₁.written hholds₁ hlive₁ hroom₁ 1
  cases hother.symm.trans hstate
  have launched₁ := records₁.step has₁.written.keeps step₁
    (fun _ h => by cases h) hlive₁ hlive₁ (by
      rintro _ _ ⟨⟩
      omega)
  obtain ⟨stack₂, layout₂, made₂, has₂⟩ :=
    createTask_written written₂ (by decide) hcreate hidle
  have launched₂ := made₂.records_kept has₂ written₂ launched₁ hlive₁
  have records₂ := made₂.records has₂
  obtain ⟨chunk₂, hholds₂, rfl, hroom₂⟩ := has₂.chunk
  have hmem₁ : chunk₁.payload ∈
      [stack₂, chunk₂.payload, stack₁, chunk₁.payload] := by simp
  have hmem₂ : chunk₂.payload ∈
      [stack₂, chunk₂.payload, stack₁, chunk₁.payload] := by simp
  obtain ⟨_, hother, written₃, step₂⟩ :=
    storeState_written has₂.written hholds₂ hmem₂ hroom₂ 0
  cases hother.symm.trans hready
  refine ⟨stack₁, stack₂, ?_, ?_, written₃.reachable⟩
  · refine launched₂.step has₂.written.keeps step₂ (fun _ h => by cases h)
      hmem₁ hmem₁ ?_
    rintro _ _ ⟨⟩
    -- the two tasks do not overlap
    by_contra hin
    have hne : chunk₁.payload ≠ chunk₂.payload := by omega
    unfold sizeofTaskState at hroom₁ hroom₂
    refine made₂.safe.disjoint _ hmem₁ _ hmem₂ hne (chunk₂.payload + 288)
      (has₂.written.inPayload (has₂.kept _ hholds₁) (by omega) ?_)
      (has₂.written.inPayload hholds₂ (Nat.le_add_right ..) ?_)
    · unfold Chunk.finish Chunk.payload at *
      omega
    · unfold Chunk.finish Chunk.payload
      omega
  · refine records₂.step has₂.written.keeps step₂ (fun _ h => by cases h)
      hmem₂ hmem₂ ?_
    rintro _ _ ⟨⟩
    omega

end

end Planetoid.Task
