import Planetoid.Memory.HeapSafety

namespace Planetoid.Task

open Planetoid Program Memory KernelHeapAllocator

/-! `create_task` and the stack that it gives a task. -/

def alignStackSize (stackSize : Nat) : Nat :=
  let rounded := uint64 (stackSize + 15)
  rounded - rounded % 16

/-! `struct TaskState`: the array `x` of 31 words at 0, `sp` at 248, `pc` at
256, `pstate` at 264, `stack_base` at 272, `stack_size` at 280, `state` at 288,
`wake_tick` at 296, `next_task` at 304, `wait_next` at 312 and `cleanup_next` at
320. -/

def sizeofTaskState : Nat := 328

section

variable {platform : Platform} (image : KernelImage platform)
  (taskEntryTrampoline : Nat)

def storeWord (address value : Nat) : HeapProgram Unit :=
  modifyWord image address fun _ => BitVec.ofNat 64 value

def storeTask (task entryPoint stack alignedStackSize : Nat) :
    HeapProgram Unit := do
  -- the last word of the loop is `sp`
  forEach (fun index => storeWord image (task + 8 * index) 0) 0 32
  storeWord image (task + 8 * 19) entryPoint
  storeWord image (task + 248) (stack + alignedStackSize)
  storeWord image (task + 256) taskEntryTrampoline
  storeWord image (task + 264) 0x5
  storeWord image (task + 272) stack
  storeWord image (task + 280) alignedStackSize
  -- `EState::Ready`
  storeByte image (task + 288) 0
  storeWord image (task + 296) 0
  storeWord image (task + 304) 0
  storeWord image (task + 312) 0

def storeFields (task pc stack alignedStackSize : Nat) :
    HeapProgram Unit := do
  storeWord image (task + 248) (stack + alignedStackSize)
  storeWord image (task + 256) pc
  storeWord image (task + 264) 0x5
  storeWord image (task + 272) stack
  storeWord image (task + 280) alignedStackSize
  storeByte image (task + 288) 0
  storeWord image (task + 296) 0
  storeWord image (task + 304) 0
  storeWord image (task + 312) 0

def storeBlankTask (task stack alignedStackSize : Nat) :
    HeapProgram Unit := do
  forEach (fun index => storeWord image (task + 8 * index) 0) 0 32
  storeFields image task 0 stack alignedStackSize

theorem storeTask_eq (trampoline task entryPoint stack aligned : Nat) :
    storeTask image trampoline task entryPoint stack aligned = (do
      forEach (fun index => storeWord image (task + 8 * index) 0) 0 32
      storeWord image (task + 8 * 19) entryPoint
      storeFields image task trampoline stack aligned) := rfl

def createTask (budget entryPoint stackSize : Nat) : HeapProgram Nat :=
  if entryPoint = 0 ∨ stackSize = 0 then
    pure 0
  else do
    let alignedStackSize := alignStackSize stackSize
    let task ← kmalloc image budget sizeofTaskState
    if task = 0 then
      pure 0
    else do
      let stack ← kmalloc image budget alignedStackSize
      if stack = 0 then do
        kfree image budget task
        pure 0
      else do
        storeTask image taskEntryTrampoline task entryPoint stack
          alignedStackSize
        pure task

structure HasStack (after : HeapState) (task base size sp : Nat) : Prop where
  sp : ∃ word, (loadWord image (task + 248)).run after = .ok (word, after) ∧
    word.toNat = sp
  base : ∃ word, (loadWord image (task + 272)).run after =
    .ok (word, after) ∧ word.toNat = base
  size : ∃ word, (loadWord image (task + 280)).run after =
    .ok (word, after) ∧ word.toNat = size

structure OwnStack (live : List Nat) (after : HeapState)
    (task stackSize base size sp : Nat) : Prop where
  top : sp = base + size
  enough : stackSize ≤ size
  inside : size ≤ recordedSize image after base
  taskInside : sizeofTaskState ≤ recordedSize image after task
  safe : HeapSafe image ⟨after, base :: task :: live⟩
  apart : ∀ place, base ≤ place → place < sp →
    ¬ (task ≤ place ∧ place < task + sizeofTaskState)

def StackRight (live : List Nat) (after : HeapState) (task stackSize : Nat) :
    Prop :=
  ∃ base size sp, HasStack image after task base size sp ∧
    OwnStack image live after task stackSize base size sp ∧ sp % 16 = 0

end

def allocateFirst (size : Nat) : List Chunk → List Chunk
  | [] => []
  | chunk :: rest =>
    if Fits size chunk then place chunk size ++ rest
    else chunk :: allocateFirst size rest

/-- Behind the `TaskState`, the first block that is large enough for the stack
has its payload at a multiple of 16. -/
def AlignedRoom (blocks : List Chunk) (stackSize : Nat) : Prop :=
  alignStackSize stackSize ≤ pageSize - sizeofBlock ∧
    ∃ chunk ∈ (allocateFirst sizeofTaskState blocks).find? fun chunk =>
      Fits (alignStackSize stackSize) chunk,
      chunk.payload % 16 = 0

instance (blocks : List Chunk) (stackSize : Nat) :
    Decidable (AlignedRoom blocks stackSize) :=
  inferInstanceAs (Decidable (_ ∧ ∃ chunk ∈ List.find? _ _, _))

section

variable {before rest blocks : List Chunk} {chunk : Chunk} {size : Nat}

theorem allocateFirst_append (hbefore : ∀ other ∈ before, ¬ Fits size other)
    (hfits : Fits size chunk) :
    allocateFirst size (before ++ chunk :: rest) =
      before ++ place chunk size ++ rest := by
  induction before with
  | nil => exact if_pos hfits
  | cons first front ih =>
      rw [List.forall_mem_cons] at hbefore
      have hnext := ih hbefore.2
      rw [List.cons_append, allocateFirst, if_neg hbefore.1, hnext]
      rfl

theorem allocateFirst_none (hnone : ∀ chunk ∈ blocks, ¬ Fits size chunk) :
    allocateFirst size blocks = blocks := by
  induction blocks with
  | nil => rfl
  | cons first rest ih =>
      rw [List.forall_mem_cons] at hnone
      rw [allocateFirst, if_neg hnone.1, ih hnone.2]

theorem find_append (hbefore : ∀ other ∈ before, ¬ Fits size other)
    (hfits : Fits size chunk) :
    (before ++ chunk :: rest).find? (fun chunk => Fits size chunk) =
      some chunk := by
  rw [List.find?_eq_some_iff_append]
  refine ⟨decide_eq_true hfits, before, rest, rfl, ?_⟩
  intro other hmem
  simpa using hbefore other hmem

theorem find_none (hnone : ∀ chunk ∈ blocks, ¬ Fits size chunk) :
    blocks.find? (fun chunk => Fits size chunk) = none := by
  rw [List.find?_eq_none]
  intro chunk hmem
  simpa using hnone chunk hmem

end

theorem alignStackSize_spec {stackSize : Nat}
    (h : alignStackSize stackSize ≠ 0) (hsize : stackSize < 2 ^ 64) :
    alignStackSize stackSize % 16 = 0 ∧ stackSize ≤ alignStackSize stackSize ∧
      alignSize (alignStackSize stackSize) = alignStackSize stackSize := by
  unfold alignSize alignStackSize uint64 at *
  simp only at *
  omega

section

variable {platform : Platform} {image : KernelImage platform}
  {state : HeapState} {layout : Layout} {chunk : Chunk} {offset : Nat}

/-- The words of `x` and `sp` that the loop of both functions has cleared. -/
def clearedWords (words : Nat → Option (BitVec 64)) (count : Nat) :
    Nat → Option (BitVec 64) := fun offset =>
  if offset % 8 = 0 ∧ offset < 8 * count then some 0 else words offset

/-- The words after the stores to the fields behind the registers, of which
`flags` is the one with `state`. -/
def filledWords (words : Nat → Option (BitVec 64)) (pc stack aligned : Nat)
    (flags : BitVec 64) : Nat → Option (BitVec 64) := fun offset =>
  if offset = 312 then some (BitVec.ofNat 64 0)
  else if offset = 304 then some (BitVec.ofNat 64 0)
  else if offset = 296 then some (BitVec.ofNat 64 0)
  else if offset = 288 then some flags
  else if offset = 280 then some (BitVec.ofNat 64 aligned)
  else if offset = 272 then some (BitVec.ofNat 64 stack)
  else if offset = 264 then some (BitVec.ofNat 64 0x5)
  else if offset = 256 then some (BitVec.ofNat 64 pc)
  else if offset = 248 then some (BitVec.ofNat 64 (stack + aligned))
  else words offset

/-- What every store to a field of the `TaskState` at `task` keeps, with the
words of it that were stored. -/
structure KeptByStores (image : KernelImage platform) (task : Nat)
    (kept : (Nat → Option (BitVec 64)) → HeapState → Prop) : Prop where
  word : ∀ {words state offset}, kept words state → offset % 8 = 0 →
    offset < 320 → ∀ value, ∃ after,
      (storeWord image (task + offset) value).run state = .ok ((), after) ∧
        kept (Function.update words offset (some (BitVec.ofNat 64 value)))
          after
  state : ∀ {words state}, kept words state → ∀ byte, ∃ after word,
    (storeByte image (task + 288) byte).run state = .ok ((), after) ∧
      kept (Function.update words 288 (some (setByte word 0 byte))) after

section

variable {task : Nat} {kept : (Nat → Option (BitVec 64)) → HeapState → Prop}
  {words : Nat → Option (BitVec 64)}

theorem clearedWords_succ (words : Nat → Option (BitVec 64)) (count : Nat) :
    Function.update (clearedWords words count) (8 * count) (some 0) =
      clearedWords words (count + 1) := by
  funext offset
  unfold clearedWords
  rw [Function.update_apply]
  by_cases heq : offset = 8 * count
  · rw [if_pos heq, if_pos (by omega)]
  · have hsame : (offset % 8 = 0 ∧ offset < 8 * count) ↔
        offset % 8 = 0 ∧ offset < 8 * (count + 1) := by omega
    rw [if_neg heq]
    simp only [hsame]

theorem KeptByStores.clearContext (stores : KeptByStores image task kept)
    (h : kept words state) :
    ∃ after, (forEach (fun index =>
        storeWord image (task + 8 * index) 0) 0 32).run state =
          .ok ((), after) ∧ kept (clearedWords words 32) after := by
  have hstart : kept (clearedWords words 0) state := by
    have hnone : clearedWords words 0 = words := by
      funext offset
      exact if_neg (by omega)
    rw [hnone]
    exact h
  refine @run_forEach_leads _ _ _
    (fun count => kept (clearedWords words count)) 0 32 state ?_ hstart
  intro index _ hindex current hcurrent
  have hstore := @KeptByStores.word _ _ _ _ stores _ _ (8 * index) hcurrent
    (by omega) (by omega) 0
  rwa [show BitVec.ofNat 64 0 = 0 from rfl, clearedWords_succ] at hstore

theorem KeptByStores.storeFields (stores : KeptByStores image task kept)
    (h : kept words state) (pc stack aligned : Nat) :
    ∃ after word, (storeFields image task pc stack aligned).run state =
        .ok ((), after) ∧
      kept (filledWords words pc stack aligned (setByte word 0 0)) after := by
  obtain ⟨_, h₁, h⟩ := @stores.word _ _ 248 h rfl (by decide) (stack + aligned)
  obtain ⟨_, h₂, h⟩ := @stores.word _ _ 256 h rfl (by decide) pc
  obtain ⟨_, h₃, h⟩ := @stores.word _ _ 264 h rfl (by decide) 0x5
  obtain ⟨_, h₄, h⟩ := @stores.word _ _ 272 h rfl (by decide) stack
  obtain ⟨_, h₅, h⟩ := @stores.word _ _ 280 h rfl (by decide) aligned
  obtain ⟨_, word, h₆, h⟩ := stores.state h 0
  obtain ⟨_, h₇, h⟩ := @stores.word _ _ 296 h rfl (by decide) 0
  obtain ⟨_, h₈, h⟩ := @stores.word _ _ 304 h rfl (by decide) 0
  obtain ⟨after, h₉, h⟩ := @stores.word _ _ 312 h rfl (by decide) 0
  refine ⟨after, word, ?_, ?_⟩
  · unfold Task.storeFields
    rw [run_bind_ok h₁, run_bind_ok h₂, run_bind_ok h₃, run_bind_ok h₄,
      run_bind_ok h₅, run_bind_ok h₆, run_bind_ok h₇, run_bind_ok h₈]
    exact h₉
  · refine cast (congrArg (kept · after) (funext fun offset => ?_)) h
    simp only [Function.update_apply]
    rfl

theorem KeptByStores.storeTask (stores : KeptByStores image task kept)
    (h : kept words state) (trampoline entry stack aligned : Nat) :
    ∃ after word, (storeTask image trampoline task entry stack aligned).run
        state = .ok ((), after) ∧
      kept (filledWords (Function.update (clearedWords words 32) (8 * 19)
        (some (BitVec.ofNat 64 entry))) trampoline stack aligned
          (setByte word 0 0)) after := by
  obtain ⟨_, hloop, h⟩ := stores.clearContext h
  obtain ⟨_, hentry, h⟩ := @stores.word _ _ (8 * 19) h rfl (by decide) entry
  obtain ⟨after, word, hfields, h⟩ :=
    stores.storeFields h trampoline stack aligned
  refine ⟨after, word, ?_, h⟩
  rw [storeTask_eq, run_bind_ok hloop, run_bind_ok hentry]
  exact hfields

theorem KeptByStores.storeBlankTask (stores : KeptByStores image task kept)
    (h : kept words state) (stack aligned : Nat) :
    ∃ after word, (storeBlankTask image task stack aligned).run state =
        .ok ((), after) ∧
      kept (filledWords (clearedWords words 32) 0 stack aligned
        (setByte word 0 0)) after := by
  obtain ⟨_, hloop, h⟩ := stores.clearContext h
  obtain ⟨after, word, hfields, h⟩ := stores.storeFields h 0 stack aligned
  refine ⟨after, word, ?_, h⟩
  unfold Task.storeBlankTask
  rw [run_bind_ok hloop]
  exact hfields

end

/-- The stores to a `TaskState` in `chunk`, with the words of it that are
known. -/
structure Fills (image : KernelImage platform) (layout : Memory.Layout)
    (chunk : Chunk) (before : HeapState) (words : Nat → Option (BitVec 64))
    (state : HeapState) : Prop where
  arranged : Arranged image state layout
  words : ∀ offset word, words offset = some word →
    state.view image (chunk.payload + offset) = some word
  outside : ∀ address, address < chunk.payload ∨
    chunk.payload + 320 ≤ address →
      state.view image address = before.view image address
  memory : state.memory = before.memory

theorem Fills.refl (arranged : Arranged image state layout) (chunk : Chunk) :
    Fills image layout chunk state (fun _ => none) state :=
  ⟨arranged, nofun, fun _ _ => rfl, rfl⟩

section

variable {before : HeapState} {words : Nat → Option (BitVec 64)}

theorem Fills.modify (fills : Fills image layout chunk before words state)
    (hholds : layout.Holds chunk) (hsize : sizeofTaskState ≤ chunk.size)
    (haligned : offset % 8 = 0) (hoffset : offset < 320)
    (change : BitVec 64 → BitVec 64) :
    ∃ after word,
      (modifyWord image (chunk.payload + offset) change).run state =
        .ok ((), after) ∧
      Fills image layout chunk before
        (Function.update words offset (some (change word))) after := by
  have hpayload := (hholds.aligned fills.arranged).1
  have hplace : (chunk.payload + offset) % 8 = 0 := by
    unfold Chunk.payload sizeofBlock
    omega
  have hlast : chunk.payload + offset < chunk.finish := by
    unfold sizeofTaskState at hsize
    unfold Chunk.finish Chunk.payload
    omega
  obtain ⟨word, hrun, hafter, _, stores⟩ := fills.arranged.modifyPayload
    hholds (Nat.le_add_right ..) hlast hplace change
  refine ⟨_, word, hrun, hafter, ?_, ?_, stores.memory.trans fills.memory⟩
  · intro other value hvalue
    rw [stores.view]
    by_cases heq : other = offset
    · subst heq
      rw [Function.update_self] at hvalue ⊢
      exact hvalue
    · rw [Function.update_of_ne heq] at hvalue
      rw [Function.update_of_ne (by omega)]
      exact fills.words other value hvalue
  · intro address haddress
    rw [stores.view, Function.update_of_ne (by omega)]
    exact fills.outside address haddress

theorem keptByStores_fills (hholds : layout.Holds chunk)
    (hsize : sizeofTaskState ≤ chunk.size) (before : HeapState) :
    KeptByStores image chunk.payload (Fills image layout chunk before) where
  word := by
    intro words state offset fills haligned hoffset value
    obtain ⟨after, _, hrun, hafter⟩ := fills.modify hholds hsize haligned
      hoffset fun _ => BitVec.ofNat 64 value
    exact ⟨after, hrun, hafter⟩
  state := by
    intro words state fills byte
    have hpayload := (hholds.aligned fills.arranged).1
    have hplace : (chunk.payload + 288) % 8 = 0 := by
      unfold Chunk.payload sizeofBlock
      omega
    obtain ⟨after, word, hrun, hafter⟩ := @Fills.modify _ _ _ _ _ 288 _ _
      fills hholds hsize rfl (by decide) fun word => setByte word 0 byte
    refine ⟨after, word, ?_, hafter⟩
    unfold storeByte
    rw [hplace]
    exact hrun

theorem Fills.load (fills : Fills image layout chunk before words state)
    {value : Nat} (hword : words offset = some (BitVec.ofNat 64 value))
    (hvalue : value < 2 ^ 64) :
    ∃ word, (loadWord image (chunk.payload + offset)).run state =
        .ok (word, state) ∧ word.toNat = value :=
  ⟨_, run_loadWord (fills.words _ _ hword), by
    rw [BitVec.toNat_ofNat, Nat.mod_eq_of_lt hvalue]⟩

end

theorem newChunk_payload_mod (page : Nat) :
    (newChunk page).payload % 16 = 8 := by
  unfold Chunk.payload newChunk pageAddress VirtualMemory.virtualMemoryStart
    pageSize sizeofBlock
  simp only
  omega

theorem mem_newTask {page : Nat}
    (h : chunk ∈ place (newChunk page) sizeofTaskState) :
    chunk.free = false ∨ chunk.payload % 16 = 8 := by
  have hroom : pageSize - sizeofBlock ≥ sizeofTaskState + sizeofBlock + 8 := by
    decide
  unfold place newChunk at h
  rw [if_pos hroom, List.mem_pair] at h
  rcases h with rfl | rfl
  · exact .inl rfl
  · right
    unfold Chunk.payload pageAddress VirtualMemory.virtualMemoryStart pageSize
      sizeofBlock sizeofTaskState
    simp only
    omega

/-- An allocation is at a multiple of 16 when the first block that fits is. -/
theorem located_aligned_iff {size result : Nat} {next : Layout}
    (located : Located layout size result next) (hne : result ≠ 0) :
    result % 16 = 0 ↔ size ≤ pageSize - sizeofBlock ∧
      ∃ chunk ∈ layout.blocks.find? fun chunk => Fits size chunk,
        chunk.payload % 16 = 0 := by
  by_cases hfits : size ≤ pageSize - sizeofBlock ∧
      ∃ chunk ∈ layout.blocks, Fits size chunk
  · obtain ⟨before, chunk, rest, hblocks, hchunk, hbefore, rfl, _⟩ :=
      located.found hfits.1 hfits.2
    rw [hblocks, find_append hbefore hchunk]
    simp [hfits.1]
  · have hnone : size ≤ pageSize - sizeofBlock →
        ∀ chunk ∈ layout.blocks, ¬ Fits size chunk := by
      intro hsize chunk hmem hchunk
      exact hfits ⟨hsize, chunk, hmem, hchunk⟩
    obtain ⟨page, rfl, _⟩ := located.paged hnone hne
    rw [newChunk_payload_mod]
    constructor
    · intro h
      cases h
    · rintro ⟨hsize, chunk, hfound, _⟩
      rw [find_none (hnone hsize)] at hfound
      cases hfound

theorem stack_aligned_iff {stackSize task stack : Nat} {first second : Layout}
    (htask : Located layout sizeofTaskState task first) (hne : task ≠ 0)
    (hstack : Located first (alignStackSize stackSize) stack second)
    (hne' : stack ≠ 0) :
    stack % 16 = 0 ↔ AlignedRoom layout.blocks stackSize := by
  rw [located_aligned_iff hstack hne']
  unfold AlignedRoom
  apply and_congr_right'
  have hsize : sizeofTaskState ≤ pageSize - sizeofBlock := by decide
  by_cases hfits : ∃ chunk ∈ layout.blocks, Fits sizeofTaskState chunk
  · obtain ⟨before, chunk, rest, hblocks, hchunk, hbefore, _, rfl⟩ :=
      htask.found hsize hfits
    rw [hblocks, allocateFirst_append hbefore hchunk]
  · have hnone : ∀ chunk ∈ layout.blocks, ¬ Fits sizeofTaskState chunk :=
      fun chunk hmem hchunk => hfits ⟨chunk, hmem, hchunk⟩
    obtain ⟨page, _, hfirst⟩ := htask.paged (fun _ => hnone) hne
    rw [hfirst hsize, allocateFirst_none hnone, List.find?_append]
    cases hfound : layout.blocks.find? fun chunk =>
        Fits (alignStackSize stackSize) chunk with
    | some chunk => rfl
    | none =>
        -- the rest of the new page is not at a multiple of 16 either
        rw [Option.none_or]
        refine iff_of_false ?_ (fun h => by obtain ⟨_, h, _⟩ := h; cases h)
        rintro ⟨chunk, hfound, haligned⟩
        rw [Option.mem_def] at hfound
        have hfits := List.find?_some hfound
        rw [decide_eq_true_eq] at hfits
        rcases mem_newTask (List.mem_of_find?_eq_some hfound) with h | h
        · exact Bool.false_ne_true (h.symm.trans hfits.1)
        · rw [h] at haligned
          cases haligned

section

variable {run : HeapRun} {after : HeapState}
  {budget entryPoint stackSize task taskEntryTrampoline : Nat}

theorem createTask_keeps (keeps : run.Keeps image layout)
    (hsize : stackSize < 2 ^ 64)
    (hrun : (createTask image taskEntryTrampoline budget entryPoint
      stackSize).run run.heap = .ok (task, after)) (hne : task ≠ 0) :
    ∃ stack next taskChunk stackChunk,
      HeapRun.Keeps image ⟨after, stack :: task :: run.live⟩ next ∧
      next.Holds taskChunk ∧ taskChunk.payload = task ∧
      sizeofTaskState ≤ taskChunk.size ∧
      next.Holds stackChunk ∧ stackChunk.payload = stack ∧
      alignStackSize stackSize ≤ stackChunk.size ∧
      (∃ before words flags, Fills image next taskChunk before
        (filledWords words taskEntryTrampoline stack
          (alignStackSize stackSize) flags) after) ∧
      alignStackSize stackSize ≠ 0 ∧
      (stack % 16 = 0 ↔ AlignedRoom layout.blocks stackSize) := by
  unfold createTask at hrun
  split at hrun
  · cases hrun
    exact absurd rfl hne
  obtain ⟨first, middle, htask, hrun⟩ := run_bind_eq_ok.mp hrun
  split at hrun
  · cases hrun
    exact absurd rfl hne
  rename_i hfirst
  obtain ⟨stack, last, hstack, hrun⟩ := run_bind_eq_ok.mp hrun
  split at hrun
  · obtain ⟨_, _, _, hrun⟩ := run_bind_eq_ok.mp hrun
    cases hrun
    exact absurd rfl hne
  rename_i hstackNe
  obtain ⟨_, final, hstores, hrun⟩ := run_bind_eq_ok.mp hrun
  cases hrun
  have hnonzero : alignStackSize stackSize ≠ 0 := by
    intro hzero
    rw [hzero] at hstack
    cases hstack
    exact absurd rfl hstackNe
  obtain ⟨_, _, layout₁, returns₁, served₁, located₁⟩ :=
    kmalloc_located keeps.arranged (by decide : sizeofTaskState ≠ 0)
  cases returns₁.unique htask
  obtain ⟨keeps₁, _⟩ := keeps.kmalloc served₁
  rw [if_neg hfirst] at keeps₁
  obtain ⟨_, _, layout₂, returns₂, served₂, located₂⟩ :=
    kmalloc_located keeps₁.arranged hnonzero
  cases returns₂.unique hstack
  obtain ⟨keeps₂, _⟩ := keeps₁.kmalloc served₂
  rw [if_neg hstackNe] at keeps₂
  rw [(alignStackSize_spec hnonzero hsize).2.2] at served₂ located₂
  have hboth := stack_aligned_iff located₁ hfirst located₂ hstackNe
  obtain ⟨_, takes₁⟩ := served₁.result.resolve_left fun h => hfirst h.1
  obtain ⟨_, takes₂⟩ := served₂.result.resolve_left fun h => hstackNe h.1
  obtain ⟨taskChunk, rfl, htaskSize, hholds₁⟩ := takes₁.added
  obtain ⟨stackChunk, rfl, hstackSize, hholds₂⟩ := takes₂.added
  have htaskHolds : layout₂.Holds taskChunk :=
    (hholds₂ taskChunk).mpr (.inl ((hholds₁ taskChunk).mpr (.inr rfl)))
  obtain ⟨_, _, hrun, fills⟩ := (keptByStores_fills htaskHolds htaskSize
    _).storeTask (.refl keeps₂.arranged taskChunk) taskEntryTrampoline
      entryPoint stackChunk.payload (alignStackSize stackSize)
  cases hrun.symm.trans hstores
  exact ⟨_, layout₂, taskChunk, stackChunk,
    ⟨fills.arranged, keeps₂.coalesced, keeps₂.nodup, keeps₂.held⟩,
    htaskHolds, rfl, htaskSize, (hholds₂ stackChunk).mpr (.inr rfl), rfl,
    hstackSize, ⟨_, _, _, fills⟩, hnonzero, hboth⟩

theorem createTask_listed {state : HeapState}
    (arranged : Arranged image state layout)
    {before rest front behind : List Chunk} {chunk other : Chunk}
    (hentry : entryPoint ≠ 0) (hpositive : stackSize ≠ 0)
    (hsize : stackSize < 2 ^ 64)
    (hblocks : layout.blocks = before ++ chunk :: rest)
    (hbefore : ∀ other ∈ before, ¬ Fits sizeofTaskState other)
    (hfits : Fits sizeofTaskState chunk)
    (hnext : before ++ place chunk sizeofTaskState ++ rest =
      front ++ other :: behind)
    (hfront : ∀ chunk ∈ front, ¬ Fits (alignStackSize stackSize) chunk)
    (hother : Fits (alignStackSize stackSize) other)
    (hnonzero : alignStackSize stackSize ≠ 0)
    (hroom : alignStackSize stackSize ≤ pageSize - sizeofBlock) :
    ∃ budget after, (createTask image taskEntryTrampoline budget entryPoint
      stackSize).run state = .ok (chunk.payload, after) := by
  obtain ⟨_, _, halign⟩ := alignStackSize_spec hnonzero hsize
  obtain ⟨middle, returns₁, arranged₁, _⟩ :=
    arranged.serve hblocks hbefore hfits rfl
  have hlist : ({ layout with
      blocks := before ++ place chunk sizeofTaskState ++ rest } :
        Layout).blocks = front ++ other :: behind := hnext
  obtain ⟨last, returns₂, arranged₂, _⟩ :=
    arranged₁.serve hlist hfront hother (by
      rw [← halign]
      exact alignSize_aligned _)
  obtain ⟨taskChunk, hpayload, htaskSize, hholds₁⟩ :=
    (takes_place arranged.toPaged hblocks hfits).added
  obtain ⟨_, _, _, hholds₂⟩ :=
    (takes_place arranged₁.toPaged hlist hother).added
  have htaskHolds := (hholds₂ taskChunk).mpr
    (.inl ((hholds₁ taskChunk).mpr (.inr rfl)))
  obtain ⟨after, _, hstores, _⟩ := (keptByStores_fills htaskHolds htaskSize
    _).storeTask (.refl arranged₂ taskChunk) taskEntryTrampoline entryPoint
      other.payload (alignStackSize stackSize)
  rw [hpayload] at hstores
  refine ⟨layout.blocks.length + (before ++ place chunk sizeofTaskState ++
    rest).length + 1, after, ?_⟩
  have hfirst : alignSize sizeofTaskState = sizeofTaskState := rfl
  have htask : (kmalloc image (layout.blocks.length + (before ++
      place chunk sizeofTaskState ++ rest).length + 1) sizeofTaskState).run
      state = .ok (chunk.payload, middle) := by
    rw [kmalloc_eq_allocateSmall (by decide) (by decide), hfirst]
    exact returns₁.run_eq (Nat.lt_succ_of_le (Nat.le_add_right ..))
  have hstack : (kmalloc image (layout.blocks.length + (before ++
      place chunk sizeofTaskState ++ rest).length + 1)
      (alignStackSize stackSize)).run middle = .ok (other.payload, last) := by
    rw [kmalloc_eq_allocateSmall hnonzero (by rw [halign]; exact hroom), halign]
    exact returns₂.run_eq (Nat.lt_succ_of_le (Nat.le_add_left ..))
  unfold createTask
  rw [if_neg (by simp [hentry, hpositive])]
  simp only
  rw [run_bind_ok htask, if_neg chunk.payload_ne_zero, run_bind_ok hstack,
    if_neg other.payload_ne_zero, run_bind_ok hstores]
  rfl

theorem finish_lt_of_holds (arranged : Arranged image state layout)
    (hholds : layout.Holds chunk) : chunk.finish < 2 ^ 64 := by
  rcases hholds.mem with hblock | hlarge
  · exact arranged.tiling.finish_lt arranged.toPaged.inPool hblock
  · exact (arranged.large chunk hlarge).finish_lt

theorem HasStack.sp_unique {base size sp base' size' sp' : Nat}
    (first : HasStack image after task base size sp)
    (second : HasStack image after task base' size' sp') : sp = sp' := by
  obtain ⟨word, hload, hword⟩ := first.sp
  obtain ⟨word', hload', hword'⟩ := second.sp
  cases hload.symm.trans hload'
  exact hword.symm.trans hword'

theorem createTask_stack (keeps : run.Keeps image layout)
    (hsize : stackSize < 2 ^ 64)
    (hrun : (createTask image taskEntryTrampoline budget entryPoint
      stackSize).run run.heap = .ok (task, after)) (hne : task ≠ 0) :
    ∃ base size sp, HasStack image after task base size sp ∧
      OwnStack image run.live after task stackSize base size sp ∧
      (sp % 16 = 0 ↔ AlignedRoom layout.blocks stackSize) := by
  obtain ⟨_, next, taskChunk, stackChunk, hkeeps, htask, rfl, htaskSize,
    hstack, rfl, hstackSize, ⟨_, _, _, fills⟩, hnonzero, hiff⟩ :=
    createTask_keeps keeps hsize hrun hne
  obtain ⟨haligned, henough, _⟩ := alignStackSize_spec hnonzero hsize
  have hfinish := finish_lt_of_holds hkeeps.arranged hstack
  have hpayload : stackChunk.finish = stackChunk.payload + stackChunk.size :=
    rfl
  have htaskRecorded := (hkeeps.recordedSize htask).2
  have hstackRecorded := (hkeeps.recordedSize hstack).2
  refine ⟨stackChunk.payload, alignStackSize stackSize,
    stackChunk.payload + alignStackSize stackSize,
    ⟨fills.load rfl (by omega), fills.load rfl (by omega),
      fills.load rfl (by omega)⟩,
    ⟨rfl, henough, ?_, ?_, hkeeps.heapSafe, ?_⟩, ?_⟩
  · rw [hstackRecorded]
    exact hstackSize
  · rw [htaskRecorded]
    exact htaskSize
  · intro place hlow hhigh hin
    have hdistinct : stackChunk.payload ≠ taskChunk.payload := by
      intro heq
      have hnodup := hkeeps.nodup
      rw [heq, List.nodup_cons] at hnodup
      exact hnodup.1 (List.mem_cons_self ..)
    apply hkeeps.heapSafe.disjoint _ (List.mem_cons_self ..) _
      (List.mem_cons_of_mem _ (List.mem_cons_self ..)) hdistinct place
    · exact (hkeeps.inPayload hstack).mpr ⟨hlow, by omega⟩
    · refine (hkeeps.inPayload htask).mpr ⟨hin.1, ?_⟩
      unfold Chunk.finish
      unfold Chunk.payload at hin
      omega
  · rw [← hiff]
    omega

end

end

/-- In every state of a run that frees no block at the start of a page with
`large` set, a new task has the stack that it needs exactly when there is
aligned room for it. -/
theorem stackRight_iff_of_freesSafely {platform : Platform}
    {image : KernelImage platform} {memory : MemoryState}
    {ram : Nat → BitVec 64} {start after : HeapState} {run : HeapRun}
    {blocks : List Chunk}
    {budget entryPoint stackSize task taskEntryTrampoline : Nat}
    (hstart : (initHeap image).run (bootHeap memory ram) = .ok ((), start))
    (reachable : (heapRuns image start).Reachable (FreesSafely image) run)
    (listed : BlockList image run.heap run.heap.firstBlock blocks)
    (hsize : stackSize < 2 ^ 64)
    (hrun : (createTask image taskEntryTrampoline budget entryPoint
      stackSize).run run.heap = .ok (task, after)) (hne : task ≠ 0) :
    (∃ base size sp, HasStack image after task base size sp ∧
      OwnStack image run.live after task stackSize base size sp) ∧
    (StackRight image run.live after task stackSize ↔
      AlignedRoom blocks stackSize) := by
  obtain ⟨layout, keeps⟩ := keeps_of_reachable hstart reachable
  obtain rfl : blocks = layout.blocks := by
    have hblocks := keeps.arranged.headers.blockList
    rw [← keeps.arranged.first] at hblocks
    exact listed.unique hblocks
  obtain ⟨base, size, sp, hasStack, ownStack, hiff⟩ :=
    createTask_stack keeps hsize hrun hne
  refine ⟨⟨base, size, sp, hasStack, ownStack⟩, ?_⟩
  rw [← hiff]
  constructor
  · rintro ⟨_, _, other, hother, _, haligned⟩
    rw [hasStack.sp_unique hother]
    exact haligned
  · exact fun haligned => ⟨base, size, sp, hasStack, ownStack, haligned⟩

/-- The first block has 16 bytes. -/
theorem stackRight_oneLive :
    ∃ start run budget after,
      (initHeap smallImage).run (bootHeap bootMemory fun _ => 0) =
        .ok ((), start) ∧
      (heapRuns smallImage start).Reachable (FreesSafely smallImage) run ∧
      (createTask smallImage 0x400800A0 budget 0x40080100 64).run run.heap =
        .ok (0x80000040, after) ∧
      StackRight smallImage run.live after 0x80000040 64 := by
  obtain ⟨start, booted, hstart, staged₀, _⟩ :=
    staged_start smallImage bootMemory fun _ => 0
  obtain ⟨run, step, staged⟩ := @Staged.kmalloc _ _ _ _ _ [] []
    (newChunk 0) _ _ 16 staged₀ (by decide) rfl nofun (by decide) (by decide)
  have reachable : (heapRuns smallImage start).Reachable
      (FreesSafely smallImage) run :=
    .step (.initial rfl) (freesListed_kmalloc 16).safely step
  obtain ⟨budget, after, hrun⟩ := @createTask_listed _ smallImage _ 0x40080100
    64 0x400800A0 _ staged.arranged [⟨0x80000000, 16, false⟩] []
    [⟨0x80000000, 16, false⟩, ⟨0x80000028, 328, false⟩] []
    ⟨0x80000028, 4032, true⟩ ⟨0x80000188, 3680, true⟩ (by decide) (by decide)
    (by decide) rfl (by decide) (by decide) rfl (by decide) (by decide)
    (by decide) (by decide)
  have listed := staged.arranged.headers.blockList
  rw [← staged.arranged.first] at listed
  refine ⟨start, run, budget, after, hstart, reachable, hrun, ?_⟩
  exact (stackRight_iff_of_freesSafely hstart reachable listed (by decide) hrun
    (by decide)).2.mpr (by decide)

/-- The first task after the initialisation. -/
theorem stackRight_fails_for_first_task :
    ∃ start budget after,
      (initHeap smallImage).run (bootHeap bootMemory fun _ => 0) =
        .ok ((), start) ∧
      (heapRuns smallImage start).Reachable (FreesSafely smallImage)
        ⟨start, []⟩ ∧
      (createTask smallImage 0x400800A0 budget 0x40080100 64).run start =
        .ok (0x80000018, after) ∧
      ¬ StackRight smallImage [] after 0x80000018 64 := by
  obtain ⟨start, booted, hstart, staged, _⟩ :=
    staged_start smallImage bootMemory fun _ => 0
  obtain ⟨budget, after, hrun⟩ := @createTask_listed _ smallImage _ 0x40080100
    64 0x400800A0 _ staged.arranged [] [] [⟨0x80000000, 328, false⟩] []
    (newChunk 0) ⟨0x80000160, 3720, true⟩ (by decide) (by decide)
    (by decide) rfl nofun (by decide) rfl (by decide) (by decide)
    (by decide) (by decide)
  have keeps : HeapRun.Keeps smallImage ⟨start, []⟩ ⟨[newChunk 0], []⟩ :=
    ⟨staged.arranged, List.isChain_singleton _, List.nodup_nil, nofun⟩
  obtain ⟨_, _, sp, hasStack, _, hiff⟩ :=
    createTask_stack keeps (by decide) hrun (by decide)
  refine ⟨start, budget, after, hstart, .initial rfl, hrun, ?_⟩
  rintro ⟨_, _, other, hother, _, haligned⟩
  rw [← hasStack.sp_unique hother, hiff] at haligned
  exact absurd haligned (by decide)

end Planetoid.Task
