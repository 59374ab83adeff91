import Planetoid.Memory.HeapTraces
import Planetoid.Memory.PoolInvariant

namespace Planetoid.Memory

open Planetoid Program Mmu VirtualMemory KernelHeapAllocator

/-! What clients of the heap rely on. -/

section

variable {platform : Platform} (image : KernelImage platform)

def InMappedPage (state : HeapState) (place : Nat) : Prop :=
  virtualMemoryStart ≤ place ∧ place < virtualMemoryEnd ∧
    state.memory.virtualBitmap.test (pageOf place) = true ∧
    ∃ physical, state.translate image place = some physical

def InHeader (block place : Nat) : Prop :=
  block ≤ place ∧ place < block + sizeofBlock

structure HeapSafe (run : HeapRun) : Prop where
  aligned : ∀ pointer ∈ run.live, pointer % 8 = 0
  /-- The headers of the live allocations can be read. -/
  recorded : ∀ pointer ∈ run.live, ∃ size,
    (loadSize image (pointer - sizeofBlock)).run run.heap =
      .ok (size, run.heap)
  mapped : ∀ pointer ∈ run.live, ∀ place,
    InPayload image run.heap pointer place →
      InMappedPage image run.heap place
  nodup : run.live.Nodup
  disjoint : ∀ pointer ∈ run.live, ∀ other ∈ run.live, pointer ≠ other →
    ∀ place, InPayload image run.heap pointer place →
      ¬ InPayload image run.heap other place
  headers : ∀ pointer ∈ run.live, ∀ place,
    InPayload image run.heap pointer place →
      (∀ block, Listed image run.heap block → ¬ InHeader block place) ∧
      ∀ other ∈ run.live, ¬ InHeader (other - sizeofBlock) place
  listed : ∀ block, Listed image run.heap block →
    ∀ place, InHeader block place → InMappedPage image run.heap place

structure Reclaimed (run : HeapRun) (blocks : List Chunk) : Prop where
  listed : BlockList image run.heap run.heap.firstBlock blocks
  free : ∀ chunk ∈ blocks, chunk.free = true
  total : (blocks.map Chunk.extent).sum = pageSize * run.heap.created.length
  returned : ∀ page, page < virtualPageCount →
    (run.heap.memory.virtualBitmap.test page = true ↔
      pageAddress page ∈ run.heap.created)

end

section

variable {platform : Platform} {image : KernelImage platform}
  {state start : HeapState} {layout : Layout} {chunk : Chunk} {run : HeapRun}

theorem inMappedPage_of_used (sound : Sound image state.memory none)
    {page place : Nat} (hpage : page < virtualPageCount)
    (hused : state.memory.virtualBitmap.test page = true)
    (hlow : pageAddress page ≤ place)
    (hhigh : place < pageAddress page + pageSize) :
    InMappedPage image state place := by
  have haligned := pageAddress_mod page
  have hpool : PoolWord (place - place % 8) := by
    rw [virtualPageCount_eq] at hpage
    unfold pageAddress virtualMemoryStart pageSize at *
    unfold PoolWord virtualMemoryStart virtualMemoryEnd
    omega
  have hpageOf := pageOf_eq hlow hhigh
  have hwordPage : pageOf (place - place % 8) = page := by
    unfold pageSize at haligned hhigh
    exact pageOf_eq (by omega) (by unfold pageSize; omega)
  obtain ⟨word, hword⟩ := (view_isSome sound hpool).mpr (by
    rw [hwordPage]
    exact hused)
  obtain ⟨_, physical, htranslate, _⟩ := view_eq_some.mp hword
  have hlevels : level1Of (place - place % 8) = level1Of place ∧
      level2Of (place - place % 8) = level2Of place ∧
      level3Of (place - place % 8) = level3Of place := by
    refine ⟨Fin.ext ?_, Fin.ext ?_, Fin.ext ?_⟩
    · change Mmu.getLevel1Index _ = Mmu.getLevel1Index _
      rw [getLevel1Index_eq, getLevel1Index_eq]
      omega
    · change Mmu.getLevel2Index _ = Mmu.getLevel2Index _
      rw [getLevel2Index_eq, getLevel2Index_eq]
      omega
    · change Mmu.getLevel3Index _ = Mmu.getLevel3Index _
      rw [getLevel3Index_eq, getLevel3Index_eq]
      omega
  refine ⟨?_, ?_, ?_, ?_⟩
  · unfold pageAddress at hlow
    omega
  · have hend := hpool.2.1
    unfold virtualMemoryEnd at hend ⊢
    omega
  · rw [hpageOf]
    exact hused
  · unfold HeapState.translate at htranslate ⊢
    rw [hlevels.1, hlevels.2.1, hlevels.2.2] at htranslate
    simp only at htranslate ⊢
    split at htranslate
    · rename_i htype
      exact ⟨_, if_pos htype⟩
    · cases htranslate

/-- The blocks and the large allocations are in mapped pages. -/
theorem Paged.inMappedPage (paged : Paged image state layout)
    (hmem : chunk ∈ layout.blocks ∨ chunk ∈ layout.larges) {place : Nat}
    (hcovers : chunk.Covers place) : InMappedPage image state place := by
  rcases hmem with hblock | hlarge
  · obtain ⟨page, hpage, hcreated, hlow, hhigh⟩ :=
      paged.page_of_covers hblock hcovers
    exact inMappedPage_of_used paged.sound hpage
      ((paged.used page hpage).mpr (.inl hcreated)) hlow hhigh
  · obtain ⟨page, hpage, hspans, hlow, hhigh⟩ :=
      paged.page_of_spans hlarge (Chunk.spans_of_covers hcovers)
    exact inMappedPage_of_used paged.sound hpage
      ((paged.used page hpage).mpr (.inr ⟨chunk, hlarge, hspans⟩)) hlow hhigh

theorem HeapRun.Keeps.inPayload (keeps : run.Keeps image layout)
    (hholds : layout.Holds chunk) {place : Nat} :
    InPayload image run.heap chunk.payload place ↔
      chunk.payload ≤ place ∧ place < chunk.finish := by
  unfold InPayload
  rw [(keeps.recordedSize hholds).2]
  rfl

theorem Chunk.covers_of_header {chunk : Chunk} {place : Nat}
    (h : InHeader chunk.address place) : chunk.Covers place := by
  unfold InHeader at h
  unfold Chunk.Covers Chunk.finish
  omega

theorem HeapRun.Keeps.heapSafe (keeps : run.Keeps image layout) :
    HeapSafe image run := by
  have paged := keeps.arranged.toPaged
  have hcovers : ∀ {chunk : Chunk} {place : Nat}, layout.Holds chunk →
      InPayload image run.heap chunk.payload place → chunk.Covers place := by
    intro chunk place hholds hin
    obtain ⟨hlow, hhigh⟩ := (keeps.inPayload hholds).mp hin
    exact ⟨Nat.le_trans (Nat.le_add_right ..) hlow, hhigh⟩
  -- a payload meets no header, its own included
  have hheader : ∀ {chunk other : Chunk} {place : Nat}, layout.Holds chunk →
      (other ∈ layout.blocks ∨ other ∈ layout.larges) →
      InPayload image run.heap chunk.payload place →
      ¬ InHeader other.address place := by
    intro chunk other place hholds hother hin hhead
    by_cases heq : other.address = chunk.address
    · have hlow := ((keeps.inPayload hholds).mp hin).1
      rw [heq] at hhead
      exact Nat.not_lt.mpr hlow hhead.2
    · exact paged.apart_of_ne hother hholds.mem heq place
        (Chunk.covers_of_header hhead) (hcovers hholds hin)
  refine ⟨?_, ?_, ?_, keeps.nodup, ?_, ?_, ?_⟩
  · intro pointer hlive
    obtain ⟨chunk, hholds, rfl⟩ := keeps.held pointer hlive
    have haligned := (hholds.aligned keeps.arranged).1
    unfold Chunk.payload sizeofBlock
    omega
  · intro pointer hlive
    obtain ⟨chunk, hholds, rfl⟩ := keeps.held pointer hlive
    exact ⟨chunk.size, (keeps.recordedSize hholds).1⟩
  · intro pointer hlive place hin
    obtain ⟨chunk, hholds, rfl⟩ := keeps.held pointer hlive
    exact paged.inMappedPage hholds.mem (hcovers hholds hin)
  · intro pointer hlive other hother hne place hfirst hsecond
    obtain ⟨chunk, hholds, rfl⟩ := keeps.held pointer hlive
    obtain ⟨chunk', hholds', rfl⟩ := keeps.held other hother
    refine paged.apart_of_ne hholds.mem hholds'.mem ?_ place
      (hcovers hholds hfirst) (hcovers hholds' hsecond)
    intro heq
    exact hne (congrArg (· + sizeofBlock) heq)
  · intro pointer hlive place hin
    obtain ⟨chunk, hholds, rfl⟩ := keeps.held pointer hlive
    constructor
    · intro block hlisted
      obtain ⟨other, hother, rfl⟩ := keeps.listed.mp hlisted
      exact hheader hholds (.inl hother) hin
    · intro other hother
      obtain ⟨chunk', hholds', rfl⟩ := keeps.held other hother
      rw [Chunk.payload_sub]
      exact hheader hholds hholds'.mem hin
  · intro block hlisted place hin
    obtain ⟨other, hother, rfl⟩ := keeps.listed.mp hlisted
    exact paged.inMappedPage (.inl hother) (Chunk.covers_of_header hin)

theorem HeapRun.Keeps.reclaimed (keeps : run.Keeps image layout)
    (exact : run.Exact layout) (hlive : run.live = []) :
    Reclaimed image run layout.blocks := by
  have hnone : ∀ chunk, ¬ layout.Holds chunk := by
    intro chunk hholds
    have hmem := exact chunk hholds
    rw [hlive] at hmem
    cases hmem
  refine ⟨?_, ?_, keeps.arranged.tiling.total, ?_⟩
  · rw [keeps.arranged.first]
    exact keeps.arranged.headers.blockList
  · intro chunk hmem
    cases hfree : chunk.free with
    | true => rfl
    | false => exact absurd (.inl ⟨hmem, hfree⟩) (hnone chunk)
  · intro page hpage
    rw [keeps.arranged.used page hpage]
    constructor
    · rintro (hcreated | ⟨chunk, hlarge, _⟩)
      · exact hcreated
      · exact absurd (.inr hlarge) (hnone chunk)
    · exact .inl

section

variable {memory : MemoryState} {ram : Nat → BitVec 64}
  (hstart : (initHeap image).run (bootHeap memory ram) = .ok ((), start))

include hstart

/-- The heap is safe as long as no block at the start of a page is freed with
`large` set. -/
theorem heapSafe_of_freesSafely
    (reachable : (heapRuns image start).Reachable (FreesSafely image) run) :
    HeapSafe image run ∧ CallsReturn image run := by
  obtain ⟨layout, keeps⟩ := keeps_of_reachable hstart reachable
  exact ⟨keeps.heapSafe, keeps.callsReturn⟩

/-- The list tiles the pages of the heap. -/
theorem tilesPages_of_freesListed
    (reachable : (heapRuns image start).Reachable (FreesListed image) run) :
    (∃ blocks, TilesPages image run.heap blocks) ∧ CallsReturn image run := by
  obtain ⟨layout, keeps, _⟩ := exact_of_reachable hstart reachable
  exact ⟨⟨layout.blocks, keeps.arranged.tilesPages keeps.coalesced⟩,
    keeps.callsReturn⟩

/-- `kfree` reclaims everything. -/
theorem reclaimed_of_freesListed
    (reachable : (heapRuns image start).Reachable (FreesListed image) run) :
    CallsReturn image run ∧
      (run.live = [] → ∃ blocks, Reclaimed image run blocks) := by
  obtain ⟨layout, keeps, exact⟩ := exact_of_reachable hstart reachable
  exact ⟨keeps.callsReturn,
    fun hlive => ⟨layout.blocks, keeps.reclaimed exact hlive⟩⟩

end

end

/-! Short runs. -/

section

variable {platform : Platform} (image : KernelImage platform)

theorem reached_oneLive (boot : MemoryState) (ram : Nat → BitVec 64) :
    ∃ start booted run, (initHeap image).run (bootHeap boot ram) =
        .ok ((), start) ∧
      (heapRuns image start).Reachable (FreesListed image) run ∧
      Staged image run booted [⟨pageAddress 0, 64, false⟩,
          ⟨pageAddress 0 + 88, 3984, true⟩] [pageAddress 0 + 24]
        [(pageAddress 0 + 9, 0)] := by
  obtain ⟨start, booted, hstart, staged, _⟩ := staged_start image boot ram
  obtain ⟨first, hfirst, firstStaged⟩ := @Staged.kmalloc _ _ _ _ _ [] []
    (newChunk 0) _ _ 64 staged (by decide) rfl nofun (by decide) (by decide)
  exact ⟨start, booted, first, hstart,
    .step (.initial rfl) (freesListed_kmalloc 64) hfirst, firstStaged⟩

theorem reached_twoLive (boot : MemoryState) (ram : Nat → BitVec 64) :
    ∃ start booted run, (initHeap image).run (bootHeap boot ram) =
        .ok ((), start) ∧
      (heapRuns image start).Reachable (FreesListed image) run ∧
      Staged image run booted [⟨pageAddress 0, 64, true⟩,
          ⟨pageAddress 0 + 88, 64, false⟩, ⟨pageAddress 0 + 176, 64, false⟩,
          ⟨pageAddress 0 + 264, 3808, true⟩]
        [pageAddress 0 + 200, pageAddress 0 + 112]
        [(pageAddress 0 + 113, 2), (pageAddress 0 + 25, 1),
          (pageAddress 0 + 9, 0)] := by
  obtain ⟨start, booted, run₁, hstart, reached, staged₁⟩ :=
    reached_oneLive image boot ram
  obtain ⟨run₂, step₂, staged₂⟩ := @Staged.store _ _ _ _ _
    ⟨pageAddress 0, 64, false⟩ _ _ staged₁ (by decide) rfl (by decide)
    (pageAddress 0 + 25) (by decide) (by decide) (by decide) 1
  obtain ⟨run₃, step₃, staged₃⟩ := @Staged.kmalloc _ _ _ _ _
    [⟨pageAddress 0, 64, false⟩] [] ⟨pageAddress 0 + 88, 3984, true⟩ _ _ 64
    staged₂ (by decide) rfl (by decide) (by decide) (by decide)
  obtain ⟨run₄, step₄, staged₄⟩ := @Staged.store _ _ _ _ _
    ⟨pageAddress 0 + 88, 64, false⟩ _ _ staged₃ (by decide) rfl (by decide)
    (pageAddress 0 + 113) (by decide) (by decide) (by decide) 2
  obtain ⟨run₅, step₅, staged₅⟩ := @Staged.kmalloc _ _ _ _ _
    [⟨pageAddress 0, 64, false⟩, ⟨pageAddress 0 + 88, 64, false⟩] []
    ⟨pageAddress 0 + 176, 3896, true⟩ _ _ 64 staged₄ (by decide) rfl
    (by decide) (by decide) (by decide)
  obtain ⟨run₆, step₆, staged₆⟩ := @Staged.kfree _ _ _ _ _ []
    [⟨pageAddress 0 + 88, 64, false⟩, ⟨pageAddress 0 + 176, 64, false⟩,
      ⟨pageAddress 0 + 264, 3808, true⟩] ⟨pageAddress 0, 64, false⟩ _ _ staged₅
    rfl (by decide) (by decide) (by decide)
  have reached₃ := (reached.step (freesListed_store _ _) step₂).step
    (freesListed_kmalloc 64) step₃
  have reached₅ := (reached₃.step (freesListed_store _ _) step₄).step
    (freesListed_kmalloc 64) step₅
  exact ⟨start, booted, run₆, hstart, reached₅.step
    (staged₅.freesListed (by decide) (by decide)) step₆, staged₆⟩

end

theorem heapSafe_twoLive :
    ∃ start run, (initHeap smallImage).run (bootHeap bootMemory fun _ => 0) =
        .ok ((), start) ∧
      (heapRuns smallImage start).Reachable (FreesSafely smallImage) run ∧
      run.live = [pageAddress 0 + 200, pageAddress 0 + 112] ∧
      HoldsByte (run.heap.view smallImage) (pageAddress 0 + 113) 2 ∧
      HeapSafe smallImage run ∧ CallsReturn smallImage run := by
  obtain ⟨start, _, run, hstart, reachable, staged⟩ :=
    reached_twoLive smallImage bootMemory fun _ => 0
  have safely := reachable.weaken fun _ _ h => FreesListed.safely h
  exact ⟨start, run, hstart, safely, staged.live,
    staged.bytes _ (List.mem_cons_self ..),
    heapSafe_of_freesSafely hstart safely⟩

/-- A block at the start of the second page has a client's byte in `large`. Its
page is returned while the list still has the block. -/
theorem heapSafe_fails_for_stale_large :
    ∃ start run, (initHeap smallImage).run (bootHeap bootMemory fun _ => 0) =
        .ok ((), start) ∧
      (heapRuns smallImage start).Reachable System.unguarded run ∧
      ¬ HeapSafe smallImage run := by
  obtain ⟨start, booted, hstart, staged₀, hpage, hcount⟩ :=
    staged_start smallImage bootMemory fun _ => 0
  -- two blocks of a page each
  obtain ⟨run₁, step₁, staged₁⟩ := @Staged.kmalloc _ _ _ _ _ [] []
    (newChunk 0) _ _ 4072 staged₀ (by decide) rfl nofun (by decide) (by decide)
  obtain ⟨run₂, step₂, staged₂⟩ := @Staged.store _ _ _ _ _
    ⟨0x80000000, 4072, false⟩ _ _ staged₁ (by decide) rfl (by decide)
    0x800007F1 (by decide) (by decide) (by decide) 0
  obtain ⟨run₃, grown, step₃, staged₃⟩ := @Staged.grow _ _ _ _ _ [] _ _ 4072
    staged₂ (by decide) ⟨0x80000000, 4072, false⟩ rfl (by decide) 1 hpage
    hcount (by decide)
  -- they are merged when both are freed
  obtain ⟨run₄, step₄, staged₄⟩ := @Staged.kfree _ _ _ _ _ []
    [⟨0x80001000, 4072, false⟩] ⟨0x80000000, 4072, false⟩ _ _ staged₃ rfl
    (by decide) (by decide) (by decide)
  obtain ⟨run₅, step₅, staged₅⟩ := @Staged.kfree _ _ _ _ _
    [⟨0x80000000, 4072, true⟩] [] ⟨0x80001000, 4072, false⟩ _ _ staged₄ rfl
    (by decide) (by decide) (by decide)
  -- a payload across the page border, with the byte that will be `large`
  obtain ⟨run₆, step₆, staged₆⟩ := @Staged.kmalloc _ _ _ _ _ [] []
    ⟨0x80000000, 8168, true⟩ _ _ 2000 (staged₅.weaken (List.subset_cons_self ..))
    (by decide) rfl nofun (by decide) (by decide)
  obtain ⟨run₇, step₇, staged₇⟩ := @Staged.kmalloc _ _ _ _ _
    [⟨0x80000000, 2000, false⟩] [] ⟨0x800007E8, 6144, true⟩ _ _ 4072 staged₆
    (by decide) rfl (by decide) (by decide) (by decide)
  obtain ⟨run₈, step₈, staged₈⟩ := @Staged.store _ _ _ _ _
    ⟨0x800007E8, 4072, false⟩ _ _ staged₇ (by decide) rfl (by decide)
    0x80001009 (by decide) (by decide) (by decide) 1
  obtain ⟨run₉, step₉, staged₉⟩ := @Staged.kfree _ _ _ _ _ []
    [⟨0x800007E8, 4072, false⟩, ⟨0x800017E8, 2048, true⟩]
    ⟨0x80000000, 2000, false⟩ _ _ staged₈ rfl (by decide) (by decide)
    (by decide)
  obtain ⟨run₁₀, step₁₀, staged₁₀⟩ := @Staged.kfree _ _ _ _ _
    [⟨0x80000000, 2000, true⟩] [⟨0x800017E8, 2048, true⟩]
    ⟨0x800007E8, 4072, false⟩ _ _ staged₉ rfl (by decide) (by decide)
    (by decide)
  -- the split at the border keeps the byte
  obtain ⟨run₁₁, step₁₁, staged₁₁⟩ := @Staged.kmalloc _ _ _ _ _ [] []
    ⟨0x80000000, 8168, true⟩ _ _ 4072 staged₁₀ (by decide) rfl nofun
    (by decide) (by decide)
  obtain ⟨run₁₂, step₁₂, staged₁₂⟩ := @Staged.kmalloc _ _ _ _ _
    [⟨0x80000000, 4072, false⟩] [] ⟨0x80001000, 4072, true⟩ _ _ 4072 staged₁₁
    (by decide) rfl (by decide) (by decide) (by decide)
  obtain ⟨run₁₃, step₁₃, hfree, hfirst, hview⟩ := @Staged.returnPage _ _ _ _ _
    ⟨0x80001000, 4072, false⟩ _ _ staged₁₂ (by decide) (by decide) 1
    (by decide) (by decide) 1 rfl (by decide)
  have reachable : (heapRuns smallImage start).Reachable System.unguarded
      run₁₃ :=
    .step (.step (.step (.step (.step (.step (.step (.step (.step (.step
      (.step (.step (.step (.initial rfl) trivial step₁) trivial step₂) trivial
        step₃) trivial step₄) trivial step₅) trivial step₆) trivial step₇)
        trivial step₈) trivial step₉) trivial step₁₀) trivial step₁₁) trivial
        step₁₂) trivial step₁₃
  refine ⟨start, run₁₃, hstart, reachable, ?_⟩
  intro safe
  have header : Header (run₁₃.heap.view smallImage) ⟨0x80000000, 4072, false⟩
      0x80001000 := by
    apply staged₁₂.arranged.headers.1.congr
    intro address hword
    apply hview
    unfold HeaderWord at hword
    unfold InRun pageAddress virtualMemoryStart pageSize
    simp only at hword
    omega
  have hlisted : Listed smallImage run₁₃.heap 0x80001000 := by
    have hhead : run₁₃.heap.firstBlock = 0x80000000 :=
      hfirst.trans staged₁₂.arranged.first
    have hload := header.run_loadNext
    rw [← hhead] at hload
    refine .next (.first ?_) hload (by decide)
    rw [hhead]
    decide
  have hmapped := safe.listed _ hlisted 0x80001000 (by
    unfold InHeader sizeofBlock
    omega)
  have hused := hmapped.2.2.1
  have hpageOf : pageOf 0x80001000 = 1 := rfl
  rw [hpageOf, hfree] at hused
  cases hused

/-- Two allocations are live, and one was freed. -/
theorem tilesPages_twoLive :
    ∃ start run, (initHeap smallImage).run (bootHeap bootMemory fun _ => 0) =
        .ok ((), start) ∧
      (heapRuns smallImage start).Reachable (FreesListed smallImage) run ∧
      run.live = [pageAddress 0 + 200, pageAddress 0 + 112] ∧
      (∃ blocks, TilesPages smallImage run.heap blocks) ∧
      CallsReturn smallImage run := by
  obtain ⟨start, _, run, hstart, reachable, staged⟩ :=
    reached_twoLive smallImage bootMemory fun _ => 0
  exact ⟨start, run, hstart, reachable, staged.live,
    tilesPages_of_freesListed hstart reachable⟩

theorem reclaimed_oneFreed :
    ∃ start run, (initHeap smallImage).run (bootHeap bootMemory fun _ => 0) =
        .ok ((), start) ∧
      (heapRuns smallImage start).Reachable (FreesListed smallImage) run ∧
      ∃ blocks, Reclaimed smallImage run blocks := by
  obtain ⟨start, _, run, hstart, reachable, staged⟩ :=
    reached_oneLive smallImage bootMemory fun _ => 0
  obtain ⟨freed, step, freedStaged⟩ := @Staged.kfree _ _ _ _ _ []
    [⟨0x80000058, 3984, true⟩] ⟨0x80000000, 64, false⟩ _ _ staged rfl
    (by decide) (by decide) (by decide)
  have reached := System.Reachable.step reachable
    (staged.freesListed (by decide) (by decide)) step
  exact ⟨start, freed, hstart, reached,
    (reclaimed_of_freesListed hstart reached).2 freedStaged.live⟩

/-- A split leaves a client's byte in `large`: the block behind it never comes
back to the list. -/
theorem reclaimed_fails_for_stale_large :
    ∃ start run, (initHeap smallImage).run (bootHeap bootMemory fun _ => 0) =
        .ok ((), start) ∧
      (heapRuns smallImage start).Reachable System.unguarded run ∧
      run.live = [] ∧ ¬ ∃ blocks, Reclaimed smallImage run blocks := by
  obtain ⟨start, booted, hstart, staged₀, _⟩ :=
    staged_start smallImage bootMemory fun _ => 0
  obtain ⟨run₁, step₁, staged₁⟩ := @Staged.kmalloc _ _ _ _ _ [] []
    (newChunk 0) _ _ 4072 staged₀ (by decide) rfl nofun (by decide) (by decide)
  obtain ⟨run₂, step₂, staged₂⟩ := @Staged.store _ _ _ _ _
    ⟨0x80000000, 4072, false⟩ _ _ staged₁ (by decide) rfl (by decide)
    0x80000061 (by decide) (by decide) (by decide) 1
  obtain ⟨run₃, step₃, staged₃⟩ := @Staged.kfree _ _ _ _ _ [] []
    ⟨0x80000000, 4072, false⟩ _ _ staged₂ rfl (by decide) (by decide)
    (by decide)
  -- the split keeps the byte
  obtain ⟨run₄, step₄, staged₄⟩ := @Staged.kmalloc _ _ _ _ _ [] []
    ⟨0x80000000, 4072, true⟩ _ _ 64 staged₃ (by decide) rfl nofun
    (by decide) (by decide)
  obtain ⟨run₅, step₅, staged₅⟩ := @Staged.kmalloc _ _ _ _ _
    [⟨0x80000000, 64, false⟩] [] ⟨0x80000058, 3984, true⟩ _ _ 3984 staged₄
    (by decide) rfl (by decide) (by decide) (by decide)
  obtain ⟨run₆, step₆, staged₆⟩ := @Staged.leak _ _ _ _ _
    ⟨0x80000058, 3984, false⟩ _ _ staged₅ (by decide) (by decide) 1
    (by decide) (by decide) (by decide)
  obtain ⟨run₇, step₇, staged₇⟩ := @Staged.kfree _ _ _ _ _ []
    [⟨0x80000058, 3984, false⟩] ⟨0x80000000, 64, false⟩ _ _ staged₆ rfl
    (by decide) (by decide) (by decide)
  have reachable : (heapRuns smallImage start).Reachable System.unguarded
      run₇ :=
    .step (.step (.step (.step (.step (.step (.step (.initial rfl) trivial
      step₁) trivial step₂) trivial step₃) trivial step₄) trivial step₅)
      trivial step₆) trivial step₇
  refine ⟨start, run₇, hstart, reachable, staged₇.live, ?_⟩
  rintro ⟨blocks, reclaimed⟩
  have listed := staged₇.arranged.headers.blockList
  rw [← staged₇.arranged.first] at listed
  obtain rfl := reclaimed.listed.unique listed
  have hfree := reclaimed.free ⟨0x80000058, 3984, false⟩ (by decide)
  cases hfree

end Planetoid.Memory
