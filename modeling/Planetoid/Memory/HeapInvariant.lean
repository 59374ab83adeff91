import Planetoid.Memory.HeapRuns

namespace Planetoid.Memory

open Planetoid Program VirtualMemory KernelHeapAllocator

/-! What every step of the heap keeps. -/

section

variable {platform : Platform} {image : KernelImage platform}
  {before after run : HeapRun} {event : HeapEvent} {layout : Layout}
  {start : HeapState}

structure HeapRun.Keeps (image : KernelImage platform) (run : HeapRun)
    (layout : Layout) : Prop where
  arranged : Arranged image run.heap layout
  coalesced : Coalesced layout.blocks
  nodup : run.live.Nodup
  held : ∀ pointer ∈ run.live,
    ∃ chunk, layout.Holds chunk ∧ chunk.payload = pointer

def HeapRun.Exact (run : HeapRun) (layout : Layout) : Prop :=
  ∀ chunk, layout.Holds chunk → chunk.payload ∈ run.live

theorem HeapRun.Keeps.kmalloc (keeps : before.Keeps image layout)
    {size result : Nat} {heap : HeapState} {next : Layout}
    (served : Served image layout size result heap next) :
    HeapRun.Keeps image
        ⟨heap, if result = 0 then before.live else result :: before.live⟩
        next ∧
      (before.Exact layout → HeapRun.Exact
        ⟨heap, if result = 0 then before.live else result :: before.live⟩
        next) := by
  have hcoalesced := served.coalesced keeps.coalesced
  rcases served.result with ⟨rfl, rfl⟩ | ⟨hne, takes⟩
  · exact ⟨⟨served.arranged, hcoalesced, keeps.nodup, keeps.held⟩,
      fun exact => exact⟩
  rw [if_neg hne]
  obtain ⟨chunk, hpayload, _, hholds⟩ := takes.added
  refine ⟨⟨served.arranged, hcoalesced, ?_, ?_⟩, ?_⟩
  · rw [List.nodup_cons]
    refine ⟨?_, keeps.nodup⟩
    intro hmem
    obtain ⟨other, hother, heq⟩ := keeps.held result hmem
    exact takes.fresh other hother heq
  · intro pointer hmem
    rcases List.mem_cons.mp hmem with rfl | hold
    · exact ⟨chunk, (hholds chunk).mpr (.inr rfl), hpayload⟩
    · obtain ⟨other, hother, heq⟩ := keeps.held pointer hold
      exact ⟨other, (hholds other).mpr (.inl hother), heq⟩
  · intro exact other hother
    rcases (hholds other).mp hother with hold | rfl
    · exact List.mem_cons_of_mem _ (exact other hold)
    · rw [hpayload]
      exact List.mem_cons_self ..

theorem HeapRun.Keeps.freed (keeps : before.Keeps image layout)
    {pointer : Nat} {heap : HeapState} {next : Layout}
    (freed : Freed image layout pointer heap next) :
    HeapRun.Keeps image ⟨heap, before.live.erase pointer⟩ next ∧
      (before.Exact layout →
        HeapRun.Exact ⟨heap, before.live.erase pointer⟩ next) ∧
      ∀ chunk, layout.Holds chunk →
        chunk.payload ∈ before.live.erase pointer → next.Holds chunk := by
  refine ⟨⟨freed.arranged, freed.coalesced keeps.coalesced,
    keeps.nodup.erase pointer, ?_⟩, ?_, ?_⟩
  · intro other hmem
    obtain ⟨hne, hold⟩ := keeps.nodup.mem_erase_iff.mp hmem
    obtain ⟨chunk, hchunk, rfl⟩ := keeps.held other hold
    exact ⟨chunk, (freed.gone chunk).mpr ⟨hchunk, hne⟩, rfl⟩
  · intro exact chunk hchunk
    obtain ⟨hold, hne⟩ := (freed.gone chunk).mp hchunk
    exact keeps.nodup.mem_erase_iff.mpr ⟨hne, exact chunk hold⟩
  · intro chunk hholds hmem
    exact (freed.gone chunk).mpr
      ⟨hholds, (keeps.nodup.mem_erase_iff.mp hmem).1⟩

theorem HeapRun.Keeps.listed (keeps : run.Keeps image layout)
    {block : Nat} : Listed image run.heap block ↔
      ∃ chunk ∈ layout.blocks, chunk.address = block :=
  keeps.arranged.headers.listed keeps.arranged.first

theorem HeapRun.Keeps.recordedSize (keeps : run.Keeps image layout)
    {chunk : Chunk} (hholds : layout.Holds chunk) :
    (loadSize image (chunk.payload - sizeofBlock)).run run.heap =
        .ok (chunk.size, run.heap) ∧
      recordedSize image run.heap chunk.payload = chunk.size := by
  have hload : (loadSize image (chunk.payload - sizeofBlock)).run run.heap =
      .ok (chunk.size, run.heap) := by
    rw [Chunk.payload_sub]
    rcases hholds.mem with hblock | hlarge
    · obtain ⟨front, behind, hblocks⟩ := List.append_of_mem hblock
      have headers := keeps.arranged.headers
      rw [hblocks] at headers
      exact headers.header.run_loadSize
    · exact (keeps.arranged.large chunk hlarge).header.run_loadSize
  refine ⟨hload, ?_⟩
  unfold Memory.recordedSize
  rw [hload]

theorem HeapStep.keeps (keeps : before.Keeps image layout)
    (step : HeapStep image before event after)
    (safely : FreesSafely image before event) :
    ∃ next, after.Keeps image next ∧
      (FreesListed image before event → before.Exact layout →
        after.Exact next) ∧
      ∀ chunk, layout.Holds chunk → chunk.payload ∈ after.live →
        next.Holds chunk := by
  cases step with
  | kmalloc h =>
      rename_i size _
      obtain ⟨result, heap, next, hreturns, served⟩ :=
        kmalloc_returns keeps.arranged size
      have heq := hreturns.unique h
      injection heq with hresult hheap
      subst hresult hheap
      obtain ⟨hkeeps, hexact⟩ := keeps.kmalloc served
      refine ⟨next, hkeeps, fun _ => hexact, ?_⟩
      intro chunk hholds _
      rcases served.result with ⟨_, rfl⟩ | ⟨_, takes⟩
      · exact hholds
      · obtain ⟨_, _, _, hsame⟩ := takes.added
        exact (hsame chunk).mpr (.inl hholds)
  | kfree hlive h =>
      rename_i pointer
      obtain ⟨chunk, hholds, rfl⟩ := keeps.held pointer hlive
      rcases hholds with ⟨hblock, htaken⟩ | hlarge
      · have hlisted : Listed image before.heap
            (chunk.payload - sizeofBlock) := by
          rw [Chunk.payload_sub]
          exact keeps.listed.mpr ⟨chunk, hblock, rfl⟩
        by_cases hset : FindsLarge image before.heap chunk.payload
        · have hpage := safely chunk.payload rfl hlisted hset
          rw [Chunk.payload_sub] at hpage
          obtain ⟨heap, hrun, hsame⟩ := kfree_set keeps.arranged hblock hset
          rw [hrun, hsame hpage] at h
          injection h with heq
          injection heq with _ hheap
          subst hheap
          refine ⟨layout, ⟨keeps.arranged, keeps.coalesced,
            keeps.nodup.erase _, fun other hmem =>
              keeps.held other (List.mem_of_mem_erase hmem)⟩, ?_,
            fun _ hholds _ => hholds⟩
          intro strict
          exact absurd hset (strict chunk.payload rfl hlisted)
        · obtain ⟨heap, next, hreturns, freed⟩ :=
            kfree_small keeps.arranged hblock htaken hset
          have heq := hreturns.unique h
          injection heq with _ hheap
          subst hheap
          obtain ⟨hkeeps, hexact, hkept⟩ := keeps.freed freed
          exact ⟨next, hkeeps, fun _ => hexact, hkept⟩
      · obtain ⟨heap, next, hreturns, freed⟩ :=
          kfree_large keeps.arranged hlarge
        have heq := hreturns.unique h
        injection heq with _ hheap
        subst hheap
        obtain ⟨hkeeps, hexact, hkept⟩ := keeps.freed freed
        exact ⟨next, hkeeps, fun _ => hexact, hkept⟩
  | store hlive hplace h =>
      rename_i heap pointer address byte
      obtain ⟨chunk, hholds, rfl⟩ := keeps.held pointer hlive
      have hhigh : address < chunk.finish := by
        have hend := hplace.2
        rw [(keeps.recordedSize hholds).2] at hend
        exact hend
      obtain ⟨stored, _, hrun, harranged, _⟩ :=
        keeps.arranged.storePayload hholds hplace.1 hhigh byte
      rw [h] at hrun
      injection hrun with heq
      injection heq with _ heq
      subst heq
      exact ⟨layout, ⟨harranged, keeps.coalesced, keeps.nodup, keeps.held⟩,
        fun _ exact => exact, fun _ hholds _ => hholds⟩

/-! The initialisation. -/

theorem Arranged.empty {memory : MemoryState} {ram : Nat → BitVec 64}
    (sound : Sound image memory none)
    (hfree : ∀ page, page < virtualPageCount →
      memory.virtualBitmap.test page = false) :
    Arranged image { bootHeap memory ram with memory := memory } ⟨[], []⟩ := by
  refine ⟨⟨sound, ⟨nofun, nofun, List.Pairwise.nil, rfl⟩, nofun, nofun,
    List.Pairwise.nil, nofun, ?_⟩, rfl, trivial⟩
  intro page hpage
  have hbit := hfree page hpage
  change memory.virtualBitmap.test page = true ↔ _
  rw [hbit]
  simp [bootHeap]

theorem run_initHeap (memory : MemoryState) (ram : Nat → BitVec 64) :
    ∃ after layout, (initHeap image).run (bootHeap memory ram) =
        .ok ((), after) ∧ Arranged image after layout ∧
      layout.larges = [] ∧
      (layout.blocks = [] ∨ ∃ page, layout.blocks = [newChunk page]) := by
  obtain ⟨booted, hrun, sound, _, _, _, _, hfree⟩ :=
    run_initMemory image memory
  have hcall : (callVm (initMemory image)).run (bootHeap memory ram) =
      .ok ((), { bootHeap memory ram with memory := booted }) :=
    run_callVm hrun
  have harranged : Arranged image { bootHeap memory ram with memory := booted }
      ⟨[], []⟩ := @Arranged.empty _ _ booted ram sound hfree
  obtain ⟨result, created, hcreate, hsound, hfirst, hresult⟩ :=
    run_createBlock harranged.sound
  unfold initHeap KernelHeapAllocator.init
  rw [run_bind_ok hcall, run_bind_ok hcreate]
  rcases hresult with ⟨rfl, same⟩ | ⟨page, rfl, hpages, new⟩
  · have hafter := harranged.samePages hsound hfirst same
    have hsame : { created with firstBlock := 0 } = created := by
      have hzero : created.firstBlock = 0 := hfirst
      rw [← hzero]
    refine ⟨_, ⟨[], []⟩, rfl, ?_, rfl, .inl rfl⟩
    change Arranged image { created with firstBlock := 0 } _
    rw [hsame]
    exact hafter
  · exact ⟨_, _, rfl,
      (harranged.unlinked hsound hfirst hpages new).linkFirst rfl, rfl,
      .inr ⟨page, rfl⟩⟩

theorem keeps_start (harranged : Arranged image start layout)
    (hblocks : layout.blocks = [] ∨ ∃ page, layout.blocks = [newChunk page])
    (hlarges : layout.larges = []) :
    HeapRun.Keeps image ⟨start, []⟩ layout ∧
      HeapRun.Exact ⟨start, []⟩ layout := by
  have hfree : ∀ chunk ∈ layout.blocks, chunk.free = true := by
    intro chunk hmem
    rcases hblocks with hempty | ⟨page, hone⟩
    · rw [hempty] at hmem
      cases hmem
    · rw [hone, List.mem_singleton] at hmem
      subst hmem
      rfl
  refine ⟨⟨harranged, ?_, List.nodup_nil, nofun⟩, ?_⟩
  · rcases hblocks with hempty | ⟨page, hone⟩
    · rw [hempty]
      exact List.isChain_nil
    · rw [hone]
      exact List.isChain_singleton _
  · rintro chunk (⟨hmem, htaken⟩ | hlarge)
    · rw [hfree chunk hmem] at htaken
      cases htaken
    · rw [hlarges] at hlarge
      cases hlarge

section

variable {memory : MemoryState} {ram : Nat → BitVec 64}
  (hstart : (initHeap image).run (bootHeap memory ram) = .ok ((), start))

include hstart

theorem keeps_of_initHeap : ∃ layout, HeapRun.Keeps image ⟨start, []⟩ layout ∧
    HeapRun.Exact ⟨start, []⟩ layout := by
  obtain ⟨after, layout, hrun, harranged, hlarges, hblocks⟩ :=
    @run_initHeap _ image memory ram
  rw [hstart] at hrun
  injection hrun with heq
  injection heq with _ heq
  subst heq
  exact ⟨layout, keeps_start harranged hblocks hlarges⟩

theorem keeps_of_reachable
    (reachable : (heapRuns image start).Reachable (FreesSafely image) run) :
    ∃ layout, run.Keeps image layout := by
  apply reachable.holds
  · rintro state rfl
    obtain ⟨layout, hkeeps, _⟩ := keeps_of_initHeap hstart
    exact ⟨layout, hkeeps⟩
  · rintro state event next ⟨layout, hkeeps⟩ safely step
    obtain ⟨other, hother, _⟩ := HeapStep.keeps hkeeps step safely
    exact ⟨other, hother⟩

theorem exact_of_reachable
    (reachable : (heapRuns image start).Reachable (FreesListed image) run) :
    ∃ layout, run.Keeps image layout ∧ run.Exact layout := by
  apply reachable.holds
  · rintro state rfl
    exact keeps_of_initHeap hstart
  · rintro state event next ⟨layout, hkeeps, hexact⟩ strict step
    obtain ⟨other, hother, hkept, _⟩ :=
      HeapStep.keeps hkeeps step strict.safely
    exact ⟨other, hother, hkept strict hexact⟩

end

theorem HeapRun.Keeps.callsReturn (keeps : run.Keeps image layout) :
    CallsReturn image run := by
  constructor
  · intro size
    obtain ⟨result, heap, next, hreturns, _⟩ :=
      kmalloc_returns keeps.arranged size
    exact ⟨_, _, hreturns.run_eq (Nat.lt_succ_self _)⟩
  · intro pointer hlive
    obtain ⟨chunk, hholds, rfl⟩ := keeps.held pointer hlive
    rcases hholds with ⟨hblock, htaken⟩ | hlarge
    · by_cases hset : FindsLarge image run.heap chunk.payload
      · obtain ⟨heap, hrun, _⟩ := kfree_set keeps.arranged hblock hset
        exact ⟨0, _, hrun 0⟩
      · obtain ⟨heap, next, hreturns, _⟩ :=
          kfree_small keeps.arranged hblock htaken hset
        exact ⟨_, _, hreturns.run_eq (Nat.lt_succ_self _)⟩
    · obtain ⟨heap, next, hreturns, _⟩ := kfree_large keeps.arranged hlarge
      exact ⟨_, _, hreturns.run_eq (Nat.lt_succ_self _)⟩

end

end Planetoid.Memory
